import AgentSurface.Text.Blank
import AgentSurface.Text.Feed
import AgentSurface.Text.Utf8
import AgentSurface.Decimal.Shortest
import AgentSurface.Json.Fault
import AgentSurface.Json.Number
import AgentSurface.Json.Basic
import AgentSurface.Json.Reader
import AgentSurface.Json.Printer
import AgentSurface.Jsx.Tree
import AgentSurface.Jsx.Fault
import AgentSurface.Jsx.Prose
import AgentSurface.Jsx.Reader
import AgentSurface.Jsx.Descent
import AgentSurface.Json.Preview
import AgentSurface.Update.Envelope
import AgentSurface.Stream.Block
import AgentSurface.Stream.Fence
import AgentSurface.Stream.Reader
import AgentSurface.Stream.Offsets
import AgentSurface.Stream.Drive
import AgentSurface.Text.Lowercase
import AgentSurface.Text.Quoted
import AgentSurface.Json.Path
import AgentSurface.Host
import AgentSurface.Schema.FieldError
import AgentSurface.Schema.JsonSchema
import AgentSurface.Schema.Document
import AgentSurface.Schema.Validator
import AgentSurface.Json.Record
import AgentSurface.Update.Message
import AgentSurface.View.Basic
import AgentSurface.Catalog.Entry
import AgentSurface.Catalog.Basic
import AgentSurface.Standard.Catalog
import AgentSurface.Update.Validation
import AgentSurface.Surface.Basic
import AgentSurface.Render.Bindings
import AgentSurface.Render.Basic
import AgentSurface.Calendar.Date
import AgentSurface.Calendar.Timestamp
import AgentSurface.Session.Filter
import AgentSurface.Session.Identifier
import AgentSurface.Session.Memory
import AgentSurface.Session.Directory
import AgentSurface.Session.Folder
import AgentSurface.Session.Service
import AgentSurface.Log.Filter
import AgentSurface.Yaml.Node
import AgentSurface.Yaml.Scalar
import AgentSurface.Yaml.Reader
import AgentSurface.Config.Settings
import AgentSurface.Proofs.Text.Trim
import AgentSurface.Proofs.Text.Lines
import AgentSurface.Proofs.Text.Utf8
import AgentSurface.Proofs.Text.Encoding
import AgentSurface.Proofs.Text.Lossy
import AgentSurface.Proofs.Stream.Calls
import AgentSurface.Proofs.Stream.Delivery
import AgentSurface.Proofs.Stream.Grammar
import AgentSurface.Proofs.Stream.Emission
import AgentSurface.Proofs.Stream.Driving
import AgentSurface.Proofs.Stream.Reading
import AgentSurface.Proofs.Stream.Pending
import AgentSurface.Proofs.Json.Numeral
import AgentSurface.Proofs.Json.Fields
import AgentSurface.Proofs.Json.Writable
import AgentSurface.Proofs.Json.Writing
import AgentSurface.Proofs.Jsx.Spelling
import AgentSurface.Proofs.Jsx.Characters
import AgentSurface.Proofs.Jsx.Pieces
import AgentSurface.Proofs.Jsx.Literals
import AgentSurface.Proofs.Jsx.Prose
import AgentSurface.Proofs.Jsx.Source
import AgentSurface.Proofs.Jsx.Writing
import AgentSurface.Proofs.Jsx.Restricted
import AgentSurface.Proofs.Jsx.Lockstep
import AgentSurface.Proofs.Surface.Reducer
import AgentSurface.Proofs.Stream.Fenced
import AgentSurface.Proofs.Update.Verdicts
import AgentSurface.Proofs.Surface.Rebuild
import AgentSurface.Proofs.Render.Agreement
import AgentSurface.Proofs.Json.Approximation
import AgentSurface.Proofs.Json.Moves
import AgentSurface.Proofs.Json.Prospects
import AgentSurface.Proofs.Json.Brackets
import AgentSurface.Proofs.Json.Preview
import AgentSurface.Proofs.Session.Calls
import AgentSurface.Proofs.Session.Ownership
import AgentSurface.Proofs.Session.Separation
import AgentSurface.Proofs.Keyed
import AgentSurface.Proofs.Session.Listing
import AgentSurface.Proofs.Session.Wire
import AgentSurface.Proofs.Session.Files
import AgentSurface.Proofs.Session.Footprint
import AgentSurface.Proofs.Session.Mirror
import AgentSurface.Proofs.Session.Interchange
import AgentSurface.Proofs.Update.Sending
import AgentSurface.Proofs.Catalog.Prompt
import AgentSurface.Proofs.Stream.Stopping
import AgentSurface.Proofs.Stream.Echo
import AgentSurface.Proofs.Json.Readable
import AgentSurface.Proofs.Update.Entries
import AgentSurface.Proofs.Update.Independence
import AgentSurface.Proofs.Render.Grants
import AgentSurface.Proofs.Render.Places
import AgentSurface.Proofs.Render.Isolation
import AgentSurface.Proofs.Render.Sandbox
import AgentSurface.Proofs.Catalog.Checking
import AgentSurface.Proofs.View.Parts
import AgentSurface.Proofs.Text.Margins
import AgentSurface.Proofs.Stream.Effects
import AgentSurface.Proofs.Stream.Ending
import AgentSurface.Proofs.Stream.Refusal
import AgentSurface.Proofs.Render.Notations
import AgentSurface.Proofs.Stream.Room
import AgentSurface.Proofs.Surface.Coalescing
import AgentSurface.Proofs.Surface.Rejected
import AgentSurface.Proofs.Render.Children
import AgentSurface.Proofs.Text.Lowercase
import AgentSurface.Proofs.Session.Titles
import AgentSurface.Proofs.Json.Records
import AgentSurface.Proofs.Config.Fences
import AgentSurface.Proofs.Update.Wire
import AgentSurface.Proofs.Standard.Accepted
import AgentSurface.Proofs.Json.Pointers
import AgentSurface.Proofs.Render.Attributes
import AgentSurface.Proofs.Render.Shorthand
import AgentSurface.Proofs.Stream.Offsets
import AgentSurface.Proofs.Stream.Ranges
import AgentSurface.Proofs.Json.Rescan
import AgentSurface.Proofs.Jsx.Words
import AgentSurface.Proofs.Jsx.Verdict
import AgentSurface.Proofs.Jsx.DescentLiterals
import AgentSurface.Proofs.Jsx.Descent
