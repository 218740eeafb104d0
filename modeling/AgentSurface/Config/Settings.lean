import AgentSurface.Stream.Fence
import AgentSurface.Text.Lowercase
import AgentSurface.Text.Numeral
import AgentSurface.Text.Quoted
import AgentSurface.Yaml.Reader

/-!
# Config — settings

Settings come in layers: the defaults, then a file in YAML, then variables of the environment.
`Settings.load` puts the layers together and checks the result.
-/

namespace AgentSurface.Config

structure Settings where
  /-- How streams are read. -/
  parser : Stream.Options := {}
  /-- The prompt of the catalog has the schemas of the components. -/
  includeSchemas : Bool := false
  /-- What is logged. -/
  logFilter : String := "info"
  /-- The log is written as lines of JSON. -/
  logJson : Bool := false
  /-- Where snapshots are kept, if not in the default place. -/
  dataDir? : Option String := none
deriving DecidableEq, Repr

/-- What is wrong with settings. -/
inductive Fault where
  | unreadable (path : String)
  | badFile (path : String)
  | badYaml
  | badByteCount (text : String)
  | badFlag (text : String)
  | noRoom
  | noTags
  | badTag (tag : String)
  | ambiguousTag (tag : String)
deriving DecidableEq, Repr

/-! ### The environment -/

/-- The values of the variables that are set. -/
abbrev Environment := String → Option String

namespace Environment

/-- The settings file, if no other is named. -/
def configFile : String := "GENUI_CONFIG"

def logFilter : String := "GENUI_LOG"

def maxBytes : String := "GENUI_MAX_BUFFER_BYTES"

def includeSchemas : String := "GENUI_INCLUDE_SCHEMAS"

def dataDir : String := "GENUI_DATA_DIR"

end Environment

def Fault.message : Fault → String
  | .unreadable path => "failed to read config file " ++ path
  | .badFile path => "invalid config file " ++ path
  | .badYaml => "failed to parse YAML config"
  | .badByteCount text =>
    Environment.maxBytes ++ " must be a byte count, got " ++ Text.inQuotes text
  | .badFlag text =>
    Environment.includeSchemas ++ " must be a boolean, got " ++ Text.inQuotes text
  | .noRoom => "parser.max_buffer_bytes must be greater than zero"
  | .noTags => "at least one fence tag must be configured"
  | .badTag tag => "invalid fence tag " ++ Text.inQuotes tag
  | .ambiguousTag tag =>
    "fence tag " ++ Text.inQuotes tag ++ " is configured as both json and jsx"

namespace Settings

def defaultDataDir : String := ".genui/sessions"

/-- Where snapshots are kept. -/
def dataDir (s : Settings) : String := s.dataDir?.getD defaultDataDir

/-! ### The file -/

open Yaml (Node)

def texts? (n : Node) : Option (List String) := n.items?.bind fun items => items.mapM Node.text?

def parserOf? (n : Node) : Option Stream.Options := do
  let base : Stream.Options := {}
  let members ← n.members?
  let jsonTags ← Node.member members "json_tags" base.jsonTags texts?
  let jsxTags ← Node.member members "jsx_tags" base.jsxTags texts?
  let maxBytes ← Node.member members "max_buffer_bytes" base.maxBytes Node.word?
  let closeAtEnd ←
    Node.member members "close_unterminated_on_finish" base.closeAtEnd Node.bool?
  return { jsonTags, jsxTags, maxBytes, closeAtEnd }

def includeSchemasOf? (n : Node) : Option Bool := do
  Node.member (← n.members?) "include_schemas" false Node.bool?

/-- The filter and the form of the log. -/
def logOf? (n : Node) : Option (String × Bool) := do
  let base : Settings := {}
  let members ← n.members?
  let filter ← Node.member members "filter" base.logFilter Node.text?
  let json ← Node.member members "json" base.logJson Node.bool?
  return (filter, json)

def dataDirOf? (n : Node) : Option (Option String) := do
  Node.member (← n.members?) "data_dir" none fun v =>
    if v.isNull then some none else v.text?.map some

/-- Settings from a document: what it leaves out is as by default, and what it has besides is passed
over. -/
def ofNode? (n : Node) : Option Settings := do
  let base : Settings := {}
  let members ← n.members?
  let parser ← Node.member members "parser" base.parser parserOf?
  let includeSchemas ← Node.member members "catalog" base.includeSchemas includeSchemasOf?
  let (logFilter, logJson) ←
    Node.member members "logging" (base.logFilter, base.logJson) logOf?
  let dataDir? ← Node.member members "store" base.dataDir? dataDirOf?
  return { parser, includeSchemas, logFilter, logJson, dataDir? }

/-- Settings from a text in YAML; a blank text leaves everything as by default. -/
def ofYaml (text : String) : Except Fault Settings :=
  if text.toList.all Text.isBlank then .ok {}
  else
    match (Yaml.parse? text.toList).bind ofNode? with
    | some s => .ok s
    | none => .error .badYaml

/-! ### Variables of the environment -/

/-- A flag is spelled in any case, with blanks around it. -/
def flag? (text : String) : Option Bool :=
  let word := String.ofList (Text.lower (Text.trim text.toList))
  if ["true", "1", "yes", "on"].contains word then some true
  else if ["false", "0", "no", "off"].contains word then some false
  else none

/-- A layer: new settings, or the fault that ends the layers. -/
abbrev Layer := Settings → Except Fault Settings

def logFilterLayer (env : Environment) : Layer := fun s =>
  match env Environment.logFilter with
  | some filter => .ok { s with logFilter := filter }
  | none => .ok s

def maxBytesLayer (env : Environment) : Layer := fun s =>
  match env Environment.maxBytes with
  | none => .ok s
  | some text =>
    match Text.word? (Text.trim text.toList) with
    | some n => .ok { s with parser := { s.parser with maxBytes := n } }
    | none => .error (.badByteCount text)

def includeSchemasLayer (env : Environment) : Layer := fun s =>
  match env Environment.includeSchemas with
  | none => .ok s
  | some text =>
    match flag? text with
    | some flag => .ok { s with includeSchemas := flag }
    | none => .error (.badFlag text)

def dataDirLayer (env : Environment) : Layer := fun s =>
  match env Environment.dataDir with
  | some dir => .ok { s with dataDir? := some dir }
  | none => .ok s

/-- Put layers on settings up to the first that fails. -/
def applyLayers (s : Settings) : List Layer → Settings × Option Fault
  | [] => (s, none)
  | layer :: rest =>
    match layer s with
    | .ok next => applyLayers next rest
    | .error fault => (s, some fault)

/-- Let the environment override settings.  What stands before a variable that cannot be read is
overridden all the same. -/
def applyEnvironment (s : Settings) (env : Environment) : Settings × Option Fault :=
  s.applyLayers
    [logFilterLayer env, maxBytesLayer env, includeSchemasLayer env, dataDirLayer env]

/-! ### Checks -/

/-- A tag is one word. -/
def isTag (tag : String) : Bool := !tag.isEmpty && !tag.toList.any Text.isBlank

/-- What is wrong with settings, if anything: there has to be room for a stream, and there have to
be tags, all of them words, none of them for both kinds of fence in any case. -/
def fault? (s : Settings) : Option Fault :=
  let json := s.parser.jsonTags
  let jsx := s.parser.jsxTags
  if s.parser.maxBytes = 0 then some .noRoom
  else if json.isEmpty && jsx.isEmpty then some .noTags
  else
    match (json ++ jsx).find? fun tag => !isTag tag with
    | some tag => some (.badTag tag)
    | none =>
      let lower := json.map Text.lowercase
      (jsx.find? fun tag => lower.contains (Text.lowercase tag)).map .ambiguousTag

/-! ### Loading -/

/-- The texts of the files that can be read. -/
abbrev Files := String → Option String

def ofFile (files : Files) (path : String) : Except Fault Settings :=
  match files path with
  | none => .error (.unreadable path)
  | some text =>
    match ofYaml text with
    | .ok s => .ok s
    | .error _ => .error (.badFile path)

/-- The settings of a file, of the one that the environment names if none is given, or the defaults;
overridden by the environment, and checked. -/
def load (files : Files) (env : Environment) (path : Option String) : Except Fault Settings := do
  let base ←
    match path <|> env Environment.configFile with
    | some path => ofFile files path
    | none => .ok {}
  match base.applyEnvironment env with
  | (_, some fault) => .error fault
  | (s, none) =>
    match s.fault? with
    | some fault => .error fault
    | none => .ok s

/-! ### Wire form -/

def parserJson (o : Stream.Options) : Json :=
  .object [("json_tags", Json.ofStrings o.jsonTags), ("jsx_tags", Json.ofStrings o.jsxTags),
    ("max_buffer_bytes", Json.ofNat o.maxBytes),
    ("close_unterminated_on_finish", .bool o.closeAtEnd)]

def toJson (s : Settings) : Json :=
  .object [("parser", parserJson s.parser),
    ("catalog", .object [("include_schemas", .bool s.includeSchemas)]),
    ("logging", .object [("filter", .string s.logFilter), ("json", .bool s.logJson)]),
    ("store", .object [("data_dir", Json.orNull (s.dataDir?.map .string))])]

end Settings
end AgentSurface.Config
