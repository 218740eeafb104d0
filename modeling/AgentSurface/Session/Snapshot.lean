import AgentSurface.Calendar.Timestamp
import AgentSurface.Surface.Basic

/-!
# Session — snapshots

A snapshot is a conversation with the surface that it led to.  It tells when it was begun and when
it was changed last.  Times and fresh identifiers come from outside.
-/

namespace AgentSurface.Session

inductive Role where
  | user
  | assistant
  | system
deriving DecidableEq, Repr

structure Message where
  id : String
  role : Role
  /-- The text as it was written, fences included. -/
  content : String
  createdAt : Timestamp
deriving DecidableEq, Repr

structure Snapshot where
  id : String
  /-- Whose it is. -/
  userId : Option String := none
  title : Option String := none
  messages : List Message := []
  surface : Surface := {}
  createdAt : Timestamp
  updatedAt : Timestamp
deriving BEq

namespace Snapshot

/-! ### Building -/

/-- An empty snapshot that is begun now. -/
def new (id : String) (now : Timestamp) : Snapshot := { id, createdAt := now, updatedAt := now }

/-- Say that the snapshot was changed. -/
def touch (s : Snapshot) (now : Timestamp) : Snapshot := { s with updatedAt := now }

def withTitle (s : Snapshot) (title : String) : Snapshot := { s with title := some title }

/-- Add a message to the end of the conversation. -/
def pushMessage (s : Snapshot) (message : Message) (now : Timestamp) : Snapshot :=
  { s with messages := s.messages ++ [message] }.touch now

def setSurface (s : Snapshot) (surface : Surface) (now : Timestamp) : Snapshot :=
  { s with surface := surface }.touch now

end Snapshot

/-! ### Wire form -/

def Role.name : Role → String
  | .user => "user"
  | .assistant => "assistant"
  | .system => "system"

def Role.ofJson? : Json → Option Role :=
  Json.choice? ([.user, .assistant, .system].map fun role : Role => (role.name, role))

def Message.toJson (m : Message) : Json :=
  .object [("id", .string m.id), ("role", .string m.role.name), ("content", .string m.content),
    ("createdAt", m.createdAt.toJson)]

def Message.ofJson? (v : Json) : Option Message := do
  let r ← Json.Record.of? ["id", "role", "content", "createdAt"] v
  let id ← r.field "id" Json.string?
  let role ← r.field "role" Role.ofJson?
  let content ← r.field "content" Json.string?
  let createdAt ← r.field "createdAt" Timestamp.ofJson?
  return { id, role, content, createdAt }

/-- A snapshot without a title has no field for it. -/
def Snapshot.toJson (s : Snapshot) : Json :=
  .object ([("id", .string s.id), ("userId", Json.orNull (s.userId.map .string))] ++
    Json.maybe "title" .string s.title ++
    [("messages", .array (s.messages.map Message.toJson)), ("surface", s.surface.toJson),
      ("createdAt", s.createdAt.toJson), ("updatedAt", s.updatedAt.toJson)])

def Snapshot.ofJson? (v : Json) : Option Snapshot := do
  let r ← Json.Record.of? ["id", "userId", "title", "messages", "surface", "createdAt", "updatedAt"] v
  let id ← r.field "id" Json.string?
  let userId ← r.field? "userId" Json.string?
  let title ← r.field? "title" Json.string?
  let messages ← r.fieldD "messages" [] (Json.list? Message.ofJson?)
  let surface ← r.fieldD "surface" {} Surface.ofJson?
  let createdAt ← r.field "createdAt" Timestamp.ofJson?
  let updatedAt ← r.field "updatedAt" Timestamp.ofJson?
  return { id, userId, title, messages, surface, createdAt, updatedAt }

end AgentSurface.Session
