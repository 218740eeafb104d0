import AgentSurface.Json.Printer
import AgentSurface.Json.Reader
import AgentSurface.Session.Directory
import AgentSurface.Session.Store

/-!
# Session — the store in a directory

Each snapshot has a file, named for its identifier, that holds its wire form.  A snapshot is written
to a second file first, which then takes the place of the first, so that no file is ever half
written.
-/

namespace AgentSurface.Session

structure Folder where
  /-- The name of the directory. -/
  path : String
  content : Directory := .missing

namespace Folder

/-- An identifier is fit to name a file if it has letters and digits of ASCII, `-` and `_` only. -/
def isSafe (id : String) : Bool :=
  !id.isEmpty && id.toList.all fun c => c.isAlphanum || c == '-' || c == '_'

def fileName (id : String) : String := id ++ ".json"

/-- The file that is written first. -/
def draftName (id : String) : String := id ++ ".json.tmp"

def pathOf (f : Folder) (name : String) : String := f.path ++ "/" ++ name

/-- The text of a file. -/
def encode (s : Snapshot) : String := s.toJson.pretty

def decode? (text : String) : Option Snapshot :=
  (Json.read text.toList).toOption.bind Snapshot.ofJson?

/-- Write a snapshot to its file by way of the draft. -/
def write (f : Folder) (s : Snapshot) (items : Directory.Items) :
    Except StoreFault String × Directory.Items :=
  match items.write (draftName s.id) (encode s) with
  | .error _ => (.error (.notWritten (f.pathOf (draftName s.id))), items)
  | .ok drafted =>
    match drafted.move (draftName s.id) (fileName s.id) with
    | .ok moved => (.ok s.id, moved)
    | .error _ =>
      (.error (.notMoved (f.pathOf (fileName s.id))), drafted.erase (draftName s.id))

def save (f : Folder) (s : Snapshot) : Except StoreFault String × Folder :=
  if isSafe s.id then
    match f.content.create with
    | .error _ => (.error (.notCreated f.path), f)
    | .ok items =>
      let (answer, items) := f.write s items
      (answer, { f with content := .holding items })
  else (.error (.invalidId s.id), f)

def get (f : Folder) (id : String) : Except StoreFault (Option Snapshot) :=
  if isSafe id then
    let path := f.pathOf (fileName id)
    match f.content.items.bind (·.read (fileName id)) with
    | .error .absent => .ok none
    | .error .refused => .error (.notRead path)
    | .ok text =>
      match decode? text with
      | some s => .ok (some s)
      | none => .error (.notParsed path)
  else .error (.invalidId id)

/-- The snapshots in a directory.  A file that does not hold one is passed over. -/
def snapshots (items : Directory.Items) : List Snapshot :=
  items.filterMap fun (name, item) =>
    match Directory.extension? name, item with
    | some "json", .file text => decode? text
    | _, _ => none

def list (f : Folder) (filter : Filter) : Except StoreFault (List Snapshot) :=
  match f.content.items with
  | .error .absent => .ok []
  | .error .refused => .error (.notRead f.path)
  | .ok items => .ok (filter.apply (snapshots items))

def delete (f : Folder) (id : String) : Except StoreFault Bool × Folder :=
  if isSafe id then
    match f.content.items.bind (·.remove (fileName id)) with
    | .error .absent => (.ok false, f)
    | .error .refused => (.error (.notDeleted (f.pathOf (fileName id))), f)
    | .ok items => (.ok true, { f with content := .holding items })
  else (.error (.invalidId id), f)

instance : Store Folder where
  save := save
  get := get
  list := list
  delete := delete

end Folder
end AgentSurface.Session
