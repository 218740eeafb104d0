import AgentSurface.Session.Store

/-!
# Session — the service

The service lets a user at a store.  Every call is made by the current user, if there is one, and
shows and changes snapshots of that user alone.  The service signs what is saved: with the user, and
with the time at which it is saved.
-/

namespace AgentSurface.Session

/-- Why a call is refused. -/
inductive Refusal where
  /-- There is no current user. -/
  | unauthenticated
  /-- The snapshot belongs to somebody else. -/
  | forbidden (id : String)
  | notFound (id : String)
  | store (fault : StoreFault)
deriving DecidableEq, Repr

def Refusal.message : Refusal → String
  | .unauthenticated => "no authenticated user"
  | .forbidden id => "session " ++ id ++ " belongs to another user"
  | .notFound id => "session " ++ id ++ " not found"
  | .store fault => fault.message

namespace Service

variable {σ : Type} [Store σ]

/-- The current user. -/
def user? (user : Option String) : Except Refusal String :=
  match user with
  | some user => .ok user
  | none => .error .unauthenticated

/-- An answer of the store. -/
def ofStore {α : Type} (answer : Except StoreFault α) : Except Refusal α :=
  answer.mapError .store

/-- What a user saves in the place of what is there.  It keeps the time at which that was begun. -/
def signed (user : String) (now : Timestamp) (s : Snapshot) (existing : Option Snapshot) :
    Except Refusal Snapshot :=
  match existing with
  | none => .ok ({ s with userId := some user }.touch now)
  | some old =>
    if old.userId = some user then
      .ok ({ s with userId := some user, createdAt := old.createdAt }.touch now)
    else .error (.forbidden s.id)

/-- Save a snapshot for the current user; the answer is its identifier. -/
def save (user : Option String) (now : Timestamp) (store : σ) (s : Snapshot) :
    Except Refusal String × σ :=
  let checked := do
    let user ← user? user
    let existing ← ofStore (Store.get store s.id)
    signed user now s existing
  match checked with
  | .error refusal => (.error refusal, store)
  | .ok s =>
    let (answer, store) := Store.save store s
    (ofStore answer, store)

/-- A snapshot of the current user. -/
def get (user : Option String) (store : σ) (id : String) : Except Refusal Snapshot := do
  let user ← user? user
  match ← ofStore (Store.get store id) with
  | none => .error (.notFound id)
  | some s => if s.userId = some user then .ok s else .error (.forbidden id)

/-- The snapshots of the current user, whatever owner the filter names. -/
def list (user : Option String) (store : σ) (filter : Filter) : Except Refusal (List Snapshot) := do
  let user ← user? user
  ofStore (Store.list store { filter with userId := some user })

/-- Drop a snapshot of the current user; the answer says whether there was one. -/
def delete (user : Option String) (store : σ) (id : String) : Except Refusal Bool × σ :=
  match get user store id with
  | .error (.notFound _) => (.ok false, store)
  | .error refusal => (.error refusal, store)
  | .ok _ =>
    let (answer, store) := Store.delete store id
    (ofStore answer, store)

end Service
end AgentSurface.Session
