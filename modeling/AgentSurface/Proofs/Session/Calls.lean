import AgentSurface.Session.Memory
import AgentSurface.Session.Service

/-!
# Session — calls of users, one after the other

A `Call` is a request that somebody makes at some time.  `Call.on` is what it answers and makes of a
store in memory, and `Memory.after` is where a history of calls leads from the empty store.

* `change_on`: what a call can do to what stands under an identifier.  Nothing else is said here of
  how the service works: what holds of histories follows from it.
-/

namespace AgentSurface.Session

/-- What the service can be asked for. -/
inductive Request where
  | save (snapshot : Snapshot)
  | get (id : String)
  | list (filter : Filter)
  | delete (id : String)

/-- The identifier that a request is about; a listing is about none. -/
def Request.id? : Request → Option String
  | .save s => some s.id
  | .get id | .delete id => some id
  | .list _ => none

/-- A request of the current user, if there is one, and the time at which it is made. -/
structure Call where
  user : Option String
  now : Timestamp
  request : Request

/-- What a request that is granted answers. -/
inductive Answer where
  | saved (id : String)
  | found (snapshot : Snapshot)
  | listed (snapshots : List Snapshot)
  | deleted (existed : Bool)

namespace Call

/-- Make a call: the answer, and the store behind it. -/
def on (c : Call) (m : Memory) : Except Refusal Answer × Memory :=
  match c.request with
  | .save s =>
    let (answer, next) := Service.save c.user c.now m s
    (answer.map .saved, next)
  | .get id => ((Service.get c.user m id).map .found, m)
  | .list filter => ((Service.list c.user m filter).map .listed, m)
  | .delete id =>
    let (answer, next) := Service.delete c.user m id
    (answer.map .deleted, next)

/-- The user asks for this snapshot to be saved under this identifier. -/
structure Saves (c : Call) (user id : String) (s : Snapshot) : Prop where
  user : c.user = some user
  request : c.request = .save s
  id : s.id = id

/-- The user asks for what stands under this identifier to be deleted. -/
structure Deletes (c : Call) (user id : String) : Prop where
  user : c.user = some user
  request : c.request = .delete id

end Call

namespace Memory

/-- The store behind a history that begins with the empty store. -/
def after (history : List Call) : Memory := history.foldl (fun m c => (c.on m).2) {}

@[simp] theorem after_nil : after [] = {} := rfl

@[simp] theorem after_concat (history : List Call) (c : Call) :
    after (history ++ [c]) = (c.on (after history)).2 := by
  simp [after]

/-- What is found under an id has that id. -/
theorem id_of_get? {m : Memory} {id : String} {x : Snapshot} (h : m.get? id = some x) :
    x.id = id := by
  simpa using List.find?_some h

theorem mem_putInto {s x : Snapshot} {snapshots : List Snapshot} (h : x ∈ putInto s snapshots) :
    x = s ∨ x ∈ snapshots := by
  induction snapshots with
  | nil => exact .inl (List.mem_singleton.1 h)
  | cons first rest ih =>
    rw [putInto] at h
    split at h
    · exact (List.mem_cons.1 h).imp_right (List.mem_cons_of_mem _)
    · rcases List.mem_cons.1 h with rfl | h
      · exact .inr List.mem_cons_self
      · exact (ih h).imp_right (List.mem_cons_of_mem _)

end Memory

namespace Service

variable {user : String} {now : Timestamp} {m : Memory} {s x : Snapshot} {id : String}

/-! ### Each request of a user -/

/-- A snapshot as it is saved by a user: in the place of what was begun at this time. -/
def signedAs (s : Snapshot) (user : String) (begun now : Timestamp) : Snapshot :=
  { s with userId := some user, createdAt := begun, updatedAt := now }

/-- A save looks up what stands under the identifier, and puts the signed snapshot there. -/
theorem save_eq : save (some user) now m s =
    match signed user now s (m.get? s.id) with
    | .ok s => (.ok s.id, m.put s)
    | .error refusal => (.error refusal, m) := by
  have hchecked : (user? (some user) >>= fun user =>
      ofStore (Store.get m s.id) >>= fun existing => signed user now s existing) =
      signed user now s (m.get? s.id) := rfl
  rw [save, hchecked]
  cases signed user now s (m.get? s.id) <;> rfl

theorem get_eq : get (some user) m id =
    match m.get? id with
    | none => .error (.notFound id)
    | some x => if x.userId = some user then .ok x else .error (.forbidden id) := rfl

/-- A first save is signed with the owner, and both its times are now. -/
theorem save_of_none (h : m.get? s.id = none) :
    save (some user) now m s = (.ok s.id, m.put (signedAs s user s.createdAt now)) := by
  rw [save_eq, h]
  rfl

/-- An owner's later save keeps the time of the first. -/
theorem save_of_owner (h : m.get? s.id = some x) (hx : x.userId = some user) :
    save (some user) now m s = (.ok s.id, m.put (signedAs s user x.createdAt now)) := by
  rw [save_eq, h, signed, if_pos hx]
  rfl

/-- A save over another's session is refused and changes nothing. -/
theorem save_of_ne (h : m.get? s.id = some x) (hx : x.userId ≠ some user) :
    save (some user) now m s = (.error (.forbidden s.id), m) := by
  rw [save_eq, h, signed, if_neg hx]

/-- A save leaves alone what stands under other identifiers. -/
theorem get?_save_of_ne (hid : s.id ≠ id) : (save (some user) now m s).2.get? id = m.get? id := by
  have hput : ∀ begun, (m.put (signedAs s user begun now)).get? id = m.get? id :=
    fun begun => (Memory.get?_put m _ id).trans (if_neg hid)
  cases hx : m.get? s.id with
  | none =>
    rw [save_of_none hx]
    exact hput _
  | some x =>
    by_cases howner : x.userId = some user
    · rw [save_of_owner hx howner]
      exact hput _
    · rw [save_of_ne hx howner]

theorem get_of_none (h : m.get? id = none) : get (some user) m id = .error (.notFound id) := by
  rw [get_eq, h]

theorem get_of_owner (h : m.get? id = some x) (hx : x.userId = some user) :
    get (some user) m id = .ok x := by
  rw [get_eq, h]
  exact if_pos hx

/-- Another's session is not given out. -/
theorem get_of_ne (h : m.get? id = some x) (hx : x.userId ≠ some user) :
    get (some user) m id = .error (.forbidden id) := by
  rw [get_eq, h]
  exact if_neg hx

/-- Deleting what is not there says so and changes nothing. -/
theorem delete_of_none (h : m.get? id = none) : delete (some user) m id = (.ok false, m) := by
  rw [delete, get_of_none h]

/-- An owner's delete drops the session. -/
theorem delete_of_owner (h : m.get? id = some x) (hx : x.userId = some user) :
    delete (some user) m id = (.ok true, m.drop id) := by
  have hanswer : Store.delete m id = (.ok (m.get? id).isSome, m.drop id) := rfl
  rw [delete, get_of_owner h hx, hanswer, h]
  rfl

/-- Deleting another's session is refused and changes nothing. -/
theorem delete_of_ne (h : m.get? id = some x) (hx : x.userId ≠ some user) :
    delete (some user) m id = (.error (.forbidden id), m) := by
  rw [delete, get_of_ne h hx]

end Service

open Service (signedAs)

/-- **Without a user every call is refused**, and the store is left alone. -/
theorem Call.on_anonymous {c : Call} (h : c.user = none) (m : Memory) :
    c.on m = (.error .unauthenticated, m) := by
  obtain ⟨user, now, request⟩ := c
  cases h
  cases request <;> rfl

/-! ### One identifier -/

/-- What a call can do to what stands under an identifier. -/
inductive Change (c : Call) (m : Memory) (id : String) : Option Snapshot → Prop where
  /-- Nothing is saved under it: if the call asks for that, somebody else has it. -/
  | kept (h : ∀ user s, c.Saves user id s → ∃ x, m.get? id = some x ∧ x.userId ≠ some user) :
    Change c m id (m.get? id)
  | begun {user : String} {s : Snapshot} (h : c.Saves user id s) (hnone : m.get? id = none) :
    Change c m id (some (signedAs s user s.createdAt c.now))
  | renewed {user : String} {s x : Snapshot} (h : c.Saves user id s) (hx : m.get? id = some x)
    (howner : x.userId = some user) : Change c m id (some (signedAs s user x.createdAt c.now))
  | dropped {user : String} {x : Snapshot} (h : c.Deletes user id) (hx : m.get? id = some x)
    (howner : x.userId = some user) : Change c m id none

/-- **What stands under an identifier changes in these ways only.** -/
theorem change_on (c : Call) (m : Memory) (id : String) : Change c m id ((c.on m).2.get? id) := by
  obtain ⟨user, now, request⟩ := c
  cases user with
  | none =>
    rw [Call.on_anonymous rfl]
    exact .kept fun user s hs => by cases hs.user
  | some user =>
    cases request with
    | get other | list filter =>
      exact .kept fun user s hs => by cases hs.request
    | save s =>
      simp only [Call.on]
      by_cases hid : s.id = id
      · have hsaves : Call.Saves ⟨some user, now, .save s⟩ user id s := ⟨rfl, rfl, hid⟩
        have hput : ∀ begun, (m.put (signedAs s user begun now)).get? id =
            some (signedAs s user begun now) :=
          fun begun => (Memory.get?_put m _ id).trans (if_pos hid)
        cases hx : m.get? s.id with
        | none =>
          rw [Service.save_of_none hx, hput]
          exact .begun hsaves (hid ▸ hx)
        | some x =>
          by_cases howner : x.userId = some user
          · rw [Service.save_of_owner hx howner, hput]
            exact .renewed hsaves (hid ▸ hx) howner
          · rw [Service.save_of_ne hx howner]
            refine .kept fun user' s' hs => ⟨x, hid ▸ hx, ?_⟩
            cases hs.user
            exact howner
      · -- The call saves elsewhere, so nobody saves here with it.
        rw [Service.get?_save_of_ne hid]
        refine .kept fun user' s' hs => ?_
        cases hs.request
        exact absurd hs.id hid
    | delete other =>
      have hkept : ∀ user' s, Call.Saves ⟨some user, now, .delete other⟩ user' id s →
          ∃ x, m.get? id = some x ∧ x.userId ≠ some user' := fun user' s hs => by cases hs.request
      simp only [Call.on]
      cases hx : m.get? other with
      | none =>
        rw [Service.delete_of_none hx]
        exact .kept hkept
      | some x =>
        by_cases howner : x.userId = some user
        · rw [Service.delete_of_owner hx howner]
          simp only [Memory.get?_drop]
          split
          · next hid => exact .dropped ⟨rfl, hid ▸ rfl⟩ (hid ▸ hx) howner
          · exact .kept hkept
        · rw [Service.delete_of_ne hx howner]
          exact .kept hkept

end AgentSurface.Session
