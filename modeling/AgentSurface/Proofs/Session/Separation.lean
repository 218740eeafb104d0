import AgentSurface.Proofs.Session.Calls

/-!
# Session — users of one store do not notice each other

What belongs to a user can be looked at as a store of its own (`Memory.of`).  A call of the user
does to it what the same call does to the whole store (`Call.on_of`), and the calls of other users
do nothing to it (`Call.of_on`), as long as the identifiers of the user are not used by others
(`Memory.Apart`).

* `transcript_alone`: in a history in which users keep to their own identifiers, each user is
  answered as if the others were not there.
-/

namespace AgentSurface.Session

variable {ids : String → Prop} {user : String} {m : Memory} {c : Call} {history : List Call}

/-- The calls of a history that begins with a store, each with its answer. -/
def transcript (m : Memory) : List Call → List (Call × Except Refusal Answer)
  | [] => []
  | c :: rest => (c, (c.on m).1) :: transcript (c.on m).2 rest

/-- A call of the user is about this identifier. -/
def Uses (history : List Call) (user id : String) : Prop :=
  ∃ c ∈ history, c.user = some user ∧ c.request.id? = some id

namespace Memory

/-- What belongs to a user, as a store of its own. -/
def of (m : Memory) (user : String) : Memory := ⟨m.snapshots.filter fun s => s.userId = some user⟩

/-- Under these identifiers, and no others, stands what belongs to the user. -/
def Apart (ids : String → Prop) (user : String) (m : Memory) : Prop :=
  ∀ s ∈ m.snapshots, ids s.id ↔ s.userId = some user

/-! ### The store of a user -/

theorem get?_of (h : m.Apart ids user) {id : String} (hid : ids id) :
    (m.of user).get? id = m.get? id := by
  rw [get?, of, List.find?_filter, get?]
  obtain ⟨snapshots⟩ := m
  induction snapshots with
  | nil => rfl
  | cons first rest ih =>
    obtain ⟨hfirst, hrest⟩ := List.forall_mem_cons.1 h
    by_cases heq : first.id = id
    · have howner : first.userId = some user := hfirst.1 (heq ▸ hid)
      simp [heq, howner]
    · simpa [heq] using ih hrest

/-- What the user puts into the store goes to the same place of the user's own store. -/
theorem of_put (h : m.Apart ids user) {s : Snapshot} (hid : ids s.id)
    (howner : s.userId = some user) : (m.put s).of user = (m.of user).put s := by
  refine congrArg Memory.mk ?_
  show (putInto s m.snapshots).filter _ = putInto s (m.snapshots.filter _)
  obtain ⟨snapshots⟩ := m
  induction snapshots with
  | nil => simp [putInto, howner]
  | cons first rest ih =>
    obtain ⟨hfirst, hrest⟩ := List.forall_mem_cons.1 h
    by_cases heq : first.id = s.id
    · have hold : first.userId = some user := hfirst.1 (heq ▸ hid)
      simp [putInto, heq, hold, howner]
    · by_cases hold : first.userId = some user
      · simpa [putInto, heq, hold] using ih hrest
      · simpa [putInto, heq, hold] using ih hrest

/-- What others put into the store is not seen by the user. -/
theorem of_put_of_ne (h : m.Apart ids user) {s : Snapshot} (hid : ¬ ids s.id)
    (howner : s.userId ≠ some user) : (m.put s).of user = m.of user := by
  refine congrArg Memory.mk ?_
  show (putInto s m.snapshots).filter _ = m.snapshots.filter _
  obtain ⟨snapshots⟩ := m
  induction snapshots with
  | nil => simp [putInto, howner]
  | cons first rest ih =>
    obtain ⟨hfirst, hrest⟩ := List.forall_mem_cons.1 h
    by_cases heq : first.id = s.id
    · have hold : first.userId ≠ some user := fun hold => hid (heq ▸ hfirst.2 hold)
      simp [putInto, heq, hold, howner]
    · by_cases hold : first.userId = some user
      · simpa [putInto, heq, hold] using ih hrest
      · simpa [putInto, heq, hold] using ih hrest

theorem of_drop (m : Memory) (user id : String) : (m.drop id).of user = (m.of user).drop id := by
  simp only [of, drop, List.filter_filter, Bool.and_comm]

theorem of_drop_of_not (h : m.Apart ids user) {id : String} (hid : ¬ ids id) :
    (m.drop id).of user = m.of user := by
  rw [of_drop, drop]
  refine congrArg Memory.mk (List.filter_eq_self.2 fun s hs => ?_)
  obtain ⟨hs, howner⟩ := List.mem_filter.1 hs
  have hids : ids s.id := (h s hs).2 (by simpa using howner)
  simpa using fun heq : s.id = id => hid (heq ▸ hids)

theorem Apart.put (h : m.Apart ids user) {s : Snapshot} (hs : ids s.id ↔ s.userId = some user) :
    (m.put s).Apart ids user := by
  intro x hx
  rcases mem_putInto hx with rfl | hx
  · exact hs
  · exact h x hx

theorem Apart.drop (h : m.Apart ids user) (id : String) : (m.drop id).Apart ids user :=
  fun x hx => h x (List.mem_filter.1 hx).1

end Memory

/-! ### One call -/

open Service (signedAs)

/-- What a call can do to a store. -/
inductive Leaves (c : Call) (m : Memory) : Memory → Prop where
  | alone : Leaves c m m
  | put {user id : String} {s : Snapshot} {begun : Timestamp} (h : c.Saves user id s) :
    Leaves c m (m.put (signedAs s user begun c.now))
  | drop {user id : String} (h : c.Deletes user id) : Leaves c m (m.drop id)

/-- **A store changes in these ways only.** -/
theorem leaves_on (c : Call) (m : Memory) : Leaves c m (c.on m).2 := by
  obtain ⟨user, now, request⟩ := c
  cases user with
  | none =>
    rw [Call.on_anonymous rfl]
    exact .alone
  | some user =>
    cases request with
    | get | list => exact .alone
    | save s =>
      have hsaves : Call.Saves ⟨some user, now, .save s⟩ user s.id s := ⟨rfl, rfl, rfl⟩
      simp only [Call.on]
      cases hx : m.get? s.id with
      | none =>
        rw [Service.save_of_none hx]
        exact .put hsaves
      | some x =>
        by_cases howner : x.userId = some user
        · rw [Service.save_of_owner hx howner]
          exact .put hsaves
        · rw [Service.save_of_ne hx howner]
          exact .alone
    | delete id =>
      simp only [Call.on]
      cases hx : m.get? id with
      | none =>
        rw [Service.delete_of_none hx]
        exact .alone
      | some x =>
        by_cases howner : x.userId = some user
        · rw [Service.delete_of_owner hx howner]
          exact .drop ⟨rfl, rfl⟩
        · rw [Service.delete_of_ne hx howner]
          exact .alone

/-- The call keeps to the division: the user calls about these identifiers only, and others do not
call about them. -/
def Call.KeepsTo (c : Call) (ids : String → Prop) (user : String) : Prop :=
  ∀ id other, c.request.id? = some id → c.user = some other → (ids id ↔ other = user)

theorem Memory.Apart.on (h : m.Apart ids user) (hc : c.KeepsTo ids user) :
    (c.on m).2.Apart ids user := by
  have hleaves := leaves_on c m
  generalize (c.on m).2 = next at hleaves
  cases hleaves with
  | alone => exact h
  | put hsaves =>
    refine h.put ?_
    have hid : c.request.id? = some _ := congrArg Request.id? hsaves.request
    simpa [signedAs] using hc _ _ hid hsaves.user
  | drop => exact h.drop _

/-- **The calls of others do nothing to what belongs to a user.** -/
theorem Call.of_on (h : m.Apart ids user) (hc : c.KeepsTo ids user) (huser : c.user ≠ some user) :
    (c.on m).2.of user = m.of user := by
  have hleaves := leaves_on c m
  generalize (c.on m).2 = next at hleaves
  cases hleaves with
  | alone => rfl
  | @put other id s begun hsaves =>
    have hne : other ≠ user := fun heq => huser (heq ▸ hsaves.user)
    have hid : c.request.id? = some s.id := congrArg Request.id? hsaves.request
    exact Memory.of_put_of_ne h (fun hids => hne ((hc _ _ hid hsaves.user).1 hids))
      fun howner => hne (Option.some.inj howner)
  | @drop other id hdeletes =>
    have hne : other ≠ user := fun heq => huser (heq ▸ hdeletes.user)
    have hid : c.request.id? = some id := congrArg Request.id? hdeletes.request
    exact Memory.of_drop_of_not h fun hids => hne ((hc _ _ hid hdeletes.user).1 hids)

/-- A listing for a user shows nothing else than what belongs to the user. -/
theorem Filter.apply_of (f : Filter) (m : Memory) (user : String) :
    Filter.apply { f with userId := some user } (m.of user).snapshots =
      Filter.apply { f with userId := some user } m.snapshots := by
  have hfilter : (m.of user).snapshots.filter (Filter.accepts { f with userId := some user }) =
      m.snapshots.filter (Filter.accepts { f with userId := some user }) := by
    rw [Memory.of, List.filter_filter]
    refine List.filter_congr fun s _ => ?_
    by_cases howner : s.userId = some user <;> simp [Filter.accepts, Filter.matchesUser, howner]
  rw [Filter.apply, Filter.apply, hfilter]

/-- **A call of the user does to the user's own store what it does to the whole one**, and is
answered alike. -/
theorem Call.on_of (h : m.Apart ids user) (hc : c.KeepsTo ids user) (huser : c.user = some user) :
    c.on (m.of user) = ((c.on m).1, (c.on m).2.of user) := by
  obtain ⟨_, now, request⟩ := c
  cases huser
  have hids : ∀ id, request.id? = some id → ids id := fun id hid => (hc id user hid rfl).2 rfl
  cases request with
  | list f => simp [Call.on, Service.list, Service.user?, Service.ofStore, Store.list, bind,
      Except.bind, Filter.apply_of]
  | get id =>
    have hget := Memory.get?_of h (hids id rfl)
    simp only [Call.on, Service.get_eq, hget]
  | save s =>
    have hid := hids s.id rfl
    have hget := Memory.get?_of h hid
    have hput : ∀ begun, (m.put (signedAs s user begun now)).of user =
        (m.of user).put (signedAs s user begun now) := fun begun => Memory.of_put h hid rfl
    simp only [Call.on]
    cases hx : m.get? s.id with
    | none => rw [Service.save_of_none hx, Service.save_of_none (hget.trans hx), hput]
    | some x =>
      have howner : x.userId = some user :=
        (h x (List.mem_of_find?_eq_some hx)).1 (Memory.id_of_get? hx ▸ hid)
      rw [Service.save_of_owner hx howner, Service.save_of_owner (hget.trans hx) howner, hput]
  | delete id =>
    have hid := hids id rfl
    have hget := Memory.get?_of h hid
    simp only [Call.on]
    cases hx : m.get? id with
    | none => rw [Service.delete_of_none hx, Service.delete_of_none (hget.trans hx)]
    | some x =>
      have howner : x.userId = some user :=
        (h x (List.mem_of_find?_eq_some hx)).1 (Memory.id_of_get? hx ▸ hid)
      rw [Service.delete_of_owner hx howner, Service.delete_of_owner (hget.trans hx) howner,
        Memory.of_drop]

/-! ### Histories -/

theorem transcript_of (h : m.Apart ids user) (hhistory : ∀ c ∈ history, c.KeepsTo ids user) :
    (transcript m history).filter (fun entry => entry.1.user = some user) =
      transcript (m.of user) (history.filter fun c => c.user = some user) := by
  induction history generalizing m with
  | nil => rfl
  | cons c rest ih =>
    obtain ⟨hc, hrest⟩ := List.forall_mem_cons.1 hhistory
    have hnext := ih (h.on hc) hrest
    by_cases huser : c.user = some user
    · rw [List.filter_cons_of_pos (by simpa using huser), transcript, transcript,
        Call.on_of h hc huser, ← hnext, List.filter_cons_of_pos (by simpa using huser)]
    · rw [List.filter_cons_of_neg (by simpa using huser), transcript,
        List.filter_cons_of_neg (by simpa using huser), hnext, Call.of_on h hc huser]

/-- **Users do not notice each other.**  Take a history of calls that begins with the empty store, in
which no identifier that the user calls about is called about by another user.  The calls of the user
are answered as they are answered in the history that consists of them alone. -/
theorem transcript_alone (history : List Call) (user : String)
    (hown : ∀ id, Uses history user id → ∀ other, Uses history other id → other = user) :
    (transcript {} history).filter (fun entry => entry.1.user = some user) =
      transcript {} (history.filter fun c => c.user = some user) := by
  have hempty : Memory.Apart (Uses history user) user {} := List.forall_mem_nil _
  refine transcript_of hempty fun c hc id other hid huser =>
    ⟨fun hids => hown id hids other ⟨c, hc, huser, hid⟩, ?_⟩
  rintro rfl
  exact ⟨c, hc, huser, hid⟩

/-- Two users save at the same time and list with a limit; in between, the one who is looked at
changes a snapshot, deletes another, and somebody without a user asks for it. -/
theorem transcript_alone_limited :
    let time (seconds : Int) : Timestamp := ⟨seconds, 0⟩
    let save (user : String) (now : Int) (id : String) : Call :=
      ⟨some user, time now, .save { id, createdAt := time 0, updatedAt := time 0 }⟩
    let history : List Call :=
      [save "bob" 1 "b", save "ann" 1 "a", save "bob" 2 "c", save "ann" 3 "d",
        ⟨some "ann", time 4, .list { userId := some "bob", limit := some 1 }⟩, save "ann" 5 "a",
        ⟨none, time 6, .get "a"⟩, ⟨some "ann", time 7, .delete "d"⟩,
        ⟨some "bob", time 8, .list {}⟩, ⟨some "ann", time 9, .list {}⟩]
    (∀ id, Uses history "ann" id → ∀ other, Uses history other id → other = "ann") ∧
      (transcript {} history).filter (fun entry => entry.1.user = some "ann") =
        transcript {} (history.filter fun c => c.user = some "ann") := by
  intro time save history
  have hown : ∀ id, Uses history "ann" id → ∀ other, Uses history other id → other = "ann" := by
    rintro id ⟨c, hc, huser, hid⟩ other ⟨d, hd, hother, hid'⟩
    simp [history, save] at hc hd
    rcases hc with rfl | rfl | rfl | rfl | rfl | rfl | rfl | rfl | rfl | rfl <;>
      simp [Request.id?] at huser hid <;> subst hid <;>
      rcases hd with rfl | rfl | rfl | rfl | rfl | rfl | rfl | rfl | rfl | rfl <;>
      simp_all [Request.id?]
  exact ⟨hown, transcript_alone history "ann" hown⟩

end AgentSurface.Session
