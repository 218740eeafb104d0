import Mathlib.Data.List.Induction
import AgentSurface.Proofs.Session.Calls

/-!
# Session — an identifier belongs to the user who saved it

Whoever saves a snapshot under an identifier that is free has it until he deletes it.  What stands
under an identifier is told from the history alone: `Tenure` names the call that took the identifier
and the last call that saved under it, and `exists_tenure` says that the store holds what these two
make.

* `owner_keeps`: behind every history, other users are refused and change nothing, the owner reads
  what he saved last, and a listing shows snapshots of its user only.
-/

namespace AgentSurface.Session

open Service (signedAs)

variable {history : List Call} {user id : String} {c : Call} {m : Memory} {x : Snapshot}

/-! ### Histories -/

/-- The user saved under the identifier, with success, and has not deleted it since. -/
def Keeps (history : List Call) (user id : String) : Prop :=
  ∃ before saving rest s, history = before ++ saving :: rest ∧ Call.Saves saving user id s ∧
    (saving.on (Memory.after before)).1 = .ok (.saved id) ∧ ∀ c ∈ rest, ¬ Call.Deletes c user id

/-- The user took the identifier with the call `first`, and saved under it with the call `last` for
the last time. -/
structure Tenure (history : List Call) (user id : String) (first last : Call) (s₀ s : Snapshot) :
    Prop where
  /-- Nothing stood under the identifier before, and since then something does. -/
  first : ∃ earlier later, history = earlier ++ first :: later ∧ first.Saves user id s₀ ∧
    (Memory.after earlier).get? id = none ∧
    ∀ mid, mid <+: later → (Memory.after (earlier ++ first :: mid)).get? id ≠ none
  last : ∃ before behind, history = before ++ last :: behind ∧ last.Saves user id s ∧
    ∀ c ∈ behind, ∀ t, ¬ c.Saves user id t

/-! ### What stands under an identifier -/

/-- A first save begins the tenure, with the same call as its last. -/
theorem Tenure.begin {s : Snapshot} (hnone : (Memory.after history).get? id = none)
    (hsaves : c.Saves user id s) (hsome : (c.on (Memory.after history)).2.get? id ≠ none) :
    Tenure (history ++ [c]) user id c c s s where
  first := by
    refine ⟨history, [], rfl, hsaves, hnone, fun mid hmid => ?_⟩
    rw [List.prefix_nil.1 hmid, Memory.after_concat]
    exact hsome
  last := ⟨history, [], rfl, hsaves, by simp⟩

/-- The call that took the identifier stays the same as long as something stands there. -/
theorem Tenure.first_concat {first last : Call} {s₀ s : Snapshot}
    (h : Tenure history user id first last s₀ s)
    (hsome : (c.on (Memory.after history)).2.get? id ≠ none) :
    ∃ earlier later, history ++ [c] = earlier ++ first :: later ∧ first.Saves user id s₀ ∧
      (Memory.after earlier).get? id = none ∧
      ∀ mid, mid <+: later → (Memory.after (earlier ++ first :: mid)).get? id ≠ none := by
  obtain ⟨earlier, later, rfl, hsaves, hnone, hheld⟩ := h.first
  refine ⟨earlier, later ++ [c], by simp, hsaves, hnone, fun mid hmid => ?_⟩
  rcases List.prefix_concat_iff.1 hmid with rfl | hmid
  · have hlast : earlier ++ first :: (later ++ [c]) = (earlier ++ first :: later) ++ [c] := by simp
    rw [hlast, Memory.after_concat]
    exact hsome
  · exact hheld mid hmid

/-- **The history tells what stands under an identifier**: the last snapshot that was saved there
since it was taken, begun when it was taken. -/
theorem exists_tenure (h : (Memory.after history).get? id = some x) :
    ∃ user first last s₀ s, Tenure history user id first last s₀ s ∧
      x = signedAs s user s₀.createdAt last.now := by
  -- From the end: the last call left what stands there alone, renewed it, or put it there.
  induction history using List.reverseRecOn generalizing x with
  | nil => cases h
  | append_singleton history c ih =>
    rw [Memory.after_concat] at h
    have hsome : (c.on (Memory.after history)).2.get? id ≠ none := by simp [h]
    have hchange := change_on c (Memory.after history) id
    rw [h] at hchange
    generalize hwhat : some x = what at hchange
    cases hchange with
    | kept hkept =>
      obtain ⟨user, first, last, s₀, s, htenure, rfl⟩ := ih hwhat.symm
      obtain ⟨before, behind, hhistory, hlast, hbehind⟩ := htenure.last
      refine ⟨user, first, last, s₀, s, ⟨htenure.first_concat hsome,
        before, behind ++ [c], by simp [hhistory], hlast, ?_⟩, rfl⟩
      intro d hd t hsaves
      rcases List.mem_append.1 hd with hd | hd
      · exact hbehind d hd t hsaves
      · cases List.mem_singleton.1 hd
        obtain ⟨y, hy, howner⟩ := hkept user t hsaves
        rw [← hwhat] at hy
        cases hy
        exact howner rfl
    | begun hsaves hnone =>
      cases hwhat
      exact ⟨_, c, c, _, _, .begin hnone hsaves hsome, rfl⟩
    | renewed hsaves hx howner =>
      cases hwhat
      obtain ⟨user, first, last, s₀, s, htenure, rfl⟩ := ih hx
      cases howner
      exact ⟨_, first, c, s₀, _, ⟨htenure.first_concat hsome,
        history, [], rfl, hsaves, by simp⟩, rfl⟩
    | dropped => cases hwhat

/-! ### The owner -/

/-- What a user has under an identifier he has behind a call that does not delete it. -/
theorem exists_owned_on (hx : m.get? id = some x) (howner : x.userId = some user)
    (hdelete : ¬ c.Deletes user id) :
    ∃ y, (c.on m).2.get? id = some y ∧ y.userId = some user := by
  have hchange := change_on c m id
  generalize (c.on m).2.get? id = what at hchange
  cases hchange with
  | kept => exact ⟨x, hx, howner⟩
  | begun _ hnone => rw [hx] at hnone; cases hnone
  | renewed _ hx' howner' =>
    cases hx.symm.trans hx'
    cases howner.symm.trans howner'
    exact ⟨_, rfl, rfl⟩
  | dropped hdeletes hx' howner' =>
    cases hx.symm.trans hx'
    cases howner.symm.trans howner'
    exact absurd hdeletes hdelete

/-- What a user has just saved under an identifier he has there. -/
theorem exists_owned_of_saved {s : Snapshot} (hsaves : c.Saves user id s)
    (hsaved : (c.on m).1 = .ok (.saved id)) :
    ∃ y, (c.on m).2.get? id = some y ∧ y.userId = some user := by
  have hchange := change_on c m id
  generalize hwhat : (c.on m).2.get? id = what at hchange
  cases hchange with
  | kept hkept =>
    -- Somebody else has the identifier, so the answer was another one.
    obtain ⟨x, hx, howner⟩ := hkept user s hsaves
    obtain ⟨now, request⟩ := c
    obtain ⟨rfl, rfl, rfl⟩ := hsaves
    simp only [Call.on, Service.save_of_ne hx howner] at hsaved
    cases hsaved
  | begun hsaves' | renewed hsaves' =>
    cases hsaves.user.symm.trans hsaves'.user
    exact ⟨_, rfl, rfl⟩
  | dropped hdeletes => cases hsaves.request.symm.trans hdeletes.request

/-- Who keeps a session owns what is stored under its id. -/
theorem Keeps.exists_owned (h : Keeps history user id) :
    ∃ x, (Memory.after history).get? id = some x ∧ x.userId = some user := by
  obtain ⟨before, saving, rest, s, rfl, hsaves, hsaved, hrest⟩ := h
  induction rest using List.reverseRecOn with
  | nil =>
    rw [Memory.after_concat]
    exact exists_owned_of_saved hsaves hsaved
  | append_singleton rest c ih =>
    obtain ⟨x, hx, howner⟩ := ih fun d hd => hrest d (by simp [hd])
    have hlast : before ++ saving :: (rest ++ [c]) = (before ++ saving :: rest) ++ [c] := by simp
    rw [hlast, Memory.after_concat]
    exact exists_owned_on hx howner (hrest c (by simp))

/-- Every request about an identifier that somebody else has is refused. -/
theorem Call.on_of_ne {other : String} (hx : m.get? id = some x) (howner : x.userId ≠ some other)
    (huser : c.user = some other) (hid : c.request.id? = some id) :
    c.on m = (.error (.forbidden id), m) := by
  obtain ⟨_, now, request⟩ := c
  cases huser
  cases request with
  | save s =>
    cases hid
    simp only [Call.on, Service.save_of_ne hx howner]
    rfl
  | get =>
    cases hid
    simp only [Call.on, Service.get_of_ne hx howner]
    rfl
  | delete =>
    cases hid
    simp only [Call.on, Service.delete_of_ne hx howner]
    rfl
  | list => cases hid

/-! ### Listings -/

theorem Filter.mem_of_mem_apply {f : Filter} {snapshots : List Snapshot}
    (h : x ∈ f.apply snapshots) : x ∈ snapshots ∧ f.accepts x = true := by
  have hmem : x ∈ (snapshots.filter f.accepts).mergeSort Filter.comesFirst := by
    unfold Filter.apply at h
    dsimp only at h
    split at h
    · exact List.mem_of_mem_take h
    · exact h
  exact List.mem_filter.1 (List.mem_mergeSort.1 hmem)

/-- Without a limit a filter gives exactly what it accepts. -/
theorem Filter.mem_apply_iff {f : Filter} (hlimit : f.limit = none) {snapshots : List Snapshot} :
    x ∈ f.apply snapshots ↔ x ∈ snapshots ∧ f.accepts x = true := by
  rw [Filter.apply, hlimit]
  exact List.mem_mergeSort.trans List.mem_filter

theorem Filter.accepts_of_user {f : Filter} :
    Filter.accepts { f with userId := some user } x = true ↔
      x.userId = some user ∧ f.matchesTitle x = true := by
  simp [Filter.accepts, Filter.matchesUser, Filter.matchesTitle]

/-! ### All histories -/

/-- **An identifier belongs to the user who saved it, until he deletes it.**

Behind every history of calls that begins with the empty store:

* a call without a user is refused as such and changes nothing;
* a listing shows snapshots of its user only, and all of those whose title matches unless it is
  limited, whatever user its filter names;
* as long as a user keeps an identifier, every call of another user about it is refused as
  forbidden and changes nothing, and the user reads the snapshot that he saved there last, under his
  name, with the time at which it was begun when he took the identifier and the time at which it was
  saved last. -/
theorem owner_keeps (history : List Call) :
    (∀ c : Call, c.user = none →
      c.on (Memory.after history) = (.error .unauthenticated, Memory.after history)) ∧
    (∀ (c : Call) (user : String) (filter : Filter), c.user = some user →
      c.request = .list filter →
        ∃ listed, c.on (Memory.after history) = (.ok (.listed listed), Memory.after history) ∧
          (∀ s ∈ listed, s.userId = some user) ∧
          (filter.limit = none → ∀ s, s ∈ listed ↔ s ∈ (Memory.after history).snapshots ∧
            s.userId = some user ∧ filter.matchesTitle s = true)) ∧
    ∀ user id, Keeps history user id →
      (∀ (c : Call) (other : String), c.user = some other → other ≠ user →
        c.request.id? = some id →
          c.on (Memory.after history) = (.error (.forbidden id), Memory.after history)) ∧
      ∃ first last s₀ s, Tenure history user id first last s₀ s ∧
        ∀ now, Call.on ⟨some user, now, .get id⟩ (Memory.after history) =
          (.ok (.found { s with
            userId := some user, createdAt := s₀.createdAt, updatedAt := last.now }),
            Memory.after history) := by
  refine ⟨fun c h => Call.on_anonymous h _, fun c user filter huser hrequest => ?_,
    fun user id h => ?_⟩
  · obtain ⟨_, now, _⟩ := c
    cases huser
    cases hrequest
    refine ⟨_, rfl, fun s hs => ?_, fun hlimit s => ?_⟩
    · exact (Filter.accepts_of_user.1 (Filter.mem_of_mem_apply hs).2).1
    · exact (Filter.mem_apply_iff (f := { filter with userId := some user }) hlimit).trans
        (and_congr_right fun _ => Filter.accepts_of_user)
  · obtain ⟨x, hx, howner⟩ := h.exists_owned
    refine ⟨fun c other huser hne hid => ?_, ?_⟩
    · refine Call.on_of_ne hx (fun hother => hne ?_) huser hid
      exact Option.some.inj (hother.symm.trans howner)
    · obtain ⟨owner, first, last, s₀, s, htenure, rfl⟩ := exists_tenure hx
      cases howner
      refine ⟨first, last, s₀, s, htenure, fun now => ?_⟩
      simp only [Call.on, Service.get_of_owner hx rfl]
      rfl

/-- An identifier passes to another user, who saves under it twice; in between, the first user tries
to save there again. -/
theorem owner_keeps_passed_on :
    let time (seconds : Int) : Timestamp := ⟨seconds, 0⟩
    let note (created : Int) (title : String) : Snapshot :=
      { id := "a", title := some title, createdAt := time created, updatedAt := time created }
    let save (user : String) (now : Int) (s : Snapshot) : Call := ⟨some user, time now, .save s⟩
    let history : List Call :=
      [save "ann" 1 (note 0 "old"), ⟨some "ann", time 2, .delete "a"⟩, save "bob" 4 (note 3 "new"),
        save "ann" 5 (note 5 "mine"), save "bob" 7 (note 6 "newer")]
    Keeps history "bob" "a" ∧
      (∀ (c : Call) (other : String), c.user = some other → other ≠ "bob" →
        c.request.id? = some "a" →
          c.on (Memory.after history) = (.error (.forbidden "a"), Memory.after history)) ∧
      ∃ first last s₀ s, Tenure history "bob" "a" first last s₀ s ∧
        ∀ now, Call.on ⟨some "bob", now, .get "a"⟩ (Memory.after history) =
          (.ok (.found { s with
            userId := some "bob", createdAt := s₀.createdAt, updatedAt := last.now }),
            Memory.after history) := by
  intro time note save history
  have hkeeps : Keeps history "bob" "a" :=
    ⟨history.take 2, _, history.drop 3, _, rfl, ⟨rfl, rfl, rfl⟩, rfl, fun c hc hdeletes => by
      simp [history, save] at hc
      rcases hc with rfl | rfl <;> cases hdeletes.request⟩
  exact ⟨hkeeps, (owner_keeps history).2.2 "bob" "a" hkeeps⟩

end AgentSurface.Session
