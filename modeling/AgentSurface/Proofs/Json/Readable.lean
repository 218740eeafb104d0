import AgentSurface.Proofs.Json.Moves
import AgentSurface.Proofs.Json.Writable

/-!
# Json — values that are read

The reader opens no container inside `maxDepth` others, so each value that it has read leaves room
for the containers around it (`State.Shallow`).  Settling a value takes members away, and adds none:
no key stands twice then, and the value is not nested deeper than before.

* `distinctKeys_of_parse`, `nesting_of_parse`: what a text is read as has no key twice in an object,
  and is nested no deeper than the reader goes.
* `writable_of_parse_array`: an element of a list that is read can be written if its numbers are
  whole.
-/

namespace AgentSurface.Json

/-! ### Members that are settled -/

namespace Fields

/-- A value comes from the members before or from those that are merged into them. -/
theorem mem_insert {fields : Fields} {key : String} {v : Json} {m : String × Json}
    (h : m ∈ fields.insert key v) : m ∈ fields ∨ m.2 = v := by
  induction fields with
  | nil => exact .inr (congrArg Prod.snd (List.mem_singleton.1 h))
  | cons field rest ih =>
    rw [insert] at h
    split at h
    · rcases List.mem_cons.1 h with rfl | h
      · exact .inr rfl
      · exact .inl (List.mem_cons_of_mem _ h)
    · rcases List.mem_cons.1 h with rfl | h
      · exact .inl List.mem_cons_self
      · exact (ih h).imp_left (List.mem_cons_of_mem _)

/-- The values of merged fields are those of one side or the other. -/
theorem mem_merge {fields more : Fields} {m : String × Json} (h : m ∈ fields.merge more) :
    m ∈ fields ∨ ∃ m' ∈ more, m.2 = m'.2 := by
  induction more generalizing fields with
  | nil => exact .inl h
  | cons field rest ih =>
    rcases ih h with h | ⟨m', hm', heq⟩
    · exact (mem_insert h).imp_right fun heq => ⟨field, List.mem_cons_self, heq⟩
    · exact .inr ⟨m', List.mem_cons_of_mem _ hm', heq⟩

theorem mem_ofList {members : Fields} {m : String × Json} (h : m ∈ ofList members) :
    ∃ m' ∈ members, m.2 = m'.2 :=
  (mem_merge h).resolve_left List.not_mem_nil

/-- Fields built from a list have each key once. -/
theorem nodup_keys_ofList (members : Fields) : (ofList members).keys.Nodup :=
  nodup_keys_merge (show (keys []).Nodup from List.nodup_nil) members

end Fields

/-- Fields have distinct keys within exactly where each of their values has. -/
theorem distinctKeysFields_iff {fields : Fields} :
    DistinctKeysFields fields ↔ ∀ m ∈ fields, DistinctKeys m.2 := by
  induction fields with
  | nil => simp [DistinctKeysFields]
  | cons m rest ih => simp [DistinctKeysFields, ih]

/-- A list has distinct keys within exactly where each of its values has. -/
theorem distinctKeysItems_iff {items : List Json} :
    DistinctKeysItems items ↔ ∀ v ∈ items, DistinctKeys v := by
  induction items with
  | nil => simp [DistinctKeysItems]
  | cons v rest ih => simp [DistinctKeysItems, ih]

theorem DistinctKeys.merge {fields more : Fields} (h : DistinctKeys (.object fields))
    (hmore : DistinctKeys (.object more)) : DistinctKeys (.object (fields.merge more)) := by
  rw [DistinctKeys, distinctKeysFields_iff] at h hmore ⊢
  refine ⟨Fields.nodup_keys_merge h.1 more, fun m hm => ?_⟩
  rcases Fields.mem_merge hm with hm | ⟨m', hm', heq⟩
  · exact h.2 m hm
  · exact heq ▸ hmore.2 m' hm'

/-- The members nest as deep as the deepest of them. -/
theorem nestingMembers_le_iff {members : Fields} {n : Nat} :
    nestingMembers members ≤ n ↔ ∀ m ∈ members, m.2.nesting ≤ n := by
  induction members with
  | nil => simp [nestingMembers]
  | cons m rest ih => rw [nestingMembers, Nat.max_le, ih, List.forall_mem_cons]

mutual

/-- A value that is settled has no key twice in an object. -/
theorem distinctKeys_settled : ∀ v : Json, DistinctKeys v.settled
  | .null | .bool _ | .number _ | .string _ => by simp only [settled, DistinctKeys]
  | .array items => by
    simp only [settled, DistinctKeys]
    exact distinctKeys_settledItems items
  | .object members => by
    simp only [settled, DistinctKeys]
    refine ⟨Fields.nodup_keys_ofList _, distinctKeysFields_iff.2 fun m hm => ?_⟩
    obtain ⟨m', hm', heq⟩ := Fields.mem_ofList hm
    exact heq ▸ distinctKeysFields_iff.1 (distinctKeys_settledMembers members) m' hm'

theorem distinctKeys_settledItems : ∀ items : List Json, DistinctKeysItems (settledItems items)
  | [] => by simp only [settledItems, DistinctKeysItems]
  | v :: rest => by
    simp only [settledItems, DistinctKeysItems]
    exact ⟨distinctKeys_settled v, distinctKeys_settledItems rest⟩

theorem distinctKeys_settledMembers : ∀ members : List (String × Json),
    DistinctKeysFields (settledMembers members)
  | [] => by simp only [settledMembers, DistinctKeysFields]
  | (_, v) :: rest => by
    simp only [settledMembers, DistinctKeysFields]
    exact ⟨distinctKeys_settled v, distinctKeys_settledMembers rest⟩

end

mutual

/-- A value that is settled is not nested deeper than before. -/
theorem nesting_settled_le : ∀ v : Json, v.settled.nesting ≤ v.nesting
  | .null | .bool _ | .number _ | .string _ => Nat.le_refl _
  | .array items => Nat.add_le_add_right (nestingItems_settledItems_le items) 1
  | .object members => by
    rw [settled, nesting, nesting, Nat.add_le_add_iff_right, nestingMembers_le_iff]
    intro m hm
    obtain ⟨m', hm', heq⟩ := Fields.mem_ofList hm
    rw [heq]
    exact nestingMembers_le_iff.1 (nestingMembers_settledMembers_le members) m' hm'

theorem nestingItems_settledItems_le : ∀ items : List Json,
    nestingItems (settledItems items) ≤ nestingItems items
  | [] => Nat.le_refl _
  | v :: rest => by
    have hv := nesting_settled_le v
    have hrest := nestingItems_settledItems_le rest
    rw [settledItems, nestingItems, nestingItems]
    omega

theorem nestingMembers_settledMembers_le : ∀ members : List (String × Json),
    nestingMembers (settledMembers members) ≤ nestingMembers members
  | [] => Nat.le_refl _
  | (_, v) :: rest => by
    have hv := nesting_settled_le v
    have hrest := nestingMembers_settledMembers_le rest
    rw [settledMembers, nestingMembers, nestingMembers]
    omega

end

/-! ### Room for the containers around a value -/

/-- With so many containers around it, the value is not nested deeper than the reader goes. -/
def Fits (v : Json) (around : Nat) : Prop := v.nesting + around ≤ maxDepth

/-- The values before the place of a frame. -/
def Frame.values : Frame → List Json
  | .item before => before
  | .member before _ => before.map Prod.snd

/-- Each container is inside less than `maxDepth` others, and each value in it has room. -/
def Context.Shallow : Context → Prop
  | [] => True
  | frame :: rest => rest.length < maxDepth ∧ (∀ v ∈ frame.values, v.Fits (rest.length + 1)) ∧
      Shallow rest

namespace State

/-- The containers around the place of the machine; where a key must come it is left empty. -/
def around : State → Context
  | .value context | .literal _ _ context | .number _ context => context
  | .listStart context => .item [] :: context
  | .listNext before context | .listMore before context => .item before :: context
  | .objectStart context => .member [] "" :: context
  | .objectNext before context | .objectMore before context => .member before "" :: context
  | .colon before key context => .member before key :: context
  | .string _ _ (.value context) => context
  | .string _ _ (.key before context) => .member before "" :: context
  | .done _ => []

/-- The machine has read nothing that is nested too deep. -/
def Shallow (s : State) : Prop :=
  s.around.Shallow ∧
    match s with
    | .literal _ v _ => v.nesting = 0
    | .done v => v.Fits 0
    | _ => True

end State

namespace Context.Shallow

variable {context : Context}

/-- A shallow context has no more open containers than the depth allows. -/
theorem length_le (h : context.Shallow) : context.length ≤ maxDepth := by
  cases context with
  | nil => exact Nat.zero_le _
  | cons frame rest => exact h.1

/-- What has no nesting of its own fits a shallow context. -/
theorem fits (h : context.Shallow) {v : Json} (hv : v.nesting = 0) : v.Fits context.length := by
  rw [Fits, hv, Nat.zero_add]
  exact h.length_le

/-- A value that has room is put into its place. -/
theorem supply (h : context.Shallow) {v : Json} (hv : v.Fits context.length) :
    (context.supply v).Shallow := by
  cases context with
  | nil => exact ⟨trivial, hv⟩
  | cons frame rest =>
    obtain ⟨hroom, hvalues, hrest⟩ := h
    cases frame with
    | item before => exact ⟨⟨hroom, List.forall_mem_cons.2 ⟨hv, hvalues⟩, hrest⟩, trivial⟩
    | member before key =>
      exact ⟨⟨hroom, List.forall_mem_cons.2 ⟨hv, hvalues⟩, hrest⟩, trivial⟩

/-- A list whose elements have room has room around it. -/
theorem fits_array {before : List Json} (h : Shallow (.item before :: context)) :
    (Json.array before.reverse).Fits context.length := by
  have hitems : nestingItems before.reverse ≤ maxDepth - (context.length + 1) :=
    nestingItems_le_iff.2 fun v hv => Nat.le_sub_of_add_le (h.2.1 v (List.mem_reverse.1 hv))
  have hroom := h.1
  rw [Fits, nesting]
  omega

/-- An object whose members have room has room around it. -/
theorem fits_object {before : Fields} {key : String} (h : Shallow (.member before key :: context)) :
    (Json.object before.reverse).Fits context.length := by
  have hmembers : nestingMembers before.reverse ≤ maxDepth - (context.length + 1) :=
    nestingMembers_le_iff.2 fun m hm => Nat.le_sub_of_add_le
      (h.2.1 m.2 (List.mem_map_of_mem (List.mem_reverse.1 hm)))
  have hroom := h.1
  rw [Fits, nesting]
  omega

end Context.Shallow

theorem Word.nesting {letters : List Char} {v : Json} (h : Word letters v) : v.nesting = 0 := by
  cases h <;> rfl

/-- The first character of a value keeps the state shallow. -/
theorem Start.shallow {context : Context} {c : Char} {s : State} (h : Start context c s)
    (hcontext : context.Shallow) : s.Shallow := by
  cases h with
  | list room | object room => exact ⟨⟨room, List.forall_mem_nil _, hcontext⟩, trivial⟩
  | word h => exact ⟨hcontext, h.nesting⟩
  | string | number => exact ⟨hcontext, trivial⟩

/-- No move goes too deep. -/
theorem Move.shallow {s s' : State} {c : Char} (h : Move s c s') (hs : s.Shallow) :
    s'.Shallow := by
  induction h with
  | start h | firstItem h | nextItem h => exact h.shallow hs.1
  | emptyList | closeList => exact hs.1.2.2.supply hs.1.fits_array
  | emptyObject | closeObject => exact hs.1.2.2.supply hs.1.fits_object
  | lastLetter => exact hs.1.supply (hs.1.fits hs.2)
  | numberEnd _ _ _ ih => exact ih (hs.1.supply (hs.1.fits rfl))
  | @quote text role =>
    cases role with
    | value context => exact hs.1.supply (hs.1.fits rfl)
    | key before context => exact hs
  | @inside text text' part part' role =>
    cases role with
    | value context => exact hs
    | key before context => exact hs
  | _ => exact hs

/-- A text that is read keeps the state shallow. -/
theorem State.shallow_of_feed {s s' : State} {text : List Char}
    (h : Text.feed State.step s text = .ok s') (hs : s.Shallow) : s'.Shallow := by
  induction text generalizing s with
  | nil => cases h; exact hs
  | cons c rest ih =>
    obtain ⟨next, hstep, hrest⟩ := Text.feed_cons_eq_ok_iff.1 h
    exact ih hrest ((Move.of_step hstep).shallow hs)

/-- A value read to its end in a shallow state nests within the depth. -/
theorem State.Shallow.nesting_of_finish {s : State} (hs : s.Shallow) {v : Json}
    (h : s.finish = .ok v) : v.nesting ≤ maxDepth := by
  cases s with
  | number numeral context =>
    simp only [State.finish] at h
    split at h
    · split at h <;> cases h
      exact Nat.zero_le _
    · cases h
  | done w =>
    cases h
    exact hs.2
  | _ => cases h

/-! ### What a text is read as -/

/-- Whatever is read nests within the depth. -/
theorem nesting_of_read {text : List Char} {v : Json} (h : read text = .ok v) :
    v.nesting ≤ maxDepth := by
  obtain ⟨s, hfeed, hfinish⟩ := State.gives?_eq_some_iff.1 (read_eq_ok_iff.1 h)
  have hs : s.Shallow := State.shallow_of_feed hfeed ⟨trivial, trivial⟩
  exact hs.nesting_of_finish hfinish

/-- What parses is the settled form of what was read. -/
theorem exists_read_of_parse {text : List Char} {v : Json} (h : parse text = .ok v) :
    ∃ w, read text = .ok w ∧ v = w.settled := by
  rw [parse] at h
  cases hread : read text with
  | error fault => rw [hread] at h; cases h
  | ok w => rw [hread] at h; cases h; exact ⟨w, rfl, rfl⟩

/-- Whatever parses has each key of an object once. -/
theorem distinctKeys_of_parse {text : List Char} {v : Json} (h : parse text = .ok v) :
    DistinctKeys v := by
  obtain ⟨w, -, rfl⟩ := exists_read_of_parse h
  exact distinctKeys_settled w

/-- **What a text is read as is nested no deeper than the reader goes.** -/
theorem nesting_of_parse {text : List Char} {v : Json} (h : parse text = .ok v) :
    v.nesting ≤ maxDepth := by
  obtain ⟨w, hread, rfl⟩ := exists_read_of_parse h
  exact Nat.le_trans (nesting_settled_le w) (nesting_of_read hread)

/-- **An element of a list that is read can be written**, if its numbers are whole, and it is nested
no deeper than the reader goes. -/
theorem writable_of_parse_array {text : List Char} {items : List Json} {v : Json}
    (h : parse text = .ok (.array items)) (hmem : v ∈ items) (hv : v.WholeNumbers) :
    v.Writable ∧ v.nesting ≤ maxDepth := by
  have hkeys := distinctKeys_of_parse h
  have hdepth := nesting_of_parse h
  rw [DistinctKeys, distinctKeysItems_iff] at hkeys
  rw [nesting] at hdepth
  have hitem : v.nesting ≤ nestingItems items := nestingItems_le_iff.1 (Nat.le_refl _) v hmem
  exact ⟨writable_of_distinctKeys v (hkeys v hmem) hv, by omega⟩

end AgentSurface.Json
