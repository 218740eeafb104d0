import AgentSurface.Proofs.Render.Attributes
import AgentSurface.Proofs.Render.Isolation
import AgentSurface.Proofs.Render.Notations

/-!
# Render — data as attributes

An element of a type of the catalog can have its data under the attribute `data`, or in attributes
of their own beside `id` and `options`.  In the second form the data are what is left of the
properties when first the identifier and then the options are taken out (`heldData`).  Taking a
property out moves the last one into its place, so the data are those of the attributes, but they
need not be in their order.

* `takeOut_special_eq_iff`: when what is left of the properties is in their order.
* `shorthand_is_data`: both forms come to the same, for the data in the order in which they are
  left.
* `shorthand_reordered`: an identifier that stands first changes the order of the data.
-/

namespace AgentSurface

namespace Jsx.Attribute

variable {attrs : List Attribute}

theorem keys_literals_sublist (attrs : List Attribute) :
    (literals attrs).keys.Sublist (attrs.map (·.name)) := by
  induction attrs with
  | nil => exact .slnil
  | cons a rest ih =>
    obtain ⟨n, value⟩ := a
    cases value with
    | literal v => exact ih.cons_cons n
    | ident path => exact ih.cons n

theorem literals_filter (p : String → Bool) (attrs : List Attribute) :
    literals (attrs.filter fun a => p a.name) = (literals attrs).filter fun m => p m.1 := by
  induction attrs with
  | nil => rfl
  | cons a rest ih =>
    obtain ⟨n, value⟩ := a
    cases hp : p n <;> cases value <;> simp [hp, ih]

end Jsx.Attribute

namespace Render

open Jsx (Attribute)

variable {bs : Bindings} {entry : Catalog.Entry} {typeName : String}
  {attrs given : List Attribute}

/-! ### What the attributes are for -/

/-- The names of attributes that are not part of the data. -/
def special : List String := ["id", "options"]

/-- The attributes give data in attributes of their own: each name stands once, and none is
`data`. -/
structure Shorthand (attrs : List Attribute) : Prop where
  nodup : (attrs.map (·.name)).Nodup
  data : ∀ a ∈ attrs, a.name ≠ "data"

/-- The members that are neither identifier nor options. -/
def plain (fields : Json.Fields) : Json.Fields := fields.filter fun m => m.1 ∉ special

/-- The data that the attributes give, in the order of the attributes; a name is no part of them. -/
def ownData (attrs : List Attribute) : Json.Fields :=
  Attribute.literals (attrs.filter fun a => a.name ∉ special)

/-- The data that are left when identifier and options are taken out. -/
def heldData (attrs : List Attribute) : Json.Fields :=
  ((Attribute.literals attrs).takeOut "id").takeOut "options"

/-- The attributes of the form with `data`. -/
def spelledOut (attrs : List Attribute) (data : Json.Fields) : List Attribute :=
  attrs.filter (fun a => a.name ∈ special) ++ [⟨"data", .literal (.object data)⟩]

theorem nodup_keys_literals (h : (attrs.map (·.name)).Nodup) :
    (Attribute.literals attrs).keys.Nodup :=
  (Attribute.keys_literals_sublist attrs).nodup h

/-! ### The order of the data -/

theorem ownData_eq (attrs : List Attribute) : ownData attrs = plain (Attribute.literals attrs) :=
  Attribute.literals_filter (fun name => name ∉ special) attrs

theorem plain_append (fields more : Json.Fields) :
    plain (fields ++ more) = plain fields ++ plain more := List.filter_append ..

theorem plain_of_forall {fields : Json.Fields} (h : ∀ m ∈ fields, m.1 ∉ special) :
    plain fields = fields :=
  List.filter_eq_self.2 fun m hm => decide_eq_true (h m hm)

theorem plain_of_not_mem {fields : Json.Fields} (hid : "id" ∉ fields.keys)
    (hoptions : "options" ∉ fields.keys) : plain fields = fields := by
  refine plain_of_forall fun m hm hspecial => ?_
  have hkey := Json.Fields.mem_keys_of_mem hm
  simp only [special, List.mem_cons, List.not_mem_nil, or_false] at hspecial
  rcases hspecial with heq | heq
  · exact hid (heq ▸ hkey)
  · exact hoptions (heq ▸ hkey)

/-- Taking identifier and options out leaves the other members, up to the order. -/
theorem perm_takeOut_special {fields : Json.Fields} (h : fields.keys.Nodup) :
    ((fields.takeOut "id").takeOut "options").Perm (plain fields) := by
  have hid := Json.Fields.perm_takeOut h "id"
  have hoptions := Json.Fields.perm_takeOut (Json.Fields.nodup_keys_takeOut h "id") "options"
  refine hoptions.trans ((hid.filter _).trans (.of_eq ?_))
  rw [plain, List.filter_filter]
  refine List.filter_congr fun m _ => ?_
  simp [special, Bool.and_comm]

/-- Members before the first special one stay where they are. -/
theorem takeOut_special_append {before : Json.Fields} (hbefore : ∀ m ∈ before, m.1 ∉ special)
    (behind : Json.Fields) :
    ((before ++ behind).takeOut "id").takeOut "options" =
      before ++ (behind.takeOut "id").takeOut "options" := by
  have hnot : ∀ key ∈ special, key ∉ before.keys := by
    intro key hkey hmem
    obtain ⟨m, hm, rfl⟩ := List.mem_map.1 hmem
    exact hbefore m hm hkey
  rw [Json.Fields.takeOut_append_of_not_mem (hnot "id" (by simp [special])),
    Json.Fields.takeOut_append_of_not_mem (hnot "options" (by simp [special]))]

/-- The members that are left when identifier and options are taken out keep their order. -/
inductive InOrder : Json.Fields → Prop where
  /-- At most one of them stands behind the first special member. -/
  | few {before behind : Json.Fields} (hbefore : ∀ m ∈ before, m.1 ∉ special)
    (hbehind : (plain behind).length ≤ 1) : InOrder (before ++ behind)
  /-- Two of them stand behind options and identifier: the last one moves before the other, and
  then the other before it. -/
  | two {before : Json.Fields} (hbefore : ∀ m ∈ before, m.1 ∉ special) (options id : Json)
    (first second : String × Json) :
    InOrder (before ++ [("options", options), ("id", id), first, second])

theorem InOrder.takeOut_eq {fields : Json.Fields} (h : InOrder fields)
    (hnodup : fields.keys.Nodup) : (fields.takeOut "id").takeOut "options" = plain fields := by
  cases h with
  | @few before behind hbefore hbehind =>
    rw [Json.Fields.keys_append] at hnodup
    have hperm := perm_takeOut_special (List.nodup_append.1 hnodup).2.1
    rw [takeOut_special_append hbefore, plain_append, plain_of_forall hbefore]
    -- One member has no other order.
    generalize plain behind = left at hbehind hperm ⊢
    match left, hbehind with
    | [], _ => rw [hperm.eq_nil]
    | [m], _ => rw [hperm.eq_singleton]
  | @two before hbefore options id first second =>
    obtain ⟨-, hkeys, -⟩ := List.nodup_append.1 (Json.Fields.keys_append .. ▸ hnodup)
    have hnot : "id" ∉ Json.Fields.keys [first, second] ∧
        "options" ∉ Json.Fields.keys [first, second] := by
      simp only [Json.Fields.keys, List.map_cons, List.nodup_cons, List.mem_cons, not_or] at hkeys ⊢
      exact ⟨hkeys.2.1, hkeys.1.2⟩
    rw [takeOut_special_append hbefore, plain_append, plain_of_forall hbefore]
    congr 1
    exact (plain_of_not_mem hnot.1 hnot.2).symm

/-- Where a list of distinct elements begins with one of them, nothing stands before it. -/
theorem eq_nil_of_cons_eq_append_cons {α : Type} {a : α} {xs before behind : List α}
    (hnodup : (before ++ a :: behind).Nodup) (h : a :: xs = before ++ a :: behind) :
    before = [] := by
  cases before with
  | nil => rfl
  | cons b before =>
    obtain ⟨rfl, -⟩ := List.cons_eq_cons.1 h
    simp at hnodup

/-- If the first member is taken out and the others keep their order, there is at most one. -/
theorem length_le_of_takeOut_head {key : String} {v : Json} {rest : Json.Fields}
    (hnodup : rest.Nodup) (h : Json.Fields.takeOut ((key, v) :: rest) key = rest) :
    rest.length ≤ 1 := by
  obtain rfl | ⟨between, last, rfl⟩ := List.eq_nil_or_concat' rest
  · exact Nat.zero_le 1
  · rw [Json.Fields.takeOut_head] at h
    rw [eq_nil_of_cons_eq_append_cons hnodup h]
    exact Nat.le_refl 1

/-- Behind an identifier that stands first. -/
theorem length_le_of_id {v : Json} {rest : Json.Fields}
    (hid : "id" ∉ rest.keys) (hrest : rest.keys.Nodup)
    (h : (Json.Fields.takeOut (("id", v) :: rest) "id").takeOut "options" = plain rest) :
    (plain rest).length ≤ 1 := by
  have hnodup : (plain rest).Nodup := (hrest.of_map _).filter _
  obtain rfl | ⟨between, ⟨key, w⟩, rfl⟩ := List.eq_nil_or_concat' rest
  · exact Nat.zero_le 1
  rw [Json.Fields.keys_append, List.mem_append, not_or] at hid
  rw [Json.Fields.takeOut_head, plain_append] at h
  rw [plain_append] at hnodup ⊢
  by_cases hkey : key = "options"
  · -- The options are last, so they come first and are taken out from there.
    subst hkey
    rw [Json.Fields.keys_append, List.nodup_append] at hrest
    have hbetween : plain between = between :=
      plain_of_not_mem hid.1 fun hmem => hrest.2.2 _ hmem _ List.mem_cons_self rfl
    have hnone : plain [("options", w)] = [] := rfl
    rw [hnone, List.append_nil, hbetween] at h hnodup ⊢
    exact length_le_of_takeOut_head hnodup h
  · have hone : plain [(key, w)] = [(key, w)] :=
      plain_of_not_mem hid.2 fun hmem => hkey (List.mem_singleton.1 hmem).symm
    rw [Json.Fields.takeOut, if_neg (by simpa using hkey), hone] at h
    rw [hone] at hnodup ⊢
    rw [eq_nil_of_cons_eq_append_cons hnodup h]
    exact Nat.le_refl 1

theorem plain_around_id {before behind : Json.Fields} {id : Json}
    (hnodup : (before ++ ("id", id) :: behind).keys.Nodup)
    (hoptions : "options" ∉ (before ++ ("id", id) :: behind).keys) :
    "id" ∉ before.keys ∧ plain (before ++ ("id", id) :: behind) = before ++ behind ∧
      (before ++ behind).Nodup := by
  have hkeys : (before ++ ("id", id) :: behind).keys = before.keys ++ "id" :: behind.keys :=
    Json.Fields.keys_append _ _
  rw [hkeys, List.nodup_middle, ← Json.Fields.keys_append, List.nodup_cons] at hnodup
  obtain ⟨hid, hnodup⟩ := hnodup
  have hoptions : "options" ∉ (before ++ behind).keys := by
    simp_all [Json.Fields.keys_append]
  have hbehind : plain (("id", id) :: behind) = plain behind := rfl
  refine ⟨?_, ?_, hnodup.of_map _⟩
  · rw [Json.Fields.keys_append] at hid
    exact fun hmem => hid (List.mem_append_left _ hmem)
  · rw [plain_append, hbehind, ← plain_append, plain_of_not_mem hid hoptions]

/-- Behind options that stand first. -/
theorem few_or_two_of_options {v : Json} {rest : Json.Fields} (hoptions : "options" ∉ rest.keys)
    (hrest : rest.keys.Nodup)
    (h : (Json.Fields.takeOut (("options", v) :: rest) "id").takeOut "options" = plain rest) :
    (plain rest).length ≤ 1 ∨ ∃ id first second, rest = [("id", id), first, second] := by
  rw [Json.Fields.takeOut, if_neg (by simp)] at h
  by_cases hid : "id" ∈ rest.keys
  · obtain ⟨⟨_, id⟩, hmem, rfl⟩ := List.mem_map.1 hid
    obtain ⟨before, behind, rfl⟩ := List.append_of_mem hmem
    obtain ⟨hid, hplain, hnodup⟩ := plain_around_id hrest hoptions
    rw [hplain, Json.Fields.takeOut_append_of_not_mem hid] at h
    rw [hplain]
    obtain rfl | ⟨between, last, rfl⟩ := List.eq_nil_or_concat' behind
    · rw [Json.Fields.takeOut_singleton, List.append_nil] at h
      rw [List.append_nil] at hnodup ⊢
      exact .inl (length_le_of_takeOut_head hnodup h)
    rw [Json.Fields.takeOut_head] at h
    obtain rfl | ⟨between, first, rfl⟩ := List.eq_nil_or_concat' between
    · exact .inl (length_le_of_takeOut_head hnodup h)
    -- The last but one comes first when the last one stands in the place of the identifier.
    have hmoved : Json.Fields.takeOut (("options", v) :: (before ++ last :: (between ++ [first])))
        "options" = first :: (before ++ last :: between) := by
      simpa using Json.Fields.takeOut_head "options" v (before ++ last :: between) first
    have hsplit : before ++ (between ++ [first] ++ [last]) =
        before ++ between ++ first :: [last] := by simp
    rw [hmoved, hsplit] at h
    rw [hsplit] at hnodup
    obtain ⟨rfl, rfl⟩ := List.append_eq_nil_iff.1 (eq_nil_of_cons_eq_append_cons hnodup h)
    exact .inr ⟨id, first, last, rfl⟩
  · rw [Json.Fields.takeOut_of_not_mem hid, plain_of_not_mem hid hoptions] at h
    rw [plain_of_not_mem hid hoptions]
    exact .inl (length_le_of_takeOut_head (hrest.of_map _) h)

/-- **The data that are left are in their order in these cases only.** -/
theorem takeOut_special_eq_iff {fields : Json.Fields} (hnodup : fields.keys.Nodup) :
    (fields.takeOut "id").takeOut "options" = plain fields ↔ InOrder fields := by
  refine ⟨fun h => ?_, fun h => h.takeOut_eq hnodup⟩
  obtain ⟨before, behind, rfl, hbefore, hhead⟩ : ∃ before behind, fields = before ++ behind ∧
      (∀ m ∈ before, m.1 ∉ special) ∧ ∀ m ∈ behind.head?, m.1 ∈ special := by
    refine ⟨_, _, (List.takeWhile_append_dropWhile (p := fun m => m.1 ∉ special)).symm,
      fun m hm => by simpa using List.mem_takeWhile_imp hm, fun m hm => ?_⟩
    have hnot := List.head?_dropWhile_not (fun m => decide (m.1 ∉ special)) fields
    rw [Option.mem_def.1 hm] at hnot
    simpa using hnot
  rw [takeOut_special_append hbefore, plain_append, plain_of_forall hbefore,
    List.append_cancel_left_eq] at h
  obtain ⟨-, hnodup, -⟩ := List.nodup_append.1 (Json.Fields.keys_append .. ▸ hnodup)
  cases behind with
  | nil => exact .few hbefore (Nat.zero_le 1)
  | cons m rest =>
    obtain ⟨key, v⟩ := m
    obtain ⟨hnot, hrest⟩ : key ∉ Json.Fields.keys rest ∧ (Json.Fields.keys rest).Nodup :=
      List.nodup_cons.1 hnodup
    have hkey : key ∈ special := hhead _ rfl
    have hplain : plain ((key, v) :: rest) = plain rest := List.filter_cons_of_neg (by simp [hkey])
    rw [hplain] at h
    simp only [special, List.mem_cons, List.not_mem_nil, or_false] at hkey
    obtain rfl | rfl := hkey
    · refine .few hbefore ?_
      rw [hplain]
      exact length_le_of_id hnot hrest h
    · obtain hfew | ⟨id, first, second, rfl⟩ := few_or_two_of_options hnot hrest h
      · refine .few hbefore ?_
        rwa [hplain]
      · exact .two hbefore v id first second

/-! ### Both forms -/

/-- Where no name stands twice, an element of a type has the literals as its properties. -/
theorem node_of_component (hpure : bs.catalog.Pure)
    (hresolve : bs.resolve typeName = some (.component entry))
    (hnodup : (attrs.map (·.name)).Nodup) :
    node bs (.element typeName attrs []) =
      catalogElement bs.catalog entry (Attribute.literals attrs) := by
  have hnames : ∀ slot path, ⟨slot, .ident path⟩ ∈ attrs → ∃ u, ident bs path = .ok u := by
    intro slot path _
    cases h : ident bs path with
    | ok u => exact ⟨u, rfl⟩
    | error panic => exact absurd (ident_panics h) (hpure.not_panics panic)
  obtain ⟨⟨props, slots⟩, hattrs⟩ := exists_attributes_iff.2 hnames
  have hmerge : Json.Fields.merge [] (Attribute.literals attrs) = Attribute.literals attrs :=
    Json.Fields.merge_of_nodup (nodup_keys_literals hnodup)
  rw [node, hresolve]
  dsimp only
  rw [hattrs, attributes_fst hattrs, hmerge]
  rfl

/-- What is special is the same in both forms. -/
theorem get?_spelledOut (hattrs : Shorthand attrs) {data : Json.Fields}
    (hgiven : given.Perm (spelledOut attrs data)) (hnodup : (given.map (·.name)).Nodup)
    {key : String} (hkey : key ∈ special) :
    (Attribute.literals given).get? key = (Attribute.literals attrs).get? key := by
  have hdata : key ≠ "data" := by
    rintro rfl
    simp [special] at hkey
  refine Option.ext fun v => ?_
  rw [Json.Fields.get?_eq_some_iff (nodup_keys_literals hnodup),
    Json.Fields.get?_eq_some_iff (nodup_keys_literals hattrs.nodup),
    Attribute.mem_literals_iff, Attribute.mem_literals_iff, hgiven.mem_iff]
  simp [spelledOut, hkey, hdata]

/-- Both forms give the same identifier, options and data. -/
theorem componentParts_spelledOut (hattrs : Shorthand attrs)
    (hgiven : given.Perm (spelledOut attrs (heldData attrs)))
    (hnodup : (given.map (·.name)).Nodup) :
    componentParts typeName (Attribute.literals given) =
      componentParts typeName (Attribute.literals attrs) := by
  have hkeys := nodup_keys_literals hnodup
  have hfound : (Attribute.literals given).get? "data" = some (.object (heldData attrs)) := by
    rw [Json.Fields.get?_eq_some_iff hkeys, Attribute.mem_literals_iff, hgiven.mem_iff]
    simp [spelledOut]
  have hnone : (Attribute.literals attrs).get? "data" = none := by
    refine Option.eq_none_iff_forall_ne_some.2 fun v hv => ?_
    rw [Json.Fields.get?_eq_some_iff (nodup_keys_literals hattrs.nodup),
      Attribute.mem_literals_iff] at hv
    exact hattrs.data _ hv rfl
  rw [componentParts_of_nodup hkeys, componentParts_of_nodup (nodup_keys_literals hattrs.nodup),
    get?_spelledOut hattrs hgiven hnodup (by simp [special]),
    get?_spelledOut hattrs hgiven hnodup (by simp [special]), hfound, hnone]
  rfl

/-- One view, or fallbacks for the same errors, which differ in what they were read from at most. -/
inductive SameButRaw : View → View → Prop where
  | shown (v : View) : SameButRaw v v
  | rejected (id typeName : Option String) (errors : List Schema.FieldError) (raw raw' : Json) :
    SameButRaw (.fallback (.validationError id typeName errors raw))
      (.fallback (.validationError id typeName errors raw'))

/-- What an element of a type is shown as depends on identifier, options and data alone. -/
theorem exists_sameButRaw (hpure : entry.Pure) {catalog : Catalog}
    (hhas : catalog.has entry.typeName = true) {p q : Json.Fields}
    (h : componentParts entry.typeName p = componentParts entry.typeName q) :
    ∃ v w, catalogElement catalog entry p = .ok v ∧ catalogElement catalog entry q = .ok w ∧
      SameButRaw v w := by
  rw [catalogElement, catalogElement, h]
  obtain ⟨id, options, data⟩ := componentParts entry.typeName q
  obtain ⟨verdict, hverdict⟩ := Update.exists_checkPayload hpure data options
  dsimp only
  rw [hverdict]
  cases verdict with
  | ok held =>
    refine ⟨_, _, rfl, rfl, ?_⟩
    rw [component_of_has hhas (.object p) (.object q)]
    exact .shown _
  | error errors => exact ⟨_, _, rfl, rfl, .rejected _ _ _ _ _⟩

/-- **Attributes of an element of a type stand for its data**, in the order in which they are left.

Take a type of the catalog that is exposed and not bound, and validators that do not panic.  Let an
element have the attributes of the data with each name once, `id` and `options` anywhere among them
or not at all, and no `data`.  The element with the same `id` and `options` and with `data`, in any
order, is shown by the same view or refused for the same errors, if `data` are an object of the data
as they are left when `id` and `options` are taken out.  These are the data of the attributes up to
their order.  They are in their order if at most one of them stands behind the first of `id` and
`options`, or if two stand there and `options` and then `id` directly before them, and else they are
not (`InOrder`). -/
theorem shorthand_is_data (hpure : bs.catalog.Pure) (hexposed : bs.catalogInJsx = true)
    (hunbound : bs.binding? typeName = none) (hentry : bs.catalog.get? typeName = some entry)
    (hattrs : Shorthand attrs) (hgiven : given.Perm (spelledOut attrs (heldData attrs))) :
    (heldData attrs).Perm (ownData attrs) ∧
    (heldData attrs = ownData attrs ↔ InOrder (Attribute.literals attrs)) ∧
    ∃ v w, node bs (.element typeName attrs []) = .ok v ∧
      node bs (.element typeName given []) = .ok w ∧ SameButRaw v w := by
  have htype : entry.typeName = typeName := by simpa using List.find?_some hentry
  subst htype
  have hresolve := resolve_of_unbound hexposed hunbound hentry
  have hkeys := nodup_keys_literals hattrs.nodup
  refine ⟨?_, ?_, ?_⟩
  · rw [ownData_eq]
    exact perm_takeOut_special hkeys
  · rw [ownData_eq]
    exact takeOut_special_eq_iff hkeys
  · have hnodup : (given.map (·.name)).Nodup := by
      rw [(hgiven.map _).nodup_iff, spelledOut, List.map_append]
      refine (((List.filter_sublist).map _).nodup hattrs.nodup).append (List.nodup_singleton _) ?_
      intro name hname hdata
      obtain ⟨a, ha, rfl⟩ := List.mem_map.1 hname
      exact hattrs.data a (List.mem_of_mem_filter ha) (List.mem_singleton.1 hdata)
    rw [node_of_component hpure hresolve hattrs.nodup, node_of_component hpure hresolve hnodup]
    refine exists_sameButRaw (hpure entry (List.mem_of_find?_eq_some hentry)) ?_
      (componentParts_spelledOut hattrs hgiven hnodup).symm
    rw [Catalog.has, hentry]
    rfl

/-- An identifier between two attributes of the data, and behind the data. -/
theorem shorthand_is_data_between :
    let entry : Catalog.Entry :=
      { typeName := "Card", purpose := "", data := .ofFunction fun _ _ => [] }
    let bs : Bindings := { catalog := ⟨[entry]⟩ }
    let attrs : List Attribute :=
      [⟨"x", .literal (.bool true)⟩, ⟨"id", .literal (.string "a")⟩, ⟨"y", .literal .null⟩]
    let data : Json.Fields := [("x", .bool true), ("y", .null)]
    let given : List Attribute :=
      [⟨"data", .literal (.object data)⟩, ⟨"id", .literal (.string "a")⟩]
    bs.catalog.Pure ∧ Shorthand attrs ∧ given.Perm (spelledOut attrs (heldData attrs)) ∧
      heldData attrs = data ∧
      ∃ v w, node bs (.element "Card" attrs []) = .ok v ∧
        node bs (.element "Card" given []) = .ok w ∧ SameButRaw v w := by
  intro entry bs attrs data given
  have hpure : bs.catalog.Pure := by
    simp [bs, entry, Catalog.Pure, Catalog.Entry.Pure, Schema.Validator.Pure,
      Schema.Validator.ofFunction]
  have hattrs : Shorthand attrs := ⟨by decide, by simp [attrs]⟩
  have hgiven : given.Perm (spelledOut attrs (heldData attrs)) := .swap _ _ _
  have hentry : bs.catalog.get? "Card" = some entry := rfl
  obtain ⟨-, horder, hshown⟩ := shorthand_is_data hpure rfl rfl hentry hattrs hgiven
  exact ⟨hpure, hattrs, hgiven,
    horder.2 (@InOrder.few [("x", .bool true)] [("id", .string "a"), ("y", .null)]
      (by simp [special]) (Nat.le_refl 1)), hshown⟩

/-- **Attributes need not stand for their data in their order.**  Behind an identifier that stands
first, the last of them becomes the first member of the data. -/
theorem shorthand_reordered :
    let bs : Bindings :=
      { catalog := ⟨[{ typeName := "Card", purpose := "", data := .ofFunction fun _ _ => [] }]⟩ }
    let id : Attribute := ⟨"id", .literal (.string "a")⟩
    let x := ("x", Json.bool true)
    let y := ("y", Json.bool false)
    let z := ("z", Json.null)
    node bs (.element "Card" (id :: literals [x, y, z]) []) =
        .ok (.component "a" "Card" (.object [z, x, y]) (.object [])) ∧
      node bs (.element "Card" [id, ⟨"data", .literal (.object [x, y, z])⟩] []) =
        .ok (.component "a" "Card" (.object [x, y, z]) (.object [])) :=
  ⟨rfl, rfl⟩

end Render
end AgentSurface
