import AgentSurface.Proofs.Json.Readable
import AgentSurface.Proofs.Json.Records
import AgentSurface.Proofs.Schema.Acceptance

/-!
# Standard — schemas and readers

The schemas of the standard components are built from a few forms, and their readers from the
readers of the same forms.  Each form has a lemma that compares the two (`ReadsIf`): of what the
schema accepts, what the reader takes.  A text, a truth value, a name out of a list and a number as
a double are always read.  A whole number is read only if it is one as it is written, and within the
bounds of the reader, which the schema need not state.

* `readsIf_ref`, `readsIfPresent_nullableRef`, `readsIf_listOf`: a form built from others is read
  where they are.
* `exists_members`, `readsIf_record`: what is known about the members of an accepted record.
* `Members.isSome_field`, `Members.isSome_field?`, `Members.isSome_fieldD`: when a field is read.
-/

namespace AgentSurface.Standard

open Schema (Accepts Document)

/-! ### The forms as schemas -/

namespace Parsed

/-- The form of a value of one JSON type. -/
def typed (t : Json.TypeName) : Schema := .all [.types [t]]

/-- The form of a value of one JSON type, or null. -/
def nullable (t : Json.TypeName) : Schema := .all [.types [t, .null]]

/-- The form that a definition of the schema gives. -/
def ref (name : String) : Schema := .all [.reference name]

/-- The form that a definition gives, or null. -/
def nullableRef (name : String) : Schema := .all [.anyOf [ref name, typed .null]]

/-- The form of a list of values of one form. -/
def listOf (item : Schema) : Schema := .all [.types [.array], .each item]

def choice (names : List String) : Schema :=
  .all [.types [.string], .enumeration (names.map .string)]

/-- A whole number or `null`, not less than zero. -/
def count : Schema := .all [.types [.integer, .null], .minimum (.whole ⟨0, by omega, by omega⟩)]

/-- A whole number or `null`, of eight bits without sign. -/
def byte : Schema :=
  .all [.types [.integer, .null], .minimum (.whole ⟨0, by omega, by omega⟩),
    .maximum (.whole ⟨255, by omega, by omega⟩)]

def record (members : List (String × Schema)) (required : List String) : Schema :=
  .all ([.types [.object], .properties members] ++
    if required.isEmpty then [] else [.required required])

end Parsed

section

variable {d : Document} {n : Nat} {α : Type} {read : Json → Option α} {fits : Json → Prop}
  {schema : Schema} {name : String}

/-- A value that the schema accepts is read exactly if it fits. -/
def ReadsIf (d : Document) (n : Nat) (schema : Schema) (read : Json → Option α)
    (fits : Json → Prop) : Prop :=
  ∀ v : Json, v.DistinctKeys → Accepts d n schema v → ((read v).isSome = true ↔ fits v)

/-- A value that the schema accepts is `null`, which fits, or it is read exactly if it fits. -/
structure ReadsIfPresent (d : Document) (n : Nat) (schema : Schema) (read : Json → Option α)
    (fits : Json → Prop) : Prop where
  null : fits .null
  value : ∀ v : Json, v ≠ .null → v.DistinctKeys → Accepts d n schema v →
    ((read v).isSome = true ↔ fits v)

/-! ### Plain values -/

@[simp] theorem accepts_typed {t : Json.TypeName} {v : Json} :
    Accepts d n (Parsed.typed t) v ↔ v.isOf t = true := by
  simp [Parsed.typed, Json.isOneOf]

@[simp] theorem accepts_nullable {t : Json.TypeName} {v : Json} :
    Accepts d n (Parsed.nullable t) v ↔ v.isWrittenAs t = true ∨ v.isWrittenAs .null = true := by
  simp [Parsed.nullable, Json.isOneOf]

/-- A reference accepts what the definition it names accepts. -/
theorem accepts_ref {target : Schema} {v : Json} (h : d.find? name = some target) :
    Accepts d (n + 1) (Parsed.ref name) v ↔ Accepts d n target v := by
  simp [Parsed.ref, Schema.accepts_reference h]

/-- A list is accepted exactly where each of its items is. -/
theorem accepts_listOf {items : List Json} :
    Accepts d n (Parsed.listOf schema) (.array items) ↔
      ∀ v ∈ items, Accepts d d.definitions.length schema v := by
  have harray : (Json.array items).isOneOf [.array] = true := rfl
  simp [Parsed.listOf, harray]

/-- What a record says about an object: of its members, and which of them there must be. -/
theorem accepts_record {schemas : List (String × Schema)} {required : List String}
    {fields : Json.Fields} :
    Accepts d n (Parsed.record schemas required) (.object fields) ↔
      (∀ p ∈ schemas, ∀ member, fields.get? p.1 = some member →
        Accepts d d.definitions.length p.2 member) ∧
      ∀ key ∈ required, fields.has key = true := by
  have hobject : (Json.object fields).isOneOf [.object] = true := rfl
  cases required <;> simp [Parsed.record, hobject]

theorem readsIf_string : ReadsIf d n (Parsed.typed .string) Json.string? fun _ => True := by
  intro v _ h
  cases v <;> simp_all [Json.isOf, Json.isWrittenAs, Json.string?]

theorem readsIf_bool : ReadsIf d n (Parsed.typed .boolean) Json.bool? fun _ => True := by
  intro v _ h
  cases v <;> simp_all [Json.isOf, Json.isWrittenAs, Json.bool?]

theorem readsIfPresent_string :
    ReadsIfPresent d n (Parsed.nullable .string) Json.string? fun _ => True := by
  refine ⟨trivial, fun v hv _ h => ?_⟩
  cases v <;> simp_all [Json.isWrittenAs, Json.string?]

theorem readsIfPresent_real :
    ReadsIfPresent d n (Parsed.nullable .number) Json.real? fun _ => True := by
  refine ⟨trivial, fun v hv _ h => ?_⟩
  cases v <;> simp_all [Json.isWrittenAs, Json.real?, Json.number?]

/-- A name out of a list is read as what it names. -/
theorem readsIf_choice (names : List (String × α)) :
    ReadsIf d n (Parsed.choice (names.map Prod.fst)) (Json.choice? names) fun _ => True := by
  intro v _ h
  cases v <;>
    simp_all [Parsed.choice, Json.isOneOf, Json.isOf, Json.isWrittenAs, Json.choice?, Json.same]

/-- The members of any object are read. -/
theorem readsIf_anyFields : ReadsIf d n (Parsed.typed .object) Json.anyFields? fun _ => True := by
  intro v hdistinct h
  cases v <;>
    simp_all [Json.isOf, Json.isWrittenAs, Json.anyFields?, Json.DistinctKeys.settled, Json.fields?]

/-! ### Whole numbers -/

/-- The value is a whole number as it is written, from `low` to `high`. -/
def WholeBetween (low high : Int) (v : Json) : Prop := ∃ k, v.int? = some k ∧ low ≤ k ∧ k ≤ high

theorem isSome_intBetween? {low high : Int} {v : Json} :
    (Json.intBetween? low high v).isSome = true ↔ WholeBetween low high v := by
  rw [Json.intBetween?, WholeBetween, Option.isSome_iff_exists]
  simp only [Option.bind_eq_some_iff, Option.ite_none_right_eq_some]
  grind

/-- A whole number is read exactly within its bounds, of which the form says nothing. -/
theorem readsIf_int {low high : Int} :
    ReadsIf d n (Parsed.typed .integer) (Json.intBetween? low high) (WholeBetween low high) :=
  fun _ _ _ => isSome_intBetween?

theorem less_whole {a b : Json.Whole} :
    (Json.Number.whole a).less (.whole b) = decide (a.val < b.val) := by
  simp [Json.Number.less, Json.Number.dyadic]

/-- Where `null` may stand as well, a double without fraction is not taken for a whole number. -/
theorem exists_whole {v : Json} (hv : v ≠ .null) (h : v.isOneOf [.integer, .null] = true) :
    ∃ k : Json.Whole, v = .number (.whole k) := by
  match v with
  | .number (.whole k) => exact ⟨k, rfl⟩
  | .null => exact absurd rfl hv
  | .number (.real _ _) | .bool _ | .string _ | .array _ | .object _ =>
    simp [Json.isOneOf, Json.isWrittenAs] at h

/-- A schema with the bounds of the reader leaves nothing to ask for. -/
theorem readsIfPresent_byte :
    ReadsIfPresent d n Parsed.byte (Json.intBetween? 0 255) fun _ => True := by
  refine ⟨trivial, fun v hv _ h => ?_⟩
  simp only [Parsed.byte, Schema.accepts_all, List.forall_mem_cons, Schema.accepts_types] at h
  obtain ⟨k, rfl⟩ := exists_whole hv h.1
  simp only [Schema.accepts_minimum, Schema.accepts_maximum, less_whole] at h
  rw [isSome_intBetween?, iff_true]
  exact ⟨k.val, rfl, by simpa using h.2.1, by simpa using h.2.2.1⟩

/-- A schema without the upper bound of the reader leaves that bound to ask for. -/
theorem readsIfPresent_count {high : Int} :
    ReadsIfPresent d n Parsed.count (Json.intBetween? 0 high)
      fun v => ∀ k, v.int? = some k → k ≤ high := by
  refine ⟨nofun, fun v hv _ h => ?_⟩
  simp only [Parsed.count, Schema.accepts_all, List.forall_mem_cons, Schema.accepts_types] at h
  obtain ⟨k, rfl⟩ := exists_whole hv h.1
  simp only [Schema.accepts_minimum, less_whole] at h
  rw [isSome_intBetween?]
  have hint : (Json.number (.whole k)).int? = some k.val := rfl
  simp only [WholeBetween, hint, Option.some.injEq, exists_eq_left', forall_eq']
  exact and_iff_right (by simpa using h.2.1)

/-! ### What is built from other forms -/

/-- What the definition of this name accepts is read exactly if it fits. -/
def ReadsDefinition (d : Document) (name : String) (read : Json → Option α)
    (fits : Json → Prop) : Prop :=
  ∃ target, d.find? name = some target ∧ ∀ n, ReadsIf d n target read fits

/-- What reads a definition reads a reference to it. -/
theorem readsIf_ref (h : ReadsDefinition d name read fits) :
    ReadsIf d (n + 1) (Parsed.ref name) read fits := by
  obtain ⟨target, hname, h⟩ := h
  intro v hdistinct haccepted
  simp only [Parsed.ref, Schema.accepts_all, List.forall_mem_singleton,
    Schema.accepts_reference hname] at haccepted
  exact h n v hdistinct haccepted

/-- What reads a definition reads a reference to it that may be null or left out. -/
theorem readsIfPresent_nullableRef (hnull : fits .null) (h : ReadsDefinition d name read fits) :
    ReadsIfPresent d (n + 1) (Parsed.nullableRef name) read fits := by
  refine ⟨hnull, fun v hv hdistinct haccepted => ?_⟩
  simp only [Parsed.nullableRef, Schema.accepts_all, List.forall_mem_singleton,
    Schema.accepts_anyOf, List.exists_mem_cons_iff] at haccepted
  obtain href | htype | hnone := haccepted
  · exact readsIf_ref h v hdistinct href
  · cases v <;> simp_all [Json.isOf, Json.isWrittenAs]
  · exact absurd hnone (by simp)

/-- A list is read exactly where each of its items is. -/
theorem isSome_mapM {items : List Json} :
    (items.mapM read).isSome = true ↔ ∀ item ∈ items, (read item).isSome = true := by
  induction items with
  | nil => simp
  | cons item rest ih =>
    rw [List.forall_mem_cons, ← ih, List.mapM_cons]
    cases read item <;> cases rest.mapM read <;> simp

/-- A list is read if each element fits.  At an element references are counted anew. -/
theorem readsIf_listOf (h : ReadsIf d d.definitions.length schema read fits) :
    ReadsIf d n (Parsed.listOf schema) (Json.list? read)
      fun v => ∀ items, v = .array items → ∀ item ∈ items, fits item := by
  intro v hdistinct haccepted
  simp only [Parsed.listOf, Schema.accepts_all, List.forall_mem_cons, Schema.accepts_types]
    at haccepted
  obtain ⟨htype, hitems, -⟩ := haccepted
  cases v with
  | array items =>
    rw [Json.DistinctKeys, Json.distinctKeysItems_iff] at hdistinct
    rw [Schema.accepts_each] at hitems
    show (items.mapM read).isSome = true ↔ _
    simp only [isSome_mapM, Json.array.injEq, forall_eq']
    exact forall₂_congr fun item hitem => h item (hdistinct item hitem) (hitems item hitem)
  | _ => simp [Json.isOneOf, Json.isOf, Json.isWrittenAs] at htype

/-! ### Records -/

/-- What is known about the members of a record that is accepted: each stands once, those with a
schema are accepted by it, and those that are required are there. -/
structure Members (d : Document) (schemas : List (String × Schema)) (required : List String)
    (fields : Json.Fields) : Prop where
  keys : fields.keys.Nodup
  distinct : ∀ {key member}, fields.get? key = some member → member.DistinctKeys
  accepted : ∀ p ∈ schemas, ∀ member, fields.get? p.1 = some member →
    Accepts d d.definitions.length p.2 member
  present : ∀ key ∈ required, fields.has key = true

/-- What a record's form accepts is an object whose members have the forms given for them. -/
theorem exists_members {schemas : List (String × Schema)} {required : List String} {v : Json}
    (hdistinct : v.DistinctKeys) (h : Accepts d n (Parsed.record schemas required) v) :
    ∃ fields, v = .object fields ∧ Members d schemas required fields := by
  cases v with
  | object fields =>
    obtain ⟨haccepted, hpresent⟩ := accepts_record.1 h
    rw [Json.DistinctKeys, Json.distinctKeysFields_iff] at hdistinct
    refine ⟨fields, rfl, hdistinct.1, fun {key member} hmember => ?_, haccepted, hpresent⟩
    exact hdistinct.2 (key, member) ((Json.Fields.get?_eq_some_iff hdistinct.1).1 hmember)
  | _ => simp [Parsed.record, Json.isOneOf, Json.isOf, Json.isWrittenAs] at h

/-- A record is compared by its members. -/
theorem readsIf_record {schemas : List (String × Schema)} {required : List String}
    (h : ∀ fields, Members d schemas required fields →
      ((read (.object fields)).isSome = true ↔ fits (.object fields))) :
    ReadsIf d n (Parsed.record schemas required) read fits := by
  intro v hdistinct haccepted
  obtain ⟨fields, rfl, m⟩ := exists_members hdistinct haccepted
  exact h fields m

namespace Members

variable {schemas : List (String × Schema)} {required : List String} {fields : Json.Fields}
  {key : String}

theorem of? (m : Members d schemas required fields) (names : List String) :
    Json.Record.of? names (.object fields) = some ⟨fields⟩ :=
  Json.Record.of?_object m.keys names

/-- A required member is read exactly where it fits. -/
theorem isSome_field (m : Members d schemas required fields)
    (h : ReadsIf d d.definitions.length schema read fits) (hkey : (key, schema) ∈ schemas)
    (hpresent : key ∈ required) :
    (Json.Record.field ⟨fields⟩ key read).isSome = true ↔
      ∀ member, fields.get? key = some member → fits member := by
  have hhas := m.present key hpresent
  rw [Json.Record.field, Json.Record.get?]
  cases hmember : fields.get? key with
  | none =>
    simp only [Json.Fields.has, List.any_eq_true, Json.Fields.get?, Option.map_eq_none_iff,
      List.find?_eq_none] at hhas hmember
    obtain ⟨member, hmem, hkey⟩ := hhas
    exact absurd hkey (hmember member hmem)
  | some member =>
    simp only [Option.bind_some, Option.some.injEq, forall_eq']
    exact h member (m.distinct hmember) (m.accepted _ hkey member hmember)

/-- A member that may be left out is read exactly where it is absent or fits. -/
theorem isSome_field? (m : Members d schemas required fields)
    (h : ReadsIfPresent d d.definitions.length schema read fits) (hkey : (key, schema) ∈ schemas) :
    (Json.Record.field? ⟨fields⟩ key read).isSome = true ↔
      ∀ member, fields.get? key = some member → fits member := by
  rw [Json.Record.field?, Json.Record.get?]
  cases hmember : fields.get? key with
  | none => simp
  | some member =>
    simp only [Option.some.injEq, forall_eq']
    by_cases hnull : member = .null
    · simp [hnull, h.null]
    · rw [← h.value member hnull (m.distinct hmember) (m.accepted _ hkey member hmember)]
      cases member <;> simp_all

/-- A member with a default is read exactly where it is absent or fits. -/
theorem isSome_fieldD (m : Members d schemas required fields)
    (h : ReadsIf d d.definitions.length schema read fits) (hkey : (key, schema) ∈ schemas)
    {default : α} :
    (Json.Record.fieldD ⟨fields⟩ key default read).isSome = true ↔
      ∀ member, fields.get? key = some member → fits member := by
  rw [Json.Record.fieldD, Json.Record.get?]
  cases hmember : fields.get? key with
  | none => simp
  | some member =>
    simp only [Option.some.injEq, forall_eq']
    exact h member (m.distinct hmember) (m.accepted _ hkey member hmember)

end Members

end

end AgentSurface.Standard
