import AgentSurface.Schema.Validator

/-!
# Schema — what a schema accepts

A schema accepts a value when it finds nothing wrong with it.  Each keyword has a lemma that says
what it accepts, so that no later proof opens the list of violations.

* `Validator.check_eq_nil_iff`: a validator that goes by a schema gives no error exactly to what the
  schema accepts.
-/

namespace AgentSurface.Schema

/-- Nothing is wrong with the value, where `references` references may be followed at its place. -/
def Accepts (d : Document) (references : Nat) (schema : Schema) (v : Json) : Prop :=
  violations d references schema v = []

/-- A keyword that gives one message or none. -/
theorem ite_here_eq_nil_iff {holds : Bool} {message : String} :
    (if holds = true then [] else here message) = [] ↔ holds = true := by
  cases holds <;> simp [here]

section

variable {d : Document} {n : Nat} {v : Json}

/-- A value is accepted if it is of one of the types. -/
@[simp] theorem accepts_types {names : List Json.TypeName} :
    Accepts d n (.types names) v ↔ v.isOneOf names = true := by
  rw [Accepts, violations, ite_here_eq_nil_iff]

/-- Keywords beside each other are all to be met. -/
@[simp] theorem accepts_all {schemas : List Schema} :
    Accepts d n (.all schemas) v ↔ ∀ schema ∈ schemas, Accepts d n schema v := by
  rw [Accepts, violations]
  induction schemas with
  | nil => simp [allViolations]
  | cons schema rest ih =>
    rw [allViolations, List.append_eq_nil_iff, ih, List.forall_mem_cons, Accepts]

/-- One of the schemas is enough. -/
@[simp] theorem accepts_anyOf {schemas : List Schema} :
    Accepts d n (.anyOf schemas) v ↔ ∃ schema ∈ schemas, Accepts d n schema v := by
  have hany : anyHolds d n schemas v = true ↔ ∃ schema ∈ schemas, Accepts d n schema v := by
    induction schemas with
    | nil => simp [anyHolds]
    | cons schema rest ih =>
      rw [anyHolds, Bool.or_eq_true, ih, List.isEmpty_iff]
      simp only [List.mem_cons, exists_eq_or_imp, Accepts]
  rw [← hany, Accepts, violations, ite_here_eq_nil_iff]

/-- A reference accepts what it refers to. -/
theorem accepts_reference {name : String} {target : Schema} (h : d.find? name = some target) :
    Accepts d (n + 1) (.reference name) v ↔ Accepts d n target v := by
  rw [Accepts, violations, h, Accepts]

/-- A member is accepted by the schema under its key; members without a schema are let through. -/
@[simp] theorem accepts_properties {schemas : List (String × Schema)} {fields : Json.Fields} :
    Accepts d n (.properties schemas) (.object fields) ↔
      ∀ p ∈ schemas, ∀ member, fields.get? p.1 = some member →
        Accepts d d.definitions.length p.2 member := by
  rw [Accepts, violations]
  induction schemas with
  | nil => simp [propertyViolations]
  | cons p rest ih =>
    obtain ⟨key, schema⟩ := p
    rw [propertyViolations, List.append_eq_nil_iff, ih, List.forall_mem_cons]
    refine and_congr_left' ?_
    dsimp only
    split
    · next member hmember =>
      rw [List.map_eq_nil_iff]
      simp only [hmember, Option.some.injEq, forall_eq', Accepts]
    · next hnone => simp [hnone]

/-- Required members are there, whatever they hold. -/
@[simp] theorem accepts_required {names : List String} {fields : Json.Fields} :
    Accepts d n (.required names) (.object fields) ↔
      ∀ name ∈ names, fields.has name = true := by
  rw [Accepts, violations, missing, List.map_eq_nil_iff, List.filter_eq_nil_iff]
  simp

/-- All elements meet the schema. -/
@[simp] theorem accepts_each {schema : Schema} {items : List Json} :
    Accepts d n (.each schema) (.array items) ↔
      ∀ item ∈ items, Accepts d d.definitions.length schema item := by
  have hitems : ∀ i, itemViolations d schema i items = [] ↔
      ∀ item ∈ items, Accepts d d.definitions.length schema item := by
    induction items with
    | nil => simp [itemViolations]
    | cons item rest ih =>
      intro i
      rw [itemViolations, List.append_eq_nil_iff, List.map_eq_nil_iff, ih, List.forall_mem_cons,
        Accepts]
  rw [Accepts, violations, hitems]

@[simp] theorem accepts_enumeration {values : List Json} :
    Accepts d n (.enumeration values) v ↔ values.any (Json.same · v) = true := by
  rw [Accepts, violations, ite_here_eq_nil_iff]

@[simp] theorem accepts_minimum {limit number : Json.Number} :
    Accepts d n (.minimum limit) (.number number) ↔ number.less limit = false := by
  rw [Accepts, violations, bound, ite_here_eq_nil_iff, Bool.not_eq_true']

@[simp] theorem accepts_maximum {limit number : Json.Number} :
    Accepts d n (.maximum limit) (.number number) ↔ limit.less number = false := by
  rw [Accepts, violations, bound, ite_here_eq_nil_iff, Bool.not_eq_true']

end

/-! ### Validators -/

/-- A validator that goes by a schema gives no error exactly to what the schema accepts. -/
theorem Validator.check_eq_nil_iff {schema : Json} {validator : Validator} {d : Document}
    (hvalidator : Validator.ofSchema? schema = some validator)
    (hd : Document.ofJson? schema = some d) {v : Json} {target : Target} :
    validator.check v target = .ok [] ↔ Accepts d d.definitions.length d.root v := by
  rw [ofSchema?, hd] at hvalidator
  cases hvalidator
  simp only [documentErrors, Except.ok.injEq, List.map_eq_nil_iff, Document.violations, Accepts]

end AgentSurface.Schema
