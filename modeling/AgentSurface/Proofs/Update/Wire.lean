import AgentSurface.Proofs.Json.Approximation
import AgentSurface.Proofs.Json.Records
import AgentSurface.Update.Message

/-!
# Update — messages on the wire

A message is written with all that it holds: options that are `null` are written as `null`, and
options that are missing are left out.  The reader takes both for missing options.  All else is read
as it was written, whatever the number of components and of type names, and whatever the data.

* `message_read_back`: a message is read as itself, but for options that are `null`.
* `null_options_lost`: a message that is not read as itself.
-/

namespace AgentSurface.Update

/-! ### Messages as values of their types -/

/-- No object in the payload has a key twice. -/
structure Payload.Proper (p : Payload) : Prop where
  data : p.data.DistinctKeys
  options : ∀ options, p.options = some options → options.DistinctKeys

/-- No type name stands twice, and the payloads are proper. -/
structure Component.Proper (c : Component) : Prop where
  typeNames : (c.payloads.map Prod.fst).Nodup
  payloads : ∀ p ∈ c.payloads, p.2.Proper

/-- A message whose components are all proper. -/
def Message.Proper (m : Message) : Prop := ∀ c ∈ m.components, c.Proper

/-! ### What is read -/

/-- The payload without options that are `null`. -/
def Payload.received (p : Payload) : Payload :=
  match p.options with
  | some .null => { p with options := none }
  | _ => p

/-- A component as it is read back. -/
def Component.received (c : Component) : Component :=
  { c with payloads := c.payloads.map fun p => (p.1, p.2.received) }

/-- A message as it is read back. -/
def Message.received (m : Message) : Message := ⟨m.components.map Component.received⟩

/-- A payload is read back as it was unless its options are null. -/
theorem Payload.received_eq_self_iff {p : Payload} : p.received = p ↔ p.options ≠ some .null := by
  obtain ⟨data, options⟩ := p
  unfold received
  split
  · next heq => simp [show options = some .null from heq]
  · next hne => exact iff_of_true rfl fun heq => hne heq

theorem map_eq_self_iff {α : Type} {f : α → α} {xs : List α} :
    xs.map f = xs ↔ ∀ x ∈ xs, f x = x := by
  have hid : xs.map f = xs.map id ↔ ∀ x ∈ xs, f x = id x := List.map_inj_left
  rwa [List.map_id] at hid

/-- A component is read back as it was unless the options of a payload are null. -/
theorem Component.received_eq_self_iff {c : Component} :
    c.received = c ↔ ∀ p ∈ c.payloads, p.2.options ≠ some .null := by
  obtain ⟨id, payloads⟩ := c
  simp only [received, Component.mk.injEq, true_and, map_eq_self_iff, Prod.ext_iff,
    Payload.received_eq_self_iff]

theorem Message.received_eq_self_iff {m : Message} :
    m.received = m ↔ ∀ c ∈ m.components, ∀ p ∈ c.payloads, p.2.options ≠ some .null := by
  obtain ⟨components⟩ := m
  simp only [received, Message.mk.injEq, map_eq_self_iff, Component.received_eq_self_iff]

/-! ### Reading what was written -/

/-- A proper payload is read back, with null options left out. -/
theorem Payload.ofJson?_toJson {p : Payload} (h : p.Proper) : ofJson? p.toJson = some p.received := by
  obtain ⟨data, options⟩ := p
  have hdata : data.settled = data := Json.DistinctKeys.settled data h.data
  cases options with
  | none =>
    simp [ofJson?, toJson, received, Json.Record.of?_object, Json.Fields.keys, Json.Record.fieldD,
      Json.Record.field?, Json.Record.get?, Json.Fields.get?, Json.maybe, Json.any?, hdata]
  | some v =>
    have hv : v.settled = v := Json.DistinctKeys.settled v (h.options v rfl)
    cases v <;>
      simp_all [ofJson?, toJson, received, Json.Record.of?_object, Json.Fields.keys,
        Json.Record.fieldD, Json.Record.field?, Json.Record.get?, Json.Fields.get?, Json.maybe,
        Json.any?]

/-- A proper component is read back, with null options left out. -/
theorem Component.ofJson?_toJson {c : Component} (h : c.Proper) :
    ofJson? c.toJson = some c.received := by
  have hpayloads : Json.members? Payload.ofJson?
      (.object (c.payloads.map fun p => (p.1, p.2.toJson))) =
        some (c.payloads.map fun p => (p.1, p.2.received)) :=
    Json.members?_map_eq h.typeNames fun p hp => Payload.ofJson?_toJson (h.payloads p hp)
  simp [ofJson?, toJson, received, Json.Record.of?_object, Json.Fields.keys, Json.Record.field,
    Json.Record.get?, Json.Fields.get?, Json.string?, hpayloads]

/-- A proper message is read back, with null options left out. -/
theorem Message.ofJson?_toJson {m : Message} (h : m.Proper) :
    ofJson? m.toJson = some m.received := by
  have hcomponents : Json.list? Component.ofJson? (.array (m.components.map Component.toJson)) =
      some (m.components.map Component.received) :=
    Json.list?_map_eq fun c hc => Component.ofJson?_toJson (h c hc)
  simp [ofJson?, toJson, received, Json.Record.of?_object, Json.Fields.keys, Json.Record.field,
    Json.Record.get?, Json.Fields.get?, hcomponents]

/-- **A message is read as it was written, but for options that are `null`.**  They are read as
missing, and all else as it was.  So exactly the messages in which no options are `null` are read as
themselves. -/
theorem message_read_back {m : Message} (h : m.Proper) :
    Message.ofJson? m.toJson = some m.received ∧
      (Message.ofJson? m.toJson = some m ↔
        ∀ c ∈ m.components, ∀ p ∈ c.payloads, p.2.options ≠ some .null) := by
  have hread : Message.ofJson? m.toJson = some m.received := Message.ofJson?_toJson h
  refine ⟨hread, ?_⟩
  rw [hread, Option.some_inj, Message.received_eq_self_iff]

/-- A component with two type names, of which one has no options and the other has an object with a
member that is `null`. -/
theorem message_read_back_two_names :
    let payload : Payload := { data := .array [.null], options := some (.object [("size", .null)]) }
    let m : Message := ⟨[.new "a" "Card" .null, ⟨"a", [("Card", {}), ("List", payload)]⟩]⟩
    m.Proper ∧ Message.ofJson? m.toJson = some m := by
  intro payload m
  have hproper : m.Proper := by
    refine List.forall_mem_cons.2 ⟨⟨by decide, ?_⟩, List.forall_mem_singleton.2 ⟨by decide, ?_⟩⟩
    · exact List.forall_mem_singleton.2 ⟨trivial, fun _ h => nomatch h⟩
    · refine List.forall_mem_cons.2 ⟨⟨trivial, fun _ h => nomatch h⟩,
        List.forall_mem_singleton.2 ⟨⟨trivial, trivial⟩, ?_⟩⟩
      rintro _ ⟨⟩
      exact ⟨List.nodup_singleton _, trivial, trivial⟩
  refine ⟨hproper, (message_read_back hproper).2.2 ?_⟩
  exact List.forall_mem_cons.2 ⟨List.forall_mem_singleton.2 nofun,
    List.forall_mem_singleton.2 (List.forall_mem_cons.2 ⟨nofun, List.forall_mem_singleton.2 nofun⟩)⟩

/-- **Options that are `null` are lost.**  They can be given to a component and are written, but the
message that is read has none. -/
theorem null_options_lost :
    let c : Component := (Component.new "a" "Card" .null).withOptions .null
    Message.ofJson? (Message.toJson ⟨[c]⟩) = some ⟨[.new "a" "Card" .null]⟩ ∧
      Message.ofJson? (Message.toJson ⟨[c]⟩) ≠ some ⟨[c]⟩ := by
  intro c
  have hread : Message.ofJson? (Message.toJson ⟨[c]⟩) = some ⟨[.new "a" "Card" .null]⟩ := rfl
  refine ⟨hread, ?_⟩
  rw [hread]
  simp [c, Component.new, Component.withOptions]

end AgentSurface.Update
