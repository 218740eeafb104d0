import AgentSurface.Proofs.Json.Approximation
import AgentSurface.Proofs.Json.Records
import AgentSurface.Session.Snapshot

/-!
# Session — the wire form loses nothing

Every record is written as an object without repeated keys, and each of its fields is read again as
what was written.  A field that is left out is read as its default, for which alone it was left out.

* `Surface.ofJson?_toJson`, `Snapshot.ofJson?_toJson`: what is written is read as itself, if it is
  what the wire form can hold: no identifier stands twice, no key of a value is repeated, and numbers
  have 64 bits.  Of the times it is assumed that their texts are read as themselves.
-/

namespace AgentSurface

namespace Surface

/-- A surface that its wire form can hold. -/
structure Proper (s : Surface) : Prop where
  ids : s.ids.Nodup
  values : ∀ e ∈ s.toList, e.data.DistinctKeys ∧ e.options.DistinctKeys
  numbers : ∀ e ∈ s.toList, e.seq < Text.wordLimit
  nextSeq : s.nextSeq < Text.wordLimit

theorem nat?_numberJson {n : Nat} (h : n < Text.wordLimit) : (numberJson n).nat? = some n := by
  have hbounds : (-9223372036854775808 : Int) ≤ n ∧ (n : Int) ≤ 18446744073709551615 := by
    rw [Text.wordLimit] at h
    omega
  rw [numberJson, Nat.mod_eq_of_lt h, Json.ofNat, Json.Number.ofInt?, dif_pos hbounds]
  simp [Json.nat?, Json.int?, Json.number?, Json.Number.toInt?]

/-- An entry of a surface whose number fits a machine word is read back as written. -/
theorem Entry.ofJson?_toJson {e : Entry} (hdata : e.data.DistinctKeys)
    (hoptions : e.options.DistinctKeys) (hseq : e.seq < Text.wordLimit) :
    ofJson? e.toJson = some e := by
  simp [ofJson?, toJson, Json.Record.of?_object, Json.Fields.keys, Json.Record.field,
    Json.Record.get?, Json.Fields.get?, Json.string?, Json.any?, Json.bool?,
    hdata.settled, hoptions.settled, nat?_numberJson hseq]

/-- **A surface is read as it was written.** -/
theorem ofJson?_toJson {s : Surface} (h : s.Proper) : ofJson? s.toJson = some s := by
  have hfields : s.toJson = .object [("entries", .object (s.entries.map fun m => (m.1, m.2.toJson))),
      ("nextSeq", numberJson s.nextSeq)] := rfl
  have hentries : Json.members? Entry.ofJson?
      (.object (s.entries.map fun m => (m.1, m.2.toJson))) = some s.entries :=
    Json.members?_map h.ids fun m hm => by
      have hmem : m.2 ∈ s.toList := List.mem_map_of_mem hm
      exact Entry.ofJson?_toJson (h.values _ hmem).1 (h.values _ hmem).2 (h.numbers _ hmem)
  rw [hfields]
  simp [ofJson?, Json.Record.of?_object, Json.Fields.keys, Json.Record.field, Json.Record.get?,
    Json.Fields.get?, hentries, nat?_numberJson h.nextSeq]

end Surface

namespace Session

/-- The text of the time is read as the time. -/
def Timely (t : Timestamp) : Prop := Timestamp.ofText? t.text = some t

instance (t : Timestamp) : Decidable (Timely t) :=
  inferInstanceAs (Decidable (Timestamp.ofText? t.text = some t))

/-- A timely point in time is read back as written. -/
theorem Timely.ofJson?_toJson {t : Timestamp} (h : Timely t) :
    Timestamp.ofJson? t.toJson = some t := by
  rw [Timestamp.ofJson?, Timestamp.toJson, Json.string?, Option.bind_some, h]

/-- The times in a snapshot. -/
def Snapshot.times (s : Snapshot) : List Timestamp :=
  s.createdAt :: s.updatedAt :: s.messages.map (·.createdAt)

/-- A role is read back from its name. -/
theorem Role.ofJson?_name (role : Role) : Role.ofJson? (.string role.name) = some role := by
  cases role <;> rfl

/-- A chat message with a timely date is read back as written. -/
theorem Message.ofJson?_toJson {m : Message} (h : Timely m.createdAt) :
    Message.ofJson? m.toJson = some m := by
  simp [Message.ofJson?, Message.toJson, Json.Record.of?_object, Json.Fields.keys,
    Json.Record.field, Json.Record.get?, Json.Fields.get?, Json.string?, Role.ofJson?_name,
    h.ofJson?_toJson]

/-- **A snapshot is read as it was written**, with the fields that may be left out. -/
theorem Snapshot.ofJson?_toJson {s : Snapshot} (hsurface : s.surface.Proper)
    (htimes : ∀ t ∈ s.times, Timely t) : Snapshot.ofJson? s.toJson = some s := by
  obtain ⟨id, userId, title, messages, surface, createdAt, updatedAt⟩ := s
  have hmessages : Json.list? Message.ofJson? (.array (messages.map Message.toJson)) =
      some messages :=
    Json.list?_map fun m hm => Message.ofJson?_toJson
      (htimes _ (.tail _ (.tail _ (List.mem_map_of_mem hm))))
  have hcreated := Timely.ofJson?_toJson (htimes createdAt (.head _))
  have hupdated := Timely.ofJson?_toJson (htimes updatedAt (.tail _ (.head _)))
  cases userId <;> cases title <;>
    simp [Snapshot.ofJson?, Snapshot.toJson, Json.Record.of?_object, Json.Fields.keys,
      Json.Record.field, Json.Record.field?, Json.Record.fieldD, Json.Record.get?,
      Json.Fields.get?, Json.string?, Json.orNull, Json.maybe, hmessages, hcreated, hupdated,
      Surface.ofJson?_toJson hsurface]

end Session
end AgentSurface
