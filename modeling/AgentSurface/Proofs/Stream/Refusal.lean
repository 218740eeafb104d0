import AgentSurface.Proofs.Stream.Effects

/-!
# Stream — refused calls

A call that is refused takes no text and adds no block.  It can leave one trace: bytes are decoded
before it is known whether there is room for their text, and if there is none, the bytes that were
held back before are given up with it.

* `refused_keeps`: a refused call changes nothing, unless it brought bytes to a reader that is
  streaming, and then only the bytes held back.
* `refused_bytes_noticed`: such a call can be noticed later, in the text of the next bytes.
-/

namespace AgentSurface.Stream

open Reader (new)

/-- **A refused call takes nothing.**  If it brought bytes to a reader that is streaming, the reader
is as it was but for the bytes held back, which are those behind the bytes refused; every other
refused call leaves the reader as it was. -/
theorem refused_keeps {call : Call} {r next : Reader} {refusal : Refusal}
    (h : call.on r = (.error refusal, next)) :
    (∀ bytes, call = .pushBytes bytes → r.phase = .streaming →
      next = r.holding (r.decoder.decode bytes).2) ∧
    ((∀ bytes, call = .pushBytes bytes → r.phase ≠ .streaming) → next = r) := by
  cases Call.effect_of_eq h with
  | finished hr =>
    refine ⟨fun _ _ hstreaming => ?_, fun _ => rfl⟩
    exact nomatch hr.symm.trans hstreaming
  | notAnExtension =>
    refine ⟨fun _ hcall => ?_, fun _ => rfl⟩
    cases hcall
  | noRoom hr hcall =>
    cases hcall with
    | push | sync =>
      refine ⟨fun _ hcall => ?_, fun _ => rfl⟩
      cases hcall
    | pushBytes bytes =>
      refine ⟨fun _ hcall _ => ?_, fun hnot => absurd hr (hnot bytes rfl)⟩
      cases hcall
      rfl

/-- A piece for which there is no room leaves half a letter held back. -/
theorem refused_keeps_half_letter :
    let r := (new { maxBytes := 4 }).after [.push "a", .pushBytes [0xC3]]
    ((Call.push "bcde").on r).1 = .error (.limitExceeded 4 5) ∧
      ((Call.push "bcde").on r).2 = r := by
  intro r
  have hrefused : ((Call.push "bcde").on r).1 = .error (.limitExceeded 4 5) := by rfl
  exact ⟨hrefused, (refused_keeps (Prod.ext hrefused rfl)).2 (by simp)⟩

/-- **Refused bytes can be noticed.**  Half a letter is held back, bytes are refused for want of room,
and then the other half comes: without the refused bytes it is a letter, and with them it is not. -/
theorem refused_bytes_noticed :
    let r := (new { maxBytes := 4 }).after [.pushBytes [0xC3]]
    let refused := (Call.pushBytes [0x61, 0x61, 0x61, 0x61, 0x61]).on r
    refused.1 = .error (.limitExceeded 4 8) ∧ refused.2 ≠ r ∧
      (r.after [.pushBytes [0xA9]]).buffer = "é" ∧
      (refused.2.after [.pushBytes [0xA9]]).buffer = "\uFFFD" := by
  refine ⟨by rfl, fun hsame => ?_, by rfl, by rfl⟩
  exact absurd (congrArg (fun r => r.decoder.held) hsame) (by decide)

end AgentSurface.Stream
