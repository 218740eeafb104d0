import AgentSurface.Proofs.Surface.Reducer
import AgentSurface.Proofs.Update.Verdicts
import AgentSurface.Render.Basic

/-!
# Render — blocks that are folded into a surface

Showing blocks and folding them into a surface is one pass over the blocks, in which each message is
checked once and for both.  It comes to two passes, which know nothing of each other: the blocks are
shown as they are without a surface, and their messages are taken in one after the other.  Where
checking a message stops in a panic, both stop in it (`intoSurfaceFrom_eq`).

* `folding_shows_and_takes_in`: with validators that do not panic, every block is shown as it is
  without a surface, and the surface is the one behind the messages of the blocks.
-/

namespace AgentSurface

/-- The message of a block that is a surface update. -/
def Stream.Block.message? : Stream.Block → Option Json
  | .update message _ => some message
  | .text _ | .jsx _ _ | .fault _ _ _ => none

/-- Check messages and take in what passed, one message after the other. -/
def Surface.applyRaws (catalog : Catalog) : Surface → List Json → Host Surface
  | s, [] => return s
  | s, message :: rest => do
    let (next, _) ← s.applyRaw catalog message
    Surface.applyRaws catalog next rest

namespace Render

open Update (ValidEntry)

variable {bs : Bindings} {catalog : Catalog}

/-- The messages of blocks, in order. -/
def messages (list : List Stream.Block) : List Json := list.filterMap Stream.Block.message?

/-- **One pass is two.**  The views are those of the blocks alone, and the surface, or the panic, is
that of taking in the messages alone. -/
theorem intoSurfaceFrom_eq (bs : Bindings) (list : List Stream.Block) (index : Nat) (s : Surface) :
    intoSurfaceFrom bs index s list =
      (s.applyRaws bs.catalog (messages list)).map fun last => (blocksFrom bs index list, last) := by
  induction list generalizing index s with
  | nil => rfl
  | cons b rest ih =>
    cases b with
    | text _ | jsx _ _ | fault _ _ _ =>
      show (intoSurfaceFrom bs (index + 1) s rest >>= _) =
        (s.applyRaws bs.catalog (messages rest)).map _
      rw [ih]
      cases s.applyRaws bs.catalog (messages rest) <;> rfl
    | update message raw =>
      show _ = (s.applyRaws bs.catalog (message :: messages rest)).map _
      cases hv : Update.validate bs.catalog message with
      | error panic =>
        -- The check is not isolated from the pass, so its panic ends both sides.
        rw [intoSurfaceFrom, Surface.applyRaws, Surface.applyRaw, hv]
        rfl
      | ok v =>
        have hblock : block bs index (.update message raw) = validation bs.catalog message v := by
          rw [block, blockContent, hv]
          rfl
        rw [intoSurfaceFrom, Surface.applyRaws, Surface.applyRaw, hv, blocksFrom, hblock]
        show (intoSurfaceFrom bs (index + 1) (s.applyMessage v) rest >>= _) =
          ((s.applyMessage v).applyRaws bs.catalog (messages rest)).map _
        rw [ih]
        cases (s.applyMessage v).applyRaws bs.catalog (messages rest) <;> rfl

/-! ### What the blocks carry -/

/-- The valid entries that a block carries. -/
def Carried (catalog : Catalog) (b : Stream.Block) (entries : List ValidEntry) : Prop :=
  match b with
  | .update message _ => ∃ v, Update.validate catalog message = .ok v ∧ entries = v.valid
  | _ => entries = []

/-- Taking in the messages of blocks is taking in the valid entries of all blocks, one after the
other. -/
theorem exists_carried (hpure : catalog.Pure) (list : List Stream.Block) :
    ∃ carried, List.Forall₂ (Carried catalog) list carried ∧
      ∀ s : Surface, s.applyRaws catalog (messages list) = .ok (s.applyEntries carried.flatten) := by
  induction list with
  | nil => exact ⟨[], .nil, fun _ => rfl⟩
  | cons b rest ih =>
    obtain ⟨carried, hcarried, hrest⟩ := ih
    cases b with
    | text _ | jsx _ _ | fault _ _ _ => exact ⟨[] :: carried, .cons rfl hcarried, hrest⟩
    | update message raw =>
      obtain ⟨v, hv⟩ := Update.exists_validate hpure message
      refine ⟨v.valid :: carried, .cons ⟨v, hv, rfl⟩ hcarried, fun s => ?_⟩
      show s.applyRaws catalog (message :: messages rest) = _
      rw [Surface.applyRaws, Surface.applyRaw, hv, List.flatten_cons, Surface.applyEntries_append]
      exact hrest (s.applyEntries v.valid)

/-- **Folding blocks into a surface** shows them as they are shown alone, and takes their valid
entries in one after the other. -/
theorem exists_intoSurfaceFrom (hpure : bs.catalog.Pure) (list : List Stream.Block) (index : Nat)
    (s : Surface) :
    ∃ carried, List.Forall₂ (Carried bs.catalog) list carried ∧
      intoSurfaceFrom bs index s list =
        .ok (blocksFrom bs index list, s.applyEntries carried.flatten) := by
  obtain ⟨carried, hcarried, hraws⟩ := exists_carried hpure list
  refine ⟨carried, hcarried, ?_⟩
  rw [intoSurfaceFrom_eq, hraws]
  rfl

/-- **Folding shows the blocks and takes in their messages.**  With validators that do not panic,
taking in the messages of the blocks one after the other leads to a surface, and folding the blocks
gives the views of the blocks and this surface.  All blocks with the same messages lead to the same
surface, whatever stands between the messages. -/
theorem folding_shows_and_takes_in (hpure : bs.catalog.Pure) (list : List Stream.Block)
    (s : Surface) :
    ∃ last, s.applyRaws bs.catalog (messages list) = .ok last ∧
      intoSurface bs list s = .ok (blocks bs list, last) ∧
      ∀ other, messages other = messages list →
        intoSurface bs other s = .ok (blocks bs other, last) := by
  obtain ⟨carried, -, hraws⟩ := exists_carried hpure list
  have hfold : ∀ other, messages other = messages list →
      intoSurface bs other s = .ok (blocks bs other, s.applyEntries carried.flatten) := by
    intro other hother
    rw [intoSurface, intoSurfaceFrom_eq, hother, hraws]
    rfl
  exact ⟨_, hraws s, hfold list rfl, hfold⟩

/-- A component whose render function panics, one of an unknown type, a message without components,
and blocks that are no messages. -/
theorem folding_shows_and_takes_in_panic :
    let bs : Bindings := { catalog := ⟨[
      { typeName := "Card", purpose := "", data := .ofFunction fun _ _ => []
        render := some fun _ => Host.panic (some "boom") }]⟩ }
    let sent (typeName : String) : Json :=
      .object [("surfaceUpdate", .object [("components", .array [
        .object [("id", .string "a"), ("component", .object [(typeName, .object [])])]])])]
    let list : List Stream.Block :=
      [.text "Hi", .update (sent "Card") "", .fault .jsx "<" "", .update .null "",
        .update (sent "Chart") ""]
    bs.catalog.Pure ∧ messages list = [sent "Card", .null, sent "Chart"] ∧
      ∃ last, Surface.applyRaws bs.catalog {} (messages list) = .ok last ∧ last.ids = ["a"] ∧
        intoSurface bs list {} = .ok (blocks bs list, last) := by
  intro bs sent list
  have hpure : bs.catalog.Pure := by
    simp [bs, Catalog.Pure, Catalog.Entry.Pure, Schema.Validator.Pure, Schema.Validator.ofFunction]
  obtain ⟨last, hraws, hfold, -⟩ := folding_shows_and_takes_in hpure list {}
  refine ⟨hpure, rfl, last, hraws, ?_, hfold⟩
  cases hraws
  rfl

end Render
end AgentSurface
