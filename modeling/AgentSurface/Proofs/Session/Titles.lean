import AgentSurface.Proofs.Text.Lowercase
import AgentSurface.Session.Filter

/-!
# Session — a part of a title is found

A filter looks for the lower case of a text in the lower case of the title.  The lower case of a part
of a title is a part of the lower case of the title, unless a capital sigma ends a word in one of the
two and not in the other.

* `finds_part_of_title`: a part of a title is found, in any case of ASCII letters.
* `sigma_at_end_not_found`: a part of a title that is not found.
-/

namespace AgentSurface.Session.Filter

variable {f : Filter} {s : Snapshot}

/-- A filter that asks for no user goes by the title alone. -/
theorem accepts_iff_of_title {asked title : String} (huser : f.userId = none)
    (hasked : f.titleContains = some asked) (htitle : s.title = some title) :
    f.accepts s = true ↔ Text.lower asked.toList <:+: Text.lower title.toList := by
  rw [accepts, matchesUser, huser, matchesTitle, hasked, htitle, ← Text.occursIn_iff]
  rfl

/-- **A part of a title is found.**  The title and the text that is asked for may be in any case of
ASCII letters.  Every capital sigma of the part, if there is one, must have the same lower case in the
title as in the part alone. -/
theorem finds_part_of_title {before part after : List Char} {asked title : String}
    (huser : f.userId = none) (hasked : f.titleContains = some asked)
    (htitle : s.title = some title) (hpart : Text.sameTag asked (String.ofList part) = true)
    (hwhole : Text.sameTag title (String.ofList (before ++ part ++ after)) = true)
    (hsigmas : Text.KeepsSigmas before part after) : f.accepts s = true := by
  rw [accepts_iff_of_title huser hasked htitle, Text.lower_of_sameTag hpart,
    Text.lower_of_sameTag hwhole, String.toList_ofList, String.toList_ofList]
  exact Text.lower_isInfix hsigmas

/-- The part ends with the same word as a line of the title, so its sigma is a final one in both. -/
theorem finds_part_of_title_word :
    let f : Filter := { titleContains := some "to ΟΔΟΣ" }
    let s : Snapshot :=
      { id := "s", title := some "WAY TO ΟΔΟΣ, 5", createdAt := ⟨0, 0⟩, updatedAt := ⟨0, 0⟩ }
    let before := "Way ".toList
    let part := "to ΟΔΟΣ".toList
    let after := ", 5".toList
    Text.sameTag "to ΟΔΟΣ" (String.ofList part) = true ∧
      Text.sameTag "WAY TO ΟΔΟΣ, 5" (String.ofList (before ++ part ++ after)) = true ∧
      Text.KeepsSigmas before part after ∧ f.accepts s = true := by
  intro f s before part after
  have hpart : Text.sameTag "to ΟΔΟΣ" (String.ofList part) = true := by decide
  have hwhole : Text.sameTag "WAY TO ΟΔΟΣ, 5" (String.ofList (before ++ part ++ after)) = true := by
    decide
  have hsigmas : Text.KeepsSigmas before part after := by decide
  exact ⟨hpart, hwhole, hsigmas, finds_part_of_title rfl rfl rfl hpart hwhole hsigmas⟩

/-- **A part of a title may not be found.**  The sigma at the end of the part is a final one there, but
not in the title, where a letter follows. -/
theorem sigma_at_end_not_found :
    let f : Filter := { titleContains := some "ΑΣ" }
    let s : Snapshot :=
      { id := "s", title := some "ΑΣΑ", createdAt := ⟨0, 0⟩, updatedAt := ⟨0, 0⟩ }
    "ΑΣ".toList <:+: "ΑΣΑ".toList ∧ f.accepts s = false := by
  exact ⟨by decide, by decide⟩

end AgentSurface.Session.Filter
