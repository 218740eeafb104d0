/-!
# Host — code supplied by the host

Validators and render functions are code of the host.  Such code may stop in a panic instead of
giving a result; `Host α` is what it comes to.
-/

namespace AgentSurface

/-- A panic, and its text if it carries one. -/
structure Panic where
  text : Option String
deriving DecidableEq, Repr

def Panic.message (p : Panic) : String := p.text.getD "unknown panic"

/-- A result of host code. -/
abbrev Host (α : Type) := Except Panic α

/-- Host code that stops in a panic. -/
def Host.panic {α : Type} (text : Option String) : Host α := .error ⟨text⟩

/-- A sequence gives a result when both of its parts do. -/
theorem Host.bind_eq_ok_iff {α β : Type} {first : Host α} {next : α → Host β} {b : β} :
    (first >>= next) = .ok b ↔ ∃ a, first = .ok a ∧ next a = .ok b := by
  cases first <;> simp [bind, Except.bind]

/-- A sequence stops in a panic when its first part does, or the part behind the result of that. -/
theorem Host.bind_eq_error_iff {α β : Type} {first : Host α} {next : α → Host β} {panic : Panic} :
    (first >>= next) = .error panic ↔
      first = .error panic ∨ ∃ a, first = .ok a ∧ next a = .error panic := by
  cases first <;> simp [bind, Except.bind]

end AgentSurface
