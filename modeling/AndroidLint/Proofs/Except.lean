/-
Except — results taken apart.

What was made of a result is there only if the result was, and so is what
became of it when the reasons of a failure no longer mattered.
-/

namespace AndroidLint

section Results

variable {α β ε : Type} {x : Except ε α}

theorem bind_eq_ok {f : α → Except ε β} {b : β} (made : x >>= f = .ok b) :
    ∃ a, x = .ok a ∧ f a = .ok b := by
  cases x with
  | error e => cases made
  | ok a => exact ⟨a, rfl, made⟩

theorem exists_of_map_eq_ok {g : α → β} {b : β} (made : x.map g = .ok b) :
    ∃ a, x = .ok a ∧ g a = b := by
  cases x with
  | error e => cases made
  | ok a => exact ⟨a, rfl, Except.ok.inj made⟩

theorem eq_ok_of_toOption_eq_some {a : α} (kept : x.toOption = some a) : x = .ok a := by
  cases x with
  | error e => cases kept
  | ok b => exact congrArg Except.ok (Option.some.inj kept)

end Results

end AndroidLint
