/-!
# Outcomes of runs

A run on a fixed input is computed, and what is then known of its outcome is a test: that there is a
value with some property, or that there is a certain error.
-/

namespace DocSchema

variable {ε α : Type} {x : Except ε α}

theorem exists_ok_of_any {p : α → Bool} (h : x.toOption.any p = true) :
    ∃ a, x = .ok a ∧ p a = true := by
  cases x with
  | error e => cases h
  | ok a => exact ⟨a, rfl, h⟩

def failsWith [DecidableEq ε] (e : ε) : Except ε α → Bool
  | .error e' => decide (e' = e)
  | .ok _ => false

theorem eq_error_of_failsWith [DecidableEq ε] {e : ε} (h : failsWith e x = true) :
    x = .error e := by
  cases x with
  | error e' => rw [of_decide_eq_true h]
  | ok a => cases h

end DocSchema
