import Mathlib

/-!
# Undo logs

A log of records, each of which says how to take a state back to the one before a step:
`takes r s s'` says that record `r` logs the step from `s` to `s'`, and `revert r s'`
computes `s` back. `History takes log s₀ s` says that the records of `log`, in the order
they were appended, log a sequence of steps from `s₀` to `s`.

A history grows by one record per step (`History.snoc`). Reverting the records from
the last one leads back from `s` through every state of the sequence
(`History.take_succ`) to `s₀` (`History.foldr_revert`).
-/

namespace UndoLog

variable {ρ σ : Type*} (takes : ρ → σ → σ → Prop)

/-- The records of `log` log a sequence of steps from `s₀` to `s`. -/
inductive History : List ρ → σ → σ → Prop
  | nil (s : σ) : History [] s s
  | snoc {log : List ρ} {s₀ s s' : σ} {r : ρ} : History log s₀ s → takes r s s' →
      History (log ++ [r]) s₀ s'

namespace History

variable {takes} {log : List ρ} {s₀ s s' : σ} {r : ρ}

/-- The last record logs the last step. -/
theorem snoc_inv (h : History takes (log ++ [r]) s₀ s') :
    ∃ s, History takes log s₀ s ∧ takes r s s' := by
  generalize hl : log ++ [r] = l at h
  cases h with
  | nil => simp at hl
  | snoc h₁ h₂ =>
    obtain ⟨rfl, hr⟩ := List.append_inj' hl rfl
    rw [List.singleton_inj] at hr
    subst hr
    exact ⟨_, h₁, h₂⟩

section Revert

variable (revert : ρ → σ → σ) (hrev : ∀ r s s', takes r s s' → revert r s' = s)
include hrev

/-- Reverting the records from the last one leads back to the first state. -/
theorem foldr_revert (h : History takes log s₀ s) : log.foldr revert s = s₀ := by
  induction h with
  | nil s => rfl
  | snoc _ hr ih => rw [List.foldr_append, List.foldr_cons, List.foldr_nil, hrev _ _ _ hr, ih]

/-- The first `m + 1` records log the steps to some state; reverting the last of them
gives a state the first `m` records log the steps to. -/
theorem take_succ {m : Nat} (hm : m < log.length) (h : History takes (log.take (m + 1)) s₀ s) :
    History takes (log.take m) s₀ (revert (log.get ⟨m, hm⟩) s) := by
  rw [List.take_add_one, List.getElem?_eq_getElem hm, Option.toList_some] at h
  obtain ⟨s₁, h₁, hr⟩ := snoc_inv h
  rw [List.get_eq_getElem, hrev _ _ _ hr]
  exact h₁

end Revert

end History

end UndoLog
