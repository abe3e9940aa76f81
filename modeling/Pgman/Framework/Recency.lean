import Mathlib.Data.Nat.Notation
import Mathlib.Tactic.Common

/-!
# Recency

A log of uses, the last one first.  `lastUse x log` is the number of uses there had been when `x`
was last used, that use included, and zero if there was none.  Different things were last used at
different times (`lastUse_inj`), so that of any number of things that were used one is the least
recently used.
-/

namespace Pgman

variable {α : Type*} [DecidableEq α] {x y : α} {log : List α}

def lastUse (x : α) : List α → ℕ
  | [] => 0
  | u :: log => if u = x then log.length + 1 else lastUse x log

@[simp] lemma lastUse_cons_self : lastUse x (x :: log) = log.length + 1 := if_pos rfl

lemma lastUse_cons_of_ne (h : y ≠ x) : lastUse x (y :: log) = lastUse x log := if_neg h

lemma lastUse_le_length (x : α) (log : List α) : lastUse x log ≤ log.length := by
  induction log with
  | nil => exact Nat.le_refl 0
  | cons u log ih =>
    rw [lastUse, List.length_cons]
    split_ifs <;> omega

/-- Two things were not last used at one time. -/
lemma lastUse_inj (hpos : 0 < lastUse x log) (heq : lastUse x log = lastUse y log) : x = y := by
  induction log with
  | nil => exact absurd hpos (Nat.lt_irrefl 0)
  | cons u log ih =>
    have hx := lastUse_le_length x log
    have hy := lastUse_le_length y log
    rw [lastUse] at hpos
    rw [lastUse, lastUse] at heq
    split_ifs at hpos heq with hux huy huy
    · exact hux.symm.trans huy
    · omega
    · omega
    · exact ih hpos heq

end Pgman
