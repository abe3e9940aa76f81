import Mathlib.Algebra.BigOperators.Group.List.Basic
import Mathlib.Algebra.GroupWithZero.Nat
import Mathlib.Tactic.Push

/-!
# Tallies over a list of running operations

An interleaving semantics keeps its running operations in a list and steps one position at
a time.  Accounting invariants are then sums over that list, and the only fact about sums
they need is how a sum reacts to replacing one entry.  The last section says the same of the
positions.
-/

namespace Pgman

variable {α : Type*}

/-- The sum of a measure over a list. -/
def tally (f : α → ℕ) (l : List α) : ℕ := (l.map f).sum

@[simp] lemma tally_nil (f : α → ℕ) : tally f [] = 0 := rfl

@[simp] lemma tally_cons (f : α → ℕ) (a : α) (l : List α) :
    tally f (a :: l) = f a + tally f l := by
  simp [tally]

@[simp] lemma tally_append (f : α → ℕ) (l l' : List α) :
    tally f (l ++ l') = tally f l + tally f l' := by
  simp [tally]

/-- Replacing one entry exchanges its measure. -/
lemma tally_set (f : α → ℕ) {l : List α} {i : ℕ} {a : α} (h : l[i]? = some a) (b : α) :
    tally f (l.set i b) + f a = tally f l + f b := by
  induction l generalizing i with
  | nil => simp at h
  | cons x l ih =>
    cases i with
    | zero =>
      simp only [List.getElem?_cons_zero, Option.some.injEq] at h
      subst h
      simp only [List.set_cons_zero, tally_cons]
      omega
    | succ i =>
      simp only [List.getElem?_cons_succ] at h
      have := ih h
      simp only [List.set_cons_succ, tally_cons]
      omega

/-- An entry's measure is bounded by the tally. -/
lemma le_tally (f : α → ℕ) {l : List α} {a : α} (h : a ∈ l) : f a ≤ tally f l := by
  induction l with
  | nil => simp at h
  | cons x l ih =>
    rcases List.mem_cons.mp h with rfl | h
    · simp
    · have := ih h
      rw [tally_cons]
      omega

/-- So are two entries' measures. -/
lemma add_le_tally (f : α → ℕ) {l : List α} {i j : ℕ} {a b : α} (hi : l[i]? = some a)
    (hj : l[j]? = some b) (hne : i ≠ j) : f a + f b ≤ tally f l := by
  induction l generalizing i j with
  | nil => simp at hi
  | cons x l ih =>
    rw [tally_cons]
    cases i with
    | zero =>
      cases j with
      | zero => exact absurd rfl hne
      | succ j =>
        obtain rfl : x = a := by simpa using hi
        have := le_tally f (List.mem_of_getElem? (show l[j]? = some b by simpa using hj))
        omega
    | succ i =>
      have hi : l[i]? = some a := by simpa using hi
      cases j with
      | zero =>
        obtain rfl : x = b := by simpa using hj
        have := le_tally f (List.mem_of_getElem? hi)
        omega
      | succ j =>
        have := ih hi (by simpa using hj) (by omega)
        omega

/-- A positive tally has a positive entry. -/
lemma exists_of_tally_pos {f : α → ℕ} {l : List α} (h : 0 < tally f l) : ∃ a ∈ l, 0 < f a := by
  by_contra hnone
  have hzero : tally f l = 0 :=
    List.sum_eq_zero fun n hn => by
      obtain ⟨a, ha, rfl⟩ := List.mem_map.mp hn
      exact Nat.eq_zero_of_not_pos fun hpos => hnone ⟨a, ha, hpos⟩
  omega

lemma tally_add (f g : α → ℕ) (l : List α) :
    tally (fun a => f a + g a) l = tally f l + tally g l := by
  induction l with
  | nil => rfl
  | cons a l ih =>
    simp only [tally_cons, ih]
    omega

/-- A tally of zeros and ones is a count. -/
lemma tally_eq_countP {f : α → ℕ} {p : α → Bool} (h : ∀ a, f a = if p a then 1 else 0)
    (l : List α) : tally f l = l.countP p := by
  induction l with
  | nil => rfl
  | cons a l ih =>
    rw [tally_cons, ih, h, List.countP_cons]
    omega

/-! ## Positions -/

/-- A position of a list with one more entry. -/
lemma getElem?_concat_cases {l : List α} {a x : α} {j : ℕ} (h : (l ++ [a])[j]? = some x) :
    l[j]? = some x ∨ j = l.length ∧ x = a := by
  rw [List.getElem?_append] at h
  split at h
  · exact .inl h
  · obtain ⟨hj, rfl⟩ := List.getElem?_eq_some_iff.mp h
    simp only [List.length_singleton] at hj
    exact .inr ⟨by omega, by simp⟩

/-- A position of a list with one entry replaced. -/
lemma getElem?_set_cases {l : List α} {b x : α} {i j : ℕ} (h : (l.set i b)[j]? = some x) :
    (i ≠ j ∧ l[j]? = some x) ∨ (i = j ∧ x = b) := by
  by_cases hij : i = j
  · subst hij
    rw [List.getElem?_set_self'] at h
    cases hl : l[i]? with
    | none => simp [hl] at h
    | some y => exact .inr ⟨rfl, by simpa [hl, eq_comm] using h⟩
  · exact .inl ⟨hij, by rwa [List.getElem?_set_ne hij] at h⟩

/-- The other entries stay when one is replaced. -/
lemma mem_set_of_ne {l : List α} {a b x : α} {i : ℕ} (hi : l[i]? = some a) (hx : x ∈ l)
    (hne : x ≠ a) : x ∈ l.set i b := by
  obtain ⟨j, hj⟩ := List.mem_iff_getElem?.mp hx
  have hij : i ≠ j := by
    rintro rfl
    exact hne (Option.some.inj (hj.symm.trans hi))
  exact List.mem_iff_getElem?.mpr ⟨j, by rwa [List.getElem?_set_ne hij]⟩

/-- The new entry of a list with one entry replaced. -/
lemma mem_set_self {l : List α} {a b : α} {i : ℕ} (hi : l[i]? = some a) : b ∈ l.set i b :=
  List.mem_set (List.getElem?_eq_some_iff.mp hi).1 b

end Pgman
