import Mathlib.Data.List.Sort
import Mathlib.Order.Basic

/-!
# Tables

A finite map from ordered keys to values: a list of pairs with strictly increasing keys.  A table
is determined by what it holds (`Table.ext_get`), so equality of tables is equality of maps and is
decidable, and its pairs come in the order of their keys.

`get` is the only observation the operations are specified by: `get_set` and `get_keep` say what
the operations leave under a key, and `mem_pairs` turns a walk over the pairs into a
statement about `get`.
-/

namespace Pgman

structure Table (κ ν : Type) [LinearOrder κ] where
  pairs : List (κ × ν)
  sorted : pairs.Pairwise fun p q => p.1 < q.1
  deriving DecidableEq

namespace Table

variable {κ ν : Type} [LinearOrder κ] {t u : Table κ ν} {k j : κ} {v w : ν}

def empty : Table κ ν := ⟨[], .nil⟩

def get (t : Table κ ν) (k : κ) : Option ν := t.pairs.lookup k

def keys (t : Table κ ν) : List κ := t.pairs.map Prod.fst

/-- Put a pair at its place, over the pair that has its key. -/
def insertPair (k : κ) (v : ν) : List (κ × ν) → List (κ × ν)
  | [] => [(k, v)]
  | p :: l =>
    if k < p.1 then (k, v) :: p :: l
    else if k = p.1 then (k, v) :: l
    else p :: insertPair k v l

/-! ## Membership -/

lemma mem_of_lookup : ∀ {l : List (κ × ν)}, l.lookup k = some v → (k, v) ∈ l
  | [], h => nomatch h
  | p :: l, h => by
    rw [List.lookup_cons] at h
    by_cases hk : k = p.1
    · subst hk
      rw [beq_self_eq_true] at h
      cases h
      exact .head _
    · rw [beq_eq_false_iff_ne.mpr hk] at h
      exact .tail _ (mem_of_lookup h)

lemma lookup_of_mem : ∀ {l : List (κ × ν)}, l.Pairwise (fun p q => p.1 < q.1) →
    (k, v) ∈ l → l.lookup k = some v
  | p :: l, hs, h => by
    rw [List.lookup_cons]
    obtain ⟨hp, hl⟩ := List.pairwise_cons.mp hs
    rcases List.mem_cons.mp h with rfl | h
    · rw [beq_self_eq_true]
    · have hne : k ≠ p.1 := (hp _ h).ne'
      rw [beq_eq_false_iff_ne.mpr hne]
      exact lookup_of_mem hl h

/-- A pair of the table is what the table holds under a key. -/
lemma mem_pairs : (k, v) ∈ t.pairs ↔ t.get k = some v :=
  ⟨lookup_of_mem t.sorted, mem_of_lookup⟩

lemma mem_keys : k ∈ t.keys ↔ ∃ v, t.get k = some v := by
  constructor
  · intro h
    obtain ⟨⟨k', v⟩, hmem, rfl⟩ := List.mem_map.mp h
    exact ⟨v, mem_pairs.mp hmem⟩
  · rintro ⟨v, hv⟩
    exact List.mem_map.mpr ⟨(k, v), mem_pairs.mpr hv, rfl⟩

lemma not_mem_keys (h : t.get k = none) : k ∉ t.keys := by
  rw [mem_keys, h]
  exact fun ⟨_, hv⟩ => Option.some_ne_none _ hv.symm

/-- Tables that hold the same are the same. -/
lemma ext_get (h : ∀ k, t.get k = u.get k) : t = u := by
  have : Std.Antisymm fun p q : κ × ν => p.1 < q.1 := ⟨fun _ _ h h' => (lt_asymm h h').elim⟩
  have : Std.Irrefl fun p q : κ × ν => p.1 < q.1 := ⟨fun p => lt_irrefl p.1⟩
  have hpairs : t.pairs = u.pairs := by
    refine t.sorted.eq_of_mem_iff u.sorted ?_
    rintro ⟨k, v⟩
    rw [mem_pairs, mem_pairs, h k]
  cases t
  cases u
  subst hpairs
  rfl

/-! ## Setting -/

/-- Where the keys increase, the pair goes in and the others with its key go out. -/
lemma mem_insertPair {p : κ × ν} : ∀ {l : List (κ × ν)}, l.Pairwise (fun p q => p.1 < q.1) →
    (p ∈ insertPair k v l ↔ p = (k, v) ∨ p.1 ≠ k ∧ p ∈ l)
  | [], _ => by simp [insertPair]
  | q :: l, hs => by
    obtain ⟨hq, hl⟩ := List.pairwise_cons.mp hs
    rw [insertPair]
    split_ifs with hlt heq
    · -- in front of everything: no key is `k`
      have hne : ∀ q' ∈ q :: l, q'.1 ≠ k := by
        intro q' hq'
        rcases List.mem_cons.mp hq' with rfl | hq'
        · exact hlt.ne'
        · exact (hlt.trans (hq q' hq')).ne'
      rw [List.mem_cons]
      exact or_congr_right ⟨fun h => ⟨hne p h, h⟩, And.right⟩
    · have hne : ∀ q' ∈ l, q'.1 ≠ k := fun q' hq' => heq ▸ (hq q' hq').ne'
      rw [List.mem_cons, List.mem_cons]
      refine or_congr_right ⟨fun h => ⟨hne p h, .inr h⟩, ?_⟩
      rintro ⟨hk, rfl | h⟩
      · exact (hk heq.symm).elim
      · exact h
    · rw [List.mem_cons, mem_insertPair hl, List.mem_cons]
      constructor
      · rintro (rfl | rfl | ⟨hk, h⟩)
        · exact .inr ⟨Ne.symm heq, .inl rfl⟩
        · exact .inl rfl
        · exact .inr ⟨hk, .inr h⟩
      · rintro (rfl | ⟨hk, rfl | h⟩)
        · exact .inr (.inl rfl)
        · exact .inl rfl
        · exact .inr (.inr ⟨hk, h⟩)

lemma insertPair_sorted : ∀ {l : List (κ × ν)}, l.Pairwise (fun p q => p.1 < q.1) →
    (insertPair k v l).Pairwise fun p q => p.1 < q.1
  | [], _ => List.pairwise_singleton _ _
  | q :: l, hs => by
    obtain ⟨hq, hl⟩ := List.pairwise_cons.mp hs
    rw [insertPair]
    split_ifs with hlt heq
    · refine List.pairwise_cons.mpr ⟨fun q' hq' => ?_, hs⟩
      rcases List.mem_cons.mp hq' with rfl | hq'
      · exact hlt
      · exact hlt.trans (hq q' hq')
    · exact List.pairwise_cons.mpr ⟨fun q' hq' => heq ▸ hq q' hq', hl⟩
    · refine List.pairwise_cons.mpr ⟨fun q' hq' => ?_, insertPair_sorted hl⟩
      rcases (mem_insertPair hl).mp hq' with rfl | ⟨-, hq'⟩
      · exact lt_of_le_of_ne (not_lt.mp hlt) (Ne.symm heq)
      · exact hq q' hq'

def set (t : Table κ ν) (k : κ) (v : ν) : Table κ ν :=
  ⟨insertPair k v t.pairs, insertPair_sorted t.sorted⟩

lemma get_set [Decidable (j = k)] :
    (t.set k v).get j = if j = k then some v else t.get j := by
  refine Option.ext fun w => ?_
  have hmem : (t.set k v).get j = some w ↔ (j, w) = (k, v) ∨ j ≠ k ∧ t.get j = some w := by
    rw [← mem_pairs, ← mem_pairs]
    exact mem_insertPair t.sorted
  rw [hmem]
  by_cases h : j = k
  · simp [h, eq_comm]
  · simp [h]

@[simp] lemma get_set_self : (t.set k v).get k = some v := by
  rw [get_set, if_pos rfl]

lemma get_set_of_ne (h : j ≠ k) : (t.set k v).get j = t.get j := by
  rw [get_set, if_neg h]

@[simp] lemma get_empty : (empty : Table κ ν).get k = none := rfl

/-! ## Keeping some of the pairs -/

/-- Delete what does not pass the test. -/
def keep (t : Table κ ν) (p : κ → ν → Bool) : Table κ ν :=
  ⟨t.pairs.filter fun q => p q.1 q.2, t.sorted.filter _⟩

lemma get_keep {p : κ → ν → Bool} : (t.keep p).get k = (t.get k).filter (p k) := by
  refine Option.ext fun w => ?_
  have hmem : (t.keep p).get k = some w ↔ t.get k = some w ∧ p k w = true := by
    rw [← mem_pairs, ← mem_pairs]
    exact List.mem_filter
  rw [hmem, Option.filter_eq_some_iff]

/-! ## A table from a list -/

/-- Set the pairs one by one, so that the last one with a key counts. -/
def ofList (l : List (κ × ν)) : Table κ ν := l.foldl (fun t p => t.set p.1 p.2) empty

lemma mem_keys_set : j ∈ (t.set k v).keys ↔ j = k ∨ j ∈ t.keys := by
  simp only [mem_keys, get_set]
  by_cases hj : j = k
  · simp [hj]
  · simp [hj]

lemma mem_keys_ofList {l : List (κ × ν)} : k ∈ (ofList l).keys ↔ k ∈ l.map Prod.fst := by
  have hfold : ∀ t : Table κ ν, k ∈ (l.foldl (fun t p => t.set p.1 p.2) t).keys ↔
      k ∈ l.map Prod.fst ∨ k ∈ t.keys := by
    induction l with
    | nil => simp
    | cons p l ih =>
      intro t
      rw [List.foldl_cons, ih, mem_keys_set, List.map_cons, List.mem_cons]
      tauto
  exact (hfold empty).trans (or_iff_left List.not_mem_nil)

end Table

end Pgman
