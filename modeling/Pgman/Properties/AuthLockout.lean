import Mathlib.Data.List.Dedup
import Mathlib.Data.List.Induction
import Mathlib.Data.List.Perm.Subperm
import Mathlib.Algebra.Order.Ring.Int
import Mathlib.Tactic.Linarith
import Pgman.Construction.Session.AuthLimiter
import Pgman.Framework.Recency

/-!
# Lockout after failed logins

The limiter keeps a map and a list; what it is for needs neither.  `ideal` says for one address,
from the calls about that address alone, whether it may try.  As long as the addresses with failures
on record fit into the limiter its answers are the ideal ones (`Exact`), and whatever happens the
map and the list agree, in the order of the last touch (`Linked`).

The time of a touch is its place in the log of touches, `touches`; `lastUse` of the recency library
reads it off.
-/

namespace Pgman

open Net (Text)

inductive LimiterCall
  | allowed
  | failure
  | success
  deriving DecidableEq

structure LimiterCallAt where
  now : ℤ
  addr : Text
  call : LimiterCall
  deriving DecidableEq

/-! ## The ideal limiter -/

/-- The failures of an address since its last success, and the latest of them. -/
structure Record where
  failures : ℕ
  latest : Option ℤ

/-- What the calls about one address come to. -/
def recordOf (a : Text) (past : List LimiterCallAt) : Record :=
  past.foldl (fun x c => if c.addr = a then
      match c.call with
      | .allowed => x
      | .failure => ⟨x.failures + 1, some c.now⟩
      | .success => ⟨0, none⟩
    else x) ⟨0, none⟩

/-- Five seconds, doubled with each failure from the sixth on, and five minutes at most. -/
def lockout (failures : ℕ) : ℤ := min (5000000000 * 2 ^ (failures - 5)) 300000000000

/-- Refused until the lockout after the latest failure is over, from the fifth failure on. -/
def ideal (a : Text) (now : ℤ) (past : List LimiterCallAt) : Bool :=
  if 5 ≤ (recordOf a past).failures then
    (recordOf a past).latest.all fun t => t + lockout (recordOf a past).failures < now
  else true

/-- The addresses with failures on record. -/
def outstanding (past : List LimiterCallAt) : List Text :=
  (past.map (·.addr)).dedup.filter fun a => 0 < (recordOf a past).failures

variable {past : List LimiterCallAt} {c : LimiterCallAt} {a b : Text} {l : AuthLimiter}
  {log : List Text} {now : ℤ}

lemma recordOf_concat : recordOf a (past ++ [c]) = if c.addr = a then
    match c.call with
    | .allowed => recordOf a past
    | .failure => ⟨(recordOf a past).failures + 1, some c.now⟩
    | .success => ⟨0, none⟩
    else recordOf a past := by
  rw [recordOf, List.foldl_append]
  rfl

lemma recordOf_concat_of_ne (h : c.addr ≠ a) : recordOf a (past ++ [c]) = recordOf a past := by
  rw [recordOf_concat, if_neg h]

/-- Only an address that there was a call about has a record. -/
lemma mem_of_recordOf_pos (h : 0 < (recordOf a past).failures) : a ∈ past.map (·.addr) := by
  induction past using List.reverseRecOn with
  | nil => exact absurd h (Nat.lt_irrefl 0)
  | append_singleton past c ih =>
    rw [List.map_append, List.mem_append]
    by_cases ha : c.addr = a
    · exact .inr (List.mem_singleton.mpr ha.symm)
    · rw [recordOf_concat_of_ne ha] at h
      exact .inl (ih h)

lemma mem_outstanding : a ∈ outstanding past ↔ 0 < (recordOf a past).failures := by
  rw [outstanding, List.mem_filter, List.mem_dedup, decide_eq_true_iff]
  exact and_iff_right_of_imp mem_of_recordOf_pos

/-- The loop that doubles, with its cap. -/
lemma min_doubleBackoff (shift : ℕ) {b : ℤ} (hb : 0 < b) :
    min (doubleBackoff shift b) authLockMax = min (b * 2 ^ shift) authLockMax := by
  induction shift generalizing b with
  | zero => rw [doubleBackoff, pow_zero, mul_one]
  | succ shift ih =>
    rw [doubleBackoff]
    split_ifs with hless
    · rw [ih (by omega), pow_succ, mul_assoc, mul_comm 2]
    · -- past the cap both are cut off
      have hmax : authLockMax ≤ b := not_lt.mp hless
      have hgrow : b ≤ b * 2 ^ (shift + 1) := le_mul_of_one_le_right hb.le (one_le_pow₀ (by decide))
      rw [min_eq_right hmax, min_eq_right (hmax.trans hgrow)]

lemma lockoutFor_eq (n : ℕ) : lockoutFor n = lockout n := by
  have hmin := min_doubleBackoff (n - authLockThreshold) (show 0 < authLockBase by decide)
  rw [min_comm, min_def_lt] at hmin
  exact hmin

/-! ## The map and the list -/

namespace AuthLimiter

/-- The map and the list hold the same addresses, each once, in the order of the last touch. -/
structure Linked (log : List Text) (l : AuthLimiter) : Prop where
  same : ∀ {a}, a ∈ l.lru ↔ ∃ e, l.state.get a = some e
  once : l.lru.Nodup
  order : l.lru.Pairwise fun a b => lastUse b log < lastUse a log

lemma linked_new (capacity : ℤ) : Linked [] (new capacity) :=
  ⟨⟨nofun, fun ⟨_, h⟩ => nomatch h⟩, .nil, .nil⟩

lemma Linked.absent (h : Linked log l) (ha : l.state.get a = none) : a ∉ l.lru := by
  intro hmem
  obtain ⟨e, he⟩ := h.same.mp hmem
  rw [ha] at he
  cases he

/-- `len(l.state)` is the length of the list. -/
lemma Linked.length (h : Linked log l) : l.state.pairs.length = l.lru.length := by
  have hperm : (l.state.keys).Perm l.lru := by
    rw [List.perm_ext_iff_of_nodup _ h.once]
    · intro a
      rw [Table.mem_keys, h.same]
    · exact (List.pairwise_map.mpr l.state.sorted).imp fun hlt => ne_of_lt hlt
  rw [← hperm.length_eq, Table.keys, List.length_map]

/-- The latest touch is later than all others. -/
lemma lastUse_lt_of_ne (h : b ≠ a) (log : List Text) :
    lastUse b (a :: log) < lastUse a (a :: log) := by
  rw [lastUse_cons_of_ne (Ne.symm h), lastUse_cons_self]
  exact Nat.lt_succ_of_le (lastUse_le_length b log)

/-- A touch of an address that is not in a list leaves its order as it is. -/
lemma order_cons_of_notMem {lru : List Text} (ha : a ∉ lru)
    (h : lru.Pairwise fun x y => lastUse y log < lastUse x log) :
    lru.Pairwise fun x y => lastUse y (a :: log) < lastUse x (a :: log) := by
  refine h.imp_of_mem fun {x y} hx hy hlt => ?_
  have hxa : a ≠ x := fun heq => ha (heq ▸ hx)
  have hya : a ≠ y := fun heq => ha (heq ▸ hy)
  rwa [lastUse_cons_of_ne hya, lastUse_cons_of_ne hxa]

/-- Putting an address in front. -/
lemma order_front {lru : List Text} (ha : a ∉ lru)
    (h : lru.Pairwise fun x y => lastUse y log < lastUse x log) :
    (a :: lru).Pairwise fun x y => lastUse y (a :: log) < lastUse x (a :: log) :=
  List.pairwise_cons.mpr ⟨fun b hb => lastUse_lt_of_ne (fun heq : b = a => ha (heq ▸ hb)) log,
    order_cons_of_notMem ha h⟩

lemma Linked.moveToFront (h : Linked log l) (ha : a ∈ l.lru) :
    Linked (a :: log) (l.moveToFront a) := by
  have hnot : a ∉ l.lru.erase a := h.once.not_mem_erase
  refine ⟨?_, ?_, ?_⟩
  · intro x
    exact ((List.perm_cons_erase ha).mem_iff.symm).trans h.same
  · exact List.nodup_cons.mpr ⟨hnot, h.once.erase a⟩
  · exact order_front hnot (h.order.sublist List.erase_sublist)

/-- Looking an unknown address up. -/
lemma Linked.unknown (h : Linked log l) (ha : l.state.get a = none) : Linked (a :: log) l :=
  ⟨h.same, h.once, order_cons_of_notMem (h.absent ha) h.order⟩

lemma Linked.insert (h : Linked log l) (ha : l.state.get a = none) (e : LimiterEntry) :
    Linked (a :: log) { l with lru := a :: l.lru, state := l.state.set a e } := by
  refine ⟨?_, ?_, ?_⟩
  · intro x
    change x ∈ a :: l.lru ↔ ∃ e', (l.state.set a e).get x = some e'
    rw [List.mem_cons, h.same, Table.get_set]
    by_cases hx : x = a
    · simp [hx]
    · simp [hx]
  · exact List.nodup_cons.mpr ⟨h.absent ha, h.once⟩
  · exact order_front (h.absent ha) h.order

lemma get_drop : (l.drop b).state.get a = if a = b then none else l.state.get a := by
  change (l.state.keep _).get a = _
  rw [Table.get_keep]
  split_ifs with hab
  · cases hget : l.state.get a with
    | none => rfl
    | some e => rw [Option.filter_some, if_neg (by simp [hab])]
  · cases hget : l.state.get a with
    | none => rfl
    | some e => rw [Option.filter_some, if_pos (decide_eq_true hab)]

lemma Linked.mem_drop (h : Linked log l) : a ∈ (l.drop b).lru ↔ a ≠ b ∧ a ∈ l.lru :=
  h.once.mem_erase_iff

lemma Linked.drop (h : Linked log l) (b : Text) : Linked log (l.drop b) := by
  refine ⟨?_, h.once.erase b, h.order.sublist List.erase_sublist⟩
  intro a
  rw [h.mem_drop, h.same, get_drop]
  by_cases hab : a = b
  · simp [hab]
  · simp [hab]

lemma Linked.set (h : Linked log l) (ha : a ∈ l.lru) (e : LimiterEntry) :
    Linked log { l with state := l.state.set a e } := by
  refine ⟨?_, h.once, h.order⟩
  intro x
  change x ∈ l.lru ↔ ∃ e', (l.state.set a e).get x = some e'
  rw [Table.get_set]
  by_cases hx : x = a
  · simp [hx, ha]
  · rw [if_neg hx]
    exact h.same

lemma evict_of_room {rounds : ℕ} (h : (l.state.pairs.length : ℤ) ≤ l.capacity) :
    evict rounds l = l := by
  cases rounds with
  | zero => rfl
  | succ rounds => rw [evict, if_neg (not_lt.mpr h)]

/-- Eviction after an address was put in front: there was room, or the oldest of the others goes. -/
lemma Linked.evict_front (h : Linked log l) {rest : List Text} (hlru : l.lru = a :: rest)
    (hcap : 1 ≤ l.capacity) (hroom : rest.length ≤ l.capacity) :
    l.lru.length ≤ l.capacity ∧ l.evictIfNeeded = l ∨
      ∃ front oldest, rest = front ++ [oldest] ∧ rest.length = l.capacity ∧
        l.evictIfNeeded = l.drop oldest := by
  by_cases hfits : (l.lru.length : ℤ) ≤ l.capacity
  · exact .inl ⟨hfits, evict_of_room (h.length ▸ hfits)⟩
  have hlen : (l.lru.length : ℤ) = rest.length + 1 := by rw [hlru, List.length_cons]; rfl
  rcases List.eq_nil_or_concat rest with rfl | ⟨front, oldest, rfl⟩
  · rw [List.length_nil] at hlen
    omega
  · refine .inr ⟨front, oldest, by simp, by omega, ?_⟩
    -- one round, after which there is room again
    have hlast : l.lru.getLast? = some oldest := by
      rw [hlru, List.concat_eq_append, ← List.cons_append, List.getLast?_concat]
    have hmem : oldest ∈ l.lru := List.mem_of_getLast? hlast
    have hless : ((l.drop oldest).state.pairs.length : ℤ) ≤ (l.drop oldest).capacity := by
      rw [(h.drop oldest).length]
      change ((l.lru.erase oldest).length : ℤ) ≤ l.capacity
      rw [List.length_erase_of_mem hmem]
      omega
    have hover : l.capacity < (l.state.pairs.length : ℤ) := by rw [h.length]; omega
    obtain ⟨n, hn⟩ : ∃ n, l.state.pairs.length = n + 1 :=
      Nat.exists_eq_succ_of_ne_zero (by omega)
    rw [evictIfNeeded, hn, evict, if_pos hover, hlast]
    exact evict_of_room hless

/-- What `RecordFailure` does before it counts. -/
structure Touched (log : List Text) (l : AuthLimiter) (a : Text) (l' : AuthLimiter) : Prop where
  linked : Linked (a :: log) l'
  front : a ∈ l'.lru
  capacity : l'.capacity = l.capacity
  room : l'.lru.length ≤ l'.capacity
  own : l'.state.get a = some ((l.state.get a).getD ⟨0, none⟩)
  other : ∀ {x}, x ∈ l'.lru → x ≠ a → l'.state.get x = l.state.get x
  gone : ∀ {x}, x ∈ l.lru → x ∉ l'.lru → l.state.get a = none ∧ l.lru.length = l.capacity ∧
    ∀ {u}, u ∈ l.lru → u ≠ x → lastUse x log < lastUse u log

lemma Linked.touch (h : Linked log l) (hcap : 1 ≤ l.capacity) (hroom : l.lru.length ≤ l.capacity)
    (a : Text) : Touched log l a (l.touch a) := by
  unfold AuthLimiter.touch
  cases hget : l.state.get a with
  | some e =>
    have ha : a ∈ l.lru := h.same.mpr ⟨e, hget⟩
    have hperm : (a :: l.lru.erase a).Perm l.lru := (List.perm_cons_erase ha).symm
    refine ⟨h.moveToFront ha, List.mem_cons_self, rfl, ?_, ?_, fun _ _ => rfl, ?_⟩
    · change ((a :: l.lru.erase a).length : ℤ) ≤ l.capacity
      rw [hperm.length_eq]
      exact hroom
    · exact hget.trans (by rw [hget, Option.getD_some])
    · intro x hx hno
      exact absurd (hperm.mem_iff.mpr hx) hno
  | none =>
    have hl := h.insert hget ⟨0, none⟩
    have hnew : (l.state.set a ⟨0, none⟩).get a = some ((l.state.get a).getD ⟨0, none⟩) := by
      rw [Table.get_set_self, hget, Option.getD_none]
    rcases hl.evict_front rfl hcap hroom with ⟨hfits, hsame⟩ | ⟨front, oldest, hrest, hfull, hdrop⟩
    · simp only [hsame]
      refine ⟨hl, List.mem_cons_self, rfl, hfits, hnew, ?_, ?_⟩
      · intro x _ hx
        exact Table.get_set_of_ne hx
      · intro x hx hno
        exact absurd (List.mem_cons_of_mem _ hx) hno
    · simp only [hdrop]
      have hold : oldest ∈ l.lru := by rw [hrest]; exact List.mem_append_right _ (by simp)
      have hne : oldest ≠ a := fun heq => h.absent hget (heq ▸ hold)
      refine ⟨hl.drop oldest, hl.mem_drop.mpr ⟨hne.symm, List.mem_cons_self⟩, rfl, ?_, ?_, ?_, ?_⟩
      · change (((a :: l.lru).erase oldest).length : ℤ) ≤ l.capacity
        rw [List.length_erase_of_mem (List.mem_cons_of_mem _ hold), List.length_cons]
        exact hroom
      · rw [get_drop, if_neg hne.symm]
        exact hnew
      · intro x hx hxa
        rw [get_drop, if_neg (hl.mem_drop.mp hx).1]
        exact Table.get_set_of_ne hxa
      · intro x hx hno
        -- the one that goes is the last of the list
        obtain rfl : x = oldest := by
          by_contra hxo
          exact hno (hl.mem_drop.mpr ⟨hxo, List.mem_cons_of_mem _ hx⟩)
        refine ⟨hget, hfull, fun {u} hu hux => ?_⟩
        have horder := h.order
        rw [hrest] at horder hu
        rcases List.mem_append.mp hu with hfront | hlast
        · exact (List.pairwise_append.mp horder).2.2 u hfront x (List.mem_singleton_self x)
        · exact absurd (List.mem_singleton.mp hlast) hux

/-! ## A call -/

/-- A call as a step. -/
def step (l : AuthLimiter) (c : LimiterCallAt) : AuthLimiter :=
  match c.call with
  | .allowed => (l.allowed c.now c.addr).2
  | .failure => l.recordFailure c.now c.addr
  | .success => l.recordSuccess c.addr

def after (capacity : ℤ) (past : List LimiterCallAt) : AuthLimiter := past.foldl step (new capacity)

lemma after_concat {capacity : ℤ} :
    after capacity (past ++ [c]) = (after capacity past).step c := by
  rw [after, List.foldl_append]
  rfl

end AuthLimiter

/-- The log of touches, the last one first. -/
def touches (past : List LimiterCallAt) : List Text :=
  past.foldl (fun log c => match c.call with
    | .success => log
    | _ => c.addr :: log) []

lemma touches_concat : touches (past ++ [c]) = match c.call with
    | .success => touches past
    | _ => c.addr :: touches past := by
  rw [touches, List.foldl_append]
  rfl

namespace AuthLimiter

lemma recordFailure_eq (h : Touched log l a (l.touch a)) : l.recordFailure now a =
    { l.touch a with
      state := (l.touch a).state.set a
        (LimiterEntry.fail now ((l.state.get a).getD ⟨0, none⟩)) } := by
  rw [recordFailure, h.own]

/-- What holds of the limiter whatever it is asked. -/
structure Kept (cap : ℤ) (log : List Text) (l : AuthLimiter) : Prop extends Linked log l where
  capacity : l.capacity = cap
  room : l.lru.length ≤ cap

variable {capacity : ℤ}

lemma Kept.touch (h : Kept capacity log l) (hcap : 1 ≤ capacity) (a : Text) :
    Touched log l a (l.touch a) :=
  h.toLinked.touch (h.capacity ▸ hcap) (h.capacity.symm ▸ h.room) a

lemma Kept.step (h : Kept capacity (touches past) l) (hcap : 1 ≤ capacity) (c : LimiterCallAt) :
    Kept capacity (touches (past ++ [c])) (l.step c) := by
  obtain ⟨now, a, call⟩ := c
  rw [touches_concat]
  cases call with
  | allowed =>
    change Kept capacity (a :: touches past) (l.allowed now a).2
    unfold AuthLimiter.allowed
    cases hget : l.state.get a with
    | none => exact ⟨h.toLinked.unknown hget, h.capacity, h.room⟩
    | some e =>
      have ha : a ∈ l.lru := h.same.mpr ⟨e, hget⟩
      refine ⟨h.toLinked.moveToFront ha, h.capacity, ?_⟩
      change ((a :: l.lru.erase a).length : ℤ) ≤ capacity
      rw [(List.perm_cons_erase ha).symm.length_eq]
      exact h.room
  | failure =>
    have ht := h.touch hcap a
    change Kept capacity (a :: touches past) (l.recordFailure now a)
    rw [recordFailure_eq ht]
    refine ⟨ht.linked.set ht.front _, ht.capacity.trans h.capacity, ?_⟩
    have hroom := ht.room
    rw [ht.capacity, h.capacity] at hroom
    exact hroom
  | success =>
    change Kept capacity (touches past) (l.recordSuccess a)
    unfold AuthLimiter.recordSuccess
    cases hget : l.state.get a with
    | none => exact h
    | some e =>
      refine ⟨h.toLinked.drop a, h.capacity, le_trans ?_ h.room⟩
      exact Int.ofNat_le.mpr List.length_erase_le

lemma kept_after (hcap : 1 ≤ capacity) (past : List LimiterCallAt) :
    Kept capacity (touches past) (after capacity past) := by
  induction past using List.reverseRecOn with
  | nil => exact ⟨linked_new capacity, if_neg (by omega), by change ((0 : ℕ) : ℤ) ≤ capacity; omega⟩
  | append_singleton past c ih =>
    rw [after_concat]
    exact ih.step hcap c

/-- An address leaves the limiter by its own success, or as the one touched least recently. -/
lemma Kept.leaves (h : Kept capacity (touches past) l) (hcap : 1 ≤ capacity) {x : Text}
    (hx : x ∈ l.lru) (hno : x ∉ (l.step c).lru) :
    c.call = .success ∧ c.addr = x ∨
      c.call = .failure ∧ c.addr ∉ l.lru ∧ l.lru.length = capacity ∧
        ∀ u ∈ l.lru, u ≠ x → lastUse x (touches past) < lastUse u (touches past) := by
  obtain ⟨now, a, call⟩ := c
  cases call with
  | allowed =>
    refine absurd ?_ hno
    change x ∈ (l.allowed now a).2.lru
    unfold AuthLimiter.allowed
    cases hget : l.state.get a with
    | none => exact hx
    | some e => exact (List.perm_cons_erase (h.same.mpr ⟨e, hget⟩)).mem_iff.mp hx
  | failure =>
    have ht := h.touch hcap a
    change x ∉ (l.recordFailure now a).lru at hno
    rw [recordFailure_eq ht] at hno
    obtain ⟨hnone, hfull, hleast⟩ := ht.gone hx hno
    exact .inr ⟨rfl, h.toLinked.absent hnone, hfull.trans h.capacity, fun u hu => hleast hu⟩
  | success =>
    change x ∉ (l.recordSuccess a).lru at hno
    unfold AuthLimiter.recordSuccess at hno
    cases hget : l.state.get a with
    | none =>
      rw [hget] at hno
      exact absurd hx hno
    | some e =>
      rw [hget] at hno
      by_contra hother
      exact hno (h.toLinked.mem_drop.mpr ⟨fun heq => hother (.inl ⟨rfl, heq.symm⟩), hx⟩)

/-! ## The limiter and the ideal one -/

/-- The entry that the record of an address calls for. -/
def entryOf (x : Record) : Option LimiterEntry :=
  if x.failures = 0 then none
  else some ⟨x.failures, if 5 ≤ x.failures then x.latest.map (· + lockout x.failures) else none⟩

/-- The limiter has the record of every address. -/
def Exact (past : List LimiterCallAt) (l : AuthLimiter) : Prop :=
  ∀ a, l.state.get a = entryOf (recordOf a past)

lemma entryOf_eq_none {x : Record} : entryOf x = none ↔ x.failures = 0 := by
  unfold entryOf
  split_ifs with hzero
  · simp [hzero]
  · simp [hzero]

/-- One more failure, in the entry as in the record. -/
lemma fail_entryOf (x : Record) (now : ℤ) :
    some (LimiterEntry.fail now ((entryOf x).getD ⟨0, none⟩)) =
      entryOf ⟨x.failures + 1, some now⟩ := by
  have hold : (entryOf x).getD ⟨0, none⟩ =
      ⟨x.failures, if 5 ≤ x.failures then x.latest.map (· + lockout x.failures) else none⟩ := by
    unfold entryOf
    by_cases hzero : x.failures = 0
    · simp [hzero]
    · simp [hzero]
  rw [hold, entryOf, if_neg (Nat.succ_ne_zero _)]
  by_cases hlock : 5 ≤ x.failures + 1
  · have hfail : ∀ t, LimiterEntry.fail now ⟨x.failures, t⟩ =
        ⟨x.failures + 1, some (now + lockoutFor (x.failures + 1))⟩ := fun _ => if_pos hlock
    rw [hfail, lockoutFor_eq, if_pos hlock]
    rfl
  · have hfail : ∀ t, LimiterEntry.fail now ⟨x.failures, t⟩ = ⟨x.failures + 1, t⟩ :=
      fun _ => if_neg hlock
    rw [hfail, if_neg hlock, if_neg fun h => hlock (h.trans (Nat.le_succ _))]

/-- There is room for whoever has failures on record, so that nobody is evicted. -/
lemma Exact.nobody_gone (h : Exact past l) (hk : Kept capacity (touches past) l)
    (hcap : 1 ≤ capacity) (hfew : (outstanding (past ++ [⟨now, a, .failure⟩])).length ≤ capacity)
    {x : Text} (hx : x ∈ l.lru) : x ∈ (l.touch a).lru := by
  by_contra hno
  obtain ⟨hnone, hfull, -⟩ := (hk.touch hcap a).gone hx hno
  have hsub : a :: l.lru ⊆ outstanding (past ++ [⟨now, a, .failure⟩]) := by
    intro y hy
    rw [mem_outstanding, recordOf_concat]
    rcases List.mem_cons.mp hy with rfl | hy
    · rw [if_pos rfl]
      exact Nat.succ_pos _
    · obtain ⟨e, he⟩ := hk.same.mp hy
      have hne : a ≠ y := fun heq => hk.toLinked.absent hnone (heq ▸ hy)
      rw [if_neg hne, Nat.pos_iff_ne_zero, ne_eq, ← entryOf_eq_none, ← h y, he]
      exact Option.some_ne_none e
  have hnodup : (a :: l.lru).Nodup := List.nodup_cons.mpr ⟨hk.toLinked.absent hnone, hk.once⟩
  have hle := (hnodup.subperm hsub).length_le
  rw [List.length_cons] at hle
  rw [hk.capacity] at hfull
  omega

lemma Exact.step (h : Exact past l) (hk : Kept capacity (touches past) l) (hcap : 1 ≤ capacity)
    (hfew : (outstanding (past ++ [c])).length ≤ capacity) : Exact (past ++ [c]) (l.step c) := by
  obtain ⟨now, a, call⟩ := c
  intro x
  cases call with
  | allowed =>
    have hrecord : recordOf x (past ++ [⟨now, a, .allowed⟩]) = recordOf x past := by
      rw [recordOf_concat]
      exact ite_self _
    have hstate : (l.allowed now a).2.state = l.state := by
      unfold AuthLimiter.allowed
      split
      · rfl
      · rfl
    rw [hrecord, ← h x]
    exact congrArg (fun t : Table Text LimiterEntry => t.get x) hstate
  | success =>
    change (l.recordSuccess a).state.get x = _
    by_cases hxa : a = x
    · subst hxa
      rw [recordOf_concat, if_pos rfl]
      unfold AuthLimiter.recordSuccess
      cases hget : l.state.get a with
      | none => exact hget
      | some e =>
        simp only [get_drop, if_true]
        rfl
    · rw [recordOf_concat_of_ne hxa, ← h x]
      unfold AuthLimiter.recordSuccess
      cases hget : l.state.get a with
      | none => rfl
      | some e => simp only [get_drop, if_neg (Ne.symm hxa)]
  | failure =>
    have ht := hk.touch hcap a
    change (l.recordFailure now a).state.get x = _
    rw [recordFailure_eq ht]
    change ((l.touch a).state.set a _).get x = _
    rw [Table.get_set]
    by_cases hxa : x = a
    · subst hxa
      rw [if_pos rfl, recordOf_concat, if_pos rfl, h x]
      exact fail_entryOf _ _
    · rw [if_neg hxa, recordOf_concat_of_ne (Ne.symm hxa), ← h x]
      by_cases hx : x ∈ (l.touch a).lru
      · exact ht.other hx hxa
      · -- not there now, and not there before
        have hbefore : x ∉ l.lru := fun hold => hx (h.nobody_gone hk hcap hfew hold)
        rw [hk.same, not_exists] at hbefore
        rw [ht.linked.same, not_exists] at hx
        rw [Option.eq_none_iff_forall_ne_some.mpr hx, Option.eq_none_iff_forall_ne_some.mpr hbefore]

lemma exact_after (hcap : 1 ≤ capacity) (past : List LimiterCallAt)
    (hfew : ∀ soFar, soFar <+: past → (outstanding soFar).length ≤ capacity) :
    Exact past (after capacity past) := by
  induction past using List.reverseRecOn with
  | nil => exact fun _ => rfl
  | append_singleton past c ih =>
    rw [after_concat]
    have hpast := ih fun soFar hs => hfew soFar (hs.trans (List.prefix_append _ _))
    exact hpast.step (kept_after hcap past) hcap (hfew _ (List.prefix_refl _))

lemma Exact.allowed (h : Exact past l) (now : ℤ) (a : Text) :
    (l.allowed now a).1 = ideal a now past := by
  unfold AuthLimiter.allowed ideal
  rw [h a, entryOf]
  by_cases hzero : (recordOf a past).failures = 0
  · simp [hzero]
  by_cases hlock : 5 ≤ (recordOf a past).failures
  · simp [hzero, hlock, Option.all_map]
  · simp [hzero, hlock]

end AuthLimiter

/-- The limiter along a sequence of calls. -/
structure Lockout (capacity : ℤ) (calls : List LimiterCallAt) : Prop where
  /-- The map and the list hold the same addresses, each once. -/
  same : ∀ past, past <+: calls → ∀ a, a ∈ (AuthLimiter.after capacity past).lru ↔
    ∃ e, (AuthLimiter.after capacity past).state.get a = some e
  once : ∀ past, past <+: calls → (AuthLimiter.after capacity past).lru.Nodup
  room : ∀ past, past <+: calls → (AuthLimiter.after capacity past).lru.length ≤ capacity ∧
    (AuthLimiter.after capacity past).state.pairs.length ≤ capacity
  order : ∀ past, past <+: calls → (AuthLimiter.after capacity past).lru.Pairwise fun a b =>
    lastUse b (touches past) < lastUse a (touches past)
  /-- An address leaves by its own success, or evicted as the one touched least recently. -/
  evicts : ∀ past (c : LimiterCallAt) rest, calls = past ++ c :: rest →
    ∀ a ∈ (AuthLimiter.after capacity past).lru,
    a ∉ (AuthLimiter.after capacity (past ++ [c])).lru →
      c.call = .success ∧ c.addr = a ∨
      c.call = .failure ∧ c.addr ∉ (AuthLimiter.after capacity past).lru ∧
        (AuthLimiter.after capacity past).lru.length = capacity ∧
        ∀ u ∈ (AuthLimiter.after capacity past).lru, u ≠ a →
          lastUse a (touches past) < lastUse u (touches past)
  /-- With room for all failures on record, the answers are the ideal ones. -/
  refines : ∀ past, past <+: calls →
    (∀ soFar, soFar <+: past → (outstanding soFar).length ≤ capacity) →
    ∀ now a, ((AuthLimiter.after capacity past).allowed now a).1 = ideal a now past

/-- **The lockout of addresses refines the ideal one.** -/
theorem auth_lockout (capacity : ℤ) (hcap : 1 ≤ capacity) (calls : List LimiterCallAt) :
    Lockout capacity calls := by
  refine ⟨?_, ?_, ?_, ?_, ?_, ?_⟩
  · intro past _ a
    exact (AuthLimiter.kept_after hcap past).same
  · intro past _
    exact (AuthLimiter.kept_after hcap past).once
  · intro past _
    have hkept := AuthLimiter.kept_after hcap past
    exact ⟨hkept.room, hkept.toLinked.length ▸ hkept.room⟩
  · intro past _
    exact (AuthLimiter.kept_after hcap past).order
  · intro past c rest _ a ha hno
    rw [AuthLimiter.after_concat] at hno
    exact (AuthLimiter.kept_after hcap past).leaves hcap ha hno
  · intro past _ hfew now a
    exact (AuthLimiter.exact_after hcap past hfew).allowed now a

theorem auth_lockout_three_addresses : Lockout 2
    [⟨1, "a".toList, .failure⟩, ⟨2, "b".toList, .failure⟩, ⟨3, "a".toList, .allowed⟩,
      ⟨4, "c".toList, .failure⟩, ⟨5, "a".toList, .success⟩] :=
  auth_lockout 2 (by decide) _

end Pgman
