import Mathlib.Algebra.Order.Ring.Int
import Mathlib.Data.List.Induction
import Mathlib.Tactic.Common
import Pgman.Construction.Pool.Breaker

/-!
# The states of the circuit breaker

The breaker has two counters and, in the comments on them, three states.  This module reads the
states off the calls alone.  `failuresInARow` is what the calls say about the failures since the
last success; the breaker is open just when they have reached the threshold.  Calls carry the
instant at which they are made, in nanoseconds since the epoch, and are given in the order in which
they take effect.

While the breaker is open the end of the cooldown only moves forward (`later_of_open`), which is why
probes are a cooldown apart whatever failures are reported in between.
-/

namespace Pgman.Pool

inductive BreakerCall
  | allows
  | success
  | failure
  deriving DecidableEq

/-- A call, and when it is made. -/
structure CallAt where
  now : ℕ
  call : BreakerCall
  deriving DecidableEq

/-- The failures recorded since the last success. -/
def failuresInARow (past : List CallAt) : ℕ :=
  past.foldl (fun n c => match c.call with
    | .allows => n
    | .success => 0
    | .failure => n + 1) 0

namespace Breaker

variable (o : Options)

/-- A call as a step. -/
def next (b : Breaker) (c : CallAt) : Breaker :=
  match c.call with
  | .allows => (circuitAllows o c.now b).2
  | .success => (circuitRecordSuccess o b).1
  | .failure => (circuitRecordFailure o c.now b).1

/-- The breaker after some calls. -/
def after (past : List CallAt) : Breaker := past.foldl (next o) closed

/-- A non-zero deadline is set. -/
def IsOpen (b : Breaker) : Prop := b.openUntil ≠ 0

/-- A call at `now` is let through after these. -/
def Allowed (past : List CallAt) (now : ℕ) : Prop := (circuitAllows o now (after o past)).1 = true

/-- The states of the breaker along a sequence of calls. -/
structure StateMachine (calls : List CallAt) : Prop where
  open_iff : ∀ past rest, calls = past ++ rest →
    (IsOpen (after o past) ↔ o.cbThreshold ≤ failuresInARow past)
  waits : ∀ past (now : ℕ) rest, calls = past ++ ⟨now, .allows⟩ :: rest → IsOpen (after o past) →
    Allowed o past now → (after o past).openUntil ≤ now
  spaced : ∀ past mid rest (t₁ t₂ : ℕ),
    calls = past ++ ⟨t₁, .allows⟩ :: mid ++ ⟨t₂, .allows⟩ :: rest →
    (∀ soFar, soFar <+: ⟨t₁, .allows⟩ :: mid → IsOpen (after o (past ++ soFar))) →
    Allowed o past t₁ → Allowed o (past ++ ⟨t₁, .allows⟩ :: mid) t₂ → t₁ + o.cbCooldown ≤ t₂
  pushes : ∀ past (now : ℕ) rest, calls = past ++ ⟨now, .failure⟩ :: rest → IsOpen (after o past) →
    (after o (past ++ [⟨now, .failure⟩])).openUntil = now + o.cbCooldown
  closes : ∀ past (now : ℕ) rest, calls = past ++ ⟨now, .success⟩ :: rest →
    after o (past ++ [⟨now, .success⟩]) = closed

variable {o} {past mid : List CallAt} {b : Breaker} {c : CallAt} {now : ℕ}

lemma after_append : after o (past ++ mid) = mid.foldl (next o) (after o past) :=
  List.foldl_append

lemma after_concat : after o (past ++ [c]) = next o (after o past) c := by
  rw [after_append, List.foldl_cons, List.foldl_nil]

lemma failuresInARow_concat : failuresInARow (past ++ [c]) = match c.call with
    | .allows => failuresInARow past
    | .success => 0
    | .failure => failuresInARow past + 1 := by
  rw [failuresInARow, List.foldl_append]
  rfl

section Step

variable (ht : 0 < o.cbThreshold)

include ht

/-- What a call is let through for: the breaker is closed, or its cooldown over. -/
lemma circuitAllows_iff : (circuitAllows o now b).1 = true ↔
    b.openUntil = 0 ∨ b.openUntil ≤ now := by
  have hon : ¬o.cbThreshold ≤ 0 := not_le.mpr ht
  unfold circuitAllows
  by_cases hclosed : b.openUntil = 0
  · simp [hclosed]
  by_cases hearly : (now : ℤ) < b.openUntil
  · simp [hon, hclosed, hearly, not_le.mpr hearly]
  · simp [hon, hclosed, hearly, not_lt.mp hearly]

/-- A probe starts a new cooldown. -/
lemma openUntil_of_probe (hopen : IsOpen b) (h : (circuitAllows o now b).1 = true) :
    (circuitAllows o now b).2 = { b with openUntil := now + o.cbCooldown } := by
  have hover : ¬(now : ℤ) < b.openUntil := by
    rcases (circuitAllows_iff ht).mp h with hzero | hle
    · exact absurd hzero hopen
    · exact not_lt.mpr hle
  have hclosed : ¬(o.cbThreshold ≤ 0 ∨ b.openUntil = 0) := by
    rintro (hoff | hzero)
    · omega
    · exact hopen hzero
  rw [circuitAllows, if_neg hclosed, if_neg hover]

lemma circuitRecordFailure_eq : (circuitRecordFailure o now b).1 =
    if b.failures + 1 < o.cbThreshold then { b with failures := b.failures + 1 }
    else ⟨b.failures + 1, now + o.cbCooldown⟩ := by
  rw [circuitRecordFailure, if_neg (not_le.mpr ht)]
  split_ifs <;> rfl

lemma circuitRecordSuccess_eq : (circuitRecordSuccess o b).1 = closed := by
  rw [circuitRecordSuccess, if_neg (not_le.mpr ht)]

/-- Asking never changes the count, nor whether the breaker is open. -/
lemma circuitAllows_counts (hc : 0 < o.cbCooldown) :
    (circuitAllows o now b).2.failures = b.failures ∧
      (IsOpen (circuitAllows o now b).2 ↔ IsOpen b) := by
  by_cases hopen : IsOpen b
  · cases hallowed : (circuitAllows o now b).1 with
    | true =>
      rw [openUntil_of_probe ht hopen hallowed]
      refine ⟨rfl, fun _ => hopen, fun _ => ?_⟩
      change (now : ℤ) + o.cbCooldown ≠ 0
      omega
    | false =>
      have hearly : ¬(b.openUntil = 0 ∨ b.openUntil ≤ now) := by
        rw [← circuitAllows_iff ht, hallowed]
        exact Bool.false_ne_true
      have hval : circuitAllows o now b = (false, b) := by
        rw [circuitAllows, if_neg, if_pos]
        · omega
        · omega
      rw [hval]
      exact ⟨rfl, Iff.rfl⟩
  · have hval : circuitAllows o now b = (true, b) := by
      rw [circuitAllows, if_pos (.inr (not_not.mp hopen))]
    rw [hval]
    exact ⟨rfl, Iff.rfl⟩

end Step

/-! ## Counting -/

/-- The counters after some calls, and what they say about each other. -/
lemma after_counts (ht : 0 < o.cbThreshold) (hc : 0 < o.cbCooldown) (past : List CallAt) :
    (after o past).failures = failuresInARow past ∧
      (IsOpen (after o past) ↔ o.cbThreshold ≤ failuresInARow past) := by
  induction past using List.reverseRecOn with
  | nil =>
    refine ⟨rfl, fun h => absurd rfl h, fun h => ?_⟩
    change o.cbThreshold ≤ 0 at h
    omega
  | append_singleton past c ih =>
    obtain ⟨hcount, hopen⟩ := ih
    obtain ⟨now, call⟩ := c
    rw [after_concat, failuresInARow_concat]
    cases call with
    | allows =>
      obtain ⟨hsame, hiff⟩ : (circuitAllows o now (after o past)).2.failures = _ ∧ _ :=
        circuitAllows_counts ht hc
      exact ⟨hsame.trans hcount, hiff.trans hopen⟩
    | success =>
      change (circuitRecordSuccess o (after o past)).1.failures = 0 ∧
        (IsOpen (circuitRecordSuccess o (after o past)).1 ↔ o.cbThreshold ≤ 0)
      rw [circuitRecordSuccess_eq ht]
      exact ⟨rfl, fun h => absurd rfl h, fun h => absurd h (not_le.mpr ht)⟩
    | failure =>
      change (circuitRecordFailure o now (after o past)).1.failures =
          ((failuresInARow past + 1 : ℕ) : ℤ) ∧
        (IsOpen (circuitRecordFailure o now (after o past)).1 ↔
          o.cbThreshold ≤ ((failuresInARow past + 1 : ℕ) : ℤ))
      rw [circuitRecordFailure_eq ht, hcount]
      push_cast
      by_cases hfew : (failuresInARow past : ℤ) + 1 < o.cbThreshold
      · rw [if_pos hfew]
        refine ⟨rfl, fun h => ?_, fun h => absurd h (not_le.mpr hfew)⟩
        have hless := hopen.mp h
        omega
      · rw [if_neg hfew]
        refine ⟨rfl, fun _ => not_lt.mp hfew, fun _ => ?_⟩
        change (now : ℤ) + o.cbCooldown ≠ 0
        omega

/-! ## Spacing -/

/-- The end of the cooldown stays past `t` plus a cooldown while the breaker is open. -/
lemma later_of_open (ht : 0 < o.cbThreshold) {t : ℕ} :
    (∀ c ∈ mid, t ≤ c.now) → t + o.cbCooldown ≤ (after o past).openUntil →
      (∀ soFar, soFar <+: mid → IsOpen (after o (past ++ soFar))) →
      t + o.cbCooldown ≤ (after o (past ++ mid)).openUntil := by
  induction mid using List.reverseRecOn with
  | nil =>
    intro _ h _
    rwa [List.append_nil]
  | append_singleton mid c ih =>
    intro htime h hopen
    have hmid := ih (fun c hc => htime c (List.mem_append_left _ hc)) h fun soFar hs =>
      hopen soFar (hs.trans (List.prefix_append _ _))
    have hnow : t ≤ c.now := htime c (List.mem_append_right _ (List.mem_singleton_self c))
    have hstill := hopen mid (List.prefix_append _ _)
    have hend := hopen (mid ++ [c]) (List.prefix_refl _)
    rw [← List.append_assoc, after_concat] at hend ⊢
    obtain ⟨now, call⟩ := c
    cases call with
    | allows =>
      change t + o.cbCooldown ≤ (circuitAllows o now (after o (past ++ mid))).2.openUntil
      unfold circuitAllows
      split_ifs
      · exact hmid
      · exact hmid
      · exact Int.add_le_add_right (Int.ofNat_le.mpr hnow) _
    | success => exact absurd (congrArg Breaker.openUntil (circuitRecordSuccess_eq ht)) hend
    | failure =>
      change t + o.cbCooldown ≤ (circuitRecordFailure o now (after o (past ++ mid))).1.openUntil
      rw [circuitRecordFailure_eq ht]
      split_ifs
      · exact hmid
      · exact Int.add_le_add_right (Int.ofNat_le.mpr hnow) _

end Breaker

open Breaker in
/-- **The breaker is the state machine its comments describe.** -/
theorem breaker_state_machine (o : Options) (ht : 0 < o.cbThreshold) (hc : 0 < o.cbCooldown)
    (calls : List CallAt) (hclock : calls.Pairwise fun a b => a.now ≤ b.now) :
    StateMachine o calls where
  open_iff past _ _ := (after_counts ht hc past).2
  waits past now _ _ hopen h := ((circuitAllows_iff ht).mp h).resolve_left hopen
  spaced past mid rest t₁ t₂ hcalls hopen h₁ h₂ := by
    have hstart : IsOpen (after o past) := by simpa using hopen [] (List.nil_prefix)
    have hprobe : (after o (past ++ [⟨t₁, .allows⟩])).openUntil = t₁ + o.cbCooldown := by
      rw [after_concat]
      exact congrArg Breaker.openUntil (openUntil_of_probe ht hstart h₁)
    -- from the probe on the deadline moves forward only
    have htimes : ∀ c ∈ mid, t₁ ≤ c.now := by
      intro c hmem
      rw [hcalls, List.append_assoc] at hclock
      have htail := (List.pairwise_append.mp hclock).2.1
      exact (List.pairwise_cons.mp htail).1 c (List.mem_append_left _ hmem)
    have hlater := later_of_open ht htimes hprobe.ge fun soFar hs => by
      rw [List.append_assoc, List.singleton_append]
      exact hopen (⟨t₁, .allows⟩ :: soFar) (List.cons_prefix_cons.mpr ⟨rfl, hs⟩)
    rw [List.append_assoc, List.singleton_append] at hlater
    have hend := hopen _ (List.prefix_refl _)
    rcases (circuitAllows_iff ht).mp h₂ with hzero | hle
    · exact absurd hzero hend
    · exact hlater.trans hle
  pushes past now _ _ hopen := by
    obtain ⟨hcount, hiff⟩ := after_counts ht hc past
    have hmany : ¬(after o past).failures + 1 < o.cbThreshold := by
      have := hiff.mp hopen
      omega
    rw [after_concat]
    change (circuitRecordFailure o now (after o past)).1.openUntil = _
    rw [circuitRecordFailure_eq ht, if_neg hmany]
  closes past now _ _ := by
    rw [after_concat]
    exact circuitRecordSuccess_eq ht

/-- A breaker that opens at the second failure, for ten nanoseconds. -/
def hairTrigger : Options where
  idleTimeout := 0
  maxLifetime := 0
  healthCheckDelay := 0
  minIdle := 0
  dialRetryMax := 0
  dialRetryBackoff := 0
  cbThreshold := 2
  cbCooldown := 10
  healthCheck := false

theorem breaker_state_machine_probes : Breaker.StateMachine hairTrigger
    [⟨1, .failure⟩, ⟨2, .failure⟩, ⟨5, .allows⟩, ⟨12, .allows⟩, ⟨14, .failure⟩, ⟨23, .allows⟩,
      ⟨24, .allows⟩, ⟨25, .success⟩, ⟨25, .allows⟩] :=
  breaker_state_machine hairTrigger (by decide) (by decide) _ (by decide)

end Pgman.Pool
