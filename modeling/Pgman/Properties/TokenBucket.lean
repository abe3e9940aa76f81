import Mathlib.Algebra.Order.Field.Basic
import Mathlib.Algebra.Order.Field.Rat
import Mathlib.Data.List.Induction
import Mathlib.Tactic.Linarith
import Pgman.Construction.Session.RateLimiter

/-!
# What a token bucket lets through

In any window of time a user is let in at most `burst` times plus what the rate gives for the length
of the window.  The argument is a potential: the tokens that are left, together with the calls that
the window has granted so far, are never more than the bucket holds plus what has come in since the
window opened (`Credit`).

A bucket that nobody has drawn from for `burst / rate` seconds is full, and no user's bucket has
anything to do with another's.  A limiter whose rate or burst is not positive is none at all
(`unlimited_iff`).
-/

namespace Pgman

open Net (Text)

/-- Calls in the order of a clock that does not go back. -/
structure Clocked (calls : List AllowCall) : Prop where
  within : ∀ c ∈ calls, c.opened ≤ c.now
  ordered : calls.Pairwise fun a b => a.now ≤ b.opened

lemma Clocked.concat {calls : List AllowCall} {c : AllowCall} (h : Clocked (calls ++ [c])) :
    Clocked calls ∧ c.opened ≤ c.now ∧ ∀ p ∈ calls, p.now ≤ c.opened := by
  obtain ⟨hcalls, -, hlast⟩ := List.pairwise_append.mp h.ordered
  refine ⟨⟨fun p hp => h.within p (List.mem_append_left _ hp), hcalls⟩, ?_, ?_⟩
  · exact h.within c (List.mem_append_right _ (List.mem_singleton_self c))
  · exact fun p hp => hlast p hp c (List.mem_singleton_self c)

namespace RlBucket

variable {rate burst now : ℚ} {b : RlBucket}

/-- The tokens after a refill. -/
lemma refill_eq (hfull : b.tokens ≤ burst) (hnow : b.lastRefill ≤ now) :
    b.refill rate burst now = ⟨min burst (b.tokens + (now - b.lastRefill) * rate), now⟩ := by
  unfold refill
  rcases hnow.eq_or_lt with heq | hlt
  · -- nothing has come since
    rw [if_neg (by rw [heq, sub_self]; exact lt_irrefl 0), ← heq, sub_self, zero_mul, add_zero,
      min_eq_right hfull]
  · rw [if_pos (sub_pos.mpr hlt)]
    split_ifs with hover
    · rw [min_eq_left hover.le]
    · rw [min_eq_right (not_lt.mp hover)]

lemma take_eq (b : RlBucket) : b.take = (decide (1 ≤ b.tokens),
    { b with tokens := b.tokens - if 1 ≤ b.tokens then 1 else 0 }) := by
  unfold take
  by_cases hfew : b.tokens < 1
  · simp [hfew, not_le.mpr hfew]
  · simp [hfew, not_lt.mp hfew]

end RlBucket

namespace RateLimiter

variable {r : RateLimiter} {past calls : List AllowCall} {c : AllowCall} {k : Text}

/-- A call, and the calls that were let through so far. -/
def serve (x : RateLimiter × List AllowCall) (c : AllowCall) : RateLimiter × List AllowCall :=
  ((x.1.allow c).2, if (x.1.allow c).1 then x.2 ++ [c] else x.2)

def run (r : RateLimiter) (calls : List AllowCall) : RateLimiter × List AllowCall :=
  calls.foldl serve (r, [])

def after (r : RateLimiter) (past : List AllowCall) : RateLimiter := (r.run past).1

/-- The calls that are let through. -/
def granted (r : RateLimiter) (calls : List AllowCall) : List AllowCall := (r.run calls).2

lemma run_concat : r.run (past ++ [c]) = serve (r.run past) c := by
  rw [run, List.foldl_append]
  rfl

lemma after_concat : r.after (past ++ [c]) = ((r.after past).allow c).2 := by
  rw [after, run_concat]
  rfl

lemma granted_concat : r.granted (past ++ [c]) =
    if ((r.after past).allow c).1 then r.granted past ++ [c] else r.granted past := by
  rw [granted, run_concat]
  rfl

/-- Calls change neither the rate nor the burst. -/
lemma settings_after : (r.after past).tokensPerSec = r.tokensPerSec ∧
    (r.after past).burst = r.burst := by
  induction past using List.reverseRecOn with
  | nil => exact ⟨rfl, rfl⟩
  | append_singleton past c ih =>
    rw [after_concat]
    exact ih

/-! ## One user's bucket -/

/-- The bucket of `k` after some calls, if it has one. -/
def bucketOf (r : RateLimiter) (past : List AllowCall) (k : Text) : Option RlBucket :=
  (r.after past).buckets.get k

/-- The answer to a call, and the bucket it leaves. -/
def draw (r : RateLimiter) (b : Option RlBucket) (c : AllowCall) : Bool × RlBucket :=
  ((b.getD ⟨r.burst, c.opened⟩).refill r.tokensPerSec r.burst c.now).take

lemma allow_after : ((r.after past).allow c).1 = (r.draw (r.bucketOf past c.key) c).1 := by
  obtain ⟨hrate, hburst⟩ : (r.after past).tokensPerSec = _ ∧ _ := settings_after
  rw [allow, bucketFor, hrate, hburst]
  rfl

lemma bucketOf_concat : r.bucketOf (past ++ [c]) k =
    if k = c.key then some (r.draw (r.bucketOf past k) c).2 else r.bucketOf past k := by
  obtain ⟨hrate, hburst⟩ : (r.after past).tokensPerSec = _ ∧ _ := settings_after
  rw [bucketOf, after_concat, allow, bucketFor, hrate, hburst]
  change ((r.after past).buckets.set c.key _).get k = _
  rw [Table.get_set]
  split_ifs with hk
  · rw [hk]
    rfl
  · rfl

/-- A bucket has seen its own user's calls only. -/
lemma bucketOf_filter (past : List AllowCall) (k : Text) :
    r.bucketOf past k = r.bucketOf (past.filter (·.key = k)) k := by
  induction past using List.reverseRecOn with
  | nil => rfl
  | append_singleton past c ih =>
    rw [List.filter_append]
    by_cases hk : c.key = k
    · have hkeep : [c].filter (fun c => decide (c.key = k)) = [c] := by simp [hk]
      rw [hkeep, bucketOf_concat, bucketOf_concat, if_pos hk.symm, if_pos hk.symm, ih]
    · have hdrop : [c].filter (fun c => decide (c.key = k)) = [] := by simp [hk]
      rw [hdrop, List.append_nil, bucketOf_concat, if_neg (Ne.symm hk), ih]

/-! ## The potential -/

/-- What is known of a user's bucket: it holds no more than it can, and was last refilled by the
last of the user's calls. -/
structure Level (r : RateLimiter) (past : List AllowCall) (k : Text) (b : RlBucket) : Prop where
  nonneg : 0 ≤ b.tokens
  full : b.tokens ≤ r.burst
  last : ∃ p ∈ past, p.key = k ∧ b.lastRefill = p.now

/-- A draw on a bucket that was last refilled before. -/
lemma draw_eq {b : Option RlBucket} (hfull : ∀ x ∈ b, x.tokens ≤ r.burst)
    (hlast : ∀ x ∈ b, x.lastRefill ≤ c.now) (hopened : c.opened ≤ c.now)
    (hrate : 0 ≤ r.tokensPerSec) : ∃ level : ℚ, level ≤ r.burst ∧
      (∀ x ∈ b, level = min r.burst (x.tokens + (c.now - x.lastRefill) * r.tokensPerSec)) ∧
      (b = none → level = r.burst) ∧
      r.draw b c = (decide (1 ≤ level), ⟨level - if 1 ≤ level then 1 else 0, c.now⟩) := by
  cases b with
  | none =>
    refine ⟨r.burst, le_refl _, nofun, fun _ => rfl, ?_⟩
    have hmin : min r.burst (r.burst + (c.now - c.opened) * r.tokensPerSec) = r.burst :=
      min_eq_left (le_add_of_nonneg_right (mul_nonneg (sub_nonneg.mpr hopened) hrate))
    have hrefill : (⟨r.burst, c.opened⟩ : RlBucket).refill r.tokensPerSec r.burst c.now = _ :=
      RlBucket.refill_eq le_rfl hopened
    rw [draw, Option.getD_none, hrefill, RlBucket.take_eq]
    simp only [hmin]
  | some x =>
    refine ⟨min r.burst (x.tokens + (c.now - x.lastRefill) * r.tokensPerSec), min_le_left _ _,
      fun y hy => by rw [Option.mem_some_iff.mp hy], nofun, ?_⟩
    rw [draw, Option.getD_some, RlBucket.refill_eq (hfull x rfl) (hlast x rfl), RlBucket.take_eq]

/-- How many calls of `k` a window has among these. -/
def inWindow (k : Text) (s e : ℚ) (l : List AllowCall) : ℕ :=
  l.countP fun c => c.key = k ∧ s ≤ c.now ∧ c.now ≤ e

lemma inWindow_granted {s e : ℚ} : inWindow k s e (r.granted (past ++ [c])) =
    inWindow k s e (r.granted past) +
      if (r.draw (r.bucketOf past c.key) c).1 = true ∧ c.key = k ∧ s ≤ c.now ∧ c.now ≤ e
        then 1 else 0 := by
  rw [granted_concat, allow_after]
  by_cases hgrant : (r.draw (r.bucketOf past c.key) c).1 = true
  · rw [if_pos hgrant, inWindow, List.countP_append, ← inWindow, List.countP_singleton]
    simp [hgrant]
  · simp [hgrant]

/-- The grants of a window and the tokens left, against what the window can have given. -/
structure Credit (r : RateLimiter) (s e : ℚ) (n : ℕ) (b : RlBucket) : Prop where
  before : b.lastRefill < s → n = 0
  during : s ≤ b.lastRefill → b.lastRefill ≤ e →
    n + b.tokens ≤ r.burst + r.tokensPerSec * (b.lastRefill - s)
  beyond : e < b.lastRefill → n ≤ r.burst + r.tokensPerSec * (e - s)

section Window

variable (hrate : 0 ≤ r.tokensPerSec) (hburst : 0 ≤ r.burst)
include hrate hburst

lemma level_after (hempty : r.buckets = .empty) (hclock : Clocked past) (k : Text) :
    ∀ b ∈ r.bucketOf past k, Level r past k b := by
  induction past using List.reverseRecOn with
  | nil =>
    intro b hb
    rw [bucketOf, after, run, List.foldl_nil, hempty] at hb
    cases hb
  | append_singleton past c ih =>
    obtain ⟨hpast, hopened, hbefore⟩ := hclock.concat
    intro b hb
    rw [Option.mem_def, bucketOf_concat] at hb
    split_ifs at hb with hk
    · subst hk
      obtain ⟨level, hlevel, hsome, hnone, hdraw⟩ :=
        draw_eq (fun x hx => (ih hpast x hx).full) (fun x hx => by
          obtain ⟨p, hp, -, hlast⟩ := (ih hpast x hx).last
          exact hlast ▸ (hbefore p hp).trans hopened) hopened hrate
      have hpos : 0 ≤ level := by
        cases hb' : r.bucketOf past c.key with
        | none => rw [hnone hb']; exact hburst
        | some x =>
          obtain ⟨p, hp, -, hlast⟩ := (ih hpast x hb').last
          rw [hsome x hb']
          refine le_min hburst (add_nonneg (ih hpast x hb').nonneg (mul_nonneg ?_ hrate))
          exact sub_nonneg.mpr (hlast ▸ (hbefore p hp).trans hopened)
      rw [hdraw] at hb
      obtain rfl := Option.some.inj hb
      refine ⟨?_, ?_, c, List.mem_append_right _ (List.mem_singleton_self c), rfl, rfl⟩
      · change 0 ≤ level - if 1 ≤ level then 1 else 0
        split_ifs <;> linarith
      · change (level - if 1 ≤ level then 1 else 0) ≤ r.burst
        split_ifs <;> linarith
    · obtain ⟨hnonneg, hfull, p, hp, hrest⟩ := ih hpast b hb
      exact ⟨hnonneg, hfull, p, List.mem_append_left _ hp, hrest⟩

/-- A draw moves tokens over to the grants. -/
lemma credit_draw {s e level : ℚ} {b : Option RlBucket} {n : ℕ} (hse : s ≤ e)
    (hnone : b = none → n = 0 ∧ level = r.burst) (hlevel : level ≤ r.burst)
    (hsome : ∀ x ∈ b, level = min r.burst (x.tokens + (c.now - x.lastRefill) * r.tokensPerSec))
    (hlast : ∀ x ∈ b, 0 ≤ x.tokens ∧ x.lastRefill ≤ c.now) (hcredit : ∀ x ∈ b, Credit r s e n x) :
    Credit r s e (n + if 1 ≤ level ∧ s ≤ c.now ∧ c.now ≤ e then 1 else 0)
      ⟨level - if 1 ≤ level then 1 else 0, c.now⟩ := by
  constructor
  · intro hnow
    have hout : ¬(1 ≤ level ∧ s ≤ c.now ∧ c.now ≤ e) := fun h => not_le.mpr hnow h.2.1
    rw [if_neg hout, add_zero]
    cases b with
    | none => exact (hnone rfl).1
    | some x => exact (hcredit x rfl).before ((hlast x rfl).2.trans_lt hnow)
  · intro hs he
    change s ≤ c.now at hs
    change c.now ≤ e at he
    -- what is granted now is what leaves the bucket
    have hmove : ((n + if 1 ≤ level ∧ s ≤ c.now ∧ c.now ≤ e then 1 else 0 : ℕ) : ℚ) +
        (level - if 1 ≤ level then 1 else 0) = n + level := by
      by_cases hone : 1 ≤ level
      · simp [hone, hs, he]
      · simp [hone]
    change _ + (level - if 1 ≤ level then 1 else 0) ≤ r.burst + r.tokensPerSec * (c.now - s)
    rw [hmove]
    have hgain : 0 ≤ r.tokensPerSec * (c.now - s) := mul_nonneg hrate (sub_nonneg.mpr hs)
    cases b with
    | none =>
      rw [(hnone rfl).1, (hnone rfl).2, Nat.cast_zero]
      linarith
    | some x =>
      by_cases hbefore : x.lastRefill < s
      · rw [(hcredit x rfl).before hbefore, Nat.cast_zero]
        linarith
      · have hsum := (hcredit x rfl).during (not_lt.mp hbefore) ((hlast x rfl).2.trans he)
        have hfill : level ≤ x.tokens + (c.now - x.lastRefill) * r.tokensPerSec :=
          (hsome x rfl).le.trans (min_le_right _ _)
        linarith
  · intro he
    change e < c.now at he
    have hout : ¬(1 ≤ level ∧ s ≤ c.now ∧ c.now ≤ e) := fun h => not_le.mpr he h.2.2
    rw [if_neg hout, add_zero]
    have hgain : 0 ≤ r.tokensPerSec * (e - s) := mul_nonneg hrate (sub_nonneg.mpr hse)
    cases b with
    | none =>
      rw [(hnone rfl).1, Nat.cast_zero]
      linarith
    | some x =>
      by_cases hbefore : x.lastRefill < s
      · rw [(hcredit x rfl).before hbefore, Nat.cast_zero]
        linarith
      by_cases hbeyond : e < x.lastRefill
      · exact (hcredit x rfl).beyond hbeyond
      · have hsum := (hcredit x rfl).during (not_lt.mp hbefore) (not_lt.mp hbeyond)
        have htime : r.tokensPerSec * (x.lastRefill - s) ≤ r.tokensPerSec * (e - s) :=
          mul_le_mul_of_nonneg_left (sub_le_sub_right (not_lt.mp hbeyond) s) hrate
        have htokens := (hlast x rfl).1
        linarith

/-- The potential along a history. -/
lemma credit_after (hempty : r.buckets = .empty) (hclock : Clocked past) (k : Text) {s e : ℚ}
    (hse : s ≤ e) : (r.bucketOf past k = none → inWindow k s e (r.granted past) = 0) ∧
      ∀ b ∈ r.bucketOf past k, Credit r s e (inWindow k s e (r.granted past)) b := by
  induction past using List.reverseRecOn with
  | nil =>
    refine ⟨fun _ => rfl, fun b hb => ?_⟩
    rw [bucketOf, after, run, List.foldl_nil, hempty] at hb
    cases hb
  | append_singleton past c ih =>
    obtain ⟨hpast, hopened, hbefore⟩ := hclock.concat
    obtain ⟨ihnone, ihsome⟩ := ih hpast
    rw [bucketOf_concat, inWindow_granted]
    by_cases hk : k = c.key
    · rw [if_pos hk]
      refine ⟨nofun, fun b hb => ?_⟩
      obtain rfl := Option.some.inj hb
      subst hk
      have hlevel := level_after hrate hburst hempty hpast c.key
      have hlast : ∀ x ∈ r.bucketOf past c.key, 0 ≤ x.tokens ∧ x.lastRefill ≤ c.now := by
        intro x hx
        obtain ⟨p, hp, -, hlast⟩ := (hlevel x hx).last
        exact ⟨(hlevel x hx).nonneg, hlast ▸ (hbefore p hp).trans hopened⟩
      obtain ⟨level, hle, hsome, hnone, hdraw⟩ := draw_eq (fun x hx => (hlevel x hx).full)
        (fun x hx => (hlast x hx).2) hopened hrate
      rw [hdraw]
      simpa using credit_draw hrate hburst hse (fun h => ⟨ihnone h, hnone h⟩) hle hsome hlast ihsome
    · rw [if_neg hk, if_neg fun h => hk h.2.1.symm, add_zero]
      exact ⟨ihnone, ihsome⟩

/-- In a window of any length. -/
lemma inWindow_le (hempty : r.buckets = .empty) (hclock : Clocked calls) (k : Text) {s T : ℚ}
    (hT : 0 ≤ T) : (inWindow k s (s + T) (r.granted calls) : ℚ) ≤ r.burst + r.tokensPerSec * T := by
  have hgain : 0 ≤ r.tokensPerSec * T := mul_nonneg hrate hT
  obtain ⟨hnone, hsome⟩ := credit_after hrate hburst hempty hclock k (le_add_of_nonneg_right hT)
  cases hb : r.bucketOf calls k with
  | none =>
    rw [hnone hb, Nat.cast_zero]
    linarith
  | some b =>
    have hcredit : Credit r s (s + T) (inWindow k s (s + T) (r.granted calls)) b := hsome b hb
    by_cases hbefore : b.lastRefill < s
    · rw [hcredit.before hbefore, Nat.cast_zero]
      linarith
    by_cases hbeyond : s + T < b.lastRefill
    · have hle := hcredit.beyond hbeyond
      rwa [add_sub_cancel_left] at hle
    · have hle := hcredit.during (not_lt.mp hbefore) (not_lt.mp hbeyond)
      have htime : r.tokensPerSec * (b.lastRefill - s) ≤ r.tokensPerSec * T :=
        mul_le_mul_of_nonneg_left (by linarith) hrate
      have htokens := (level_after hrate hburst hempty hclock k b hb).nonneg
      linarith

/-! ## An idle bucket -/

/-- A bucket that was not drawn from for as long as it takes to fill is full. -/
lemma draw_idle (hempty : r.buckets = .empty) (hpos : 0 < r.tokensPerSec) {t : ℚ}
    (hclock : Clocked (past ++ [⟨k, t, t⟩]))
    (hidle : ∀ c ∈ past, c.key = k → c.now + r.burst / r.tokensPerSec ≤ t) :
    r.draw (r.bucketOf past k) ⟨k, t, t⟩ =
      (decide (1 ≤ r.burst), ⟨r.burst - if 1 ≤ r.burst then 1 else 0, t⟩) := by
  obtain ⟨hpast, -, hbefore⟩ := hclock.concat
  have hlevel := level_after hrate hburst hempty hpast k
  obtain ⟨level, hle, hsome, hnone, hdraw⟩ := draw_eq (c := ⟨k, t, t⟩)
    (fun x hx => (hlevel x hx).full) (fun x hx => by
      obtain ⟨p, hp, -, hlast⟩ := (hlevel x hx).last
      exact hlast ▸ hbefore p hp) le_rfl hrate
  have hfull : level = r.burst := by
    cases hb : r.bucketOf past k with
    | none => exact hnone hb
    | some x =>
      obtain ⟨p, hp, hk, hlast⟩ := (hlevel x hb).last
      have hlong : r.burst / r.tokensPerSec ≤ t - x.lastRefill := by
        have := hidle p hp hk
        rw [hlast]
        linarith
      have hgain : r.burst ≤ (t - x.lastRefill) * r.tokensPerSec := (div_le_iff₀ hpos).mp hlong
      rw [hsome x hb]
      exact min_eq_left (by have := (hlevel x hb).nonneg; linarith)
  rw [hdraw, hfull]

/-- After `n` calls at one moment on a full bucket. -/
lemma draw_burst (hempty : r.buckets = .empty) (hpos : 0 < r.tokensPerSec) {t : ℚ}
    (hclock : Clocked (past ++ [⟨k, t, t⟩]))
    (hidle : ∀ c ∈ past, c.key = k → c.now + r.burst / r.tokensPerSec ≤ t) (n : ℕ) :
    (n + 1 : ℚ) ≤ r.burst →
      r.draw (r.bucketOf (past ++ List.replicate n ⟨k, t, t⟩) k) ⟨k, t, t⟩ =
        (true, ⟨r.burst - (n + 1), t⟩) := by
  induction n with
  | zero =>
    intro hn
    rw [Nat.cast_zero, zero_add] at hn ⊢
    rw [List.replicate_zero, List.append_nil, draw_idle hrate hburst hempty hpos hclock hidle]
    simp [hn]
  | succ n ih =>
    intro hn
    push_cast at hn ⊢
    have hprev := ih (by linarith)
    rw [List.replicate_succ', ← List.append_assoc, bucketOf_concat, if_pos rfl, hprev]
    -- no time has passed, so the refill brings nothing
    have hrefill : (⟨r.burst - (n + 1), t⟩ : RlBucket).refill r.tokensPerSec r.burst t =
        ⟨r.burst - (n + 1), t⟩ := if_neg (by simp)
    have hone : 1 ≤ r.burst - (n + 1) := by linarith
    change RlBucket.take (RlBucket.refill r.tokensPerSec r.burst t ⟨r.burst - (n + 1), t⟩) = _
    rw [hrefill, RlBucket.take_eq]
    simp only [hone, decide_true, if_true, sub_sub]

end Window

end RateLimiter

/-- **The token bucket.** -/
theorem token_bucket (rate burst : ℤ) (hrate : 0 < rate) (hburst : 0 < burst) :
    ∃ r : RateLimiter, newRateLimiter rate burst = some r ∧
      (∀ calls, Clocked calls → ∀ k (s T : ℚ), 0 ≤ T →
        (RateLimiter.inWindow k s (s + T) (r.granted calls) : ℚ) ≤ burst + rate * T) ∧
      (∀ (past : List AllowCall) k t, Clocked (past ++ [⟨k, t, t⟩]) →
        (∀ c ∈ past, c.key = k → c.now + (burst : ℚ) / rate ≤ t) → ∀ n : ℕ, n < burst →
        ((r.after (past ++ List.replicate n ⟨k, t, t⟩)).allow ⟨k, t, t⟩).1 = true) ∧
      ∀ past (c : AllowCall), ((r.after past).allow c).1 =
        ((r.after (past.filter (·.key = c.key))).allow c).1 := by
  let r : RateLimiter := ⟨rate, burst, .empty⟩
  have hr : 0 < r.tokensPerSec := Int.cast_pos.mpr hrate
  have hb : 0 < r.burst := Int.cast_pos.mpr hburst
  refine ⟨r, if_neg (by omega), ?_, ?_, ?_⟩
  · intro calls hclock k s T hT
    exact RateLimiter.inWindow_le (r := r) hr.le hb.le rfl hclock k hT
  · intro past k t hclock hidle n hn
    have hone : (n + 1 : ℚ) ≤ burst := by exact_mod_cast hn
    have hdraw := RateLimiter.draw_burst (r := r) hr.le hb.le rfl hr hclock hidle n hone
    rw [RateLimiter.allow_after, hdraw]
  · intro past c
    rw [RateLimiter.allow_after, RateLimiter.allow_after, RateLimiter.bucketOf_filter]

/-- Four logins at once, one of another user, and three more a second later. -/
def loginStorm : List AllowCall :=
  List.replicate 4 ⟨"alice".toList, 0, 0⟩ ++ ⟨"bob".toList, 0, 0⟩ ::
    List.replicate 3 ⟨"alice".toList, 1, 1⟩

/-- Of these the limiter grants all it may.  One and a half seconds after the last of them there are
three tokens again, and the other user has seen nothing of it. -/
theorem token_bucket_two_a_second : ∃ r : RateLimiter, newRateLimiter 2 3 = some r ∧
    RateLimiter.inWindow "alice".toList 0 (0 + 1) (r.granted loginStorm) = 5 ∧
    (RateLimiter.inWindow "alice".toList 0 (0 + 1) (r.granted loginStorm) : ℚ) ≤
      (3 : ℤ) + (2 : ℤ) * 1 ∧
    ((r.after (loginStorm ++ List.replicate 2 ⟨"alice".toList, 5 / 2, 5 / 2⟩)).allow
      ⟨"alice".toList, 5 / 2, 5 / 2⟩).1 = true ∧
    ((r.after loginStorm).allow ⟨"bob".toList, 1, 1⟩).1 =
      ((r.after (loginStorm.filter (·.key = "bob".toList))).allow ⟨"bob".toList, 1, 1⟩).1 := by
  obtain ⟨r, hr, hwindow, hidle, hothers⟩ := token_bucket 2 3 (by decide) (by decide)
  have hclock : Clocked (loginStorm ++ [⟨"alice".toList, 5 / 2, 5 / 2⟩]) :=
    ⟨by decide +kernel, by decide +kernel⟩
  refine ⟨r, hr, ?_, hwindow _ hclock.concat.1 _ 0 1 (by decide),
    hidle _ _ _ hclock (by decide +kernel) 2 (by decide), hothers _ _⟩
  obtain rfl := Option.some.inj hr
  decide +kernel

/-! ## No limit -/

namespace RateLimiter

/-- The calls that a limiter, if there is one, lets through. -/
def letThrough (r : Option RateLimiter) (calls : List AllowCall) : List AllowCall :=
  (calls.foldl (fun x c => ((allowNilSafe x.1 c).2,
    if (allowNilSafe x.1 c).1 then x.2 ++ [c] else x.2)) (r, [])).2

lemma letThrough_none (calls : List AllowCall) : letThrough none calls = calls := by
  have hfold : ∀ l, (calls.foldl (fun x c => ((allowNilSafe x.1 c).2,
      if (allowNilSafe x.1 c).1 then x.2 ++ [c] else x.2)) ((none : Option RateLimiter), l)).2 =
        l ++ calls := by
    induction calls with
    | nil => exact fun l => (List.append_nil l).symm
    | cons c calls ih => exact fun l => (ih (l ++ [c])).trans (by simp)
  exact hfold []

lemma letThrough_some (r : RateLimiter) (calls : List AllowCall) :
    letThrough (some r) calls = r.granted calls := by
  have hfold : ∀ x, calls.foldl (fun x c => ((allowNilSafe x.1 c).2,
      if (allowNilSafe x.1 c).1 then x.2 ++ [c] else x.2)) (some x.1, x.2) =
        (some (calls.foldl serve x).1, (calls.foldl serve x).2) := by
    induction calls with
    | nil => exact fun x => rfl
    | cons c calls ih => exact fun x => ih (serve x c)
  exact congrArg Prod.snd (hfold (r, []))

end RateLimiter

/-- **There is no limit** exactly if the rate or the burst is not positive. -/
theorem unlimited_iff (rate burst : ℤ) :
    (∀ calls, Clocked calls → RateLimiter.letThrough (newRateLimiter rate burst) calls = calls) ↔
      rate ≤ 0 ∨ burst ≤ 0 := by
  constructor
  · intro hall
    by_contra hpos
    have hnew : newRateLimiter rate burst = some ⟨rate, burst, .empty⟩ := if_neg hpos
    rw [not_or, not_le, not_le] at hpos
    -- one call more than the bucket holds, all at the same moment
    let calls : List AllowCall := List.replicate (burst.toNat + 1) ⟨[], 0, 0⟩
    have hclock : Clocked calls := by
      refine ⟨fun c hc => ?_, List.pairwise_replicate.mpr (.inr le_rfl)⟩
      rw [List.eq_of_mem_replicate hc]
    have hgranted := hall calls hclock
    rw [hnew, RateLimiter.letThrough_some] at hgranted
    have hle := RateLimiter.inWindow_le (r := ⟨rate, burst, .empty⟩) (s := 0) (T := 0)
      (Int.cast_nonneg hpos.1.le) (Int.cast_nonneg hpos.2.le) rfl hclock [] le_rfl
    have hcount : RateLimiter.inWindow [] 0 (0 + 0) calls = burst.toNat + 1 := by
      simp [RateLimiter.inWindow, calls, List.countP_replicate]
    rw [hgranted, hcount, mul_zero, add_zero] at hle
    change ((burst.toNat + 1 : ℕ) : ℚ) ≤ (burst : ℚ) at hle
    have hmore : ((burst.toNat + 1 : ℕ) : ℤ) ≤ burst := by exact_mod_cast hle
    omega
  · intro hoff calls _
    rw [show newRateLimiter rate burst = none from if_pos hoff]
    exact RateLimiter.letThrough_none calls

end Pgman
