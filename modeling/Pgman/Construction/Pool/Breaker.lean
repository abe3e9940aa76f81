import Mathlib.Logic.Relation
import Pgman.Construction.Pool.Model

/-!
# The circuit breaker by itself

`circuitAllows`, `circuitRecordSuccess` and `circuitRecordFailure` work on two counters, the
failures in a row and the end of the cooldown; a zero end means that the breaker is closed.  Times
are unbounded, as in `Construction/Pool/Model.lean`.  Here each of them is one function of the
counters and the clock.  In the pool they are several atomic steps,
`circuitStep`; that a call which nothing interferes with comes to the same is `allows_of_steps`,
`success_of_steps` and `failure_of_steps`.
-/

namespace Pgman.Pool

/-- `cbFailures` and `cbOpenUntil`. -/
structure Breaker where
  failures : ℤ
  openUntil : ℤ
  deriving DecidableEq

def Shared.breaker (s : Shared) : Breaker := ⟨s.cbFailures, s.cbOpenUntil⟩

@[simp] lemma Shared.breaker_failures (s : Shared) : s.breaker.failures = s.cbFailures := rfl

@[simp] lemma Shared.breaker_openUntil (s : Shared) : s.breaker.openUntil = s.cbOpenUntil := rfl

@[simp] lemma Shared.breaker_emit? (s : Shared) (e : Option Event) :
    (s.emit? e).breaker = s.breaker := by
  cases e with
  | none => rfl
  | some e => rfl

namespace Breaker

def closed : Breaker := ⟨0, 0⟩

variable (o : Options)

def circuitAllows (now : ℤ) (b : Breaker) : Bool × Breaker :=
  if o.cbThreshold ≤ 0 ∨ b.openUntil = 0 then (true, b)
  else if now < b.openUntil then (false, b)
  else (true, { b with openUntil := now + o.cbCooldown })

/-- The counters, and the event that is emitted. -/
def circuitRecordSuccess (b : Breaker) : Breaker × Option Event :=
  if o.cbThreshold ≤ 0 then (b, none)
  else (closed, if b.openUntil = 0 then none else some .circuitClose)

/-- The counters, and the event that is emitted. -/
def circuitRecordFailure (now : ℤ) (b : Breaker) : Breaker × Option Event :=
  if o.cbThreshold ≤ 0 then (b, none)
  else if b.failures + 1 < o.cbThreshold then ({ b with failures := b.failures + 1 }, none)
  else (⟨b.failures + 1, now + o.cbCooldown⟩, if b.openUntil = 0 then some .circuitOpen else none)

/-! ## In the pool -/

/-- Steps of one call that nothing interferes with. -/
def Steps : Shared × Op → Shared × Op → Prop :=
  Relation.ReflTransGen fun x y => circuitStep o x.1 x.2 .go = some y

variable {o} {s : Shared} {d : Dialing} {c : Conn} {err : DialErr}

lemma Steps.cons {x y z : Shared × Op} (h : circuitStep o x.1 x.2 .go = some y)
    (hs : Steps o y z) : Steps o x z :=
  .head h hs

lemma allows_of_steps : ∃ s', Steps o (s, .circuit d)
      (s', if (circuitAllows o s.clock s.breaker).1 then allowed d else denied d) ∧
    s'.breaker = (circuitAllows o s.clock s.breaker).2 := by
  by_cases hclosed : o.cbThreshold ≤ 0 ∨ s.cbOpenUntil = 0
  · have hload : circuitStep o s (.circuit d) .go = some (s, allowed d) := by
      simp [circuitStep, hclosed]
    have hval : circuitAllows o s.clock s.breaker = (true, s.breaker) := if_pos hclosed
    rw [hval]
    exact ⟨s, .cons hload .refl, rfl⟩
  have hload : circuitStep o s (.circuit d) .go = some (s, .circuitNow d s.cbOpenUntil) := by
    simp [circuitStep, hclosed]
  by_cases hearly : s.clock < s.cbOpenUntil
  · have hnow : circuitStep o s (.circuitNow d s.cbOpenUntil) .go = some (s, denied d) := by
      simp [circuitStep, hearly]
    have hval : circuitAllows o s.clock s.breaker = (false, s.breaker) :=
      (if_neg hclosed).trans (if_pos hearly)
    rw [hval]
    exact ⟨s, .cons hload (.cons hnow .refl), rfl⟩
  -- the deadline is still the one that was loaded, so the swap succeeds
  have hnow : circuitStep o s (.circuitNow d s.cbOpenUntil) .go =
      some (s, .circuitCas d s.cbOpenUntil s.clock) := by
    simp [circuitStep, hearly]
  have hcas : circuitStep o s (.circuitCas d s.cbOpenUntil s.clock) .go =
      some ({ s with cbOpenUntil := s.clock + o.cbCooldown }, allowed d) := by
    simp [circuitStep]
  have hval : circuitAllows o s.clock s.breaker =
      (true, { s.breaker with openUntil := s.clock + o.cbCooldown }) :=
    (if_neg hclosed).trans (if_neg hearly)
  rw [hval]
  exact ⟨_, .cons hload (.cons hnow (.cons hcas .refl)), rfl⟩

lemma success_of_steps : ∃ s', Steps o (s, .okStore d c) (s', afterSuccess s.clock d c) ∧
    s'.breaker = (circuitRecordSuccess o s.breaker).1 ∧
    s'.events = s.events ++ (circuitRecordSuccess o s.breaker).2.toList := by
  unfold circuitRecordSuccess
  by_cases hoff : o.cbThreshold ≤ 0
  · have hskip : circuitStep o s (.okStore d c) .go = some (s, afterSuccess s.clock d c) := by
      simp [circuitStep, hoff]
    exact ⟨s, .cons hskip .refl, by simp [hoff], by simp [hoff]⟩
  have hstore : circuitStep o s (.okStore d c) .go =
      some ({ s with cbFailures := 0 }, .okSwap d c) := by
    simp [circuitStep, hoff]
  refine ⟨_, .cons hstore (.cons rfl .refl), ?_, ?_⟩
  · rw [Shared.breaker_emit?]
    simp [hoff, Shared.breaker, closed]
  · by_cases hclosed : s.cbOpenUntil = 0
    · simp [hoff, hclosed, Shared.emit?]
    · simp [hoff, hclosed, Shared.emit?, Shared.emit]

lemma failure_of_steps : ∃ s', Steps o (s, .failAdd d err) (s', afterFailure d err) ∧
    s'.breaker = (circuitRecordFailure o s.clock s.breaker).1 ∧
    s'.events = s.events ++ (circuitRecordFailure o s.clock s.breaker).2.toList := by
  unfold circuitRecordFailure
  by_cases hoff : o.cbThreshold ≤ 0
  · have hskip : circuitStep o s (.failAdd d err) .go = some (s, afterFailure d err) := by
      simp [circuitStep, hoff]
    exact ⟨s, .cons hskip .refl, by simp [hoff], by simp [hoff]⟩
  by_cases hfew : s.cbFailures + 1 < o.cbThreshold
  · have hadd : circuitStep o s (.failAdd d err) .go =
        some ({ s with cbFailures := s.cbFailures + 1 }, afterFailure d err) := by
      simp [circuitStep, hoff, hfew]
    exact ⟨_, .cons hadd .refl, by simp [hoff, hfew, Shared.breaker], by simp [hoff, hfew]⟩
  have hadd : circuitStep o s (.failAdd d err) .go =
      some ({ s with cbFailures := s.cbFailures + 1 }, .failNow d err) := by
    simp [circuitStep, hoff, hfew]
  refine ⟨_, .cons hadd (.cons rfl (.cons rfl .refl)), ?_, ?_⟩
  · rw [Shared.breaker_emit?]
    simp [hoff, hfew, Shared.breaker]
  · by_cases hclosed : s.cbOpenUntil = 0
    · simp [hoff, hfew, hclosed, Shared.emit?, Shared.emit]
    · simp [hoff, hfew, hclosed, Shared.emit?]

end Breaker

end Pgman.Pool
