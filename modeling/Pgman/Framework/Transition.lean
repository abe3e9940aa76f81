import Mathlib.Logic.Function.Basic

/-!
# Input-driven machines and their reachable states

Every component of the proxy is modelled as a machine whose environment resolves all
nondeterminism: a step consumes one input and either succeeds with a new state or is not
enabled.  An interleaving is then nothing but a list of inputs, and a statement about
every interleaving is a statement about every reachable state.

`Reach C` restricts the runs to those whose every step meets a condition `C` on the state
before the step and the input.  Plain reachability is `Reach` at the trivial condition.

The two rules used downstream are `Reach.invariant` (an invariant that holds initially and
is kept by every admitted step holds in every reached state) and `reach_of_run` (an
explicit run is a witness of reachability).  `foldl_rounds` is the invariant rule of a loop, with
the elements that are through.
-/

namespace Pgman

/-- A machine: its initial states, and its step function on explicit inputs. -/
structure Machine (σ ι : Type*) where
  init : σ → Prop
  step : σ → ι → Option σ

namespace Machine

variable {σ ι : Type*} (M : Machine σ ι)

/-- The states reached by runs whose steps all meet `C`. -/
inductive Reach (C : σ → ι → Prop) : σ → Prop
  | init {s : σ} (h : M.init s) : Reach C s
  | step {s s' : σ} {i : ι} (h : Reach C s) (hC : C s i) (hs : M.step s i = some s') :
      Reach C s'

/-- The states reached by arbitrary runs. -/
def Reachable (s : σ) : Prop := M.Reach (fun _ _ => True) s

/-- Feed a list of inputs. -/
def run (s : σ) : List ι → Option σ
  | [] => some s
  | i :: is => (M.step s i).bind fun s' => run s' is

variable {M} {C : σ → ι → Prop} {Inv : σ → Prop}

/-- **The invariant rule.** -/
theorem Reach.invariant {s : σ} (h : M.Reach C s)
    (h0 : ∀ s, M.init s → Inv s)
    (hstep : ∀ s i s', Inv s → C s i → M.step s i = some s' → Inv s') : Inv s := by
  induction h with
  | init hi => exact h0 _ hi
  | step _ hC hs ih => exact hstep _ _ _ ih hC hs

lemma Reach.mono {D : σ → ι → Prop} {s : σ} (h : M.Reach C s)
    (hCD : ∀ s i, C s i → D s i) : M.Reach D s := by
  induction h with
  | init hi => exact .init hi
  | step _ hC hs ih => exact .step ih (hCD _ _ hC) hs

/-- Runs stay inside the reachable states, as long as each of their steps is admitted. -/
lemma Reach.run {s s' : σ} (h : M.Reach C s) {is : List ι} (hr : M.run s is = some s')
    (hC : ∀ s i, i ∈ is → C s i) : M.Reach C s' := by
  induction is generalizing s with
  | nil =>
    simp only [Machine.run, Option.some.injEq] at hr
    exact hr ▸ h
  | cons i is ih =>
    simp only [Machine.run, Option.bind_eq_some_iff] at hr
    obtain ⟨s₁, h₁, h₂⟩ := hr
    exact ih (h.step (hC _ _ (by simp)) h₁) h₂ (fun s j hj => hC s j (by simp [hj]))

/-- An explicit run from an initial state reaches its last state. -/
lemma reach_of_run {s s' : σ} (h0 : M.init s) {is : List ι} (hr : M.run s is = some s') :
    M.Reachable s' :=
  (Reach.init h0).run hr (fun _ _ _ => trivial)

/-- The machine's runs from a given state on. -/
def startingAt (M : Machine σ ι) (s : σ) : Machine σ ι where
  init s' := s' = s
  step := M.step

/-- What can be reached from a reached state can be reached. -/
lemma Reach.trans {D : σ → ι → Prop} {s s' : σ} (h : M.Reach C s)
    (h' : (M.startingAt s).Reach D s') (hDC : ∀ s i, D s i → C s i) : M.Reach C s' := by
  induction h' with
  | init hi =>
    obtain rfl : _ = s := hi
    exact h
  | step _ hD hs ih => exact ih.step (hDC _ _ hD) hs

/-- The invariant rule for the runs from a reachable state on; a step may use that the state it
leaves is reachable. -/
theorem Reach.invariant_startingAt {s₀ s : σ} (h : (M.startingAt s₀).Reach C s)
    (hs₀ : M.Reachable s₀) (h0 : Inv s₀)
    (hstep : ∀ s i s', M.Reachable s → Inv s → C s i → M.step s i = some s' → Inv s') : Inv s := by
  induction h with
  | init hi =>
    obtain rfl : _ = s₀ := hi
    exact h0
  | step hr hC hs ih =>
    exact hstep _ _ _ (hs₀.trans hr fun _ _ _ => trivial) ih hC hs

/-- An explicit run from a state on. -/
lemma reach_startingAt_of_run {s s' : σ} {is : List ι} (hr : M.run s is = some s') :
    (M.startingAt s).Reachable s' := by
  have hsame : ∀ t, (M.startingAt s).run t is = M.run t is := by
    clear hr
    induction is with
    | nil => exact fun _ => rfl
    | cons i is ih => exact fun t => congrArg (Option.bind _) (funext ih)
  exact reach_of_run rfl ((hsame s).trans hr)

/-- The machine that takes only steps that meet a condition. -/
def guarded (M : Machine σ ι) (C : σ → ι → Prop) [∀ s i, Decidable (C s i)] : Machine σ ι where
  init := M.init
  step s i := if C s i then M.step s i else none

/-- A run of the guarded machine meets the condition at every step. -/
lemma reach_of_guarded_run [∀ s i, Decidable (C s i)] {s s' : σ} (h0 : M.init s) {is : List ι}
    (hr : (M.guarded C).run s is = some s') : M.Reach C s' := by
  have hreach : (M.guarded C).Reachable s' := reach_of_run h0 hr
  clear hr
  induction hreach with
  | init h => exact .init h
  | step _ _ hs ih =>
    simp only [guarded] at hs
    split at hs
    · rename_i hC
      exact ih.step hC hs
    · cases hs

end Machine

/-- A fold, round by round: `P` is about the elements that are through and what they came to. -/
lemma foldl_rounds {α β : Type*} {P : List α → β → Prop} {f : β → α → β} {l : List α} {b : β}
    (h0 : P [] b)
    (hround : ∀ {done a rest b}, l = done ++ a :: rest → P done b → P (done ++ [a]) (f b a)) :
    P l (l.foldl f b) := by
  suffices hrest : ∀ rest done b, l = done ++ rest → P done b → P l (rest.foldl f b) from
    hrest l [] b rfl h0
  intro rest
  induction rest with
  | nil =>
    intro done b hl h
    rwa [hl, List.append_nil]
  | cons a rest ih =>
    intro done b hl h
    refine ih (done ++ [a]) (f b a) ?_ (hround hl h)
    rw [hl, List.append_assoc, List.singleton_append]

end Pgman
