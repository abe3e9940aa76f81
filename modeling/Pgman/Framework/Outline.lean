import Mathlib.Data.List.Basic
import Pgman.Framework.Chronicle
import Pgman.Framework.Leased

/-!
# Proof outlines for leased-resource systems

Two rules that lift a fact about one process's local steps to the whole system.

`Outline` is about a resource.  It names a ghost state computed from the acts about that
resource, an assertion that holds of a resource nobody holds (`free`), one that holds while
a process has it in hand (`held`), one for resources given up (`gone`), and what every act
must satisfy (`good`).  The rule
`Outline.Holds.perform` asks for one local obligation, about the resource the step touches;
everything else is the frame.

Facts about a process's own history need no ownership at all: `Diary` is a ghost state
computed from the acts of one process, and `Diary.Holds.perform` is its rule.
-/

namespace Pgman

variable {κ ρ Λ B G A σ : Type*} [DecidableEq ρ] (S : LeaseSem ρ B G A)

/-! ## Outlines: what is true of a resource -/

/-- A proof outline for the resources of a system. -/
structure Outline (κ Λ B A σ : Type*) where
  init : σ
  next : σ → κ × A → σ
  good : σ → κ × A → Prop
  free : B → σ → Prop
  held : κ → Λ → B → σ → Prop
  gone : B → σ → Prop

namespace Outline

variable (O : Outline κ Λ B A σ)

/-- The ghost state of resource `c` after some acts of `k`. -/
def after (k : κ) (c : ρ) (s : σ) (acts : List A) : σ :=
  acts.foldl (fun s a => if S.on a = some c then O.next s (k, a) else s) s

/-- The ghost state of resource `c` after a log. -/
def ghost (c : ρ) (log : List (κ × A)) : σ :=
  log.foldl (fun s e => if S.on e.2 = some c then O.next s e else s) O.init

/-- Acts of `k` about `c` are good, each in its ghost state. -/
def GoodRun (k : κ) (c : ρ) : σ → List A → Prop
  | _, [] => True
  | s, a :: acts =>
      (S.on a = some c → O.good s (k, a)) ∧
        GoodRun k c (if S.on a = some c then O.next s (k, a) else s) acts

/-- The assertion a resource's place calls for. -/
def Asserts (w : Leased κ ρ Λ B G A) (c : ρ) : Prop :=
  match w.place c with
  | .fresh | .pooled => O.free (w.res c) (O.ghost S c w.log)
  | .held k => O.held k (w.loc k) (w.res c) (O.ghost S c w.log)
  | .gone => O.gone (w.res c) (O.ghost S c w.log)

/-- Every act of the log was good. -/
def AllGood (log : List (κ × A)) : Prop :=
  Always (fun pre e => ∀ c, S.on e.2 = some c → O.good (O.ghost S c pre) e) log

/-- The outline holds of a state. -/
structure Holds (w : Leased κ ρ Λ B G A) : Prop where
  asserts : ∀ c, O.Asserts S w c
  good : O.AllGood S w.log

variable {S O}

@[simp] lemma after_nil (k : κ) (c : ρ) (s : σ) : O.after S k c s [] = s := rfl

lemma after_cons (k : κ) (c : ρ) (s : σ) (a : A) (acts : List A) : O.after S k c s (a :: acts) =
    O.after S k c (if S.on a = some c then O.next s (k, a) else s) acts := rfl

lemma ghost_append (k : κ) (c : ρ) (log : List (κ × A)) (acts : List A) :
    O.ghost S c (log ++ acts.map fun a => (k, a)) = O.after S k c (O.ghost S c log) acts := by
  rw [ghost, List.foldl_append, List.foldl_map]
  rfl

lemma after_frame {k : κ} {c : ρ} {acts : List A} (h : ∀ a ∈ acts, S.on a ≠ some c) (s : σ) :
    O.after S k c s acts = s := by
  induction acts with
  | nil => rfl
  | cons a acts ih =>
    rw [after_cons, if_neg (h a (by simp))]
    exact ih (fun a' ha' => h a' (by simp [ha']))

/-- Good acts extend a good log. -/
lemma AllGood.append {k : κ} {log : List (κ × A)} {acts : List A} (h : O.AllGood S log)
    (hacts : ∀ c, O.GoodRun S k c (O.ghost S c log) acts) :
    O.AllGood S (log ++ acts.map fun a => (k, a)) := by
  induction acts generalizing log with
  | nil => simpa using h
  | cons a acts ih =>
    have hsnoc : O.AllGood S (log ++ [(k, a)]) := h.snoc (fun c hc => (hacts c).1 hc)
    have := ih hsnoc (fun c => by
      have hg := (hacts c).2
      rwa [show O.ghost S c (log ++ [(k, a)]) = _ from O.ghost_append k c log [a]])
    simpa using this

/-- What a step of `k` must show for the resource `c` it touches: its acts about `c` are good,
and they lead to the assertion that fits where they leave `c`. -/
structure LocalStep (S : LeaseSem ρ B G A) (O : Outline κ Λ B A σ) (hand : Λ → Option ρ)
    (k : κ) (l : Λ) (acts : List A) (c : ρ) (p : Place κ) (b : B) (s : σ) : Prop where
  good : O.GoodRun S k c s acts
  inHand : hand l = some c → O.held k l (S.resAfter c b acts) (O.after S k c s acts)
  back : S.placeAfter k c p acts = .pooled → O.free (S.resAfter c b acts) (O.after S k c s acts)
  up : S.placeAfter k c p acts = .gone → O.gone (S.resAfter c b acts) (O.after S k c s acts)

namespace LocalStep

variable {hand : Λ → Option ρ} {k : κ} {l : Λ} {a : A} {acts acts' : List A} {c : ρ} {p : Place κ}
  {b : B} {s : σ}

/-- Execute one act about `c`. -/
lemma cons (hon : S.on a = some c) (hgood : O.good s (k, a))
    (h : LocalStep S O hand k l acts c (LeaseSem.moved k p (S.lease a)) (S.effect b a)
      (O.next s (k, a))) : LocalStep S O hand k l (a :: acts) c p b s := by
  refine ⟨⟨fun _ => hgood, ?_⟩, ?_, ?_, ?_⟩
  · simpa only [if_pos hon] using h.good
  · simpa only [S.resAfter_cons, after_cons, if_pos hon] using h.inHand
  · simpa only [S.placeAfter_cons, S.resAfter_cons, after_cons, if_pos hon] using h.back
  · simpa only [S.placeAfter_cons, S.resAfter_cons, after_cons, if_pos hon] using h.up

/-- Execute an act about nothing. -/
lemma skip (hon : S.on a = none) (h : LocalStep S O hand k l acts c p b s) :
    LocalStep S O hand k l (a :: acts) c p b s := by
  have hne : ¬S.on a = some c := by simp [hon]
  refine ⟨⟨fun h' => absurd h' hne, ?_⟩, ?_, ?_, ?_⟩
  · simpa only [if_neg hne] using h.good
  · simpa only [S.resAfter_cons, after_cons, if_neg hne] using h.inHand
  · simpa only [S.placeAfter_cons, S.resAfter_cons, after_cons, if_neg hne] using h.back
  · simpa only [S.placeAfter_cons, S.resAfter_cons, after_cons, if_neg hne] using h.up

/-- Execute a last few acts about nothing. -/
lemma idle (hacts : ∀ a ∈ acts, S.on a = none) (h : LocalStep S O hand k l [] c p b s) :
    LocalStep S O hand k l acts c p b s := by
  induction acts with
  | nil => exact h
  | cons a acts ih => exact (ih (fun a' ha' => hacts a' (by simp [ha']))).skip (hacts a (by simp))

/-- Execute acts that each keep an invariant, then the rest. -/
lemma run {I : B → σ → Prop} (hI : I b s)
    (hacts : ∀ a ∈ acts, S.on a = none ∨ S.on a = some c ∧ S.lease a = none ∧
      ∀ b s, I b s → O.good s (k, a) ∧ I (S.effect b a) (O.next s (k, a)))
    (h : ∀ b s, I b s → LocalStep S O hand k l acts' c p b s) :
    LocalStep S O hand k l (acts ++ acts') c p b s := by
  induction acts generalizing b s with
  | nil => exact h b s hI
  | cons a acts ih =>
    have hrest := fun b s (hI' : I b s) => ih hI' (fun a' ha' => hacts a' (by simp [ha']))
    rcases hacts a (by simp) with hon | ⟨hon, hlease, hkeep⟩
    · exact (hrest b s hI).skip hon
    · obtain ⟨hgood, hI'⟩ := hkeep b s hI
      refine cons hon hgood ?_
      rw [hlease]
      exact hrest _ _ hI'

/-- The step ends with the resource in hand. -/
lemma keeps (h : O.held k l b s) : LocalStep S O hand k l [] c (.held k) b s :=
  ⟨trivial, fun _ => h, fun hp => by simp at hp, fun hp => by simp at hp⟩

/-- The step ends with the resource back in the pool. -/
lemma returns (hl : hand l = none) (h : O.free b s) : LocalStep S O hand k l [] c .pooled b s :=
  ⟨trivial, fun hh => by simp [hl] at hh, fun _ => h, fun hp => by simp at hp⟩

/-- The step ends with the resource given up. -/
lemma drops (hl : hand l = none) (h : O.gone b s) : LocalStep S O hand k l [] c .gone b s :=
  ⟨trivial, fun hh => by simp [hl] at hh, fun hp => by simp at hp, fun _ => h⟩

end LocalStep

/-- A fresh resource joins the pool. -/
lemma Holds.join {w : Leased κ ρ Λ B G A} (h : O.Holds S w) {c : ρ} (hc : w.place c = .fresh) :
    O.Holds S { w with place := Function.update w.place c .pooled } := by
  refine ⟨fun c' => ?_, h.good⟩
  have hold := h.asserts c'
  unfold Asserts at hold ⊢
  by_cases hcc : c' = c
  · subst hcc
    simpa [hc] using hold
  · simpa [Function.update_of_ne hcc] using hold

/-- A resource is taken out of the pool for good. -/
lemma Holds.withdraw {w : Leased κ ρ Λ B G A} (h : O.Holds S w) {c : ρ} (hc : w.place c = .pooled)
    (hgone : ∀ b s, O.free b s → O.gone b s) :
    O.Holds S { w with place := Function.update w.place c .gone } := by
  refine ⟨fun c' => ?_, h.good⟩
  have hold := h.asserts c'
  unfold Asserts at hold ⊢
  by_cases hcc : c' = c
  · subst hcc
    simp only [hc] at hold
    simpa using hgone _ _ hold
  · simpa [Function.update_of_ne hcc] using hold

/-- A resource changes on its own. -/
lemma Holds.evolve {w : Leased κ ρ Λ B G A} (h : O.Holds S w) (c : ρ) (b : B)
    (hfree : ∀ s, O.free (w.res c) s → O.free b s)
    (hheld : ∀ k s, O.held k (w.loc k) (w.res c) s → O.held k (w.loc k) b s)
    (hgone : ∀ s, O.gone (w.res c) s → O.gone b s) :
    O.Holds S { w with res := Function.update w.res c b } := by
  refine ⟨fun c' => ?_, h.good⟩
  have hold := h.asserts c'
  unfold Asserts at hold ⊢
  by_cases hcc : c' = c
  · subst hcc
    cases hp : w.place c' with
    | fresh => simpa [hp] using hfree _ (by simpa [hp] using hold)
    | pooled => simpa [hp] using hfree _ (by simpa [hp] using hold)
    | held k => simpa [hp] using hheld k _ (by simpa [hp] using hold)
    | gone => simpa [hp] using hgone _ (by simpa [hp] using hold)
  · simpa [Function.update_of_ne hcc] using hold

variable [DecidableEq κ]

/-- **The outline rule.**  A disciplined step keeps the outline if it does so for the
resource it touches, found in hand or in the pool. -/
theorem Holds.perform {w : Leased κ ρ Λ B G A} {hand : Λ → Option ρ} {k : κ} {l : Λ}
    {acts : List A} {touch : Option ρ} (h : O.Holds S w) (hex : w.Exclusive hand)
    (hd : Leased.Disciplined S hand w k l acts touch)
    (hheld : ∀ c, touch = some c → hand (w.loc k) = some c →
      O.held k (w.loc k) (w.res c) (O.ghost S c w.log) →
      LocalStep S O hand k l acts c (.held k) (w.res c) (O.ghost S c w.log))
    (hpool : ∀ c, touch = some c → w.place c = .pooled →
      O.free (w.res c) (O.ghost S c w.log) →
      LocalStep S O hand k l acts c .pooled (w.res c) (O.ghost S c w.log)) :
    O.Holds S (w.perform S k l acts) := by
  have hlocal : ∀ c, touch = some c →
      (w.place c = .held k ∨ w.place c = .pooled) ∧
        LocalStep S O hand k l acts c (w.place c) (w.res c) (O.ghost S c w.log) := by
    intro c hc
    have hold := h.asserts c
    unfold Asserts at hold
    rcases hd.pooled c hc with hh | hp
    · have hp := (hex k c).mpr hh
      rw [hp] at hold ⊢
      exact ⟨.inl rfl, hheld c hc hh hold⟩
    · rw [hp] at hold ⊢
      exact ⟨.inr rfl, hpool c hc hp hold⟩
  refine ⟨fun c => ?_, h.good.append (fun c => ?_)⟩
  · by_cases hc : touch = some c
    · obtain ⟨hplace, hl⟩ := hlocal c hc
      have hhand := (hex.perform hd) k c
      unfold Asserts
      simp only [Leased.perform, Function.update_self, ghost_append] at hhand ⊢
      split
      · rename_i hfresh
        exact absurd hfresh (S.placeAfter_ne_fresh (by rcases hplace with h | h <;> simp [h]))
      · rename_i hpooled
        exact hl.back hpooled
      · rename_i k' hk'
        -- the acts are `k`'s, so the holder they leave is `k`
        have hkk : k' = k := S.placeAfter_holder
          (by rcases hplace with h | h <;> simp [h]) hk'
        subst hkk
        simpa using hl.inHand (hhand.mp hk')
      · rename_i hgone
        exact hl.up hgone
    · -- the frame: neither the resource nor its holder has moved
      have hnone := hd.frame hc
      have hold := h.asserts c
      unfold Asserts at hold ⊢
      simp only [Leased.perform, S.placeAfter_frame hnone, S.resAfter_frame hnone, ghost_append,
        after_frame hnone] at hold ⊢
      cases hp : w.place c with
      | fresh => simpa [hp] using hold
      | pooled => simpa [hp] using hold
      | gone => simpa [hp] using hold
      | held k' =>
        have hk : k' ≠ k := fun heq => hc (hd.inHand c ((hex k c).mp (heq ▸ hp)))
        simpa [hp, Function.update_of_ne hk] using hold
  · by_cases hc : touch = some c
    · exact (hlocal c hc).2.good
    · have hnone := hd.frame hc
      generalize O.ghost S c w.log = s
      clear hd hlocal hheld hpool
      induction acts generalizing s with
      | nil => trivial
      | cons a acts ih =>
        have ha := hnone a (by simp)
        refine ⟨fun hon => absurd hon ha, ?_⟩
        rw [if_neg ha]
        exact ih (fun a' ha' => hnone a' (by simp [ha'])) s

/-- A process changes its local state on its own. -/
lemma Holds.relocate {w : Leased κ ρ Λ B G A} (h : O.Holds S w) (k : κ) (l : Λ) (g : G)
    (hk : ∀ b s, O.held k (w.loc k) b s → O.held k l b s) :
    O.Holds S { w with loc := Function.update w.loc k l, shared := g } := by
  refine ⟨fun c => ?_, h.good⟩
  have hold := h.asserts c
  unfold Asserts at hold ⊢
  cases hp : w.place c with
  | fresh => simpa only [hp] using hold
  | pooled => simpa only [hp] using hold
  | gone => simpa only [hp] using hold
  | held k' =>
    simp only [hp] at hold ⊢
    by_cases hkk : k' = k
    · subst hkk
      rw [Function.update_self]
      exact hk _ _ hold
    · rw [Function.update_of_ne hkk]
      exact hold

end Outline

/-! ## Diaries: what is true of a process's own history -/

/-- A ghost state of one process, computed from its own acts. -/
structure Diary (Λ A σ : Type*) where
  init : σ
  next : σ → A → σ
  good : σ → A → Prop
  at' : Λ → σ → Prop

namespace Diary

variable [DecidableEq κ] (D : Diary Λ A σ)

/-- Acts are good, each in its ghost state. -/
def GoodRun : σ → List A → Prop
  | _, [] => True
  | s, a :: acts => D.good s a ∧ GoodRun (D.next s a) acts

/-- The ghost state of process `k` after a log. -/
def ghost (k : κ) (log : List (κ × A)) : σ :=
  log.foldl (fun s e => if e.1 = k then D.next s e.2 else s) D.init

/-- The diary holds of a state. -/
structure Holds (w : Leased κ ρ Λ B G A) : Prop where
  asserts : ∀ k, D.at' (w.loc k) (D.ghost k w.log)
  good : Always (fun pre e => D.good (D.ghost e.1 pre) e.2) w.log

variable {D} {S}

lemma goodRun_append {s : σ} {acts acts' : List A} : D.GoodRun s (acts ++ acts') ↔
    D.GoodRun s acts ∧ D.GoodRun (acts.foldl D.next s) acts' := by
  induction acts generalizing s with
  | nil => simp [GoodRun]
  | cons a acts ih => simp only [List.cons_append, GoodRun, ih, List.foldl_cons, and_assoc]

lemma goodRun_of_good (h : ∀ s a, D.good s a) {s : σ} {acts : List A} : D.GoodRun s acts := by
  induction acts generalizing s with
  | nil => trivial
  | cons a acts ih => exact ⟨h s a, ih⟩

lemma ghost_append_self (k : κ) (log : List (κ × A)) (acts : List A) :
    D.ghost k (log ++ acts.map fun a => (k, a)) = acts.foldl D.next (D.ghost k log) := by
  rw [ghost, List.foldl_append, List.foldl_map]
  simp [ghost]

lemma ghost_append_ne {k k' : κ} (h : k ≠ k') (log : List (κ × A)) (acts : List A) :
    D.ghost k' (log ++ acts.map fun a => (k, a)) = D.ghost k' log := by
  rw [ghost, List.foldl_append, List.foldl_map]
  simp only [h, if_false, List.foldl_fixed]
  rfl

/-- **The diary rule.**  Only the stepping process has anything to show. -/
theorem Holds.perform {w : Leased κ ρ Λ B G A} {k : κ} {l : Λ} {acts : List A} (h : D.Holds w)
    (hstep : D.GoodRun (D.ghost k w.log) acts ∧ D.at' l (acts.foldl D.next (D.ghost k w.log))) :
    D.Holds (w.perform S k l acts) := by
  refine ⟨fun k' => ?_, ?_⟩
  · by_cases hk : k' = k
    · subst hk
      simp only [Leased.perform, Function.update_self, ghost_append_self]
      exact hstep.2
    · simp only [Leased.perform, Function.update_of_ne hk, ghost_append_ne (Ne.symm hk)]
      exact h.asserts k'
  · have hgood := h.good
    have hrun := hstep.1
    simp only [Leased.perform]
    clear hstep h
    generalize w.log = log at hgood hrun ⊢
    induction acts generalizing log with
    | nil => simpa using hgood
    | cons a acts ih =>
      have hsnoc := hgood.snoc (e := (k, a)) hrun.1
      have := ih _ hsnoc (by
        have hg := hrun.2
        rwa [show D.ghost k (log ++ [(k, a)]) = _ from D.ghost_append_self k log [a]])
      simpa using this

end Diary

end Pgman
