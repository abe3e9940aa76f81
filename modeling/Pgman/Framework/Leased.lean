import Mathlib.Logic.Function.Basic

/-!
# Processes over leased resources

A system of processes that share resources under exclusive leases.  A resource is not yet
created, in the pool's keeping, held by one process, or gone for good (`Place`).  Each process has a
local state; a step of a process moves it to a new local state and performs a list of acts.
An act is about at most one resource: it changes that resource's state, or takes, gives
back or gives up its lease.  `Leased.perform` is the effect of one such step; the log
records every act with the process that performed it.

A process has at most one resource in hand (`hand`).  `LeaseSem.Accepts` is the discipline
that makes leases exclusive: acts are about the resource in hand, a lease is taken with an
empty hand and ended by the act that empties it, and one step is about one resource.  Under
it, and as long as leases are taken only from the pool, `Exclusive` is kept: the holder on
record is the process that has the resource in hand.
-/

namespace Pgman

/-- Where a resource is. -/
inductive Place (κ : Type*)
  | fresh
  /-- Idle, or in the hands of the pool itself. -/
  | pooled
  | held (k : κ)
  /-- Closed, or on the way to being closed. -/
  | gone
  deriving DecidableEq, Repr

/-- What an act does to the lease of its resource. -/
inductive LeaseOp
  | take
  | giveBack
  | giveUp
  deriving DecidableEq, Repr

/-- The meaning of acts: the resource they are about, and their effects. -/
structure LeaseSem (ρ B G A : Type*) where
  on : A → Option ρ
  lease : A → Option LeaseOp
  effect : B → A → B
  shared : G → A → G

/-- The state of a system: processes `κ`, resources `ρ`, local states `Λ`, resource states
`B`, shared state `G`, acts `A`. -/
structure Leased (κ ρ Λ B G A : Type*) where
  loc : κ → Λ
  res : ρ → B
  place : ρ → Place κ
  shared : G
  log : List (κ × A)

variable {κ ρ Λ B G A : Type*} [DecidableEq ρ] (S : LeaseSem ρ B G A)

namespace LeaseSem

/-- The place of a resource after a lease operation by `k`. -/
def moved (k : κ) (p : Place κ) : Option LeaseOp → Place κ
  | none => p
  | some .take => .held k
  | some .giveBack => .pooled
  | some .giveUp => .gone

/-- The state of resource `c` after some acts. -/
def resAfter (c : ρ) (b : B) (acts : List A) : B :=
  acts.foldl (fun b a => if S.on a = some c then S.effect b a else b) b

/-- The place of resource `c` after some acts of `k`. -/
def placeAfter (k : κ) (c : ρ) (p : Place κ) (acts : List A) : Place κ :=
  acts.foldl (fun p a => if S.on a = some c then moved k p (S.lease a) else p) p

/-- What is in hand after an act of a step about `touch`; `none` if the act breaks the
discipline. -/
def handNext (touch h : Option ρ) (a : A) : Option (Option ρ) :=
  match S.on a with
  | none => some h
  | some c =>
    if touch = some c then
      match S.lease a with
      | some .take => if h = none ∨ h = some c then some (some c) else none
      | some .giveBack | some .giveUp => if h = some c then some none else none
      | none => if h = some c then some h else none
    else none

/-- The acts are about `touch` only and keep the discipline, starting with `h` in hand and
ending with `h'`. -/
def Accepts (touch : Option ρ) : Option ρ → List A → Option ρ → Prop
  | h, [], h' => h = h'
  | h, a :: acts, h' => ∃ h₁, S.handNext touch h a = some h₁ ∧ Accepts touch h₁ acts h'

variable {S} {touch : Option ρ}

/-- The discipline only looks at what acts are about and do to leases. -/
lemma Accepts.transfer {B' G' : Type*} {S' : LeaseSem ρ B' G' A} (hon : S'.on = S.on)
    (hlease : S'.lease = S.lease) {h h' : Option ρ} {acts : List A}
    (hacc : S.Accepts touch h acts h') : S'.Accepts touch h acts h' := by
  induction acts generalizing h with
  | nil => exact hacc
  | cons a acts ih =>
    obtain ⟨h₁, ha, hr⟩ := hacc
    refine ⟨h₁, ?_, ih hr⟩
    simpa only [handNext, hon, hlease] using ha

lemma Accepts.about {h h' : Option ρ} {acts : List A} (hacc : S.Accepts touch h acts h') :
    ∀ a ∈ acts, ∀ c, S.on a = some c → touch = some c := by
  induction acts generalizing h with
  | nil => simp
  | cons a acts ih =>
    obtain ⟨h₁, ha, hr⟩ := hacc
    intro a' ha' c hon
    rcases List.mem_cons.mp ha' with rfl | ha'
    · by_contra hne
      simp [handNext, hon, hne] at ha
    · exact ih hr a' ha' c hon

variable (S)

@[simp] lemma resAfter_nil (c : ρ) (b : B) : S.resAfter c b [] = b := rfl

@[simp] lemma placeAfter_nil (k : κ) (c : ρ) (p : Place κ) : S.placeAfter k c p [] = p := rfl

lemma resAfter_cons (c : ρ) (b : B) (a : A) (acts : List A) :
    S.resAfter c b (a :: acts) = S.resAfter c (if S.on a = some c then S.effect b a else b) acts :=
  rfl

lemma placeAfter_cons (k : κ) (c : ρ) (p : Place κ) (a : A) (acts : List A) :
    S.placeAfter k c p (a :: acts) =
      S.placeAfter k c (if S.on a = some c then moved k p (S.lease a) else p) acts := rfl

lemma resAfter_append (c : ρ) (b : B) (acts acts' : List A) :
    S.resAfter c b (acts ++ acts') = S.resAfter c (S.resAfter c b acts) acts' :=
  List.foldl_append

lemma placeAfter_append (k : κ) (c : ρ) (p : Place κ) (acts acts' : List A) :
    S.placeAfter k c p (acts ++ acts') = S.placeAfter k c (S.placeAfter k c p acts) acts' :=
  List.foldl_append

/-- Acts about other resources leave a resource alone. -/
lemma resAfter_frame {c : ρ} {acts : List A} (h : ∀ a ∈ acts, S.on a ≠ some c) (b : B) :
    S.resAfter c b acts = b := by
  induction acts with
  | nil => rfl
  | cons a acts ih =>
    rw [resAfter_cons, if_neg (h a (by simp))]
    exact ih (fun a' ha' => h a' (by simp [ha']))

lemma placeAfter_frame {c : ρ} {acts : List A} (h : ∀ a ∈ acts, S.on a ≠ some c) (k : κ)
    (p : Place κ) : S.placeAfter k c p acts = p := by
  induction acts with
  | nil => rfl
  | cons a acts ih =>
    rw [placeAfter_cons, if_neg (h a (by simp))]
    exact ih (fun a' ha' => h a' (by simp [ha']))

/-- No act undoes the creation of a resource. -/
lemma placeAfter_ne_fresh {k : κ} {c : ρ} {acts : List A} {p : Place κ} (hp : p ≠ .fresh) :
    S.placeAfter k c p acts ≠ .fresh := by
  induction acts generalizing p with
  | nil => exact hp
  | cons a acts ih =>
    rw [placeAfter_cons]
    refine ih ?_
    split
    · unfold moved
      split <;> simp [hp]
    · exact hp

/-- The acts of `k` make nobody but `k` a holder. -/
lemma placeAfter_holder {k k' : κ} {c : ρ} {acts : List A} {p : Place κ}
    (hp : ∀ k', p = .held k' → k' = k) (h : S.placeAfter k c p acts = .held k') : k' = k := by
  induction acts generalizing p with
  | nil => exact hp k' h
  | cons a acts ih =>
    rw [placeAfter_cons] at h
    refine ih (fun k₁ hk₁ => ?_) h
    split at hk₁
    · unfold moved at hk₁
      split at hk₁
      · exact hp k₁ hk₁
      · simpa using hk₁.symm
      · simp at hk₁
      · simp at hk₁
    · exact hp k₁ hk₁

/-- Under the discipline a resource's place follows the hand. -/
lemma placeAfter_of_accepts {k : κ} {c : ρ} {acts : List A} {h h' : Option ρ}
    (hacc : S.Accepts touch h acts h') {p : Place κ} (hp : p = .held k ↔ h = some c) :
    S.placeAfter k c p acts = .held k ↔ h' = some c := by
  induction acts generalizing h p with
  | nil => exact hacc ▸ hp
  | cons a acts ih =>
    obtain ⟨h₁, ha, hr⟩ := hacc
    rw [placeAfter_cons]
    refine ih hr ?_
    unfold handNext at ha
    split at ha
    · -- an act about nothing
      rename_i hon
      cases ha
      simpa [hon] using hp
    · rename_i c' hon
      split at ha
      · by_cases hc : c' = c
        · -- an act about `c`
          subst hc
          rw [if_pos hon]
          split at ha <;> split at ha <;> cases ha <;> simp_all [moved]
        · rw [if_neg (by simpa [hon] using hc), hp]
          split at ha <;> split at ha <;> cases ha <;> simp_all
          all_goals rintro rfl; simp_all
      · cases ha

end LeaseSem

namespace Leased

variable (w : Leased κ ρ Λ B G A)

/-- Process `k` has moved to `l`, performing `acts`. -/
def perform [DecidableEq κ] (k : κ) (l : Λ) (acts : List A) : Leased κ ρ Λ B G A where
  loc := Function.update w.loc k l
  res c := S.resAfter c (w.res c) acts
  place c := S.placeAfter k c (w.place c) acts
  shared := acts.foldl S.shared w.shared
  log := w.log ++ acts.map fun a => (k, a)

/-- The holder on record is the process with the resource in hand. -/
def Exclusive (hand : Λ → Option ρ) : Prop := ∀ k c, w.place c = .held k ↔ hand (w.loc k) = some c

variable {S w} {hand : Λ → Option ρ}

/-- What a step of `k` is allowed to be: disciplined, about one resource `touch`, which is in
hand or in the pool's keeping. -/
structure Disciplined (S : LeaseSem ρ B G A) (hand : Λ → Option ρ) (w : Leased κ ρ Λ B G A)
    (k : κ) (l : Λ) (acts : List A) (touch : Option ρ) : Prop where
  accepts : S.Accepts touch (hand (w.loc k)) acts (hand l)
  inHand : ∀ c, hand (w.loc k) = some c → touch = some c
  pooled : ∀ c, touch = some c → hand (w.loc k) = some c ∨ w.place c = .pooled

/-- A resource the step does not touch. -/
lemma Disciplined.frame {k : κ} {l : Λ} {acts : List A} {touch : Option ρ}
    (hd : Disciplined S hand w k l acts touch) {c : ρ} (hc : touch ≠ some c) :
    ∀ a ∈ acts, S.on a ≠ some c :=
  fun a ha hon => hc (hd.accepts.about a ha c hon)

/-- A disciplined step keeps leases exclusive. -/
theorem Exclusive.perform [DecidableEq κ] {k : κ} {l : Λ} {acts : List A} {touch : Option ρ}
    (h : w.Exclusive hand) (hd : Disciplined S hand w k l acts touch) :
    (w.perform S k l acts).Exclusive hand := by
  intro k' c
  by_cases hk : k' = k
  · subst hk
    simp only [Leased.perform, Function.update_self]
    exact S.placeAfter_of_accepts hd.accepts (h k' c)
  · simp only [Leased.perform, Function.update_of_ne hk]
    by_cases hc : touch = some c
    · -- `c` is not `k'`'s before, and `k`'s acts make it `k`'s or nobody's
      have hnot : w.place c ≠ .held k' := by
        rcases hd.pooled c hc with hh | hp
        · rw [(h k c).mpr hh]
          simpa using Ne.symm hk
        · simp [hp]
      have hpk : ∀ k₁, w.place c = .held k₁ → k₁ = k := by
        intro k₁ hk₁
        rcases hd.pooled c hc with hh | hp
        · have := (h k c).mpr hh
          rw [hk₁] at this
          simpa using this
        · simp [hp] at hk₁
      constructor
      · exact fun hp => absurd (S.placeAfter_holder hpk hp) hk
      · exact fun hh => absurd ((h k' c).mpr hh) hnot
    · rw [S.placeAfter_frame (hd.frame hc)]
      exact h k' c

end Leased

end Pgman
