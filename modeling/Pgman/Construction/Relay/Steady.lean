import Pgman.Construction.Relay.Owner
import Pgman.Framework.Transition

/-!
# Steady worlds

The facts every reachable world satisfies whatever its sessions and backends do: leases are
exclusive, session ids are unique, modes and tracked parameters are as configured, and a
connection's owner tag is the id of the session that last signed it.

On top of them stand the two rules by which every later property of worlds is proved.
`outline_rule` takes a proof outline for connections, `diary_rule` a diary of a session; both
reduce a statement about all interleavings to one about a single step of `relayImpl`.
-/

namespace Pgman

namespace World

variable {opts : RuntimeOpts} {mode : PoolMode} {params : Caller → List TrackedParam}
  {w w' : World}

/-- The session that last signed a connection's owner tag. -/
def lastOwner (c : Conn) (log : List (Caller × Act)) : Option Caller :=
  log.foldl (fun o e => match e.2 with
    | .setOwner c' _ => if c' = c then some e.1 else o
    | _ => o) none

/-- The owner tag of `c` names the session that last signed it. -/
def Tagged (w : World) (c : Conn) : Prop :=
  match lastOwner c w.log with
  | none => (w.res c).stateOwner = 0
  | some k => (w.res c).stateOwner = (w.loc k).sess.id ∧ (w.loc k).sess.id ≠ 0

structure Steady (mode : PoolMode) (params : Caller → List TrackedParam) (w : World) : Prop where
  exclusive : w.Exclusive Local.hand
  issued : ∀ k, (w.loc k).sess.id ≤ w.shared
  unique : ∀ k k', (w.loc k).sess.id = (w.loc k').sess.id → (w.loc k).sess.id ≠ 0 → k = k'
  modes : ∀ k, (w.loc k).sess.poolMode = mode
  tracked : ∀ k, (w.loc k).sess.trackedParams = params k
  named : ∀ k, Relay.Named (w.loc k)
  tagged : ∀ c, w.Tagged c

lemma lastOwner_snoc {k : Caller} {a : Act} {c : Conn} {log : List (Caller × Act)}
    (h : ∀ id, a ≠ .setOwner c id) : lastOwner c (log ++ [(k, a)]) = lastOwner c log := by
  unfold lastOwner
  rw [List.foldl_append]
  cases a with
  | setOwner c' id => exact if_neg fun hc => h id (by rw [hc])
  | _ => rfl

lemma after_stateOwner {a : Act} {c : Conn} {b : BackendConn} (hon : relaySem.on a = some c)
    (h : ∀ id, a ≠ .setOwner c id) : (relaySem.effect b a).stateOwner = b.stateOwner := by
  cases a with
  | setOwner c' id => exact absurd (by rw [Option.some.inj hon]) (h id)
  | _ => rfl

/-- What signed acts of `k` do to the tag of `c`: nothing, or they sign it. -/
lemma tag_append {k : Caller} {id : ℕ} {acts : List Act} (h : Relay.Signs id acts) (c : Conn)
    (log : List (Caller × Act)) (b : BackendConn) :
    let log' := log ++ acts.map fun a => (k, a)
    lastOwner c log' = lastOwner c log ∧ (relaySem.resAfter c b acts).stateOwner = b.stateOwner ∨
      lastOwner c log' = some k ∧ (relaySem.resAfter c b acts).stateOwner = id ∧
        .setOwner c id ∈ acts := by
  induction acts generalizing log b with
  | nil => exact .inl ⟨by simp, rfl⟩
  | cons a acts ih =>
    have hrest := ih (fun c' id' hmem => h c' id' (by simp [hmem])) (log ++ [(k, a)])
      (if relaySem.on a = some c then relaySem.effect b a else b)
    simp only [List.map_cons, relaySem.resAfter_cons] at hrest ⊢
    rw [show log ++ (k, a) :: acts.map (fun a => (k, a)) =
      log ++ [(k, a)] ++ acts.map (fun a => (k, a)) by simp]
    rcases hrest with ⟨h1, h2⟩ | ⟨h1, h2, h3⟩
    · -- nothing more is signed, so the first act decides
      by_cases ha : ∃ id', a = .setOwner c id'
      · obtain ⟨id', rfl⟩ := ha
        have := h c id' (by simp)
        subst this
        refine .inr ⟨?_, ?_, by simp⟩
        · simpa [lastOwner, List.foldl_append] using h1
        · simpa [relaySem, Act.on, BackendConn.after] using h2
      · refine .inl ⟨?_, ?_⟩
        · rw [h1, lastOwner_snoc fun id' hid => ha ⟨id', hid⟩]
        · rw [h2]
          split
          · exact after_stateOwner ‹_› fun id' hid => ha ⟨id', hid⟩
          · rfl
    · exact .inr ⟨h1, h2, by simp [h3]⟩

/-- A session's step is disciplined as long as the pool hands out what it keeps. -/
lemma relay_disciplined {k : Caller} {i : Input} {r : Local × List Act} (ha : w.Admits i)
    (h : Relay.step opts w.res w.shared (w.loc k) i = some r) :
    Leased.Disciplined relaySem Local.hand w k r.1 r.2 (Relay.touch (w.loc k) i) where
  accepts := (Relay.step_runs h).accepts
  inHand c hc := by simp [Relay.touch, hc]
  pooled c hc := by
    unfold Relay.touch at hc
    cases hh : (w.loc k).hand with
    | none =>
      rw [hh] at hc
      exact .inr (ha c hc)
    | some c' =>
      rw [hh] at hc
      exact .inl hc

lemma issued_le (acts : List Act) (n : ℕ) : n ≤ acts.foldl Pgman.issued n := by
  induction acts generalizing n with
  | nil => exact Nat.le_refl n
  | cons a acts ih =>
    refine Nat.le_trans ?_ (ih _)
    unfold Pgman.issued
    split <;> omega

lemma issued_lt {acts : List Act} (h : Act.issueID ∈ acts) (n : ℕ) :
    n + 1 ≤ acts.foldl Pgman.issued n := by
  induction acts generalizing n with
  | nil => simp at h
  | cons a acts ih =>
    rcases List.mem_cons.mp h with rfl | h
    · exact issued_le acts (n + 1)
    · refine Nat.le_trans ?_ (ih h _)
      unfold Pgman.issued
      split <;> omega

/-- Giving session `k` the identity of `l`, issuing at least the ids `l` uses. -/
lemma Steady.update {k : Caller} {l : Local} {n : ℕ} (h : w.Steady mode params)
    (hid : Relay.identity l = Relay.identity (w.loc k) ∧ w.shared ≤ n ∨
      (w.loc k).sess.id = 0 ∧ w.shared + 1 ≤ n ∧ Relay.identity l =
        (w.shared + 1, (w.loc k).sess.poolMode, (w.loc k).sess.trackedParams))
    (hloc : w'.loc = Function.update w.loc k l) (hn : w'.shared = n)
    (hex : w'.Exclusive Local.hand) (hnamed : Relay.Named l) (htags : ∀ c, w'.Tagged c) :
    w'.Steady mode params := by
  have hother : ∀ k', k' ≠ k → w'.loc k' = w.loc k' := fun k' hk' => by
    rw [hloc, Function.update_of_ne hk']
  have hself : w'.loc k = l := by rw [hloc, Function.update_self]
  simp only [Relay.identity, Prod.mk.injEq] at hid
  have hfresh : ∀ k', k' ≠ k → l.sess.id = (w.loc k').sess.id → l.sess.id ≠ 0 → False := by
    intro k' hk' heq hne
    rcases hid with ⟨⟨h1, -, -⟩, -⟩ | ⟨-, -, h1, -, -⟩
    · rw [h1] at heq hne
      exact hk' (h.unique k k' heq hne).symm
    · have := h.issued k'
      omega
  refine ⟨hex, fun k' => ?_, fun k₁ k₂ heq hne => ?_, fun k' => ?_, fun k' => ?_, fun k' => ?_,
    htags⟩
  · rw [hn]
    by_cases hk : k' = k
    · subst hk
      rw [hself]
      have := h.issued k'
      omega
    · rw [hother k' hk]
      have := h.issued k'
      omega
  · by_cases h1 : k₁ = k
    · subst h1
      by_cases h2 : k₂ = k₁
      · exact h2.symm
      · rw [hself, hother k₂ h2] at heq
        rw [hself] at hne
        exact (hfresh k₂ h2 heq hne).elim
    · by_cases h2 : k₂ = k
      · subst h2
        rw [hself, hother k₁ h1] at heq
        rw [hother k₁ h1, heq] at hne
        exact (hfresh k₁ h1 heq.symm hne).elim
      · rw [hother k₁ h1, hother k₂ h2] at heq
        rw [hother k₁ h1] at hne
        exact h.unique k₁ k₂ heq hne
  · by_cases hk : k' = k
    · subst hk
      have := h.modes k'
      rw [hself]
      grind
    · rw [hother k' hk]
      exact h.modes k'
  · by_cases hk : k' = k
    · subst hk
      have := h.tracked k'
      rw [hself]
      grind
    · rw [hother k' hk]
      exact h.tracked k'
  · by_cases hk : k' = k
    · subst hk
      rwa [hself]
    · rw [hother k' hk]
      exact h.named k'

/-- A tag survives a change of locals that keeps issued ids. -/
lemma Tagged.of_ids {c : Conn} (h : w.Tagged c) (hlog : lastOwner c w'.log = lastOwner c w.log)
    (hres : (w'.res c).stateOwner = (w.res c).stateOwner)
    (hid : ∀ k, (w.loc k).sess.id ≠ 0 → (w'.loc k).sess.id = (w.loc k).sess.id) :
    w'.Tagged c := by
  unfold Tagged at h ⊢
  rw [hlog, hres]
  cases ho : lastOwner c w.log with
  | none => simpa [ho] using h
  | some k =>
    simp only [ho] at h ⊢
    rw [hid k h.2]
    exact h

/-- A session's step keeps the tags right. -/
lemma Steady.tagged_perform {k : Caller} {i : Input} {r : Local × List Act}
    (h : w.Steady mode params) (hr : Relay.step opts w.res w.shared (w.loc k) i = some r)
    (c : Conn) : Tagged (w.perform relaySem k r.1 r.2) c := by
  obtain ⟨-, hsigns, hne⟩ := Relay.step_signs (h.named k) hr
  rcases tag_append (k := k) hsigns c w.log (w.res c) with ⟨h1, h2⟩ | ⟨h1, h2, h3⟩
  · refine (h.tagged c).of_ids h1 h2 (fun k' hk' => ?_)
    by_cases hk : k' = k
    · subst hk
      simp only [Leased.perform, Function.update_self]
      rcases Relay.step_identity hr with hsame | ⟨h0, -, -⟩
      · exact congrArg Prod.fst hsame
      · exact absurd h0 hk'
    · simp [Leased.perform, Function.update_of_ne hk]
  · unfold Tagged
    simp only [Leased.perform, h1, h2, Function.update_self]
    exact ⟨trivial, hne c _ h3⟩

/-- Every step keeps a world steady. -/
theorem Steady.step {a : Happening} (h : w.Steady mode params) (hs : step opts w a = some w') :
    w'.Steady mode params := by
  cases a with
  | relay k i =>
    simp only [World.step] at hs
    split at hs
    · rename_i ha
      obtain ⟨r, hr, rfl⟩ := Option.map_eq_some_iff.mp hs
      refine h.update ?_ rfl rfl (h.exclusive.perform (relay_disciplined ha hr))
        (Relay.step_signs (h.named k) hr).1 (h.tagged_perform hr)
      rcases Relay.step_identity hr with hsame | ⟨h0, hid, hmem⟩
      · exact .inl ⟨hsame, issued_le _ _⟩
      · exact .inr ⟨h0, issued_lt hmem _, hid⟩
    · cases hs
  | register k =>
    simp only [World.step] at hs
    split at hs <;> cases hs
    rename_i h0
    refine h.update (.inr ⟨h0, Nat.le_refl _, rfl⟩) rfl rfl ?_ (fun _ _ => by simp) (fun c => ?_)
    · intro k' c
      refine (h.exclusive k' c).trans ?_
      by_cases hk : k' = k
      · subst hk
        simp [register, Local.hand, Local.grip]
      · simp [register, Function.update_of_ne hk]
    · refine (h.tagged c).of_ids rfl rfl (fun k' hk' => ?_)
      have hk : k' ≠ k := fun heq => hk' (heq ▸ h0)
      simp [register, Function.update_of_ne hk]
  | dial c =>
    simp only [World.step] at hs
    split at hs <;> cases hs
    rename_i hfresh
    refine ⟨fun k c' => ?_, h.issued, h.unique, h.modes, h.tracked, h.named, h.tagged⟩
    refine Iff.trans ?_ (h.exclusive k c')
    by_cases hc : c' = c
    · subst hc
      simp [hfresh]
    · simp [Function.update_of_ne hc]
  | retire c =>
    simp only [World.step] at hs
    split at hs <;> cases hs
    rename_i hpooled
    refine ⟨fun k c' => ?_, h.issued, h.unique, h.modes, h.tracked, h.named, h.tagged⟩
    refine Iff.trans ?_ (h.exclusive k c')
    by_cases hc : c' = c
    · subst hc
      simp [hpooled]
    · simp [Function.update_of_ne hc]

lemma steady_start (psLimit : Caller → ℤ) : (start mode params psLimit).Steady mode params where
  exclusive k c := by simp [start, newLocal, Local.hand, Local.grip, PC.grip, Grip.conn]
  issued _ := Nat.le_refl _
  unique k k' _ hne := absurd rfl hne
  modes _ := rfl
  tracked _ := rfl
  named _ := by simp [Relay.Named, start, newLocal, Local.grip, PC.grip]
  tagged _ := rfl

theorem steady_of_reach {C : World → Happening → Prop}
    (h : (machine opts mode params).Reach C w) : w.Steady mode params :=
  h.invariant (fun _ ⟨_, h0⟩ => h0 ▸ steady_start _) (fun _ _ _ hI _ hs => hI.step hs)

/-- A session that touches a connection of the pool has none in hand, and is given this one. -/
lemma Steady.touch_pooled {k : Caller} {c : Conn} {i : Input} (h : w.Steady mode params)
    (hc : Relay.touch (w.loc k) i = some c) (hplace : w.place c = .pooled) :
    (w.loc k).hand = none ∧ i.conn = some c := by
  cases hhand : (w.loc k).hand with
  | none => exact ⟨rfl, by simpa [Relay.touch, hhand] using hc⟩
  | some c' =>
    -- the connection in hand is not in the pool
    have hsame : c' = c := by simpa [Relay.touch, hhand] using hc
    have hheld := (h.exclusive k c').mpr hhand
    rw [hsame, hplace] at hheld
    cases hheld

/-! ## The two rules -/

section Rules

variable {σ : Type*} {C : World → Happening → Prop}

/-- What session `k`'s step must show for the connection it touches. -/
abbrev OutlineStep (O : Outline Caller Local BackendConn Act σ) (w : World) (k : Caller)
    (r : Local × List Act) (c : Conn) (p : Place Caller) : Prop :=
  Outline.LocalStep relaySem O Local.hand k r.1 r.2 c p (w.res c) (O.ghost relaySem c w.log)

/-- **The outline rule for worlds.**  An outline that a blank connection satisfies, that does
not mind the pool closing what it keeps or ids being issued, and that every session's step
keeps, whether it works on the connection in hand or receives one from the pool, holds of
every world reached. -/
theorem outline_rule {O : Outline Caller Local BackendConn Act σ}
    (hinit : O.free ⟨∅, 0, [], false, false⟩ O.init)
    (hretire : ∀ b s, O.free b s → O.gone b s)
    (hreg : ∀ (w : World) k b s, (w.loc k).sess.id = 0 → O.held k (w.loc k) b s →
      O.held k ((w.register k).loc k) b s)
    (hheld : ∀ w k i r c, (machine opts mode params).Reach C w → C w (.relay k i) →
      Relay.step opts w.res w.shared (w.loc k) i = some r → (w.loc k).hand = some c →
      O.held k (w.loc k) (w.res c) (O.ghost relaySem c w.log) → OutlineStep O w k r c (.held k))
    (hpool : ∀ w k i r c, (machine opts mode params).Reach C w → C w (.relay k i) →
      Relay.step opts w.res w.shared (w.loc k) i = some r → (w.loc k).hand = none →
      i.conn = some c → w.place c = .pooled →
      O.free (w.res c) (O.ghost relaySem c w.log) → OutlineStep O w k r c .pooled)
    (hw : (machine opts mode params).Reach C w) : O.Holds relaySem w := by
  induction hw with
  | init h0 =>
    obtain ⟨psLimit, rfl⟩ := h0
    exact ⟨fun _ => hinit, always_nil⟩
  | @step w w' a hreach hC hs ih =>
    have hsteady := steady_of_reach hreach
    cases a with
    | relay k i =>
      simp only [machine, World.step] at hs
      split at hs
      · rename_i ha
        obtain ⟨r, hr, rfl⟩ := Option.map_eq_some_iff.mp hs
        refine ih.perform hsteady.exclusive (relay_disciplined ha hr) ?_ ?_
        · exact fun c _ hhand hold => hheld w k i r c hreach hC hr hhand hold
        · intro c hc hplace hold
          obtain ⟨hnone, hconn⟩ := hsteady.touch_pooled hc hplace
          exact hpool w k i r c hreach hC hr hnone hconn hplace hold
      · cases hs
    | register k =>
      simp only [machine, World.step] at hs
      split at hs <;> cases hs
      rename_i h0
      exact ih.relocate k _ _ (fun b s hold => by
        simpa [register] using hreg w k b s h0 hold)
    | dial c =>
      simp only [machine, World.step] at hs
      split at hs <;> cases hs
      rename_i hfresh
      exact ih.join hfresh
    | retire c =>
      simp only [machine, World.step] at hs
      split at hs <;> cases hs
      rename_i hpooled
      exact ih.withdraw hpooled hretire

/-- **The diary rule for worlds.** -/
theorem diary_rule {D : Diary Local Act σ}
    (hinit : ∀ mode params psLimit, D.at' (newLocal mode params psLimit) D.init)
    (hreg : ∀ (w : World) k s, (w.loc k).sess.id = 0 → D.at' (w.loc k) s →
      D.at' ((w.register k).loc k) s)
    (hstep : ∀ w k i r s, (machine opts mode params).Reach C w → C w (.relay k i) →
      Relay.step opts w.res w.shared (w.loc k) i = some r → D.at' (w.loc k) s →
      D.GoodRun s r.2 ∧ D.at' r.1 (r.2.foldl D.next s))
    (hw : (machine opts mode params).Reach C w) : D.Holds w := by
  induction hw with
  | init h0 =>
    obtain ⟨psLimit, rfl⟩ := h0
    exact ⟨fun k => hinit mode (params k) (psLimit k), always_nil⟩
  | @step w w' a hreach hC hs ih =>
    cases a with
    | relay k i =>
      simp only [machine, World.step] at hs
      split at hs
      · obtain ⟨r, hr, rfl⟩ := Option.map_eq_some_iff.mp hs
        exact ih.perform (hstep w k i r _ hreach hC hr (ih.asserts k))
      · cases hs
    | register k =>
      simp only [machine, World.step] at hs
      split at hs <;> cases hs
      rename_i h0
      refine ⟨fun k' => ?_, ih.good⟩
      by_cases hk : k' = k
      · subst hk
        exact hreg w k' _ h0 (ih.asserts k')
      · simpa [register, Function.update_of_ne hk] using ih.asserts k'
    | dial c =>
      simp only [machine, World.step] at hs
      split at hs <;> cases hs
      exact ⟨ih.asserts, ih.good⟩
    | retire c =>
      simp only [machine, World.step] at hs
      split at hs <;> cases hs
      exact ⟨ih.asserts, ih.good⟩

end Rules

end World

end Pgman
