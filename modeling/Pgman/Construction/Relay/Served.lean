import Pgman.Construction.Relay.Steady
import Pgman.Construction.Wire.Server

/-!
# Sessions, their connections, and the servers behind them

The world of `Construction/Relay/World.lean` with a server at the end of every connection.  A
flush delivers the write buffer into the server's inbox; a reply the relay reads is the first
one in the server's outbox.  Servers move on their own, at any time, on any connection.

I/O errors and timeouts stay in the environment's hands, as in the world without servers; a
flush that fails delivers nothing.

Forgetting the servers gives back a world (`reach_world`), so everything known about worlds
holds here too.
-/

namespace Pgman

/-- A connection and the server behind it. -/
structure Link where
  conn : BackendConn
  server : Server

/-- What a server notices of a session's acts. -/
def Server.hear (s : Server) : Act → Server
  | .flush _ _ delivered => { s with inbox := s.inbox ++ delivered.map Prod.snd }
  | .recv _ _ _ _ => { s with outbox := s.outbox.tail }
  | _ => s

def Link.after (b : Link) (a : Act) : Link := ⟨b.conn.after a, b.server.hear a⟩

def servedSem : LeaseSem Conn Link ℕ Act := ⟨Act.on, Act.lease, Link.after, issued⟩

abbrev Served := Leased Caller Conn Local Link ℕ Act

inductive Event
  | world (a : Happening)
  | server (c : Conn) (mv : ServerMove)
  deriving DecidableEq, Repr

namespace Served

/-- The world without its servers. -/
def world (w : Served) : World := ⟨w.loc, fun c => (w.res c).conn, w.place, w.shared, w.log⟩

/-- A reply that session `k` reads is the next one from the server it talks to. -/
def Heard (w : Served) (k : Caller) : Input → Prop
  | .reply r => ∃ c ∈ (w.loc k).hand, (w.res c).server.outbox.head? = some r
  | _ => True

instance (w : Served) (k : Caller) (i : Input) : Decidable (w.Heard k i) :=
  match i with
  | .reply r =>
    decidable_of_iff (((w.loc k).hand.bind fun c => (w.res c).server.outbox.head?) = some r)
      (by simp [Heard, Option.bind_eq_some_iff])
  | .client _ | .clientErr | .clientTimeout | .draining _ | .popped _ | .acquired _
  | .acquireErr _ _ | .armed _ | .feFlush _ | .replyErr _ | .replyTimeout | .flushClient _
  | .grace => .isTrue trivial

def step (opts : RuntimeOpts) (quiet : String → Bool) (w : Served) : Event → Option Served
  | .world (.relay k i) =>
      if w.world.Admits i ∧ w.Heard k i then
        (Relay.step opts w.world.res w.shared (w.loc k) i).map fun r =>
          w.perform servedSem k r.1 r.2
      else none
  | .world (.register k) =>
      if (w.loc k).sess.id = 0 then
        some { w with loc := (w.world.register k).loc, shared := w.shared + 1 }
      else none
  | .world (.dial c) =>
      if w.place c = .fresh then some { w with place := Function.update w.place c .pooled }
      else none
  | .world (.retire c) =>
      if w.place c = .pooled then some { w with place := Function.update w.place c .gone } else none
  | .server c mv =>
      ((w.res c).server.move quiet mv).map fun s =>
        { w with res := Function.update w.res c ⟨(w.res c).conn, s⟩ }

def start (mode : PoolMode) (params : Caller → List TrackedParam) (psLimit : Caller → ℤ) :
    Served where
  loc := (World.start mode params psLimit).loc
  res c := ⟨(World.start mode params psLimit).res c, .fresh⟩
  place _ := .fresh
  shared := 0
  log := []

def machine (opts : RuntimeOpts) (quiet : String → Bool) (mode : PoolMode)
    (params : Caller → List TrackedParam) : Machine Served Event where
  init w := ∃ psLimit, w = start mode params psLimit
  step := step opts quiet

/-! ## Forgetting the servers -/

variable {opts : RuntimeOpts} {quiet : String → Bool} {mode : PoolMode}
  {params : Caller → List TrackedParam} {w w' : Served}

lemma resAfter_conn (c : Conn) (b : Link) (acts : List Act) :
    (servedSem.resAfter c b acts).conn = relaySem.resAfter c b.conn acts := by
  induction acts generalizing b with
  | nil => rfl
  | cons a acts ih =>
    have ha : (if servedSem.on a = some c then servedSem.effect b a else b).conn =
        if relaySem.on a = some c then relaySem.effect b.conn a else b.conn := by
      by_cases hon : a.on = some c <;> simp [servedSem, relaySem, hon, Link.after]
    rw [servedSem.resAfter_cons, relaySem.resAfter_cons, ih, ha]

lemma world_perform (w : Served) (k : Caller) (l : Local) (acts : List Act) :
    world (w.perform servedSem k l acts) = w.world.perform relaySem k l acts := by
  simp only [world, Leased.perform, resAfter_conn]
  rfl

/-- A step of the whole is a step of the world, or a server's. -/
lemma step_world {e : Event} (h : step opts quiet w e = some w') :
    w'.world = w.world ∨ ∃ a, World.step opts w.world a = some w'.world := by
  cases e with
  | server c mv =>
    obtain ⟨s, -, rfl⟩ := Option.map_eq_some_iff.mp h
    refine .inl ?_
    simp only [world, Leased.mk.injEq, true_and, and_true]
    funext c'
    by_cases hc : c' = c
    · subst hc
      simp
    · simp [Function.update_of_ne hc]
  | world a =>
    refine .inr ⟨a, ?_⟩
    cases a with
    | relay k i =>
      simp only [step] at h
      split at h
      · rename_i hok
        obtain ⟨r, hr, rfl⟩ := Option.map_eq_some_iff.mp h
        simp only [World.step, if_pos hok.1, world_perform]
        rw [show Relay.step opts w.world.res w.world.shared (w.world.loc k) i = some r from hr]
        rfl
      · cases h
    | register k =>
      simp only [step] at h
      split at h <;> cases h
      rename_i h0
      simp only [World.step, if_pos (show (w.world.loc k).sess.id = 0 from h0)]
      rfl
    | dial c =>
      simp only [step] at h
      split at h <;> cases h
      rename_i hc
      simp only [World.step, if_pos (show w.world.place c = .fresh from hc)]
      rfl
    | retire c =>
      simp only [step] at h
      split at h <;> cases h
      rename_i hc
      simp only [World.step, if_pos (show w.world.place c = .pooled from hc)]
      rfl

/-- What is reached with servers is reached without them. -/
theorem reach_world {C : Served → Event → Prop} (h : (machine opts quiet mode params).Reach C w) :
    (World.machine opts mode params).Reachable w.world := by
  induction h with
  | init h0 =>
    obtain ⟨psLimit, rfl⟩ := h0
    exact .init ⟨psLimit, rfl⟩
  | step _ _ hs ih =>
    rcases step_world hs with heq | ⟨a, ha⟩
    · rw [heq]
      exact ih
    · exact .step ih trivial ha

theorem steady_of_reach {C : Served → Event → Prop}
    (h : (machine opts quiet mode params).Reach C w) : w.world.Steady mode params :=
  World.steady_of_reach (reach_world h)

/-! ## The outline rule -/

/-- What session `k`'s step must show for the link it touches. -/
abbrev OutlineStep {σ : Type*} (O : Outline Caller Local Link Act σ) (w : Served) (k : Caller)
    (r : Local × List Act) (c : Conn) (p : Place Caller) : Prop :=
  Outline.LocalStep servedSem O Local.hand k r.1 r.2 c p (w.res c) (O.ghost servedSem c w.log)

section Outline

variable {σ : Type*} {O : Outline Caller Local Link Act σ} {k : Caller} {c : Conn}

lemma outline_server {mv : ServerMove} (hw : O.Holds servedSem w)
    (hserver : ∀ t, (w.res c).server.move quiet mv = some t →
      (∀ s, O.free (w.res c) s → O.free ⟨(w.res c).conn, t⟩ s) ∧
      (∀ k s, O.held k (w.loc k) (w.res c) s → O.held k (w.loc k) ⟨(w.res c).conn, t⟩ s) ∧
      (∀ s, O.gone (w.res c) s → O.gone ⟨(w.res c).conn, t⟩ s))
    (hs : step opts quiet w (.server c mv) = some w') : O.Holds servedSem w' := by
  obtain ⟨t, ht, rfl⟩ := Option.map_eq_some_iff.mp hs
  obtain ⟨hfree, hheld, hgone⟩ := hserver t ht
  exact hw.evolve c _ hfree hheld hgone

/-- The discipline of a session's step does not depend on the servers. -/
lemma relay_disciplined {i : Input} {r : Local × List Act} (hadmits : w.world.Admits i)
    (hr : Relay.step opts w.world.res w.shared (w.loc k) i = some r) :
    Leased.Disciplined servedSem Local.hand w k r.1 r.2 (Relay.touch (w.loc k) i) := by
  obtain ⟨hruns, htouch, hpooled⟩ := World.relay_disciplined (w := w.world) (k := k) hadmits hr
  have hon : servedSem.on = relaySem.on := rfl
  exact ⟨hruns.transfer hon rfl, htouch, hpooled⟩

lemma outline_relay {i : Input} (hsteady : w.world.Steady mode params) (hw : O.Holds servedSem w)
    (hheld : ∀ r c, w.Heard k i → Relay.step opts w.world.res w.shared (w.loc k) i = some r →
      (w.loc k).hand = some c →
      O.held k (w.loc k) (w.res c) (O.ghost servedSem c w.log) → OutlineStep O w k r c (.held k))
    (hpool : ∀ r c, Relay.step opts w.world.res w.shared (w.loc k) i = some r →
      (w.loc k).hand = none → i.conn = some c → w.place c = .pooled →
      O.free (w.res c) (O.ghost servedSem c w.log) → OutlineStep O w k r c .pooled)
    (hs : step opts quiet w (.world (.relay k i)) = some w') : O.Holds servedSem w' := by
  simp only [step] at hs
  split at hs
  · rename_i hok
    obtain ⟨r, hr, rfl⟩ := Option.map_eq_some_iff.mp hs
    refine hw.perform hsteady.exclusive (relay_disciplined hok.1 hr) ?_ ?_
    · exact fun c _ hhand hold => hheld r c hok.2 hr hhand hold
    · intro c hc hplace hold
      obtain ⟨hnone, hconn⟩ := hsteady.touch_pooled hc hplace
      exact hpool r c hr hnone hconn hplace hold
  · cases hs

lemma outline_register (hw : O.Holds servedSem w)
    (hreg : ∀ b s, (w.loc k).sess.id = 0 → O.held k (w.loc k) b s →
      O.held k ((w.world.register k).loc k) b s)
    (hs : step opts quiet w (.world (.register k)) = some w') : O.Holds servedSem w' := by
  simp only [step] at hs
  split at hs <;> cases hs
  rename_i h0
  refine hw.relocate k _ _ fun b s hold => ?_
  simpa [World.register] using hreg b s h0 hold

lemma outline_dial (hw : O.Holds servedSem w)
    (hs : step opts quiet w (.world (.dial c)) = some w') : O.Holds servedSem w' := by
  simp only [step] at hs
  split at hs <;> cases hs
  rename_i hfresh
  exact hw.join hfresh

lemma outline_retire (hw : O.Holds servedSem w) (hretire : ∀ b s, O.free b s → O.gone b s)
    (hs : step opts quiet w (.world (.retire c)) = some w') : O.Holds servedSem w' := by
  simp only [step] at hs
  split at hs <;> cases hs
  rename_i hpooled
  exact hw.withdraw hpooled hretire

/-- **The outline rule with servers.**  On top of what the rule for worlds asks, no assertion
may mind a server's move. -/
theorem outline_rule {C : Served → Event → Prop}
    (hinit : O.free ⟨⟨∅, 0, [], false, false⟩, .fresh⟩ O.init)
    (hretire : ∀ b s, O.free b s → O.gone b s)
    (hreg : ∀ (w : Served) k b s, (w.loc k).sess.id = 0 → O.held k (w.loc k) b s →
      O.held k ((w.world.register k).loc k) b s)
    (hserver : ∀ (w : Served) c mv t, C w (.server c mv) →
      (w.res c).server.move quiet mv = some t →
      (∀ s, O.free (w.res c) s → O.free ⟨(w.res c).conn, t⟩ s) ∧
      (∀ k s, O.held k (w.loc k) (w.res c) s → O.held k (w.loc k) ⟨(w.res c).conn, t⟩ s) ∧
      (∀ s, O.gone (w.res c) s → O.gone ⟨(w.res c).conn, t⟩ s))
    (hheld : ∀ w k i r c, (machine opts quiet mode params).Reach C w → C w (.world (.relay k i)) →
      w.Heard k i → Relay.step opts w.world.res w.shared (w.loc k) i = some r →
      (w.loc k).hand = some c →
      O.held k (w.loc k) (w.res c) (O.ghost servedSem c w.log) → OutlineStep O w k r c (.held k))
    (hpool : ∀ w k i r c, (machine opts quiet mode params).Reach C w → C w (.world (.relay k i)) →
      Relay.step opts w.world.res w.shared (w.loc k) i = some r → (w.loc k).hand = none →
      i.conn = some c → w.place c = .pooled →
      O.free (w.res c) (O.ghost servedSem c w.log) → OutlineStep O w k r c .pooled)
    (hw : (machine opts quiet mode params).Reach C w) : O.Holds servedSem w := by
  induction hw with
  | init h0 =>
    obtain ⟨psLimit, rfl⟩ := h0
    exact ⟨fun _ => hinit, always_nil⟩
  | @step w w' e hreach hC hs ih =>
    have hs : step opts quiet w e = some w' := hs
    cases e with
    | server c mv => exact outline_server ih (fun t => hserver w c mv t hC) hs
    | world a =>
      cases a with
      | relay k i =>
        exact outline_relay (steady_of_reach hreach) ih
          (fun r c => hheld w k i r c hreach hC) (fun r c => hpool w k i r c hreach hC) hs
      | register k => exact outline_register ih (hreg w k) hs
      | dial c => exact outline_dial ih hs
      | retire c => exact outline_retire ih hretire hs

end Outline

/-! ## One session and the link in its hand -/

/-- What a step is to session `k` and the link `c` it has in hand. -/
inductive LinkStep (opts : RuntimeOpts) (quiet : String → Bool) (w : Served) (k : Caller) (c : Conn)
    (e : Event) (w' : Served) : Prop
  /-- The session's own step. -/
  | relay (i : Input) (r : Local × List Act) (he : e = .world (.relay k i)) (hheard : w.Heard k i)
      (hr : Relay.step opts w.world.res w.shared (w.loc k) i = some r) (hloc : w'.loc k = r.1)
      (hres : w'.res c = servedSem.resAfter c (w.res c) r.2)
  /-- The server's. -/
  | server (mv : ServerMove) (t : Server) (he : e = .server c mv)
      (ht : (w.res c).server.move quiet mv = some t) (hloc : w'.loc k = w.loc k)
      (hres : w'.res c = ⟨(w.res c).conn, t⟩)
  | other (hpc : (w'.loc k).pc = (w.loc k).pc) (hres : w'.res c = w.res c)

/-- Nobody else touches the link in a session's hand. -/
theorem link_step {C : Served → Event → Prop} {e : Event} {k : Caller} {c : Conn}
    (hw : (machine opts quiet mode params).Reach C w) (hc : (w.loc k).hand = some c)
    (hs : step opts quiet w e = some w') : LinkStep opts quiet w k c e w' := by
  have hex := (steady_of_reach hw).exclusive
  cases e with
  | server c' mv =>
    obtain ⟨t, ht, rfl⟩ := Option.map_eq_some_iff.mp hs
    by_cases hcc : c' = c
    · subst hcc
      exact .server mv t rfl ht rfl (by simp)
    · exact .other rfl (by simp [Function.update_of_ne (Ne.symm hcc)])
  | world a =>
    cases a with
    | relay k' i =>
      simp only [step] at hs
      split at hs
      · rename_i hok
        obtain ⟨r, hr, rfl⟩ := Option.map_eq_some_iff.mp hs
        by_cases hk : k' = k
        · subst hk
          exact .relay i r rfl hok.2 hr (by simp [Leased.perform]) rfl
        · have hd := World.relay_disciplined (w := w.world) (k := k') hok.1 hr
          have htouch : Relay.touch (w.loc k') i ≠ some c := by
            intro htouch
            have hheld : w.place c = .held k := (hex k c).mpr hc
            rcases hd.pooled c htouch with hh | hp
            · have := (hex k' c).mpr hh
              rw [show w.world.place c = .held k from hheld] at this
              exact hk (by injection this with h; exact h.symm)
            · rw [show w.world.place c = .held k from hheld] at hp
              cases hp
          refine .other (by simp [Leased.perform, Function.update_of_ne (Ne.symm hk)]) ?_
          exact servedSem.resAfter_frame (hd.frame htouch) _
      · cases hs
    | register k' =>
      simp only [step] at hs
      split at hs <;> cases hs
      refine .other ?_ rfl
      by_cases hk : k = k'
      · subst hk
        simp [World.register, world]
      · simp [World.register, world, Function.update_of_ne hk]
    | dial c' =>
      simp only [step] at hs
      split at hs <;> cases hs
      exact .other rfl rfl
    | retire c' =>
      simp only [step] at hs
      split at hs <;> cases hs
      exact .other rfl rfl

end Served

end Pgman
