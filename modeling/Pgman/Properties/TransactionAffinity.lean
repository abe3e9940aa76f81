import Mathlib.Data.List.Induction
import Pgman.Construction.Relay.Engagement
import Pgman.Construction.Relay.Moments
import Pgman.Construction.Relay.Steady

/-!
# Transaction affinity

Outside of statement mode, a session whose batch ended with a status other than `'I'` stays
with the connection: until its next batch has ended, all it sends goes to that connection, and
everything that happens on the connection is its own doing and no scrub.  In session mode a
session never changes the connection at all.

Two views are combined.  The diary of a session records the connection it is bound to; the
outline of a connection records the session whose transaction is open on it.

A batch ends for the relay with the first `ReadyForQuery` that its reply loop reads.  In orderly
runs that is the batch's own, and the status it decides by is the server's (`batchEnd_own`); a
`FunctionCall` in the batch has a `ReadyForQuery` before it.
-/

namespace Pgman

variable {opts : RuntimeOpts} {mode : PoolMode} {params : Caller → List TrackedParam} {w : World}

/-! ## The session's side -/

/-- The connection a session is bound to: in session mode that of its client's messages, else
that of a batch that did not end idle. -/
def bindingDiary (mode : PoolMode) : Diary Local Act (Option Conn) where
  init := none
  next s
    | .send c .client _ => if mode = .session then some c else s
    | .batchEnd c st => if st ≠ 'I' then some c else if mode = .session then s else none
    | _ => s
  good s a := ∀ c c', s = some c → (∃ m, a = .send c' .client m) ∨ (∃ st, a = .batchEnd c' st) →
    c' = c
  at' l s := ∀ c, s = some c → l.pc = .done ∨ l.pc.engaged = some c

/-- Acts before a batch do not concern the diary. -/
lemma binding_preliminary (mode : PoolMode) {acts : List Act} {s : Option Conn}
    (hacts : ∀ a ∈ acts, a.preliminary) :
    (bindingDiary mode).GoodRun s acts ∧ acts.foldl (bindingDiary mode).next s = s := by
  induction acts with
  | nil => exact ⟨trivial, rfl⟩
  | cons a acts ih =>
    have ha := hacts a (by simp)
    obtain ⟨hgood, hend⟩ := ih (fun a' ha' => hacts a' (by simp [ha']))
    have hnext : (bindingDiary mode).next s a = s := by
      unfold bindingDiary
      simp only
      split
      · exact ha.elim
      · exact ha.elim
      · rfl
    refine ⟨⟨?_, by rwa [hnext]⟩, by rwa [List.foldl_cons, hnext]⟩
    rintro c c' - (⟨m, rfl⟩ | ⟨st, rfl⟩)
    · exact ha.elim
    · exact ha.elim

/-- Work on a connection leaves the session bound to it, if to any. -/
lemma binding_proceeds (mode : PoolMode) {c : Conn} {acts : List Act} {s : Option Conn}
    (hs : s = none ∨ s = some c) (hacts : ∀ a ∈ acts, a.proceeds c) :
    (bindingDiary mode).GoodRun s acts ∧
      (acts.foldl (bindingDiary mode).next s = s ∨
        mode = .session ∧ acts.foldl (bindingDiary mode).next s = some c) := by
  induction acts generalizing s with
  | nil => exact ⟨trivial, .inl rfl⟩
  | cons a acts ih =>
    have ha := hacts a (by simp)
    have hnext : (bindingDiary mode).next s a = s ∨
        mode = .session ∧ (bindingDiary mode).next s a = some c := by
      unfold bindingDiary
      simp only
      split
      · obtain ⟨rfl, -⟩ := ha
        split
        · rename_i hmode
          exact .inr ⟨hmode, rfl⟩
        · exact .inl rfl
      · exact ha.elim
      · exact .inl rfl
    have hs' : (bindingDiary mode).next s a = none ∨ (bindingDiary mode).next s a = some c := by
      rcases hnext with h | ⟨-, h⟩
      · rwa [h]
      · exact .inr h
    obtain ⟨hgood, hend⟩ := ih hs' (fun a' ha' => hacts a' (by simp [ha']))
    refine ⟨⟨?_, hgood⟩, ?_⟩
    · rintro c₁ c₂ hc₁ (⟨m, rfl⟩ | ⟨st, rfl⟩)
      · rcases hs with rfl | rfl
        · cases hc₁
        · cases hc₁
          exact ha.1
      · exact ha.elim
    · rw [List.foldl_cons]
      rcases hend with h | h
      · rw [h]
        exact hnext
      · exact .inr h

lemma binding_end (mode : PoolMode) {c : Conn} {acts : List Act} {s : Option Conn}
    (hs : s = none ∨ s = some c) (hacts : ∀ a ∈ acts, a.proceeds c) :
    acts.foldl (bindingDiary mode).next s = none ∨
      acts.foldl (bindingDiary mode).next s = some c := by
  rcases (binding_proceeds mode hs hacts).2 with h | ⟨-, h⟩
  · rwa [h]
  · exact .inr h

/-- The end of a batch, on the connection the session is bound to. -/
lemma binding_batchEnd (mode : PoolMode) {c : Conn} {s : Option Conn} (st : Char)
    (hs : s = none ∨ s = some c) : (bindingDiary mode).good s (.batchEnd c st) ∧
      ((bindingDiary mode).next s (.batchEnd c st) = none ∨
        (bindingDiary mode).next s (.batchEnd c st) = some c) := by
  refine ⟨?_, ?_⟩
  · rintro c₁ c₂ rfl (⟨m, hm⟩ | ⟨st', hst⟩)
    · cases hm
    · cases hst
      simpa [eq_comm] using hs
  · simp only [bindingDiary]
    split
    · exact .inr rfl
    · split
      · exact hs
      · exact .inl rfl

/-- A step of an engaged session keeps the diary. -/
lemma binding_engaged {l : Local} {c : Conn} {r : Local × List Act} {s : Option Conn}
    (hmode : l.sess.poolMode = mode) (hs : s = none ∨ s = some c) (h : Relay.Proceeds l c r) :
    (bindingDiary mode).GoodRun s r.2 ∧
      (bindingDiary mode).at' r.1 (r.2.foldl (bindingDiary mode).next s) := by
  have hat : ∀ {l' : Local} {s' : Option Conn}, l'.pc.engaged = some c →
      s' = none ∨ s' = some c → (bindingDiary mode).at' l' s' := by
    rintro l' s' hpc hs' c' rfl
    have : c' = c := by simpa using hs'
    exact .inr (this ▸ hpc)
  cases h with
  | stay hacts hpc =>
    exact ⟨(binding_proceeds mode hs hacts).1, hat hpc (binding_end mode hs hacts)⟩
  | leave acts last tail hacts hlast htail h hpc =>
    have hrest : ∀ a ∈ last :: tail, a.preliminary := by
      intro a ha
      rcases List.mem_cons.mp ha with rfl | ha
      · rcases hlast with rfl | ⟨rfl, -⟩ <;> trivial
      · exact Relay.preliminary_of_on (htail a ha)
    rw [h]
    exact ⟨Diary.goodRun_append.mpr ⟨(binding_proceeds mode hs hacts).1,
      (binding_preliminary mode hrest).1⟩, fun _ _ => .inl hpc⟩
  | turn acts st hacts h hpc =>
    obtain ⟨hgood, hnext⟩ := binding_batchEnd mode st (binding_end mode hs hacts)
    rw [h, List.foldl_append]
    exact ⟨Diary.goodRun_append.mpr ⟨(binding_proceeds mode hs hacts).1, hgood, trivial⟩,
      hat (by rw [hpc]; rfl) hnext⟩
  | back acts acts' htxn hacts hacts' h hpc =>
    obtain ⟨hgood, -⟩ := binding_batchEnd mode 'I' (binding_end mode hs hacts)
    have hne : mode ≠ .session := by simp [← hmode, htxn]
    -- an idle end unbinds the session
    have hnext : ∀ s', (bindingDiary mode).next s' (.batchEnd c 'I') = none := by
      simp [bindingDiary, hne]
    obtain ⟨hgood', hend'⟩ := binding_proceeds mode (s := none) (.inl rfl) hacts'
    have hlast : ∀ a ∈ [Act.release c], a.preliminary := by simp [Act.preliminary]
    have hnone : acts'.foldl (bindingDiary mode).next none = none := by simpa [hne] using hend'
    rw [h]
    simp only [List.append_assoc, List.cons_append, List.foldl_append, List.foldl_cons, hnext,
      hnone, Diary.goodRun_append, Diary.GoodRun]
    exact ⟨⟨(binding_proceeds mode hs hacts).1, hgood, hgood', (binding_preliminary mode hlast).1⟩,
      fun c' hc' => by simp [bindingDiary] at hc'⟩

/-- **Sessions stay with their connection.** -/
theorem binding_holds (hmode : mode ≠ .statement)
    (h : (World.machine opts mode params).Reachable w) : (bindingDiary mode).Holds w := by
  refine World.diary_rule (fun _ _ _ c hc => by cases hc) (fun w k s _ hs => ?_)
    (fun w k i r s hreach _ hr hs => ?_) h
  · simpa [World.register, bindingDiary] using hs
  · have hm := (World.steady_of_reach hreach).modes k
    cases hc : (w.loc k).pc.engaged with
    | some c =>
      have hs' : s = none ∨ s = some c := by
        cases s with
        | none => exact .inl rfl
        | some c' =>
          rcases hs c' rfl with hdone | heng
          · simp [hdone, PC.engaged, PC.service] at hc
          · exact .inr (heng.symm.trans hc)
      exact binding_engaged hm hs' (Relay.engaged_step (hm ▸ hmode) hc hr)
    | none =>
      obtain rfl : s = none := by
        cases s with
        | none => rfl
        | some c' =>
          rcases hs c' rfl with hdone | heng
          · simp [Relay.step, hdone] at hr
          · simp [hc] at heng
      cases Relay.entering_step hc hr with
      | outside hacts _ =>
        obtain ⟨hgood, hend⟩ := binding_preliminary mode (s := none) hacts
        exact ⟨hgood, fun c hc => by simp [hend] at hc⟩
      | begins c l stmts msg acts acts' heq hacts hf =>
        obtain ⟨hacts', hpc, -⟩ := Relay.forward_stays hf
        obtain ⟨hgood, hend⟩ := binding_preliminary mode (s := none) hacts
        rw [heq, List.foldl_append, hend]
        refine ⟨Diary.goodRun_append.mpr ⟨hgood, ?_⟩, fun c' hc' => .inr ?_⟩
        · rw [hend]
          exact (binding_proceeds mode (.inl rfl) hacts').1
        · rcases binding_end mode (.inl rfl) hacts' with h | h <;> rw [h] at hc'
          · cases hc'
          · rwa [← hc']

/-! ## The connection's side -/

/-- Acts that do not scrub the connection, and do not check it either. -/
def Act.undisturbing : Act → Prop
  | .send _ src _ => src = .client ∨ src = .inject ∨ src = .synth
  | .take _ | .acquire _ | .clearStmts _ => False
  | _ => True

/-- The session whose last batch on the connection did not end idle. -/
def openOutline : Outline Caller Local BackendConn Act (Option Caller) where
  init := none
  next s e :=
    match e.2 with
    | .batchEnd _ st => if st = 'I' then none else some e.1
    | _ => s
  good s e := ∀ k, s = some k → e.1 = k ∧ e.2.undisturbing
  free _ s := s = none
  held k l _ s := ∀ k', s = some k' → k' = k ∧ l.lastTxStatus ≠ 'I' ∧ l.pc.engaged ≠ none
  gone _ _ := True

variable {k : Caller} {l : Local} {c : Conn} {acts : List Act} {p : Place Caller} {b : BackendConn}
  {s : Option Caller} {r : Local × List Act}

lemma open_next {a : Act} (ha : ∀ c st, a ≠ .batchEnd c st) : openOutline.next s (k, a) = s := by
  cases a <;> simp_all [openOutline]

lemma Act.proceeds.on {a : Act} (h : a.proceeds c) :
    a.on = none ∨ a.on = some c ∧ a.lease = none := by
  unfold Act.proceeds at h
  split at h <;> simp_all [Act.on, Act.lease]

lemma Act.proceeds.undisturbing {a : Act} (h : a.proceeds c) : a.undisturbing := by
  unfold Act.proceeds at h
  split at h <;> simp_all [Act.undisturbing]

lemma Act.proceeds.ne_batchEnd {a : Act} (h : a.proceeds c) (c' : Conn) (st : Char) :
    a ≠ .batchEnd c' st := by
  rintro rfl
  exact h

/-- Work on the connection, then the rest. -/
lemma open_run (hs : s = none ∨ s = some k) (hacts : ∀ a ∈ acts, a.proceeds c) {acts' : List Act}
    (h : ∀ b, Outline.LocalStep relaySem openOutline Local.hand k l acts' c p b s) :
    Outline.LocalStep relaySem openOutline Local.hand k l (acts ++ acts') c p b s := by
  refine Outline.LocalStep.run (I := fun _ s' => s' = s) rfl (fun a ha => ?_)
    (fun b s' hs' => hs' ▸ h b)
  have hp := hacts a ha
  rcases hp.on with hon | ⟨hon, hlease⟩
  · exact .inl hon
  · refine .inr ⟨hon, hlease, ?_⟩
    rintro b s' rfl
    refine ⟨fun k' hk' => ⟨?_, hp.undisturbing⟩, open_next hp.ne_batchEnd⟩
    simpa [hk', eq_comm] using hs

/-- A connection nobody has left open, while no batch ends. -/
lemma open_none (hacts : ∀ a ∈ acts, ∀ c st, a ≠ .batchEnd c st) :
    Outline.LocalStep relaySem openOutline Local.hand k l acts c p b none := by
  have hmain : openOutline.GoodRun relaySem k c none acts ∧
      openOutline.after relaySem k c none acts = none := by
    induction acts with
    | nil => exact ⟨trivial, rfl⟩
    | cons a acts ih =>
      have hnext : (if relaySem.on a = some c then openOutline.next none (k, a) else none) =
          none := by
        rw [open_next (hacts a (by simp)), ite_self]
      obtain ⟨hgood, hend⟩ := ih (fun a' ha' => hacts a' (by simp [ha']))
      refine ⟨⟨fun _ k' hk' => (by cases hk'), ?_⟩, ?_⟩
      · rwa [hnext]
      · rwa [Outline.after_cons, hnext]
  refine ⟨hmain.1, fun _ k' hk' => ?_, fun _ => hmain.2, fun _ => trivial⟩
  rw [hmain.2] at hk'
  cases hk'

lemma Act.preliminary.ne_batchEnd {a : Act} (h : a.preliminary) (c' : Conn) (st : Char) :
    a ≠ .batchEnd c' st := by
  rintro rfl
  exact h

/-- A step of an engaged session. -/
lemma open_engaged (hs : ∀ k', s = some k' → k' = k ∧ l.lastTxStatus ≠ 'I')
    (h : Relay.Proceeds l c r) :
    Outline.LocalStep relaySem openOutline Local.hand k r.1 r.2 c (.held k) b s := by
  have hs' : s = none ∨ s = some k := by
    cases s with
    | none => exact .inl rfl
    | some k' => exact .inr (by rw [(hs k' rfl).1])
  cases h with
  | stay hacts hpc hst =>
    rw [← List.append_nil r.2]
    refine open_run hs' hacts (fun b => .keeps (fun k' hk' => ?_))
    exact ⟨(hs k' hk').1, hst ▸ (hs k' hk').2, by simp [hpc]⟩
  | leave acts last tail hacts hlast htail h hpc =>
    have hhand : r.1.hand = none := Relay.hand_of_end (.inl hpc)
    rw [h]
    refine open_run hs' hacts (fun b => ?_)
    rcases hlast with rfl | ⟨rfl, hI⟩
    · refine .cons rfl (fun k' hk' => ⟨((hs k' hk').1).symm, trivial⟩) ?_
      exact .idle htail (.drops hhand trivial)
    · -- the relay gives back only what it takes for idle
      obtain rfl : s = none := by
        cases s with
        | none => rfl
        | some k' => exact absurd hI (hs k' rfl).2
      exact .cons rfl (fun k' hk' => by cases hk') (.idle htail (.returns hhand rfl))
  | turn acts st hacts h hpc hst =>
    rw [h]
    refine open_run hs' hacts (fun b => .cons rfl
      (fun k' hk' => ⟨((hs k' hk').1).symm, trivial⟩) (.keeps (fun k' hk' => ?_)))
    simp only [openOutline] at hk'
    split at hk'
    · cases hk'
    · rename_i hne
      cases hk'
      exact ⟨rfl, hst ▸ hne, by simp [hpc, PC.engaged]⟩
  | back acts acts' _ hacts hacts' h hpc =>
    rw [h]
    simp only [List.append_assoc, List.cons_append]
    refine open_run hs' hacts (fun b => .cons rfl
      (fun k' hk' => ⟨((hs k' hk').1).symm, trivial⟩) ?_)
    refine open_run (.inl rfl) hacts' (fun b => .cons rfl (fun k' hk' => by cases hk') ?_)
    exact .returns (Relay.hand_of_end (.inr hpc)) rfl

/-- **Nobody interferes with an open transaction.** -/
theorem open_holds (hmode : mode ≠ .statement)
    (h : (World.machine opts mode params).Reachable w) : openOutline.Holds relaySem w := by
  have hentering : ∀ {w k i r c p}, (w.loc k).pc.engaged = none →
      Relay.step opts w.res w.shared (w.loc k) i = some r →
      openOutline.ghost relaySem c w.log = none → World.OutlineStep openOutline w k r c p := by
    intro w k i r c p hc hr hs
    rw [World.OutlineStep, hs]
    refine open_none (fun a ha => ?_)
    cases Relay.entering_step hc hr with
    | outside hacts => exact (hacts a ha).ne_batchEnd
    | begins c' l stmts msg acts acts' heq hacts hf =>
      obtain ⟨hacts', -⟩ := Relay.forward_stays hf
      rw [heq] at ha
      rcases List.mem_append.mp ha with ha | ha
      · exact (hacts a ha).ne_batchEnd
      · exact (hacts' a ha).ne_batchEnd
  refine World.outline_rule rfl (fun _ _ _ => trivial) ?_ ?_ ?_ h
  · intro w k b s _ hs
    simpa [World.register, openOutline] using hs
  · intro w k i r c hreach _ hr hhand hs
    have hm := (World.steady_of_reach hreach).modes k
    cases hc : (w.loc k).pc.engaged with
    | none =>
      refine hentering hc hr ?_
      cases hg : openOutline.ghost relaySem c w.log with
      | none => rfl
      | some k' => exact absurd hc (hs k' hg).2.2
    | some c' =>
      obtain rfl : c' = c := by
        have := Relay.grip_of_engaged hc
        simpa [Local.hand, Local.grip, this, Grip.conn] using hhand
      exact open_engaged (fun k' hk' => ⟨(hs k' hk').1, (hs k' hk').2.1⟩)
        (Relay.engaged_step (hm ▸ hmode) hc hr)
  · intro w k i r c _ _ hr hhand _ _ hs
    refine hentering (Relay.engaged_of_grip (fun c' hc' => ?_)) hr hs
    simp [Local.hand, Local.grip, hc', Grip.conn] at hhand

/-! ## The end of a batch -/

/-- **In orderly runs a batch ends with its own `ReadyForQuery`**: the server owes nothing more, and
the status is the one that it is in. -/
theorem batchEnd_own {quiet : String → Bool} {v : Witnessed}
    (h : (Witnessed.machine opts quiet mode params).Reach (fun v e => Orderly v.served e) v)
    (c : Conn) : ∀ m ∈ v.moments c, ∀ st, m.act = .batchEnd c st →
      m.server.Settled ∧ m.server.reported = st :=
  fun m hm => (Witnessed.calm h c m hm).ended

-- With a function call in the batch the relay ends it while the server has yet to see the `Sync`.
example : ((Witnessed.machine ⟨"DISCARD ALL", true, 0, 0, 0⟩ (fun _ => true) .transaction
      fun _ => []).run (Witnessed.start .transaction (fun _ => []) (fun _ => 0))
      [.world (.dial 7), .world (.relay 1 (.client .functionCall)),
        .world (.relay 1 (.draining false)), .world (.relay 1 (.acquired 7)),
        .world (.relay 1 (.client .sync)), .world (.relay 1 (.feFlush none)),
        .server 7 (.serve (.done [] 'I' [])), .world (.relay 1 (.reply (.readyForQuery 'I'))),
        .world (.relay 1 (.flushClient true))]).map
      (fun v => ((v.moments 7).filter fun m => m.act = .batchEnd 7 'I').map (·.server.inbox)) =
    some [[.sync]] := by decide

/-! ## Reading the log -/

/-- What affinity means for the log of a world. -/
structure Affine (mode : PoolMode) (w : World) : Prop where
  /-- After a batch that did not end idle, the session's messages go to the same connection until
  its next batch has ended, and everything on the connection in between is the session's own and
  no scrub. -/
  next : ∀ pre k c st (mid : List (Caller × Act)) c' m post,
    w.log = pre ++ (k, Act.batchEnd c st) :: mid ++ (k, Act.send c' .client m) :: post → st ≠ 'I' →
    (∀ c₁ st₁, (k, Act.batchEnd c₁ st₁) ∉ mid) →
    c' = c ∧ ∀ e ∈ mid, e.2.on = some c → e.1 = k ∧ e.2.undisturbing
  /-- In session mode all messages of a session go to one connection. -/
  one : mode = .session → ∀ k c c' m m', (k, .send c .client m) ∈ w.log →
    (k, .send c' .client m') ∈ w.log → c = c'

lemma binding_next {c : Conn} {a : Act} (hgood : (bindingDiary mode).good (some c) a)
    (ha : mode = .session ∨ ∀ c₁ st₁, a ≠ .batchEnd c₁ st₁) :
    (bindingDiary mode).next (some c) a = some c := by
  simp only [bindingDiary]
  split
  · rename_i c' m
    split
    · rw [hgood c c' rfl (.inl ⟨m, rfl⟩)]
    · rfl
  · rename_i c' st
    have hc : c' = c := hgood c c' rfl (.inr ⟨st, rfl⟩)
    rcases ha with rfl | ha
    · simp [hc]
    · exact absurd rfl (ha c' st)
  · rfl

/-- A session stays bound as long as it ends no batch, in session mode in any case. -/
lemma binding_stable {log : List (Caller × Act)} {k : Caller} {c : Conn}
    (h : Always (fun pre e => (bindingDiary mode).good ((bindingDiary mode).ghost e.1 pre) e.2) log)
    {pre : List (Caller × Act)} (mid : List (Caller × Act))
    (hlog : ∃ post, log = pre ++ mid ++ post)
    (hpre : (bindingDiary mode).ghost k pre = some c)
    (hmid : mode = .session ∨ ∀ c₁ st₁, (k, .batchEnd c₁ st₁) ∉ mid) :
    (bindingDiary mode).ghost k (pre ++ mid) = some c := by
  induction mid using List.reverseRecOn with
  | nil => simpa using hpre
  | append_singleton mid e ih =>
    obtain ⟨post, hlog⟩ := hlog
    have hold := ih ⟨e :: post, by simp [hlog]⟩ (hmid.imp id (fun h c₁ st₁ hm =>
      h c₁ st₁ (List.mem_append_left _ hm)))
    have hgood := h (pre ++ mid) e post (by simp [hlog])
    obtain ⟨k', a⟩ := e
    rw [← List.append_assoc]
    by_cases hk : k' = k
    · subst hk
      rw [show [(k', a)] = [a].map fun a => (k', a) from rfl, Diary.ghost_append_self, hold]
      rw [hold] at hgood
      refine binding_next hgood (hmid.imp id (fun h c₁ st₁ ha => h c₁ st₁ ?_))
      simp [ha]
    · rw [show [(k', a)] = [a].map fun a => (k', a) from rfl, Diary.ghost_append_ne hk, hold]

lemma open_snoc (c : Conn) (log : List (Caller × Act)) (e : Caller × Act) :
    openOutline.ghost relaySem c (log ++ [e]) =
      if e.2.on = some c then openOutline.next (openOutline.ghost relaySem c log) e
      else openOutline.ghost relaySem c log := by
  simp only [Outline.ghost, List.foldl_append, List.foldl_cons, List.foldl_nil]
  rfl

/-- A transaction stays open as long as its session ends no batch. -/
lemma open_stable {log : List (Caller × Act)} {k : Caller} {c : Conn} {st : Char}
    (h : openOutline.AllGood relaySem log) {pre : List (Caller × Act)} (mid : List (Caller × Act))
    (hlog : ∃ post, log = pre ++ (k, Act.batchEnd c st) :: mid ++ post) (hst : st ≠ 'I')
    (hmid : ∀ c₁ st₁, (k, .batchEnd c₁ st₁) ∉ mid) :
    openOutline.ghost relaySem c (pre ++ (k, Act.batchEnd c st) :: mid) = some k := by
  induction mid using List.reverseRecOn with
  | nil => rw [open_snoc]; simp [Act.on, openOutline, hst]
  | append_singleton mid e ih =>
    obtain ⟨post, hlog⟩ := hlog
    have hold := ih ⟨e :: post, by simp [hlog]⟩ (fun c₁ st₁ hm =>
      hmid c₁ st₁ (List.mem_append_left _ hm))
    rw [show pre ++ (k, Act.batchEnd c st) :: (mid ++ [e]) =
      (pre ++ (k, Act.batchEnd c st) :: mid) ++ [e] by simp, open_snoc, hold]
    split
    · rename_i hon
      -- the event is the session's own, and no end of a batch
      obtain ⟨hk, -⟩ := h _ e post (by simp [hlog]) c hon k hold
      obtain ⟨k', a⟩ := e
      obtain rfl : k' = k := hk
      refine open_next (fun c₁ st₁ ha => hmid c₁ st₁ ?_)
      simp [ha]
    · rfl

/-- **Transaction affinity.**  In transaction and session mode, for every behaviour of clients and
backends and whatever the pool assigns. -/
theorem transaction_affinity (opts : RuntimeOpts) (mode : PoolMode)
    (params : Caller → List TrackedParam) (w : World) (hmode : mode ≠ .statement)
    (h : (World.machine opts mode params).Reachable w) : Affine mode w := by
  have hbind := (binding_holds hmode h).good
  have hopen := (open_holds hmode h).good
  have hone : mode = .session → ∀ pre k c m mid c' m' post, w.log =
      pre ++ (k, Act.send c .client m) :: mid ++ (k, Act.send c' .client m') :: post → c' = c := by
    intro hs pre k c m mid c' m' post hlog
    have hafter : (bindingDiary mode).ghost k (pre ++ [(k, Act.send c .client m)]) = some c := by
      rw [show [(k, Act.send c .client m)] = [Act.send c .client m].map fun a => (k, a) from rfl,
        Diary.ghost_append_self]
      simp [bindingDiary, hs]
    have hghost := binding_stable hbind mid ⟨_, by simpa using hlog⟩ hafter (.inl hs)
    exact hbind _ (k, .send c' .client m') post (by simpa using hlog) c c' hghost (.inl ⟨m', rfl⟩)
  refine ⟨?_, ?_⟩
  · intro pre k c st mid c' m post hlog hst hmid
    refine ⟨?_, fun e he hon => ?_⟩
    · have hafter : (bindingDiary mode).ghost k (pre ++ [(k, Act.batchEnd c st)]) = some c := by
        rw [show [(k, Act.batchEnd c st)] = [Act.batchEnd c st].map fun a => (k, a) from rfl,
          Diary.ghost_append_self]
        simp [bindingDiary, hst]
      have hghost := binding_stable hbind mid ⟨_, by simpa using hlog⟩ hafter (.inr hmid)
      exact hbind _ (k, .send c' .client m) post (by simpa using hlog) c c' hghost (.inl ⟨m, rfl⟩)
    · obtain ⟨mid₁, mid₂, rfl⟩ := List.append_of_mem he
      have hghost := open_stable hopen mid₁ ⟨_, by simpa using hlog⟩ hst
        (fun c₁ st₁ hm => hmid c₁ st₁ (List.mem_append_left _ hm))
      exact hopen _ e _ (by simpa using hlog) c hon k hghost
  · intro hs k c c' m m' hc hc'
    obtain ⟨pre, post, hlog⟩ := List.append_of_mem hc
    rw [hlog] at hc'
    rcases List.mem_append.mp hc' with hc' | hc'
    · obtain ⟨pre₁, mid, rfl⟩ := List.append_of_mem hc'
      exact hone hs pre₁ k c' m' mid c m post (by simp [hlog])
    · rcases List.mem_cons.mp hc' with heq | hc'
      · cases heq
        rfl
      · obtain ⟨mid, post₁, rfl⟩ := List.append_of_mem hc'
        exact (hone hs pre k c m mid c' m' post₁ (by simp [hlog])).symm

/-- Session 1 opens a transaction; session 2 comes and goes; session 1 carries on. -/
def interleaved : List Happening :=
  [.dial 7, .dial 8, .relay 1 (.client (.query "begin")), .relay 1 (.draining false),
    .relay 1 (.acquired 7), .relay 1 (.feFlush none), .relay 1 (.reply (.readyForQuery 'T')),
    .relay 1 (.flushClient true), .relay 2 (.client (.query "select 2")),
    .relay 2 (.draining false), .relay 2 (.acquired 8), .relay 2 (.feFlush none),
    .relay 2 (.reply (.readyForQuery 'I')), .relay 2 (.flushClient true),
    .relay 1 (.client (.query "select 1"))]

theorem transaction_affinity_interleaved :
    let opts : RuntimeOpts := ⟨"DISCARD ALL", true, 0, 0, 0⟩
    ∃ w, (World.machine opts .transaction (fun _ => [])).run
        (World.start .transaction (fun _ => []) (fun _ => 0)) interleaved = some w ∧
      (1, .batchEnd 7 'T') ∈ w.log ∧ (1, .send 7 .client (.query "select 1")) ∈ w.log ∧
      Affine .transaction w := by
  intro opts
  have hrun : ((World.machine opts .transaction (fun _ => [])).run
      (World.start .transaction (fun _ => []) (fun _ => 0)) interleaved).map
        (fun w => (w.log.contains (1, .batchEnd 7 'T'),
          w.log.contains (1, .send 7 .client (.query "select 1")))) = some (true, true) := by
    decide
  obtain ⟨w, hw, hview⟩ := Option.map_eq_some_iff.mp hrun
  simp only [Prod.mk.injEq, List.contains_iff_mem] at hview
  exact ⟨w, hw, hview.1, hview.2, transaction_affinity opts .transaction _ w (by decide)
    (Machine.reach_of_run ⟨_, rfl⟩ hw)⟩

end Pgman
