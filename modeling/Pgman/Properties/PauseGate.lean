import Pgman.Construction.Pool.Channels

/-!
# The pause gate

`Pause` and `Resume` change the flag and the channel together under `pauseMu`, and `Resume` closes
the channel it took out only after it has left the critical section.  `Acquire` reads the flag
without the lock and takes the channel under it, so it may be parked on a channel that is no
longer the current one.

The ledger of `Construction/Pool/Channels.lean` accounts for every channel ever made.  It gives the
state half of `pause_gate`: nothing is closed twice, the current channel is closed exactly while
the pool is not paused, and whatever channel a call is parked on is the current open one, closed,
or claimed by a `Resume`.  The other half is about runs: a claim is carried out before it is given
up, a closed channel stays closed until the call parked on it has gone on, and as long as no
`Resume` takes effect, a call that began after the `Pause` stays in front of the gate.
-/

namespace Pgman.Pool

variable {o : Options} {limit : ℕ} {s s' : Shared} {op op' : Op} {ch : Choice} {p p' : Pool}
  {a : Action}

/-- A `Resume` takes effect: it finds the pool paused. -/
def resumes (p : Pool) : Action → Bool
  | .run i _ => p.ops[i]? = some .resume && p.sh.paused
  | _ => false

/-- The program points of `Acquire` past the gate. -/
def Op.admitted : Op → Bool
  | .acqWait _ | .acqRecheck _ | .acqPop _ | .acqExamine _ _ | .acqCheck _ _ | .acqHealth _ _
  | .acqRetire _ _ _ | .acqRetireClose _ _ _ | .acqDial _ _ | .acqBackoff _ _ _ | .acqTag _ _
  | .acqStore _ _ _ | .acqFree _ _ => true
  | .circuit (.acquire _) | .circuitNow (.acquire _) _ | .circuitCas (.acquire _) _ _
  | .dialFailed (.acquire _) _ | .failAdd (.acquire _) _ | .failNow (.acquire _) _
  | .failSwap (.acquire _) _ _ | .okStore (.acquire _) _ | .okSwap (.acquire _) _ => true
  | _ => false

/-! ## In front of the gate -/

/-- A warm-up's dial does not turn into an `Acquire`'s. -/
lemma circuitStep_unadmitted (hop : op.admitted = false)
    (h : circuitStep o s op ch = some (s', op')) : op'.admitted = false := by
  cases circuitStep_moves h with
  | asks d hd hop' =>
    obtain (_ | _ | _) | rfl | rfl := hop' <;> cases hd <;> cases d <;> first | rfl | cases hop
  | frees d => cases d <;> first | rfl | cases hop
  | records d err hd hop' =>
    obtain (_ | _ | _) | rfl := hop' <;> cases hd <;> cases d <;> first | rfl | cases hop
  | succeeds d c hd hop' =>
    obtain (_ | _) | rfl := hop' <;> cases hd <;> cases d <;> first | rfl | cases hop

/-- While the pool is paused, a call in front of the gate stays there. -/
lemma opStep_unadmitted (hop : op.admitted = false) (hpaused : s.paused = true)
    (hopen : s.chanClosed s.resumeCh = false)
    (hpark : ∀ c, op.parkedOn = some c → c = s.resumeCh)
    (h : opStep o limit s op ch = some (s', op')) : op'.admitted = false := by
  obtain h | h | h | h | h | h := opStep_cases h
  · unfold acquireStep at h
    split at h <;> simp only [Op.admitted, reduceCtorEq] at hop
    · cases h
      split <;> rfl
    · cases h
      rw [if_pos hpaused]
      rfl
    · cases h; rfl
    · -- the channel it waits on is the current one, which is open
      rw [hpark _ rfl, hopen] at h
      cases h
    · cases h; rfl
    · split at h <;> cases h; rfl
    · cases h
  · exact circuitStep_unadmitted hop h
  · unfold returnStep at h
    split at h
    all_goals try split at h
    all_goals try split at h
    all_goals cases h
    all_goals rfl
  · unfold drainStep at h
    split at h
    all_goals try split at h
    all_goals cases h
    all_goals rfl
  · unfold warmUpStep at h
    split at h
    all_goals try split at h
    all_goals cases h
    all_goals rfl
  · unfold pauseStep at h
    split at h
    all_goals try split at h
    all_goals cases h
    all_goals rfl

/-- Only calls past the gate hand out connections. -/
lemma Deals.held_of_unadmitted (h : Deals s op s' op') (hop : op.admitted = false) :
    s'.held = s.held := by
  cases h with
  | keeps hheld => exact hheld
  | pooled k ic h => rcases h with rfl | rfl <;> cases hop
  | dialed k c m => cases hop

/-! ## While no `Resume` takes effect -/

/-- The pool is paused, and the calls from position `n` on are in front of the gate. -/
structure Barred (n : ℕ) (p : Pool) : Prop where
  sound : ChannelsSound p
  paused : p.sh.paused = true
  waiting : ∀ j op, n ≤ j → p.ops[j]? = some op →
    op.admitted = false ∧ ∀ c, op.parkedOn = some c → c = p.sh.resumeCh

lemma Barred.append {n : ℕ} (h : Barred n p) {sh : Shared} (hop : op.bystander)
    (hadm : op.admitted = false) (hs : sh.controls = p.sh.controls) :
    Barred n ⟨sh, p.ops ++ [op]⟩ := by
  have hgate : sh.gate = p.sh.gate := congrArg Prod.fst hs
  have hresume : sh.resumeCh = p.sh.resumeCh := congrArg (·.2.1) hgate
  refine ⟨h.sound.append hop hs, (congrArg Prod.fst hgate).trans h.paused, fun j x hj hx => ?_⟩
  simp only at hx ⊢
  rw [hresume]
  rcases getElem?_concat_cases hx with hx | ⟨-, rfl⟩
  · exact h.waiting j x hj hx
  · exact ⟨hadm, by simp [hop.2.1]⟩

lemma Barred.step {n : ℕ} (h : Barred n p) (hno : resumes p a = false)
    (hs : step o limit p a = some p') : Barred n p' := by
  have hsound := h.sound.step hs
  cases step_moves hs with
  | starts op hop =>
    unfold Op.entry at hop
    split at hop <;> first | exact h.append ⟨rfl, rfl, rfl⟩ rfl rfl | cases hop
  | gives k c op hheld hop =>
    rcases hop with rfl | rfl <;> exact h.append ⟨rfl, rfl, rfl⟩ rfl rfl
  | runs i ch op op' sh hop hstep =>
    -- the gate's two fields stay: `Pause` is a no-op here, and no `Resume` takes effect
    have hsame : sh.paused = true ∧ sh.resumeCh = p.sh.resumeCh := by
      cases opStep_gateMove hstep with
      | passes hgate =>
        exact ⟨(congrArg Prod.fst hgate).trans h.paused, congrArg (·.2.1) hgate⟩
      | pauses hp => rw [h.paused] at hp; cases hp
      | resumes => simp [resumes, hop, h.paused] at hno
      | wakes ch =>
        simp only [Shared.emit, Shared.closeChan]
        split <;> exact ⟨h.paused, rfl⟩
    have hopen : p.sh.chanClosed p.sh.resumeCh = false := by simp [h.sound.gate.gate, h.paused]
    refine ⟨hsound, hsame.1, fun j x hj hx => ?_⟩
    simp only at hx ⊢
    rw [hsame.2]
    rcases getElem?_set_cases hx with ⟨-, hx⟩ | ⟨rfl, rfl⟩
    · exact h.waiting j x hj hx
    · obtain ⟨hadm, hpark⟩ := h.waiting i op hj hop
      refine ⟨opStep_unadmitted hadm h.paused hopen hpark hstep, fun c hc => ?_⟩
      cases opStep_gateMove hstep with
      | passes _ _ _ hpk => exact hpk c hc
      | pauses | resumes | wakes => cases hc
  | ticks d => exact ⟨hsound, h.paused, h.waiting⟩

/-- A `Pause` that has returned bars the calls begun from then on. -/
lemma barred_of_pause (h : ChannelsSound p) {i : ℕ} (hop : p.ops[i]? = some .pause)
    (hs : step o limit p (.run i .go) = some p') : Barred p'.ops.length p' := by
  refine ⟨h.step hs, ?_, fun j op hj hx => ?_⟩
  · simp only [step, hop, opStep, acquireStep, circuitStep, returnStep, drainStep, warmUpStep,
      pauseStep] at hs
    cases hp : p.sh.paused <;> simp [hp] at hs <;> subst hs
    · rfl
    · exact hp
  · rw [List.getElem?_eq_none hj] at hx
    cases hx

/-- Where the channel of a parked call is. -/
lemma ChannelsSound.parked_cases (h : ChannelsSound p) {k : Caller} {c : ℕ}
    (hop : .acqParked k c ∈ p.ops) :
    (c = p.sh.resumeCh ∧ p.sh.chanClosed c = false) ∨ p.sh.chanClosed c = true ∨
      .resumeClose c ∈ p.ops := by
  have honce := h.gate.once c (h.parked _ hop c rfl)
  cases hc : p.sh.chanClosed c with
  | true => exact .inr (.inl rfl)
  | false =>
    by_cases hcur : p.sh.paused = true ∧ c = p.sh.resumeCh
    · exact .inl ⟨hcur.2, rfl⟩
    · -- neither closed nor current, so one call claims it
      rw [hc, if_neg hcur] at honce
      have hpos : 0 < claims p c := by
        simp only [Bool.toNat_false] at honce
        omega
      obtain ⟨op, hmem, hclaim⟩ := exists_of_tally_pos hpos
      have hsome : op.claim = some c := by
        by_contra hne
        simp [hne] at hclaim
      have hop : op = .resumeClose c := by
        cases op <;> simp [Op.claim] at hsome
        rw [hsome]
      exact .inr (.inr (hop ▸ hmem))

/-! ## Waking up -/

/-- No wake-up is lost, whichever step is taken next. -/
structure WakesUp (o : Options) (limit : ℕ) (p : Pool) : Prop where
  /-- The `Resume` that has claimed a channel can close it at any time, -/
  closes : ∀ i c : ℕ, p.ops[i]? = some (.resumeClose c) →
    ∃ p', step o limit p (.run i .go) = some p' ∧ p'.sh.chanClosed c = true
  /-- and has its claim until then. -/
  claimed : ∀ (i c : ℕ) (a : Action) (p' : Pool), p.ops[i]? = some (.resumeClose c) →
    step o limit p a = some p' → p'.ops[i]? = some (.resumeClose c) ∨ p'.sh.chanClosed c = true
  /-- A call parked on a closed channel can go on to the semaphore at any time, -/
  wakes : ∀ (j : ℕ) (k : Caller) (c : ℕ), p.ops[j]? = some (.acqParked k c) →
    p.sh.chanClosed c = true →
      ∃ p', step o limit p (.run j .ready) = some p' ∧ p'.ops[j]? = some (.acqWait k)
  /-- and the channel is closed until then. -/
  stays : ∀ (k : Caller) (c : ℕ) (a : Action) (p' : Pool), .acqParked k c ∈ p.ops →
    p.sh.chanClosed c = true → step o limit p a = some p' → p'.sh.chanClosed c = true

lemma chanClosed_closeChan (s : Shared) (c c' : ℕ) :
    (s.closeChan c).chanClosed c' = true ↔ c' = c ∨ s.chanClosed c' = true := by
  unfold Shared.closeChan
  split
  · rename_i hc
    exact ⟨.inr, fun h => h.elim (fun heq => heq ▸ hc) id⟩
  · simp only [Function.update_apply]
    split <;> simp_all

/-- Of the channels made so far, none is opened again. -/
lemma GateMove.chanClosed (h : GateMove s op s' op') {c : ℕ} (hlt : c < s.nextChan)
    (hc : s.chanClosed c = true) : s'.chanClosed c = true := by
  cases h with
  | passes hgate => exact (congrFun (congrArg (·.2.2.1) hgate) c).trans hc
  | pauses | resumes => exact (Function.update_of_ne (Nat.ne_of_lt hlt) _ _).trans hc
  | wakes ch => exact (chanClosed_closeChan s ch c).mpr (.inr hc)

lemma step_chanClosed (hs : step o limit p a = some p') {c : ℕ} (hlt : c < p.sh.nextChan)
    (hc : p.sh.chanClosed c = true) : p'.sh.chanClosed c = true := by
  cases step_moves hs with
  | starts | gives | ticks => exact hc
  | runs i ch op op' sh _ hstep => exact (opStep_gateMove hstep).chanClosed hlt hc

/-- A claim is carried out, or it is still there. -/
lemma step_claimed {i c : ℕ} (hop : p.ops[i]? = some (.resumeClose c))
    (hs : step o limit p a = some p') :
    p'.ops[i]? = some (.resumeClose c) ∨ p'.sh.chanClosed c = true := by
  have hlt : i < p.ops.length := (List.getElem?_eq_some_iff.mp hop).1
  cases step_moves hs with
  | starts | gives => exact .inl ((List.getElem?_append_left hlt).trans hop)
  | ticks => exact .inl hop
  | runs j ch op op' sh hop' hstep =>
    by_cases hj : j = i
    · subst hj
      obtain rfl : op = .resumeClose c := Option.some.inj (hop'.symm.trans hop)
      cases opStep_gateMove hstep with
      | passes _ hclaim => cases hclaim
      | wakes => exact .inr ((chanClosed_closeChan p.sh c c).mpr (.inl rfl))
    · exact .inl ((List.getElem?_set_ne hj).trans hop)

lemma wakesUp (h : ChannelsSound p) : WakesUp o limit p where
  closes i c hop := by
    refine ⟨⟨(p.sh.closeChan c).emit .resume, p.ops.set i .returned⟩, ?_, ?_⟩
    · simp [step, hop, opStep, acquireStep, circuitStep, returnStep, drainStep, warmUpStep,
        pauseStep]
    · exact (chanClosed_closeChan p.sh c c).mpr (.inl rfl)
  claimed i c a p' hop hs := step_claimed hop hs
  wakes j k c hop hc := by
    refine ⟨⟨p.sh, p.ops.set j (.acqWait k)⟩, ?_, ?_⟩
    · simp [step, hop, opStep, acquireStep, hc]
    · exact List.getElem?_set_self (List.getElem?_eq_some_iff.mp hop).1
  stays k c a p' hop hc hs := step_chanClosed hs (h.parked _ hop c rfl) hc

/-- **The pause gate.**  In every interleaving: no channel is closed twice; the current channel is
closed exactly when the pool is not paused; a parked call waits on the current open channel, on a
closed one, or on one that a `Resume` has claimed; no wake-up is lost; and after a `Pause` has
returned, as long as no `Resume` takes effect, no call begun since hands out a connection. -/
theorem pause_gate (o : Options) (limit : ℕ) (p : Pool) (h : (machine o limit).Reachable p) :
    p.sh.panicked = false ∧
    p.sh.chanClosed p.sh.resumeCh = !p.sh.paused ∧
    (∀ k c, .acqParked k c ∈ p.ops → (c = p.sh.resumeCh ∧ p.sh.chanClosed c = false) ∨
      p.sh.chanClosed c = true ∨ .resumeClose c ∈ p.ops) ∧
    WakesUp o limit p ∧
    (∀ i p₁, p.ops[i]? = some .pause → step o limit p (.run i .go) = some p₁ →
      ∀ q, ((machine o limit).startingAt p₁).Reach (fun q a => resumes q a = false) q →
      ∀ n ch q', p₁.ops.length ≤ n → step o limit q (.run n ch) = some q' →
        q'.sh.held = q.sh.held) := by
  have hsound := channelsSound_of_reachable h
  refine ⟨hsound.noPanic, hsound.gate.gate, fun k c hop => hsound.parked_cases hop,
    wakesUp hsound, ?_⟩
  intro i p₁ hop hs q hq n ch q' hn hrun
  have hbarred : Barred p₁.ops.length q := by
    refine hq.invariant (fun _ h0 => ?_) (fun _ _ _ hI hC hstep => hI.step hC hstep)
    obtain rfl : _ = p₁ := h0
    exact barred_of_pause hsound hop hs
  obtain ⟨op, op', sh, hop', hstep, rfl⟩ := run_moves hrun
  exact (opStep_deals hstep).held_of_unadmitted (hbarred.waiting n op hn hop').1

/-- A caller parks at the gate; the pool is resumed, and paused again before the `Resume` has closed
the channel the caller waits on. -/
def resumedUnderPause : List Action :=
  [.pause, .run 0 .go, .acquire 1, .run 1 .go, .run 1 .go, .run 1 .go, .resume, .run 2 .go, .pause,
    .run 3 .go]

theorem pause_gate_resumed_under_pause :
    ∃ p, (machine ⟨0, 0, 0, 0, 0, 0, 0, 0, false⟩ 1).run new resumedUnderPause = some p ∧
      p.ops = [.returned, .acqParked 1 1, .resumeClose 1, .returned] ∧ p.sh.resumeCh = 3 ∧
      p.sh.panicked = false ∧ p.sh.chanClosed p.sh.resumeCh = !p.sh.paused ∧
      ∃ p', step ⟨0, 0, 0, 0, 0, 0, 0, 0, false⟩ 1 p (.run 2 .go) = some p' ∧
        p'.sh.chanClosed 1 = true := by
  have hrun : ((machine ⟨0, 0, 0, 0, 0, 0, 0, 0, false⟩ 1).run new resumedUnderPause).map
      (fun p => (p.ops, p.sh.resumeCh)) =
      some ([.returned, .acqParked 1 1, .resumeClose 1, .returned], 3) := by decide
  obtain ⟨p, hp, hview⟩ := Option.map_eq_some_iff.mp hrun
  obtain ⟨hops, hch⟩ := Prod.mk.inj hview
  have hgate := pause_gate _ 1 p (Machine.reach_of_run rfl hp)
  have hcloses := hgate.2.2.2.1.closes 2 1 (by rw [hops]; rfl)
  exact ⟨p, hp, hops, hch, hgate.1, hgate.2.1, hcloses⟩

end Pgman.Pool
