import Pgman.Construction.Pool.Moves
import Pgman.Framework.Tally

/-!
# The pool's channels

Closing a Go channel twice panics.  The pool closes channels in two places: `Close` closes `done`,
and `Resume` closes the channel its `Pause` installed, after it has left the critical section and
while other `Pause` and `Resume` calls may run.

Both are kept right by a ledger.  Every gate channel ever made is closed, or it is the open one
that the pool is paused on, or exactly one `Resume` has claimed it and is about to close it
(`GateLedger.once`).  And the `Close` call that flipped the flag is the only one between the flip
and `close(done)` (`ChannelsSound.shut`).
-/

namespace Pgman.Pool

variable {o : Options} {limit : ℕ} {s s' : Shared} {op op' : Op} {ch : Choice} {p p' : Pool}

/-! ## The gate -/

/-- The channel a `Resume` has taken out of the gate and not yet closed. -/
def Op.claim : Op → Option ℕ
  | .resumeClose ch => some ch
  | _ => none

/-- The channel an `Acquire` is parked on. -/
def Op.parkedOn : Op → Option ℕ
  | .acqParked _ ch => some ch
  | _ => none

/-- The call has flipped `closed` and not yet closed `done`. -/
def Op.closing : Op → ℕ
  | .closeDrain | .closeDone _ => 1
  | _ => 0

/-- What one step of a call does at the gate. -/
inductive GateMove (s : Shared) : Op → Shared → Op → Prop
  | passes {op : Op} {s' : Shared} {op' : Op} (hgate : s'.gate = s.gate) (hop : op.claim = none)
      (hop' : op'.claim = none) (hpark : ∀ ch, op'.parkedOn = some ch → ch = s.resumeCh) :
      GateMove s op s' op'
  | pauses (hp : s.paused = false) : GateMove s .pause ((s.swapResumeCh true).emit .pause) .returned
  | resumes (hp : s.paused = true) :
      GateMove s .resume (s.swapResumeCh false) (.resumeClose s.resumeCh)
  | wakes (ch : ℕ) : GateMove s (.resumeClose ch) ((s.closeChan ch).emit .resume) .returned

/-- The program points that have nothing to do with the channels. -/
def Op.bystander (op : Op) : Prop := op.claim = none ∧ op.parkedOn = none ∧ op.closing = 0

/-- A step from a program point that claims no channel. -/
structure AtGate (s : Shared) (op op' : Op) : Prop where
  before : op.claim = none
  after : op'.claim = none
  parked : ∀ ch, op'.parkedOn = some ch → ch = s.resumeCh

lemma Op.bystander.atGate (h : op.claim = none) (h' : op'.bystander) : AtGate s op op' :=
  ⟨h, h'.1, by simp [h'.2.1]⟩

lemma acquireStep_atGate (h : acquireStep o limit s op ch = some (s', op')) :
    AtGate s op op' ∧ op'.closing = op.closing := by
  unfold acquireStep at h
  split at h
  all_goals try split at h
  all_goals cases h
  all_goals refine ⟨⟨rfl, ?_, ?_⟩, ?_⟩
  all_goals repeat' split
  all_goals simp [Op.claim, Op.parkedOn, Op.closing]

lemma circuitStep_bystander (h : circuitStep o s op ch = some (s', op')) :
    op.bystander ∧ op'.bystander := by
  cases circuitStep_moves h with
  | asks d hop hop' =>
    obtain (_ | _ | _) | rfl | rfl := hop' <;> cases hop <;> cases d <;>
      exact ⟨⟨rfl, rfl, rfl⟩, rfl, rfl, rfl⟩
  | frees => exact ⟨⟨rfl, rfl, rfl⟩, rfl, rfl, rfl⟩
  | records d err hop hop' =>
    obtain (_ | _ | _) | rfl := hop' <;> cases hop <;> cases d <;>
      exact ⟨⟨rfl, rfl, rfl⟩, rfl, rfl, rfl⟩
  | succeeds d c hop hop' =>
    obtain (_ | _) | rfl := hop' <;> cases hop <;> cases d <;>
      exact ⟨⟨rfl, rfl, rfl⟩, rfl, rfl, rfl⟩

lemma returnStep_bystander (h : returnStep s op ch = some (s', op')) :
    op.bystander ∧ op'.bystander := by
  unfold returnStep at h
  split at h
  all_goals try split at h
  all_goals try split at h
  all_goals cases h
  all_goals refine ⟨⟨rfl, rfl, rfl⟩, ?_⟩
  all_goals exact ⟨rfl, rfl, rfl⟩

lemma warmUpStep_bystander (h : warmUpStep o limit s op ch = some (s', op')) :
    op.bystander ∧ op'.bystander := by
  unfold warmUpStep at h
  split at h
  all_goals try split at h
  all_goals cases h
  all_goals refine ⟨⟨rfl, rfl, rfl⟩, ?_⟩
  all_goals exact ⟨rfl, rfl, rfl⟩

lemma drainStep_atGate (h : drainStep o s op ch = some (s', op')) : AtGate s op op' := by
  unfold drainStep at h
  split at h
  all_goals try split at h
  all_goals cases h
  all_goals refine ⟨rfl, ?_, ?_⟩
  all_goals simp [Op.claim, Op.parkedOn]

lemma AtGate.passes (h : AtGate s op op') (hgate : s'.gate = s.gate) : GateMove s op s' op' :=
  .passes hgate h.before h.after h.parked

lemma opStep_gateMove (h : opStep o limit s op ch = some (s', op')) : GateMove s op s' op' := by
  obtain h | h | h | h | h | h := opStep_cases h
  · exact (acquireStep_atGate h).1.passes (congrArg Prod.fst (acquireStep_controls h))
  · obtain ⟨hop, hop'⟩ := circuitStep_bystander h
    exact (hop'.atGate hop.1).passes (congrArg Prod.fst (circuitStep_controls h))
  · obtain ⟨hop, hop'⟩ := returnStep_bystander h
    exact (hop'.atGate hop.1).passes (congrArg Prod.fst (returnStep_controls h))
  · exact (drainStep_atGate h).passes (drainStep_gate h)
  · obtain ⟨hop, hop'⟩ := warmUpStep_bystander h
    exact (hop'.atGate hop.1).passes (congrArg Prod.fst (warmUpStep_controls h))
  · unfold pauseStep at h
    split at h
    · split at h <;> cases h
      · exact .passes rfl rfl rfl (by simp [Op.parkedOn])
      · rename_i hp
        exact .pauses (by simpa using hp)
    · split at h <;> cases h
      · rename_i hp
        exact .resumes hp
      · exact .passes rfl rfl rfl (by simp [Op.parkedOn])
    · cases h; exact .wakes _
    · cases h

/-- The gate's accounts, given how many calls claim each channel. -/
structure GateLedger (s : Shared) (claims : ℕ → ℕ) : Prop where
  current : s.resumeCh < s.nextChan
  gate : s.chanClosed s.resumeCh = !s.paused
  /-- A channel is closed, claimed once, or the one the pool is paused on. -/
  once : ∀ ch < s.nextChan,
    (s.chanClosed ch).toNat + claims ch + (if s.paused ∧ ch = s.resumeCh then 1 else 0) = 1
  fresh : ∀ ch, s.nextChan ≤ ch → claims ch = 0

namespace GateLedger

variable {claims claims' : ℕ → ℕ}

lemma frame (h : GateLedger s claims) (hs : s'.gate = s.gate) : GateLedger s' claims := by
  simp only [Shared.gate, Prod.mk.injEq] at hs
  obtain ⟨hp, hr, hc, hn⟩ := hs
  exact ⟨by rw [hr, hn]; exact h.current, by rw [hc, hr, hp]; exact h.gate,
    by rw [hn, hc, hp, hr]; exact h.once, by rw [hn]; exact h.fresh⟩

/-- `Pause` installs an open channel. -/
lemma pause (h : GateLedger s claims) (hp : s.paused = false) :
    GateLedger (s.swapResumeCh true) claims := by
  refine ⟨Nat.lt_succ_self _, by simp [Shared.swapResumeCh], fun ch hch => ?_,
    fun ch hch => h.fresh ch (Nat.le_of_succ_le hch)⟩
  rcases Nat.lt_succ_iff_lt_or_eq.mp hch with hlt | rfl
  · have hne : ch ≠ s.nextChan := Nat.ne_of_lt hlt
    simpa [Shared.swapResumeCh, hne, hp] using h.once ch hlt
  · simp [Shared.swapResumeCh, h.fresh _ (Nat.le_refl _)]

/-- `Resume` takes the channel out of the gate and installs a closed one. -/
lemma resume (h : GateLedger s claims) (hp : s.paused = true)
    (hcl : ∀ ch, claims' ch = claims ch + if ch = s.resumeCh then 1 else 0) :
    GateLedger (s.swapResumeCh false) claims' := by
  have hcur := h.current
  refine ⟨Nat.lt_succ_self _, by simp [Shared.swapResumeCh], fun ch hch => ?_, fun ch hch => ?_⟩
  · rw [hcl]
    rcases Nat.lt_succ_iff_lt_or_eq.mp hch with hlt | rfl
    · have hne : ch ≠ s.nextChan := Nat.ne_of_lt hlt
      simpa [Shared.swapResumeCh, hne, hp, Nat.add_assoc] using h.once ch hlt
    · have hne : s.nextChan ≠ s.resumeCh := Nat.ne_of_gt hcur
      simp [Shared.swapResumeCh, hne, h.fresh _ (Nat.le_refl _)]
  · have hlt : s.nextChan < ch := hch
    rw [hcl, h.fresh ch (Nat.le_of_lt hlt), if_neg (by omega)]

/-- A claimed channel is open, and not the current one. -/
lemma of_claim (h : GateLedger s claims) {ch : ℕ} (hcl : 0 < claims ch) :
    ch < s.nextChan ∧ s.chanClosed ch = false ∧ ch ≠ s.resumeCh := by
  have hlt : ch < s.nextChan := by
    by_contra hge
    have := h.fresh ch (by omega)
    omega
  have honce := h.once ch hlt
  have hopen : s.chanClosed ch = false := by
    by_contra hcon
    simp only [Bool.not_eq_false] at hcon
    rw [hcon, Bool.toNat_true] at honce
    omega
  refine ⟨hlt, hopen, fun heq => ?_⟩
  -- an open current channel means that the pool is paused on it
  have hgate := h.gate
  rw [← heq, hopen] at hgate
  have hp : s.paused = true := by simpa using hgate.symm
  rw [hopen, if_pos ⟨hp, heq⟩] at honce
  omega

/-- `Resume` closes the channel it claimed. -/
lemma wake (h : GateLedger s claims) {ch : ℕ}
    (hcl : ∀ x, claims x = claims' x + if x = ch then 1 else 0) :
    GateLedger (s.closeChan ch) claims' := by
  have hpos : 0 < claims ch := by simp [hcl]
  obtain ⟨hlt, hopen, hne⟩ := h.of_claim hpos
  have hclose : s.closeChan ch = { s with chanClosed := Function.update s.chanClosed ch true } := by
    simp [Shared.closeChan, hopen]
  rw [hclose]
  refine ⟨h.current, ?_, fun x hx => ?_, fun x hx => ?_⟩
  · simpa [Ne.symm hne] using h.gate
  · have honce := h.once x hx
    rw [hcl] at honce
    by_cases hxc : x = ch
    · subst hxc
      simp only [hopen, Function.update_self, Bool.toNat_false, Bool.toNat_true, if_true] at honce ⊢
      omega
    · simpa [hxc] using honce
  · have := h.fresh x hx
    rw [hcl] at this
    omega

end GateLedger

/-! ## The shutdown -/

/-- What one step of a call does to the shutdown. -/
inductive ShutMove (s : Shared) : Op → Shared → Op → Prop
  | passes {op : Op} {s' : Shared} {op' : Op} (hclosed : s'.closed = s.closed)
      (hdone : s'.done = s.done) (hop : op'.closing = op.closing)
      (hpanic : s'.panicked = s.panicked ∨ ∃ ch, op = .resumeClose ch) : ShutMove s op s' op'
  | flips (hc : s.closed = false) : ShutMove s .close { s with closed := true } .closeDrain
  | wakes (cs : List Conn) :
      ShutMove s (.closeDone cs) (if s.done then { s with panicked := true } else
        { s with done := true }) (.retire cs .close)

lemma ShutMove.of_controls (h : s'.controls = s.controls) (hop : op'.closing = op.closing) :
    ShutMove s op s' op' := by
  simp only [Shared.controls, Shared.regime, Prod.mk.injEq] at h
  exact .passes h.2.1.1 h.2.1.2.1 hop (.inl h.2.2)

lemma ShutMove.of_bystanders (h : s'.controls = s.controls) (hops : op.bystander ∧ op'.bystander) :
    ShutMove s op s' op' :=
  .of_controls h (hops.2.2.2.trans hops.1.2.2.symm)

lemma opStep_shutMove (h : opStep o limit s op ch = some (s', op')) : ShutMove s op s' op' := by
  obtain h | h | h | h | h | h := opStep_cases h
  · exact .of_controls (acquireStep_controls h) (acquireStep_atGate h).2
  · exact .of_bystanders (circuitStep_controls h) (circuitStep_bystander h)
  · exact .of_bystanders (returnStep_controls h) (returnStep_bystander h)
  · unfold drainStep at h
    split at h
    case h_5 =>
      split at h <;> cases h
      · exact .passes rfl rfl rfl (.inl rfl)
      · rename_i hc
        exact .flips (by simpa using hc)
    case h_7 => cases h; exact .wakes _
    case h_14 => cases h; exact .of_controls (controls_emit? _ _) rfl
    all_goals try split at h
    all_goals cases h
    all_goals exact .passes rfl rfl rfl (.inl rfl)
  · exact .of_bystanders (warmUpStep_controls h) (warmUpStep_bystander h)
  · have hreg := pauseStep_regime h
    simp only [Shared.regime, Prod.mk.injEq] at hreg
    unfold pauseStep at h
    split at h
    all_goals try split at h
    all_goals cases h
    all_goals exact .passes hreg.1 hreg.2.1 rfl (by first | exact .inl rfl | exact .inr ⟨_, rfl⟩)

/-! ## Whole runs -/

/-- How many calls claim a channel. -/
def claims (p : Pool) (ch : ℕ) : ℕ := tally (fun op => if op.claim = some ch then 1 else 0) p.ops

/-- The channels are in order: the gate's accounts balance, every parked call waits on a channel
that exists, at most one call is about to close `done`, and nothing was closed twice. -/
structure ChannelsSound (p : Pool) : Prop where
  gate : GateLedger p.sh p.claims
  parked : ∀ op ∈ p.ops, ∀ ch, op.parkedOn = some ch → ch < p.sh.nextChan
  shut : tally Op.closing p.ops + p.sh.done.toNat = p.sh.closed.toNat
  noPanic : p.sh.panicked = false

lemma claims_set {sh : Shared} {i : ℕ} (hop : p.ops[i]? = some op) (ch : ℕ) :
    claims ⟨sh, p.ops.set i op'⟩ ch + (if op.claim = some ch then 1 else 0) =
      claims p ch + (if op'.claim = some ch then 1 else 0) :=
  tally_set _ hop op'

lemma channelsSound_new : ChannelsSound new where
  gate := ⟨by decide, rfl, fun ch hch => by
    have : ch = 0 := by simpa [new] using hch
    subst this; rfl, fun _ _ => rfl⟩
  parked := by simp [new]
  shut := rfl
  noPanic := rfl

/-- A call that starts claims nothing and waits for nothing. -/
lemma ChannelsSound.append (h : ChannelsSound p) {sh : Shared} (hop : op.bystander)
    (hs : sh.controls = p.sh.controls) : ChannelsSound ⟨sh, p.ops ++ [op]⟩ := by
  simp only [Shared.controls, Shared.regime, Prod.mk.injEq] at hs
  obtain ⟨hgate, ⟨hclosed, hdone, -⟩, hpanic⟩ := hs
  have hclaims : claims ⟨sh, p.ops ++ [op]⟩ = claims p := by
    funext ch
    simp [claims, hop.1]
  refine ⟨?_, fun x hx ch hch => ?_, ?_, hpanic.trans h.noPanic⟩
  · rw [hclaims]
    exact h.gate.frame hgate
  · have hn : sh.nextChan = p.sh.nextChan := congrArg (·.2.2.2) hgate
    rcases List.mem_append.mp hx with hx | hx
    · exact hn ▸ h.parked x hx ch hch
    · obtain rfl : x = op := by simpa using hx
      rw [hop.2.1] at hch
      cases hch
  · simpa [hop.2.2, hclosed, hdone] using h.shut

/-- The gate after a step of one call. -/
lemma ChannelsSound.gate_set (h : ChannelsSound p) {i : ℕ} (hop : p.ops[i]? = some op)
    (hm : GateMove p.sh op s' op') : GateLedger s' (claims ⟨s', p.ops.set i op'⟩) := by
  have hcl : ∀ x, claims ⟨s', p.ops.set i op'⟩ x + (if op.claim = some x then 1 else 0) =
      claims p x + (if op'.claim = some x then 1 else 0) := claims_set hop
  cases hm with
  | passes hgate hb ha hpark =>
    have : claims ⟨s', p.ops.set i op'⟩ = claims p := by
      funext x
      simpa [hb, ha] using hcl x
    rw [this]
    exact h.gate.frame hgate
  | pauses hp =>
    have : claims ⟨(p.sh.swapResumeCh true).emit .pause, p.ops.set i .returned⟩ = claims p := by
      funext x
      simpa [Op.claim] using hcl x
    rw [this]
    exact (h.gate.pause hp).frame rfl
  | resumes hp =>
    refine h.gate.resume hp (fun x => ?_)
    simpa [Op.claim, eq_comm] using hcl x
  | wakes ch =>
    have hwake : GateLedger (p.sh.closeChan ch)
        (claims ⟨(p.sh.closeChan ch).emit .resume, p.ops.set i .returned⟩) :=
      h.gate.wake fun x => by simpa [Op.claim, eq_comm] using (hcl x).symm
    exact hwake.frame rfl

/-- The parked calls after a step of one call. -/
lemma ChannelsSound.parked_set (h : ChannelsSound p) {i : ℕ} (hm : GateMove p.sh op s' op') :
    ∀ x ∈ p.ops.set i op', ∀ ch, x.parkedOn = some ch → ch < s'.nextChan := by
  have hmono : p.sh.nextChan ≤ s'.nextChan := by
    cases hm with
    | passes hgate => exact Nat.le_of_eq (congrArg (·.2.2.2) hgate).symm
    | pauses | resumes => exact Nat.le_succ _
    | wakes ch =>
      simp only [Shared.emit, Shared.closeChan]
      split <;> exact Nat.le_refl _
  intro x hx ch hch
  rcases List.mem_or_eq_of_mem_set hx with hx | rfl
  · exact Nat.lt_of_lt_of_le (h.parked x hx ch hch) hmono
  · cases hm with
    | passes hgate _ _ hpark =>
      rw [hpark ch hch]
      exact Nat.lt_of_lt_of_le h.gate.current hmono
    | pauses | resumes | wakes => cases hch

/-- A call about to close a channel finds it open. -/
lemma ChannelsSound.claim_open (h : ChannelsSound p) {i ch : ℕ}
    (hop : p.ops[i]? = some (.resumeClose ch)) : p.sh.chanClosed ch = false := by
  have hle := le_tally (fun op => if Op.claim op = some ch then 1 else 0) (List.mem_of_getElem? hop)
  exact (h.gate.of_claim (Nat.lt_of_lt_of_le (by simp [Op.claim]) hle)).2.1

/-- The call about to close `done` finds it open. -/
lemma ChannelsSound.done_open (h : ChannelsSound p) {i : ℕ} {cs : List Conn}
    (hop : p.ops[i]? = some (.closeDone cs)) : p.sh.done = false := by
  have hle := le_tally Op.closing (List.mem_of_getElem? hop)
  have hshut := h.shut
  have hclosed := Bool.toNat_le p.sh.closed
  cases hd : p.sh.done with
  | false => rfl
  | true =>
    rw [hd, Bool.toNat_true] at hshut
    simp only [Op.closing] at hle
    omega

lemma ChannelsSound.step (h : ChannelsSound p) {a : Action} (hs : step o limit p a = some p') :
    ChannelsSound p' := by
  cases step_moves hs with
  | starts op hop =>
    refine h.append ?_ rfl
    unfold Op.entry at hop
    split at hop <;> first | exact ⟨rfl, rfl, rfl⟩ | cases hop
  | gives k c op hheld hop =>
    exact h.append (by rcases hop with rfl | rfl <;> exact ⟨rfl, rfl, rfl⟩) rfl
  | runs i ch op op' sh hop hstep =>
    have hgate := opStep_gateMove hstep
    have htally := tally_set Op.closing hop op'
    have hshut := h.shut
    refine ⟨h.gate_set hop hgate, h.parked_set hgate, ?_, ?_⟩
    · cases opStep_shutMove hstep with
      | passes hclosed hdone hop' =>
        simp only [hclosed, hdone]
        omega
      | flips hc =>
        simp only [hc, Op.closing, Bool.toNat_false, Bool.toNat_true] at *
        omega
      | wakes cs =>
        simp only [h.done_open hop, Op.closing, Bool.toNat_false, Bool.toNat_true,
          Bool.false_eq_true, if_false] at *
        omega
    · cases opStep_shutMove hstep with
      | passes _ _ _ hpanic =>
        rcases hpanic with hsame | ⟨ch, rfl⟩
        · exact hsame.trans h.noPanic
        · cases hgate with
          | passes _ hclaim => cases hclaim
          | wakes => simp [Shared.emit, Shared.closeChan, h.claim_open hop, h.noPanic]
      | flips => exact h.noPanic
      | wakes cs => simp [h.done_open hop, h.noPanic]
  | ticks d => exact ⟨h.gate.frame rfl, h.parked, h.shut, h.noPanic⟩

/-- The channels are in order in every reachable state. -/
theorem channelsSound_of_reachable (h : (machine o limit).Reachable p) : ChannelsSound p :=
  h.invariant (fun _ h0 => h0 ▸ channelsSound_new) (fun _ _ _ hI _ hs => hI.step hs)

end Pgman.Pool
