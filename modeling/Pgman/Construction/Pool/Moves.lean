import Pgman.Construction.Pool.Model
import Pgman.Framework.Transition

/-!
# What one step of the pool can do

The properties of the pool look at it from different sides: its stock of connections, the
pause gate, the shutdown, the generations.  This file says once how a step of the machine
falls apart (`step_moves`) and which of the functions touch which of the controls: `Acquire`, the
circuit breaker, `Release`, `Discard` and `warmUp` none of them, the draining calls not the gate,
and `Pause` and `Resume` only the gate.
-/

namespace Pgman.Pool

variable {o : Options} {limit : ℕ} {s s' : Shared} {op op' : Op} {ch : Choice}

/-! ## Steps of the machine -/

/-- The first program points of the calls that need nothing to start with. -/
def Op.entry : Op → Bool
  | .acquire _ | .reapExpired | .reconnect | .warmUp 0 | .close | .pause | .resume => true
  | _ => false

/-- A step of the machine starts a call, with a connection of the caller's or without, runs a call
by one operation, or lets time pass. -/
inductive Moves (o : Options) (limit : ℕ) (p : Pool) : Action → Pool → Prop
  | starts {a : Action} (op : Op) (hop : op.entry = true) : Moves o limit p a (p.start op)
  | gives {a : Action} (k : Caller) (c : Conn) (op : Op) (hheld : (k, c) ∈ p.sh.held)
      (hop : op = .release k c ∨ op = .discard k c) :
      Moves o limit p a
        { sh := { p.sh with held := p.sh.held.erase (k, c) }, ops := p.ops ++ [op] }
  | runs (i : ℕ) (ch : Choice) (op op' : Op) (sh : Shared) (hop : p.ops[i]? = some op)
      (hstep : opStep o limit p.sh op ch = some (sh, op')) :
      Moves o limit p (.run i ch) ⟨sh, p.ops.set i op'⟩
  | ticks (d : ℕ) : Moves o limit p (.tick d) { p with sh := { p.sh with clock := p.sh.clock + d } }

lemma reachable_step {p p' : Pool} {a : Action} (h : (machine o limit).Reachable p)
    (hs : step o limit p a = some p') : (machine o limit).Reachable p' :=
  Machine.Reach.step h trivial hs

lemma giveBack_moves {p p' : Pool} {k : Caller} {c : Conn} {a : Action}
    (hop : op = .release k c ∨ op = .discard k c) (h : p.giveBack k c op = some p') :
    Moves o limit p a p' := by
  unfold Pool.giveBack at h
  split at h <;> cases h
  rename_i hmem
  exact .gives k c op hmem hop

/-- A step of a running call. -/
lemma run_moves {p p' : Pool} {i : ℕ} (h : step o limit p (.run i ch) = some p') :
    ∃ op op' sh, p.ops[i]? = some op ∧ opStep o limit p.sh op ch = some (sh, op') ∧
      p' = ⟨sh, p.ops.set i op'⟩ := by
  simp only [step] at h
  split at h
  · cases h
  · rename_i op hop
    obtain ⟨⟨sh, op'⟩, hstep, rfl⟩ := Option.map_eq_some_iff.mp h
    exact ⟨op, op', sh, hop, hstep, rfl⟩

lemma step_moves {p p' : Pool} {a : Action} (h : step o limit p a = some p') :
    Moves o limit p a p' := by
  cases a with
  | release k c => exact giveBack_moves (.inl rfl) h
  | discard k c => exact giveBack_moves (.inr rfl) h
  | run i ch =>
    obtain ⟨op, op', sh, hop, hstep, rfl⟩ := run_moves h
    exact .runs i ch op op' sh hop hstep
  | tick d => cases h; exact .ticks d
  | _ => cases h; exact .starts _ rfl

/-- A step of a call is a step of one of the six functions. -/
lemma opStep_cases (h : opStep o limit s op ch = some (s', op')) :
    acquireStep o limit s op ch = some (s', op') ∨ circuitStep o s op ch = some (s', op') ∨
      returnStep s op ch = some (s', op') ∨ drainStep o s op ch = some (s', op') ∨
      warmUpStep o limit s op ch = some (s', op') ∨ pauseStep s op ch = some (s', op') := by
  simp only [opStep, Option.orElse_eq_orElse, Option.orElse_eq_or, Option.or_eq_some_iff] at h
  obtain h | ⟨-, h | ⟨-, h | ⟨-, h | ⟨-, h | ⟨-, h⟩⟩⟩⟩⟩ := h <;> simp [h]

/-! ## Who touches the controls -/

/-- The pause gate. -/
def Shared.gate (s : Shared) : Bool × ℕ × (ℕ → Bool) × ℕ :=
  (s.paused, s.resumeCh, s.chanClosed, s.nextChan)

/-- The shutdown flags and the generation. -/
def Shared.regime (s : Shared) : Bool × Bool × ℕ := (s.closed, s.done, s.reconnectGen)

/-- Everything that tells the calls what to do with connections, and the panic of a channel closed
twice. -/
def Shared.controls (s : Shared) : (Bool × ℕ × (ℕ → Bool) × ℕ) × (Bool × Bool × ℕ) × Bool :=
  (s.gate, s.regime, s.panicked)

@[simp] lemma controls_emit (s : Shared) (e : Event) : (s.emit e).controls = s.controls := rfl

@[simp] lemma controls_emit? (s : Shared) (e : Option Event) :
    (s.emit? e).controls = s.controls := by
  cases e <;> rfl

@[simp] lemma controls_releaseSlot (s : Shared) : s.releaseSlot.controls = s.controls := by
  unfold Shared.releaseSlot
  split <;> rfl

lemma acquireStep_controls (h : acquireStep o limit s op ch = some (s', op')) :
    s'.controls = s.controls := by
  unfold acquireStep at h
  split at h
  all_goals try split at h
  all_goals cases h
  all_goals first | rfl | exact controls_releaseSlot s

lemma circuitStep_controls (h : circuitStep o s op ch = some (s', op')) :
    s'.controls = s.controls := by
  unfold circuitStep at h
  split at h
  all_goals try split at h
  all_goals cases h
  all_goals first | rfl | exact controls_releaseSlot s

lemma returnStep_controls (h : returnStep s op ch = some (s', op')) :
    s'.controls = s.controls := by
  unfold returnStep at h
  split at h
  all_goals try split at h
  all_goals try split at h
  all_goals cases h
  all_goals first
    | rfl
    | exact (controls_emit? _ _).trans (controls_releaseSlot s)

lemma warmUpStep_controls (h : warmUpStep o limit s op ch = some (s', op')) :
    s'.controls = s.controls := by
  unfold warmUpStep at h
  split at h
  all_goals try split at h
  all_goals cases h
  all_goals first | rfl | exact controls_releaseSlot s

/-- Draining leaves the gate alone. -/
lemma drainStep_gate (h : drainStep o s op ch = some (s', op')) : s'.gate = s.gate := by
  unfold drainStep at h
  split at h
  all_goals try split at h
  all_goals cases h
  all_goals first
    | rfl
    | exact congrArg Prod.fst (controls_emit? _ _)

/-- The gate's calls leave the shutdown and the generation alone. -/
lemma pauseStep_regime (h : pauseStep s op ch = some (s', op')) : s'.regime = s.regime := by
  unfold pauseStep at h
  split at h
  all_goals try split at h
  all_goals cases h
  all_goals first
    | rfl
    | (simp only [Shared.closeChan]; split <;> rfl)

/-! ## What the events and the semaphore leave alone -/

/-- Where the connections are. -/
structure Goods where
  idle : List IdleConn
  held : List (Caller × Conn)
  connMeta : Conn → Option ConnMeta
  closes : Conn → ℕ

def Shared.goods (s : Shared) : Goods := ⟨s.idle, s.held, s.connMeta, s.closes⟩

lemma goods_releaseSlot (s : Shared) : s.releaseSlot.goods = s.goods := by
  unfold Shared.releaseSlot
  split <;> rfl

lemma goods_emit? (s : Shared) (e : Option Event) : (s.emit? e).goods = s.goods := by
  cases e <;> rfl

lemma goods_closeChan (s : Shared) (c : ℕ) : (s.closeChan c).goods = s.goods := by
  unfold Shared.closeChan
  split <;> rfl

/-! ## The circuit breaker

Its program points serve two callers, and lead back into the one they are run for. -/

/-- `circuitAllows`, asked for `d`. -/
inductive Op.Asks (d : Dialing) : Op → Prop
  | load : Op.Asks d (.circuit d)
  | now (u : ℤ) : Op.Asks d (.circuitNow d u)
  | cas (u n : ℤ) : Op.Asks d (.circuitCas d u n)

/-- `circuitRecordFailure`, run for `d`. -/
inductive Op.Records (d : Dialing) (err : DialErr) : Op → Prop
  | add : Op.Records d err (.failAdd d err)
  | now : Op.Records d err (.failNow d err)
  | swap (n : ℤ) : Op.Records d err (.failSwap d err n)

/-- `circuitRecordSuccess`, run for `d` that has dialed `c`. -/
inductive Op.Dialed (d : Dialing) (c : Conn) : Op → Prop
  | store : Op.Dialed d c (.okStore d c)
  | swap : Op.Dialed d c (.okSwap d c)

/-- What the breaker's code can do. -/
inductive CircuitMove (s : Shared) : Op → Shared → Op → Prop
  | asks {op : Op} {s' : Shared} {op' : Op} (d : Dialing) (hop : op.Asks d)
      (hop' : op'.Asks d ∨ op' = allowed d ∨ op' = denied d) (hgoods : s'.goods = s.goods)
      (hsem : s'.sem = s.sem) : CircuitMove s op s' op'
  | frees (d : Dialing) (err : DialErr) :
      CircuitMove s (.dialFailed d err) (s.releaseSlot.emit .dialError) (.failAdd d err)
  | records {op : Op} {s' : Shared} {op' : Op} (d : Dialing) (err : DialErr)
      (hop : op.Records d err) (hop' : op'.Records d err ∨ op' = afterFailure d err)
      (hgoods : s'.goods = s.goods) (hsem : s'.sem = s.sem) : CircuitMove s op s' op'
  | succeeds {op : Op} {s' : Shared} {op' : Op} (d : Dialing) (c : Conn) (hop : op.Dialed d c)
      (hop' : op'.Dialed d c ∨ op' = afterSuccess s.clock d c) (hgoods : s'.goods = s.goods)
      (hsem : s'.sem = s.sem) : CircuitMove s op s' op'

lemma circuitStep_moves (h : circuitStep o s op ch = some (s', op')) : CircuitMove s op s' op' := by
  unfold circuitStep at h
  split at h
  · cases h; rename_i d
    refine .asks d .load ?_ rfl rfl
    split
    · exact .inr (.inl rfl)
    · exact .inl (.now _)
  · cases h; rename_i d u
    refine .asks d (.now u) ?_ rfl rfl
    split
    · exact .inr (.inr rfl)
    · exact .inl (.cas _ _)
  · rename_i d u n
    split at h <;> cases h
    · exact .asks d (.cas u n) (.inr (.inl rfl)) rfl rfl
    · exact .asks d (.cas u n) (.inr (.inr rfl)) rfl rfl
  · cases h; exact .frees _ _
  · rename_i d err
    split at h <;> cases h
    · exact .records d err .add (.inr rfl) rfl rfl
    · refine .records d err .add ?_ rfl rfl
      split
      · exact .inr rfl
      · exact .inl .now
  · cases h; rename_i d err
    exact .records d err .now (.inl (.swap _)) rfl rfl
  · cases h; rename_i d err n
    exact .records d err (.swap n) (.inr rfl) (goods_emit? _ _) (by split <;> rfl)
  · rename_i d c
    split at h <;> cases h
    · exact .succeeds d c .store (.inr rfl) rfl rfl
    · exact .succeeds d c .store (.inl .swap) rfl rfl
  · cases h; rename_i d c
    exact .succeeds d c .swap (.inr rfl) (goods_emit? _ _) (by split <;> rfl)
  · cases h

lemma circuitStep_goods (h : circuitStep o s op ch = some (s', op')) : s'.goods = s.goods := by
  cases circuitStep_moves h with
  | asks _ _ _ hgoods => exact hgoods
  | frees => exact goods_releaseSlot s
  | records _ _ _ _ hgoods => exact hgoods
  | succeeds _ _ _ _ hgoods => exact hgoods

/-! ## Which function a program point belongs to -/

/-- The functions of the code, as the program points divide among them. -/
inductive Family
  | acquire | circuit | giving | draining | warming | pausing | ended
  deriving DecidableEq

def Op.family : Op → Family
  | .acquire _ | .acqPaused _ | .acqGate _ | .acqParked _ _ | .acqWait _ | .acqRecheck _ | .acqPop _
  | .acqExamine _ _ | .acqCheck _ _ | .acqHealth _ _ | .acqRetire _ _ _ | .acqRetireClose _ _ _
  | .acqDial _ _ | .acqBackoff _ _ _ | .acqTag _ _ | .acqStore _ _ _ | .acqFree _ _ => .acquire
  | .circuit _ | .circuitNow _ _ | .circuitCas _ _ _ | .dialFailed _ _ | .failAdd _ _ | .failNow _ _
  | .failSwap _ _ _ | .okStore _ _ | .okSwap _ _ => .circuit
  | .release _ _ | .relClosed _ _ _ | .relGen _ _ _ | .relPark _ _ _ _ | .relDelete _ _ _
  | .relClose _ _ _ | .relFree _ _ | .discard _ _ | .rejectForeign _ _ _ => .giving
  | .reapExpired | .reapSweep _ | .reconnect | .reconnectDrain | .close | .closeDrain
  | .closeDone _ | .closePoll | .closeWait | .retire _ _ | .retireClose _ _ _ => .draining
  | .warmUp _ | .warmSem _ | .warmDial _ | .warmPark _ _ _ | .warmClose _ | .warmAbort
  | .warmFree _ => .warming
  | .pause | .resume | .resumeClose _ => .pausing
  | .failed _ _ | .closeErr _ | .returned => .ended

section Families

attribute [local simp] Op.family

lemma acquireStep_family (h : acquireStep o limit s op ch = some (s', op')) :
    op'.family ∈ [.acquire, .circuit, .ended] := by
  unfold acquireStep at h
  split at h
  all_goals try split at h
  all_goals cases h
  all_goals repeat' split
  all_goals simp [Op.family]

lemma circuitStep_family (h : circuitStep o s op ch = some (s', op')) :
    op'.family ∈ [.acquire, .circuit, .warming, .ended] := by
  cases circuitStep_moves h with
  | asks d _ hop' =>
    obtain (_ | _ | _) | rfl | rfl := hop' <;>
      cases d <;> simp [allowed, denied, Op.family]
  | frees => simp [Op.family]
  | records d err _ hop' =>
    obtain (_ | _ | _) | rfl := hop' <;> cases d <;> simp [afterFailure, Op.family]
  | succeeds d c _ hop' =>
    obtain (_ | _) | rfl := hop' <;> cases d <;> simp [afterSuccess, Op.family]

lemma returnStep_family (h : returnStep s op ch = some (s', op')) :
    op'.family ∈ [.giving, .ended] := by
  unfold returnStep at h
  split at h
  all_goals try split at h
  all_goals try split at h
  all_goals cases h
  all_goals simp [Op.family]

lemma drainStep_family (h : drainStep o s op ch = some (s', op')) :
    op'.family ∈ [.draining, .ended] := by
  unfold drainStep at h
  split at h
  all_goals try split at h
  all_goals cases h
  all_goals simp [Op.family]

lemma warmUpStep_family (h : warmUpStep o limit s op ch = some (s', op')) :
    op'.family ∈ [.circuit, .warming, .ended] := by
  unfold warmUpStep at h
  split at h
  all_goals try split at h
  all_goals cases h
  all_goals simp [Op.family]

lemma pauseStep_family (h : pauseStep s op ch = some (s', op')) :
    op'.family ∈ [.pausing, .ended] := by
  unfold pauseStep at h
  split at h
  all_goals try split at h
  all_goals cases h
  all_goals simp [Op.family]

end Families

/-- Only a draining call comes to a draining program point. -/
lemma drainStep_of_draining (h : opStep o limit s op ch = some (s', op'))
    (hop : op'.family = .draining) : drainStep o s op ch = some (s', op') := by
  obtain h | h | h | h | h | h := opStep_cases h
  · simpa [hop] using acquireStep_family h
  · simpa [hop] using circuitStep_family h
  · simpa [hop] using returnStep_family h
  · exact h
  · simpa [hop] using warmUpStep_family h
  · simpa [hop] using pauseStep_family h

/-- Only `Release` and `Discard` come to their program points. -/
lemma returnStep_of_giving (h : opStep o limit s op ch = some (s', op'))
    (hop : op'.family = .giving) : returnStep s op ch = some (s', op') := by
  obtain h | h | h | h | h | h := opStep_cases h
  · simpa [hop] using acquireStep_family h
  · simpa [hop] using circuitStep_family h
  · exact h
  · simpa [hop] using drainStep_family h
  · simpa [hop] using warmUpStep_family h
  · simpa [hop] using pauseStep_family h

/-- An `Acquire` moves by its own code or by the breaker's. -/
lemma acquireStep_of_acquire (h : opStep o limit s op ch = some (s', op'))
    (hop : op'.family = .acquire) :
    acquireStep o limit s op ch = some (s', op') ∨ circuitStep o s op ch = some (s', op') := by
  obtain h | h | h | h | h | h := opStep_cases h
  · exact .inl h
  · exact .inr h
  · simpa [hop] using returnStep_family h
  · simpa [hop] using drainStep_family h
  · simpa [hop] using warmUpStep_family h
  · simpa [hop] using pauseStep_family h

/-! ## Who hands out a connection -/

/-- A step leaves the callers' hands alone, or it is the last one of an `Acquire`. -/
inductive Deals (s : Shared) : Op → Shared → Op → Prop
  | keeps {op : Op} {s' : Shared} {op' : Op} (hheld : s'.held = s.held) : Deals s op s' op'
  | pooled {op : Op} (k : Caller) (ic : IdleConn)
      (hop : op = .acqCheck k ic ∨ op = .acqHealth k ic) :
      Deals s op (s.handOut k ic.conn) .returned
  | dialed (k : Caller) (c : Conn) (m : ConnMeta) :
      Deals s (.acqStore k c m) ((s.storeMeta c m).handOut k c) .returned

lemma opStep_deals (h : opStep o limit s op ch = some (s', op')) : Deals s op s' op' := by
  obtain h | h | h | h | h | h := opStep_cases h
  · unfold acquireStep at h
    split at h
    case h_13 =>
      split at h <;> cases h
      · exact .pooled _ _ (.inl rfl)
      · exact .keeps rfl
    case h_14 => cases h; exact .pooled _ _ (.inr rfl)
    case h_24 => cases h; exact .dialed _ _ _
    all_goals try split at h
    all_goals cases h
    all_goals first | exact .keeps rfl | exact .keeps (congrArg Goods.held (goods_releaseSlot s))
  · exact .keeps (congrArg Goods.held (circuitStep_goods h))
  · unfold returnStep at h
    split at h
    all_goals try split at h
    all_goals try split at h
    all_goals cases h
    all_goals first
      | exact .keeps rfl
      | exact .keeps (congrArg Goods.held ((goods_emit? _ _).trans (goods_releaseSlot s)))
  · unfold drainStep at h
    split at h
    all_goals try split at h
    all_goals cases h
    all_goals first | exact .keeps rfl | exact .keeps (congrArg Goods.held (goods_emit? _ _))
  · unfold warmUpStep at h
    split at h
    all_goals try split at h
    all_goals cases h
    all_goals first | exact .keeps rfl | exact .keeps (congrArg Goods.held (goods_releaseSlot s))
  · unfold pauseStep at h
    split at h
    all_goals try split at h
    all_goals cases h
    all_goals first
      | exact .keeps rfl
      | exact .keeps (congrArg Goods.held (goods_closeChan s _))

/-! ## Who changes the idle stack -/

/-- What a step does to the idle stack.  The two that put a connection there have found the pool
open in the same critical section. -/
inductive Shelves (o : Options) (s : Shared) : Op → Shared → Op → Prop
  | keeps {op : Op} {s' : Shared} {op' : Op} (hidle : s'.idle = s.idle) : Shelves o s op s' op'
  | pops (k : Caller) (ic : IdleConn) (htop : s.idle.getLast? = some ic) :
      Shelves o s (.acqPop k) { s with idle := s.idle.dropLast } (.acqExamine k ic)
  | parks (k : Caller) (c : Conn) (m : ConnMeta) (now : ℤ) (hopen : s.closed = false) :
      Shelves o s (.relPark k c m now) { s with idle := s.idle ++ [⟨c, m.createdAt, now⟩] }
        (.relFree k none)
  | warms (i : ℕ) (c : Conn) (now : ℤ) (hopen : s.closed = false) :
      Shelves o s (.warmPark i c now)
        { s.storeMeta c ⟨s.reconnectGen, now⟩ with idle := s.idle ++ [⟨c, now, now⟩] } (.warmFree i)
  | sweeps (now : ℤ) :
      Shelves o s (.reapSweep now) { s with idle := s.idle.filter (fun ic => !expired o now ic) }
        (.retire ((s.idle.filter (expired o now)).map (·.conn)) .reapExpired)
  | reconnects :
      Shelves o s .reconnectDrain { s with idle := [] } (.retire (s.idle.map (·.conn)) .reconnect)
  | closes : Shelves o s .closeDrain { s with idle := [] } (.closeDone (s.idle.map (·.conn)))

lemma opStep_shelves (h : opStep o limit s op ch = some (s', op')) : Shelves o s op s' op' := by
  obtain h | h | h | h | h | h := opStep_cases h
  · unfold acquireStep at h
    split at h
    case h_11 =>
      split at h <;> cases h
      · exact .keeps rfl
      · exact .pops _ _ ‹_›
    all_goals try split at h
    all_goals cases h
    all_goals first | exact .keeps rfl | exact .keeps (congrArg Goods.idle (goods_releaseSlot s))
  · exact .keeps (congrArg Goods.idle (circuitStep_goods h))
  · unfold returnStep at h
    split at h
    case h_4 =>
      split at h
      · cases h; exact .keeps rfl
      · split at h <;> cases h
        · exact .keeps rfl
        · exact .parks _ _ _ _ (Bool.eq_false_iff.mpr ‹_›)
    all_goals try split at h
    all_goals cases h
    all_goals first
      | exact .keeps rfl
      | exact .keeps (congrArg Goods.idle ((goods_emit? _ _).trans (goods_releaseSlot s)))
  · unfold drainStep at h
    split at h
    case h_2 =>
      split at h <;> cases h
      · exact .keeps rfl
      · exact .sweeps _
    case h_4 => cases h; exact .reconnects
    case h_6 => cases h; exact .closes
    all_goals try split at h
    all_goals cases h
    all_goals first | exact .keeps rfl | exact .keeps (congrArg Goods.idle (goods_emit? _ _))
  · unfold warmUpStep at h
    split at h
    case h_6 =>
      split at h <;> cases h
      · exact .keeps rfl
      · exact .warms _ _ _ (Bool.eq_false_iff.mpr ‹_›)
    all_goals try split at h
    all_goals cases h
    all_goals first | exact .keeps rfl | exact .keeps (congrArg Goods.idle (goods_releaseSlot s))
  · unfold pauseStep at h
    split at h
    all_goals try split at h
    all_goals cases h
    all_goals first
      | exact .keeps rfl
      | exact .keeps (congrArg Goods.idle (goods_closeChan s _))

end Pgman.Pool
