import Pgman.Construction.Pool.Moves
import Pgman.Properties.PoolOwnership

/-!
# How many connections a pool has at a time

The semaphore bounds the calls and callers that own a slot; an idle connection owns none.  That
the idle connections do not come on top of the limit is due to the order in `Acquire`: it looks
at the idle stack after it has its slot, and dials only when it found the stack empty.  At that
moment all connections belong to slot owners, so there is room for one more.

`warmUp` dials without a look at the idle stack.  Where it starts its dial while connections
that others have dialed are idle, the pool ends up with more than its limit (`overfull_pool`).
`warmsWithinLimit` leaves out exactly those dials, and the bound holds in every other run.
-/

namespace Pgman.Pool

variable {o : Options} {limit : ℕ} {s s' : Shared} {op op' : Op} {ch : Choice} {p p' : Pool}

/-- Connections a call is dialing, examining or carrying under its slot.  An `Acquire` that found
the idle stack empty counts from then on, as it is going to dial. -/
def Op.live : Op → ℕ
  | .acqExamine _ _ | .acqCheck _ _ | .acqHealth _ _ | .acqRetire _ _ _
  | .acqRetireClose _ _ _ => 1
  | .circuit (.acquire _) | .circuitNow (.acquire _) _ | .circuitCas (.acquire _) _ _ => 1
  | .acqDial _ _ | .acqBackoff _ _ _ | .acqTag _ _ | .acqStore _ _ _ => 1
  | .okStore _ _ | .okSwap _ _ => 1
  | .warmDial _ | .warmPark _ _ _ | .warmClose _ => 1
  | .release _ _ | .relClosed _ _ _ | .relGen _ _ _ | .relPark _ _ _ _ | .relDelete _ _ _
  | .relClose _ _ _ | .discard _ _ => 1
  | _ => 0

/-- Connections that are idle, held by a caller, or dialed, examined or carried by a call. -/
def live (p : Pool) : ℕ := p.sh.idle.length + p.sh.held.length + tally Op.live p.ops

/-- A warm-up takes the slot for its next dial only while the pool has room for a connection. -/
def warmsWithinLimit (limit : ℕ) (p : Pool) : Action → Bool
  | .run i .ready =>
    match p.ops[i]? with
    | some (.warmSem _) => p.live < limit
    | _ => true
  | _ => true

/-- A connection in a call's hands is there with a slot. -/
lemma Op.live_le_slots (op : Op) : op.live ≤ op.slots := by
  unfold Op.live
  split <;> simp [Op.slots]

/-! ## One step -/

/-- What the stock and one call have together. -/
def stock (s : Shared) (op : Op) : ℕ := s.idle.length + s.held.length + op.live

/-- How a step changes the stock: it adds to it only where `Acquire` finds no idle connection and
where `warmUp` takes a slot. -/
inductive Restocks (s : Shared) : Op → Choice → Shared → Op → Prop
  | keeps {op : Op} {ch : Choice} {s' : Shared} {op' : Op} (h : stock s' op' ≤ stock s op) :
      Restocks s op ch s' op'
  | dials {k : Caller} (hidle : s.idle = []) :
      Restocks s (.acqPop k) .go s (.circuit (.acquire k))
  | warms {i : ℕ} : Restocks s (.warmSem i) .ready { s with sem := s.sem + 1 } (.warmDial i)

lemma stock_releaseSlot (s : Shared) (op : Op) : stock s.releaseSlot op = stock s op := by
  unfold Shared.releaseSlot
  split <;> rfl

lemma stock_emit? (s : Shared) (e : Option Event) (op : Op) :
    stock (s.emit? e) op = stock s op := by
  cases e <;> rfl

lemma acquireStep_restocks (h : acquireStep o limit s op ch = some (s', op')) :
    Restocks s op ch s' op' := by
  unfold acquireStep at h
  split at h
  case h_11 k =>
    -- the idle stack is empty, or its top goes into the call's hands
    split at h <;> cases h
    · rename_i hnone
      exact .dials (List.getLast?_eq_none_iff.mp hnone)
    · rename_i ic hic
      have hlen : s.idle.dropLast.length + 1 = s.idle.length := by
        have := congrArg List.length (List.dropLast_append_getLast? ic hic)
        simpa using this
      refine .keeps ?_
      simp only [stock, Op.live]
      omega
  all_goals try split at h
  all_goals cases h
  all_goals refine .keeps ?_
  all_goals try rw [stock_releaseSlot]
  all_goals repeat' split
  all_goals simp +arith [stock, Op.live, Shared.handOut, Shared.emit, Shared.closeConn,
    Shared.deleteMeta, Shared.storeMeta, Shared.dial]

/-- A step that touches neither the stack nor the callers' hands. -/
lemma Restocks.of_live (hidle : s'.idle = s.idle) (hheld : s'.held = s.held)
    (h : op'.live ≤ op.live) : Restocks s op ch s' op' :=
  .keeps (by simpa [stock, hidle, hheld] using h)

lemma circuitStep_restocks (h : circuitStep o s op ch = some (s', op')) :
    Restocks s op ch s' op' := by
  have hgoods := circuitStep_goods h
  refine .of_live (congrArg Goods.idle hgoods) (congrArg Goods.held hgoods) ?_
  cases circuitStep_moves h with
  | asks d hop hop' =>
    obtain (_ | _ | _) | rfl | rfl := hop' <;> cases hop <;> cases d <;>
      simp [Op.live, allowed, denied]
  | frees => exact Nat.le_refl _
  | records d err hop hop' =>
    obtain (_ | _ | _) | rfl := hop' <;> cases hop <;> cases d <;> simp [Op.live, afterFailure]
  | succeeds d c hop hop' =>
    obtain (_ | _) | rfl := hop' <;> cases hop <;> cases d <;> simp [Op.live, afterSuccess]

lemma returnStep_restocks (h : returnStep s op ch = some (s', op')) :
    Restocks s op ch s' op' := by
  unfold returnStep at h
  split at h
  all_goals try split at h
  all_goals try split at h
  all_goals cases h
  all_goals refine .keeps ?_
  all_goals try rw [stock_emit?, stock_releaseSlot]
  all_goals simp +arith [stock, Op.live, Shared.emit, Shared.closeConn, Shared.deleteMeta]

lemma drainStep_restocks (h : drainStep o s op ch = some (s', op')) :
    Restocks s op ch s' op' := by
  unfold drainStep at h
  split at h
  all_goals try split at h
  all_goals cases h
  all_goals refine .keeps ?_
  all_goals try rw [stock_emit?]
  all_goals simp +arith [stock, Op.live, Shared.emit, Shared.closeConn, Shared.deleteMeta,
    List.length_filter_le]

lemma warmUpStep_restocks (h : warmUpStep o limit s op ch = some (s', op')) :
    Restocks s op ch s' op' := by
  unfold warmUpStep at h
  split at h
  case h_2 i =>
    split at h <;> cases h
    exact .warms
  all_goals try split at h
  all_goals cases h
  all_goals refine .keeps ?_
  all_goals try rw [stock_releaseSlot]
  all_goals simp +arith [stock, Op.live, Shared.closeConn, Shared.dial, Shared.storeMeta]

lemma pauseStep_restocks (h : pauseStep s op ch = some (s', op')) :
    Restocks s op ch s' op' := by
  unfold pauseStep at h
  split at h
  all_goals try split at h
  all_goals cases h
  all_goals refine .keeps ?_
  all_goals simp +arith [stock, Op.live, Shared.emit, Shared.closeChan, Shared.swapResumeCh]
  all_goals split <;> simp

lemma opStep_restocks (h : opStep o limit s op ch = some (s', op')) :
    Restocks s op ch s' op' := by
  obtain h | h | h | h | h | h := opStep_cases h
  · exact acquireStep_restocks h
  · exact circuitStep_restocks h
  · exact returnStep_restocks h
  · exact drainStep_restocks h
  · exact warmUpStep_restocks h
  · exact pauseStep_restocks h

/-! ## Whole runs -/

/-- A step of one call, over all calls. -/
lemma live_set {i : ℕ} (hop : p.ops[i]? = some op) :
    live ⟨s', p.ops.set i op'⟩ + stock p.sh op = live p + stock s' op' := by
  have := tally_set Op.live hop op'
  simp only [live, stock]
  omega

lemma tally_live_le (ops : List Op) : tally Op.live ops ≤ tally Op.slots ops := by
  induction ops with
  | nil => exact Nat.le_refl _
  | cons op ops ih =>
    have := op.live_le_slots
    simp only [tally_cons]
    omega

/-- Without idle connections, everything live has a slot. -/
lemma Accounted.live_le (h : Accounted limit p) (hidle : p.sh.idle = []) : live p ≤ p.sh.sem := by
  have := tally_live_le p.ops
  have := h.sem
  simp only [live, hidle, List.length_nil]
  omega

/-- One step of the machine keeps the bound. -/
lemma step_live (hacc : Accounted limit p) (hle : live p ≤ limit) {a : Action}
    (hw : warmsWithinLimit limit p a = true) (hs : step o limit p a = some p') :
    live p' ≤ limit := by
  have hacc' := step_accounted hacc hs
  cases step_moves hs with
  | starts op hop =>
    have hlive : op.live = 0 := by
      unfold Op.entry at hop
      split at hop <;> first | rfl | cases hop
    simpa [live, Pool.start, hlive] using hle
  | gives k c op hheld hop =>
    have hlive : op.live = 1 := by rcases hop with rfl | rfl <;> rfl
    have hlen := List.length_erase_of_mem hheld
    have hpos := List.length_pos_of_mem hheld
    simp only [live, tally_append, tally_cons, tally_nil, hlive] at hle ⊢
    omega
  | runs i ch op op' sh hop hstep =>
    have hset : live ⟨sh, p.ops.set i op'⟩ + stock p.sh op = live p + stock sh op' := live_set hop
    cases opStep_restocks hstep with
    | keeps h => omega
    | dials hidle =>
      -- nothing is idle, so all that is live has a slot, this call's dial included
      exact Nat.le_trans (hacc'.live_le hidle) hacc'.cap
    | warms =>
      have hroom : live p < limit := by simpa [warmsWithinLimit, hop] using hw
      simp only [stock, Op.live] at hset
      omega
  | ticks d => exact hle

/-- **The live-connection bound.**  For every limit, every option setting and every interleaving in
which no warm-up starts a dial for which the pool has no room: the connections that are idle, held
by callers, or being dialed, examined or carried by a call are never more than the limit. -/
theorem live_connection_bound (o : Options) (limit : ℕ) (p : Pool)
    (h : (machine o limit).Reach (fun p a => warmsWithinLimit limit p a = true) p) :
    live p ≤ limit := by
  suffices hboth : Accounted limit p ∧ live p ≤ limit from hboth.2
  induction h with
  | init h0 =>
    obtain rfl : _ = new := h0
    exact ⟨accounted_new limit, Nat.zero_le _⟩
  | step _ hC hs ih => exact ⟨step_accounted ih.1 hs, step_live ih.1 ih.2 hC hs⟩

/-- A warm-up of one connection, then a caller that finds it. -/
def warmStart : List Action :=
  [.warmUp, .acquire 1, .run 0 .go, .run 0 .go, .run 0 .ready, .run 0 (.dialOk 7), .run 0 .go,
    .run 0 .go, .run 0 .go, .run 1 .go, .run 1 .go, .run 1 .ready, .run 1 .go, .run 1 .go,
    .run 1 .go, .run 1 .go]

theorem live_connection_bound_warm_start :
    ∃ p, ((machine ⟨0, 0, 0, 1, 0, 0, 0, 0, false⟩ 1).guarded
        fun p a => warmsWithinLimit 1 p a = true).run new warmStart = some p ∧
      p.sh.held = [(1, 7)] ∧ live p = 1 ∧ live p ≤ 1 := by
  have hrun : (((machine ⟨0, 0, 0, 1, 0, 0, 0, 0, false⟩ 1).guarded
      fun p a => warmsWithinLimit 1 p a = true).run new warmStart).map
        (fun p => (p.sh.held, live p)) = some ([(1, 7)], 1) := by decide
  obtain ⟨p, hp, hview⟩ := Option.map_eq_some_iff.mp hrun
  obtain ⟨hheld, hlive⟩ := Prod.mk.inj hview
  exact ⟨p, hp, hheld, hlive,
    live_connection_bound _ 1 p (Machine.reach_of_guarded_run rfl hp)⟩

/-- A caller's connection is idle again when the warm-up of the pool begins its dial. -/
def lateWarmUp : List Action :=
  [.warmUp, .acquire 1, .run 1 .go, .run 1 .go, .run 1 .ready, .run 1 .go, .run 1 .go, .run 1 .go,
    .run 1 (.dialOk 7), .run 1 .go, .run 1 .go, .run 1 .go, .release 1 7, .run 2 .go, .run 2 .go,
    .run 2 .go, .run 2 .go, .run 2 .go, .run 0 .go, .run 0 .go, .run 0 .ready, .run 0 (.dialOk 8),
    .run 0 .go, .run 0 .go, .run 0 .go]

/-- A pool of one connection keeps two idle. -/
theorem overfull_pool :
    ∃ p, (machine ⟨0, 0, 0, 1, 0, 0, 0, 0, false⟩ 1).Reachable p ∧
      p.sh.idle.map IdleConn.conn = [7, 8] := by
  have hrun : ((machine ⟨0, 0, 0, 1, 0, 0, 0, 0, false⟩ 1).run new lateWarmUp).map
      (fun p => p.sh.idle.map IdleConn.conn) = some [7, 8] := by decide
  obtain ⟨p, hp, hidle⟩ := Option.map_eq_some_iff.mp hrun
  exact ⟨p, Machine.reach_of_run rfl hp, hidle⟩

end Pgman.Pool
