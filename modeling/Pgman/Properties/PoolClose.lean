import Pgman.Construction.Pool.Channels
import Pgman.Properties.PoolOwnership

/-!
# `Close` drains the pool

`Close` flips `closed`, empties the idle stack once, closes `done` and polls the semaphore.  Other
calls test the flag without the lock, and a waiter woken by `done` may win the semaphore instead.

`ShutSound` says what the flag is good for while `Close` runs: once it is set, the stack is empty
or the call that set it has yet to empty it, because `Release` and `warmUp` test the flag again in
the critical section in which they park.  When the poll finds no slot taken, no caller holds a
connection and every running call is `Op.inert`: it is before the test of `closed` behind the
semaphore, or it is a loop over connections to retire, or a warm-up whose dial is going to find
the pool closed.  From there on (`Shut`) nothing is handed out or parked again, and whatever is
still in the hands of a call is closed by that call.
-/

namespace Pgman.Pool

variable {o : Options} {limit : ℕ} {s s' : Shared} {op op' : Op} {ch : Choice} {p p' : Pool}

/-! ## While `Close` runs -/

/-- The call has closed `done` and has not returned. -/
def Op.draining : Op → Bool
  | .retire _ .close | .retireClose _ _ .close | .closePoll | .closeWait => true
  | _ => false

/-- A call gets behind `close(done)` by closing it. -/
lemma opStep_draining (h : opStep o limit s op ch = some (s', op')) (hop : op'.draining = true) :
    op.draining = true ∨ ∃ cs, op = .closeDone cs := by
  have hdrains : op'.family = .draining := by
    unfold Op.draining at hop
    split at hop <;> first | rfl | cases hop
  have hd := drainStep_of_draining h hdrains
  clear h
  unfold drainStep at hd
  split at hd
  case h_7 => exact .inr ⟨_, rfl⟩
  case h_13 | h_14 =>
    rename_i fin
    cases hd
    cases fin <;> first | exact .inl rfl | simp [Op.draining] at hop
  all_goals try split at hd
  all_goals cases hd
  all_goals first | exact .inl rfl | cases hop

lemma Op.closing_of_draining (h : op.draining = true) : op.closing = 0 := by
  unfold Op.draining at h
  split at h <;> first | rfl | cases h

/-- `Close` empties the stack. -/
lemma opStep_closeDrain (h : opStep o limit s .closeDrain ch = some (s', op')) : s'.idle = [] := by
  obtain h | h | h | h | h | h := opStep_cases h
  case inr.inr.inr.inl =>
    cases ch <;> cases h
    rfl
  all_goals cases ch <;> cases h

/-- Nothing is parked once the flag is set. -/
lemma Shelves.idle_nil (h : Shelves o s op s' op') (hclosed : s.closed = true)
    (hidle : s.idle = []) : s'.idle = [] := by
  cases h with
  | keeps h => rw [h, hidle]
  | pops k ic htop => simp [hidle] at htop
  | parks k c m now hopen => rw [hclosed] at hopen; cases hopen
  | warms i c now hopen => rw [hclosed] at hopen; cases hopen
  | sweeps now => simp [hidle]
  | reconnects | closes => rfl

/-- What holds of the shutdown in every reachable state. -/
structure ShutSound (p : Pool) : Prop where
  sound : ChannelsSound p
  drained : ∀ op ∈ p.ops, op.draining = true → p.sh.done = true
  emptied : p.sh.closed = true → p.sh.idle = [] ∨ .closeDrain ∈ p.ops

lemma ShutSound.append (h : ShutSound p) {sh : Shared} (hop : op.bystander)
    (hdr : op.draining = false) (hs : sh.controls = p.sh.controls) (hidle : sh.idle = p.sh.idle) :
    ShutSound ⟨sh, p.ops ++ [op]⟩ := by
  refine ⟨h.sound.append hop hs, fun x hx hxd => ?_, fun hc => ?_⟩
  · rcases List.mem_append.mp hx with hx | hx
    · exact (congrArg (·.2.1.2.1) hs).trans (h.drained x hx hxd)
    · obtain rfl : x = op := by simpa using hx
      rw [hdr] at hxd
      cases hxd
  · rcases h.emptied ((congrArg (·.2.1.1) hs).symm.trans hc) with hi | hi
    · exact .inl (hidle.trans hi)
    · exact .inr (List.mem_append_left _ hi)

lemma ShutSound.step (h : ShutSound p) {a : Action} (hs : step o limit p a = some p') :
    ShutSound p' := by
  have hsound := h.sound.step hs
  cases step_moves hs with
  | starts op hop =>
    unfold Op.entry at hop
    split at hop <;> first | exact h.append ⟨rfl, rfl, rfl⟩ rfl rfl rfl | cases hop
  | gives k c op hheld hop =>
    rcases hop with rfl | rfl <;> exact h.append ⟨rfl, rfl, rfl⟩ rfl rfl rfl
  | runs i ch op op' sh hop hstep =>
    have hshut := opStep_shutMove hstep
    refine ⟨hsound, fun x hx hxd => ?_, fun hc => ?_⟩
    · -- the flag `done` stays set, and the call that gets behind it sets it
      have hkeep : p.sh.done = true → sh.done = true := by
        intro hd
        cases hshut with
        | passes _ hdone => exact hdone.trans hd
        | flips => exact hd
        | wakes => simp [hd]
      rcases List.mem_or_eq_of_mem_set hx with hx | rfl
      · exact hkeep (h.drained x hx hxd)
      · rcases opStep_draining hstep hxd with hdr | ⟨cs, rfl⟩
        · exact hkeep (h.drained op (List.mem_of_getElem? hop) hdr)
        · cases hshut with
          | passes _ _ hcl =>
            rw [x.closing_of_draining hxd] at hcl
            cases hcl
          | wakes => simp [h.sound.done_open hop]
    · cases hshut with
      | flips => exact .inr (mem_set_self hop)
      | passes hclosed =>
        have hc : p.sh.closed = true := hclosed.symm.trans hc
        rcases h.emptied hc with hi | hi
        · exact .inl ((opStep_shelves hstep).idle_nil hc hi)
        · by_cases hcd : op = .closeDrain
          · subst hcd
            exact .inl (opStep_closeDrain hstep)
          · exact .inr (mem_set_of_ne hop hi (Ne.symm hcd))
      | wakes cs =>
        have hc : p.sh.closed = true := by
          revert hc
          split <;> exact id
        rcases h.emptied hc with hi | hi
        · exact .inl ((opStep_shelves hstep).idle_nil hc hi)
        · exact .inr (mem_set_of_ne hop hi (by simp))
  | ticks d => exact ⟨hsound, h.drained, h.emptied⟩

theorem shutSound_of_reachable (h : (machine o limit).Reachable p) : ShutSound p := by
  refine h.invariant (fun _ h0 => ?_) (fun _ _ _ hI _ hs => hI.step hs)
  obtain rfl : _ = new := h0
  exact ⟨channelsSound_new, by simp [new], by simp [new]⟩

/-- The poll of `Close` runs on an empty stack. -/
lemma ShutSound.of_closePoll (h : ShutSound p) {i : ℕ} (hop : p.ops[i]? = some .closePoll) :
    p.sh.closed = true ∧ p.sh.done = true ∧ p.sh.idle = [] := by
  have hdone := h.drained _ (List.mem_of_getElem? hop) rfl
  have hshut := h.sound.shut
  have hle := Bool.toNat_le p.sh.closed
  rw [hdone, Bool.toNat_true] at hshut
  have hclosed : p.sh.closed = true := by
    cases hc : p.sh.closed with
    | true => rfl
    | false => rw [hc, Bool.toNat_false] at hshut; omega
  refine ⟨hclosed, hdone, (h.emptied hclosed).resolve_right fun hmem => ?_⟩
  have := le_tally Op.closing hmem
  simp only [Op.closing] at this
  omega

/-! ## After `Close` -/

/-- The program points that can be met once `Close` has returned: those of an `Acquire` before its
second look at `closed`, of the calls that retire connections, of a warm-up that has not parked. -/
def Op.inert : Op → Bool
  | .acqPop _ | .acqExamine _ _ | .acqCheck _ _ | .acqHealth _ _ | .acqRetire _ _ _
  | .acqRetireClose _ _ _ | .acqDial _ _ | .acqBackoff _ _ _ | .acqTag _ _
  | .acqStore _ _ _ => false
  | .circuit (.acquire _) | .circuitNow (.acquire _) _ | .circuitCas (.acquire _) _ _
  | .dialFailed (.acquire _) _ | .okStore (.acquire _) _ | .okSwap (.acquire _) _ => false
  | .release _ _ | .relClosed _ _ _ | .relGen _ _ _ | .relPark _ _ _ _ | .relDelete _ _ _
  | .relClose _ _ _ | .relFree _ _ | .discard _ _ | .warmFree _ => false
  | _ => true

/-- A call without a slot is at such a point. -/
lemma Op.inert_of_slots (h : op.slots = 0) : op.inert = true := by
  unfold Op.inert
  split <;> first | rfl | simp [Op.slots] at h

/-- A step from an inert point leads to one, and a connection in the call's hands stays there or is
closed. -/
structure Idles (s : Shared) (op : Op) (s' : Shared) (op' : Op) : Prop where
  inert : op'.inert = true
  hands : ∀ c ∈ op.hands, c ∈ op'.hands ∨ s'.closes c = s.closes c + 1

lemma Idles.of_same (hop' : op'.inert = true) (h : op'.hands = op.hands) : Idles s op s' op' :=
  ⟨hop', fun _ hc => .inl (h ▸ hc)⟩

lemma Idles.of_nil (hop' : op'.inert = true) (h : op.hands = []) : Idles s op s' op' :=
  ⟨hop', by simp [h]⟩

lemma closes_closeConn (s : Shared) (c : Conn) : (s.closeConn c).closes c = s.closes c + 1 :=
  Function.update_self ..

/-- Closing the one connection in hand. -/
lemma Idles.of_close {c : Conn} (hop' : op'.inert = true) (h : op.hands = [c])
    (hs : s'.closes = (s.closeConn c).closes) : Idles s op s' op' := by
  refine ⟨hop', fun x hx => .inr ?_⟩
  obtain rfl : x = c := by simpa [h] using hx
  rw [hs]
  exact closes_closeConn s x

lemma acquireStep_idles (hclosed : s.closed = true) (hop : op.inert = true)
    (h : acquireStep o limit s op ch = some (s', op')) : Idles s op s' op' := by
  unfold acquireStep at h
  split at h <;> try simp only [Op.inert, reduceCtorEq] at hop
  all_goals try split at h
  all_goals cases h
  all_goals exact .of_nil rfl rfl

/-- Only a warm-up asks the breaker now. -/
lemma circuitStep_idles (hop : op.inert = true) (h : circuitStep o s op ch = some (s', op')) :
    Idles s op s' op' := by
  cases circuitStep_moves h with
  | asks d hd hop' =>
    obtain (_ | _ | _) | rfl | rfl := hop' <;> cases hd <;> cases d <;>
      first | exact .of_nil rfl rfl | cases hop
  | frees => exact .of_nil rfl rfl
  | records d err hd hop' =>
    obtain (_ | _ | _) | rfl := hop' <;> cases hd <;> cases d <;> exact .of_nil rfl rfl
  | succeeds d c hd hop' =>
    obtain (_ | _) | rfl := hop' <;> cases hd <;> cases d <;>
      first | exact .of_same rfl rfl | cases hop

/-- The loops over the connections to retire close them one by one. -/
lemma drainStep_idles (h : drainStep o s op ch = some (s', op')) : Idles s op s' op' := by
  unfold drainStep at h
  split at h
  case h_13 =>
    rename_i c cs fin
    cases h
    refine ⟨rfl, fun x hx => .inl ?_⟩
    have hx : x = c ∨ x ∈ cs := by simpa [Op.hands, Op.tagged, Op.untagged] using hx
    simpa [Op.hands, Op.tagged, Op.untagged, or_comm] using hx
  case h_14 =>
    rename_i c cs fin
    cases h
    refine ⟨rfl, fun x hx => ?_⟩
    have hx : x ∈ cs ∨ x = c := by simpa [Op.hands, Op.tagged, Op.untagged] using hx
    rcases hx with hx | rfl
    · exact .inl (by simpa [Op.hands, Op.tagged, Op.untagged] using hx)
    · refine .inr ?_
      cases fin <;> exact closes_closeConn s x
  all_goals try split at h
  all_goals cases h
  all_goals first | exact .of_nil rfl rfl | exact .of_same rfl rfl

/-- A warm-up finds the pool closed and closes what it dialed. -/
lemma warmUpStep_idles (hclosed : s.closed = true) (hop : op.inert = true)
    (h : warmUpStep o limit s op ch = some (s', op')) : Idles s op s' op' := by
  unfold warmUpStep at h
  split at h <;> try simp only [Op.inert, reduceCtorEq] at hop
  all_goals try split at h
  all_goals cases h
  all_goals first | exact .of_nil rfl rfl | exact .of_same rfl rfl | exact .of_close rfl rfl rfl

lemma opStep_idles (hclosed : s.closed = true) (hop : op.inert = true)
    (h : opStep o limit s op ch = some (s', op')) : Idles s op s' op' := by
  obtain h | h | h | h | h | h := opStep_cases h
  · exact acquireStep_idles hclosed hop h
  · exact circuitStep_idles hop h
  · unfold returnStep at h
    split at h <;> try simp only [Op.inert, reduceCtorEq] at hop
    · cases h; exact .of_close rfl rfl rfl
    · cases h
  · exact drainStep_idles h
  · exact warmUpStep_idles hclosed hop h
  · unfold pauseStep at h
    split at h
    all_goals try split at h
    all_goals cases h
    all_goals exact .of_nil rfl rfl

/-- The pool is shut: nothing is idle or held, and only inert calls run. -/
structure Shut (p : Pool) : Prop where
  closed : p.sh.closed = true
  idle : p.sh.idle = []
  held : p.sh.held = []
  inert : ∀ op ∈ p.ops, op.inert = true

lemma Deals.held_of_inert (h : Deals s op s' op') (hop : op.inert = true) : s'.held = s.held := by
  cases h with
  | keeps hheld => exact hheld
  | pooled k ic h => rcases h with rfl | rfl <;> cases hop
  | dialed k c m => cases hop

/-- The flag is never taken back. -/
lemma ShutMove.closed_of_closed (h : ShutMove s op s' op') (hc : s.closed = true) :
    s'.closed = true := by
  cases h with
  | passes hclosed => exact hclosed.trans hc
  | flips => rfl
  | wakes => split <;> exact hc

/-- Once shut, the pool stays shut. -/
lemma Shut.step (h : Shut p) {a : Action} (hs : step o limit p a = some p') : Shut p' := by
  cases step_moves hs with
  | starts op hop =>
    refine ⟨h.closed, h.idle, h.held, fun x hx => ?_⟩
    rcases List.mem_append.mp hx with hx | hx
    · exact h.inert x hx
    · obtain rfl : x = op := by simpa using hx
      unfold Op.entry at hop
      split at hop <;> first | rfl | cases hop
  | gives k c op hheld => simp [h.held] at hheld
  | runs i ch op op' sh hop hstep =>
    have hinert := h.inert op (List.mem_of_getElem? hop)
    refine ⟨(opStep_shutMove hstep).closed_of_closed h.closed,
      (opStep_shelves hstep).idle_nil h.closed h.idle,
      ((opStep_deals hstep).held_of_inert hinert).trans h.held, fun x hx => ?_⟩
    rcases List.mem_or_eq_of_mem_set hx with hx | rfl
    · exact h.inert x hx
    · exact (opStep_idles h.closed hinert hstep).inert
  | ticks d => exact ⟨h.closed, h.idle, h.held, h.inert⟩

/-! ## What is still in hand is closed -/

/-- Steps until the call has nothing in its hands. -/
def Op.toGo : Op → ℕ
  | .okStore _ _ => 3
  | .okSwap _ _ => 2
  | .warmPark _ _ _ => 1
  | .closeDone cs | .retireClose _ cs _ => 2 * cs.length + 1
  | .retire cs _ => 2 * cs.length
  | _ => 0

/-- A call with a connection in its hands goes on by itself, and gets nearer to having none. -/
lemma opStep_go (hclosed : s.closed = true) (hop : op.inert = true) (hc : op.hands ≠ []) :
    ∃ s' op', opStep o limit s op .go = some (s', op') ∧
      (op'.hands = [] ∨ op'.toGo < op.toGo) := by
  cases op
  case okStore d c =>
    cases d with
    | acquire k => cases hop
    | warmUp i =>
      by_cases hth : o.cbThreshold ≤ 0
      · exact ⟨s, .warmPark i c s.clock, by simp [opStep, acquireStep, circuitStep, hth,
          afterSuccess], .inr (by simp [Op.toGo])⟩
      · exact ⟨{ s with cbFailures := 0 }, .okSwap (.warmUp i) c, by simp [opStep, acquireStep,
          circuitStep, hth], .inr (by simp [Op.toGo])⟩
  case okSwap d c =>
    cases d with
    | acquire k => cases hop
    | warmUp i => exact ⟨_, .warmPark i c s.clock, rfl, .inr (by simp [Op.toGo])⟩
  case warmPark i c now =>
    exact ⟨s, .warmClose c, by simp [opStep, acquireStep, circuitStep, returnStep, drainStep,
      warmUpStep, hclosed], .inr (by simp [Op.toGo])⟩
  case warmClose c => exact ⟨_, _, rfl, .inl rfl⟩
  case rejectForeign k c by' => exact ⟨_, _, rfl, .inl rfl⟩
  case closeDone cs => exact ⟨_, .retire cs .close, rfl, .inr (by simp [Op.toGo])⟩
  case retire cs fin =>
    cases cs with
    | nil => exact absurd rfl hc
    | cons c cs => exact ⟨_, .retireClose c cs fin, rfl, .inr (by simp [Op.toGo]; omega)⟩
  case retireClose c cs fin => exact ⟨_, .retire cs fin, rfl, .inr (by simp [Op.toGo])⟩
  all_goals first | exact absurd rfl hc | cases hop

/-- Run by itself, the call closes each connection in its hands. -/
lemma Shut.closes_of_hands (h : Shut p) (hp : (machine o limit).Reachable p) {j : ℕ} {c : Conn}
    (hop : p.ops[j]? = some op) (hc : c ∈ op.hands) :
    ∃ n q, (machine o limit).run p (List.replicate n (.run j .go)) = some q ∧
      q.sh.closes c = 1 := by
  induction hm : op.toGo using Nat.strongRecOn generalizing p op with
  | ind m ih =>
    have hinert := h.inert op (List.mem_of_getElem? hop)
    obtain ⟨sh, op', hstep, hnext⟩ : ∃ s' op', opStep o limit p.sh op .go = some (s', op') ∧ _ :=
      opStep_go h.closed hinert (List.ne_nil_of_mem hc)
    have hs : Pool.step o limit p (.run j .go) = some ⟨sh, p.ops.set j op'⟩ := by
      simp [Pool.step, hop, hstep]
    rcases (opStep_idles h.closed hinert hstep).hands c hc with hc' | hclose
    · -- still in hand: the rest of the loop
      have hlt : op'.toGo < m := hm ▸ hnext.resolve_left (List.ne_nil_of_mem hc')
      have hop' : (p.ops.set j op')[j]? = some op' :=
        List.getElem?_set_self (List.getElem?_eq_some_iff.mp hop).1
      obtain ⟨n, q, hrun, hq⟩ := ih _ hlt (h.step hs) (reachable_step hp hs) hop' hc' rfl
      refine ⟨n + 1, q, ?_, hq⟩
      rw [List.replicate_succ, Machine.run]
      exact Option.bind_eq_some_iff.mpr ⟨_, hs, hrun⟩
    · refine ⟨1, ⟨sh, p.ops.set j op'⟩, Option.bind_eq_some_iff.mpr ⟨_, hs, rfl⟩, ?_⟩
      rw [hclose, ((reachable_accounted hp).partition.exclusive hop hc).1]

/-! ## The theorem -/

/-- When the poll finds no slot taken, the pool is shut. -/
lemma shut_of_closePoll (h : (machine o limit).Reachable p) {i : ℕ}
    (hop : p.ops[i]? = some .closePoll) (hsem : p.sh.sem = 0) : Shut p := by
  obtain ⟨hclosed, -, hidle⟩ := (shutSound_of_reachable h).of_closePoll hop
  have hacc := (reachable_accounted h).sem
  refine ⟨hclosed, hidle, List.eq_nil_of_length_eq_zero (by omega), fun op hmem => ?_⟩
  have := le_tally Op.slots hmem
  exact op.inert_of_slots (by omega)

/-- The poll ends without an error when it finds no slot taken. -/
lemma sem_of_closePoll {i : ℕ} (hop : p.ops[i]? = some .closePoll)
    (hret : step o limit p (.run i .go) = some p') (hnil : p'.ops[i]? = some .returned) :
    p.sh.sem = 0 := by
  have hi := (List.getElem?_eq_some_iff.mp hop).1
  have hstep : opStep o limit p.sh .closePoll .go =
      some (p.sh, if p.sh.sem = 0 then .returned else .closeWait) := rfl
  simp only [step, hop, hstep, Option.map_some, Option.some.injEq] at hret
  subst hret
  by_contra hne
  simp [hi, hne] at hnil

/-- **`Close` drains completely.**  When the `Close` that flipped the flag returns without an error,
then at that moment and ever after: no
connection is held by a caller and the idle stack is empty; every connection ever dialed has been
closed once or is in the hands of a running call; and a connection in a call's hands stays there
until that call closes it, which it does without waiting for anything. -/
theorem close_drains (o : Options) (limit : ℕ) (p : Pool) (h : (machine o limit).Reachable p)
    (i : ℕ) (hop : p.ops[i]? = some .closePoll) (p₁ : Pool)
    (hret : step o limit p (.run i .go) = some p₁) (hnil : p₁.ops[i]? = some .returned) (q : Pool)
    (hq : ((machine o limit).startingAt p₁).Reachable q) :
    q.sh.held = [] ∧ q.sh.idle = [] ∧
    (∀ c ∈ q.sh.dialed, q.sh.closes c = 1 ∨ ∃ op ∈ q.ops, c ∈ op.hands) ∧
    (∀ j op c, q.ops[j]? = some op → c ∈ op.hands →
      (∀ a q', step o limit q a = some q' →
        (∃ op', q'.ops[j]? = some op' ∧ c ∈ op'.hands) ∨
          ∃ ch, a = .run j ch ∧ q'.sh.closes c = 1) ∧
      ∃ n q', (machine o limit).run q (List.replicate n (.run j .go)) = some q' ∧
        q'.sh.closes c = 1) := by
  have hreach : (machine o limit).Reachable q :=
    (reachable_step h hret).trans hq (fun _ _ _ => trivial)
  have hshut : Shut q := by
    refine hq.invariant (fun _ h0 => ?_) (fun _ _ _ hI _ hs => hI.step hs)
    obtain rfl : _ = p₁ := h0
    exact (shut_of_closePoll h hop (sem_of_closePoll hop hret hnil)).step hret
  have hown := (reachable_accounted hreach).partition
  refine ⟨hshut.held, hshut.idle, fun c hc => ?_, fun j op c hj hc => ⟨fun a q' hs => ?_,
    hshut.closes_of_hands hreach hj hc⟩⟩
  · have hone := hown.onePlace c hc
    simp only [idleCount, heldCount, hshut.idle, hshut.held, List.map_nil, List.count_nil] at hone
    by_cases hclosed : q.sh.closes c = 1
    · exact .inl hclosed
    · obtain ⟨op, hmem, hpos⟩ := exists_of_tally_pos (show 0 < handCount q c by omega)
      exact .inr ⟨op, hmem, List.count_pos_iff.mp hpos⟩
  · have hzero := (hown.exclusive hj hc).1
    cases step_moves hs with
    | starts x =>
      have hj' : (q.ops ++ [x])[j]? = q.ops[j]? :=
        List.getElem?_append_left (List.getElem?_eq_some_iff.mp hj).1
      exact .inl ⟨op, hj'.trans hj, hc⟩
    | gives k x _ hheld => simp [hshut.held] at hheld
    | runs i' ch x x' sh hx hstep =>
      by_cases hij : i' = j
      · subst hij
        obtain rfl : x = op := Option.some.inj (hx.symm.trans hj)
        have hinert := hshut.inert x (List.mem_of_getElem? hx)
        rcases (opStep_idles hshut.closed hinert hstep).hands c hc with hc' | hclose
        · exact .inl ⟨x', List.getElem?_set_self (List.getElem?_eq_some_iff.mp hx).1, hc'⟩
        · exact .inr ⟨ch, rfl, by rw [hclose, hzero]⟩
      · exact .inl ⟨op, by rwa [List.getElem?_set_ne hij], hc⟩
    | ticks d => exact .inl ⟨op, hj, hc⟩

/-- A pool is closed while a caller holds a connection and a warm-up is on its way to the semaphore;
the caller gives its connection back, and the warm-up dials after `Close` is done. -/
def closeUnderWarmUp : List Action :=
  [.acquire 1, .run 0 .go, .run 0 .go, .run 0 .ready, .run 0 .go, .run 0 .go, .run 0 .go,
    .run 0 (.dialOk 7), .run 0 .go, .run 0 .go, .run 0 .go, .warmUp, .run 1 .go, .run 1 .go, .close,
    .run 2 .go, .run 2 .go, .run 2 .go, .run 2 .go, .release 1 7, .run 3 .go, .run 3 .go,
    .run 3 .go, .run 3 .go, .run 3 .go]

theorem close_drains_under_warm_up :
    let pool := machine ⟨0, 0, 0, 1, 0, 0, 0, 0, false⟩ 2
    ∃ p p₁, pool.run new closeUnderWarmUp = some p ∧ p.ops[2]? = some .closePoll ∧
      pool.step p (.run 2 .go) = some p₁ ∧ p₁.ops[2]? = some .returned ∧
      ∃ q, pool.run p₁ [.run 1 .ready, .run 1 (.dialOk 8)] = some q ∧
        q.ops[1]? = some (.okStore (.warmUp 0) 8) ∧ q.sh.held = [] ∧ q.sh.idle = [] ∧
        ∃ n q', pool.run q (List.replicate n (.run 1 .go)) = some q' ∧ q'.sh.closes 8 = 1 := by
  intro pool
  have hrun : (pool.run new closeUnderWarmUp).bind (fun p =>
      (pool.step p (.run 2 .go)).bind fun p₁ =>
        (pool.run p₁ [.run 1 .ready, .run 1 (.dialOk 8)]).map fun q =>
          (p.ops[2]?, p₁.ops[2]?, q.ops[1]?)) =
      some (some .closePoll, some .returned, some (.okStore (.warmUp 0) 8)) := by decide
  obtain ⟨p, hp, hrest⟩ := Option.bind_eq_some_iff.mp hrun
  obtain ⟨p₁, hret, hrest₁⟩ := Option.bind_eq_some_iff.mp hrest
  obtain ⟨q, hq, hview⟩ := Option.map_eq_some_iff.mp hrest₁
  simp only [Prod.mk.injEq] at hview
  obtain ⟨hpoll, hnil, hok⟩ := hview
  obtain ⟨hheld, hidle, -, hhands⟩ := close_drains _ 2 p (Machine.reach_of_run rfl hp) 2 hpoll p₁
    hret hnil q (Machine.reach_startingAt_of_run hq)
  exact ⟨p, p₁, hp, hpoll, hret, hnil, q, hq, hok, hheld, hidle,
    (hhands 1 _ 8 hok (List.mem_singleton_self 8)).2⟩

end Pgman.Pool
