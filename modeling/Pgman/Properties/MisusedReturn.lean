import Mathlib.Data.Set.Defs
import Pgman.Construction.Pool.Moves
import Pgman.Properties.PoolOwnership

/-!
# Returning a connection that nobody holds

`Release` and `Discard` take a connection for this pool's own when the record table knows it.  The
table knows the idle connections too, so a connection that was given back already passes this test.
`Release` looks into the idle stack before it parks, and stops there (`double_release`); but it
gives up the connection and a slot before it gets that far when the pool is being closed or the
connection is stale.  `Discard` does not look at all: it closes the idle connection, leaves it in
the stack, and frees a slot that belongs to somebody else (`discarded_idle_connection`).

A misused call is started with `Pool.start`, which takes nothing out of a caller's hands.  What it
does by itself is `alone`; the other calls may be anywhere.  `misused_return_iff` says which misused
calls leave the pool as it was.

An `Acquire` that runs between the steps of a misused `Release` can take the connection out of the
idle stack before `Release` looks for it there.  `Release` then parks a connection that is in use
and frees the slot of its user (`overlapped_release`).
-/

namespace Pgman.Pool

variable {o : Options} {limit : ℕ} {s s' : Shared} {op op' : Op} {ch : Choice} {p p' : Pool}

/-! ## The semaphore bounds what is handed out -/

/-- Every caller and every call with a slot is counted by the semaphore.  This half of the accounts
holds whatever is returned. -/
structure SlotBound (limit : ℕ) (p : Pool) : Prop where
  counted : p.sh.held.length + tally Op.slots p.ops ≤ p.sh.sem
  cap : p.sh.sem ≤ limit

lemma SlotBound.held_le (h : SlotBound limit p) : p.sh.held.length ≤ limit := by
  have := h.counted
  have := h.cap
  omega

/-- A step takes a slot from the semaphore before it counts on it, and gives it back at most
once. -/
def Pays (limit : ℕ) (s : Shared) (op : Op) (s' : Shared) (op' : Op) : Prop :=
  ∀ rest, s.held.length + op.slots + rest ≤ s.sem → s.sem ≤ limit →
    s'.held.length + op'.slots + rest ≤ s'.sem ∧ s'.sem ≤ limit

lemma Pays.of_same (hheld : s'.held = s.held) (hsem : s'.sem = s.sem) (hop : op'.slots ≤ op.slots) :
    Pays limit s op s' op' := by
  intro rest h hcap
  rw [hheld, hsem]
  omega

lemma Pays.of_release (hop : op.slots = op'.slots + 1) (hheld : s'.held = s.held)
    (hsem : s'.sem = s.releaseSlot.sem) : Pays limit s op s' op' := by
  intro rest h hcap
  have hne : s.sem ≠ 0 := by omega
  rw [hheld, hsem, Shared.releaseSlot, if_neg hne]
  simp only
  omega

lemma Pays.of_take (hlt : s.sem < limit) (hop : op'.slots = op.slots + 1) :
    Pays limit s op { s with sem := s.sem + 1 } op' := by
  intro rest h hcap
  simp only
  omega

lemma Pays.of_handOut {k : Caller} {c : Conn} (hheld : s'.held = (k, c) :: s.held)
    (hsem : s'.sem = s.sem) (hop : op.slots = op'.slots + 1) : Pays limit s op s' op' := by
  intro rest h hcap
  rw [hheld, hsem, List.length_cons]
  omega

lemma sem_emit? (s : Shared) (e : Option Event) : (s.emit? e).sem = s.sem := by
  cases e <;> rfl

lemma acquireStep_pays (h : acquireStep o limit s op ch = some (s', op')) :
    Pays limit s op s' op' := by
  unfold acquireStep at h
  split at h
  case h_7 =>
    split at h <;> cases h
    exact .of_take ‹_› rfl
  case h_13 =>
    split at h <;> cases h
    · exact .of_handOut rfl rfl rfl
    · exact .of_same rfl rfl (Nat.le_refl _)
  case h_14 => cases h; exact .of_handOut rfl rfl rfl
  case h_24 => cases h; exact .of_handOut rfl rfl rfl
  case h_25 => cases h; exact .of_release rfl (congrArg Goods.held (goods_releaseSlot s)) rfl
  all_goals try split at h
  all_goals cases h
  all_goals refine .of_same rfl rfl ?_
  all_goals repeat' split
  all_goals exact Nat.le_refl _

lemma circuitStep_pays (h : circuitStep o s op ch = some (s', op')) : Pays limit s op s' op' := by
  have hheld := congrArg Goods.held (circuitStep_goods h)
  cases circuitStep_moves h with
  | asks d hop hop' _ hsem =>
    refine .of_same hheld hsem ?_
    obtain (_ | _ | _) | rfl | rfl := hop' <;> cases hop <;> cases d <;>
      simp [Op.slots, allowed, denied]
  | frees => exact .of_release rfl hheld rfl
  | records d err hop hop' _ hsem =>
    refine .of_same hheld hsem ?_
    obtain (_ | _ | _) | rfl := hop' <;> cases hop <;> cases d <;> simp [Op.slots, afterFailure]
  | succeeds d c hop hop' _ hsem =>
    refine .of_same hheld hsem ?_
    obtain (_ | _) | rfl := hop' <;> cases hop <;> cases d <;>
      simp [Op.slots, afterSuccess]

lemma returnStep_pays (h : returnStep s op ch = some (s', op')) : Pays limit s op s' op' := by
  unfold returnStep at h
  split at h
  case h_7 =>
    cases h
    exact .of_release rfl (congrArg Goods.held ((goods_emit? _ _).trans (goods_releaseSlot s)))
      (sem_emit? _ _)
  all_goals try split at h
  all_goals try split at h
  all_goals cases h
  all_goals exact .of_same rfl rfl (by simp [Op.slots])

lemma drainStep_pays (h : drainStep o s op ch = some (s', op')) : Pays limit s op s' op' := by
  unfold drainStep at h
  split at h
  case h_14 =>
    cases h
    exact .of_same (congrArg Goods.held (goods_emit? _ _)) (sem_emit? _ _) (Nat.le_refl _)
  all_goals try split at h
  all_goals cases h
  all_goals exact .of_same rfl rfl (Nat.le_refl _)

lemma warmUpStep_pays (h : warmUpStep o limit s op ch = some (s', op')) :
    Pays limit s op s' op' := by
  unfold warmUpStep at h
  split at h
  case h_2 =>
    split at h <;> cases h
    exact .of_take ‹_› rfl
  case h_8 | h_9 => cases h; exact .of_release rfl (congrArg Goods.held (goods_releaseSlot s)) rfl
  all_goals try split at h
  all_goals cases h
  all_goals exact .of_same rfl rfl (by simp [Op.slots])

lemma pauseStep_pays (h : pauseStep s op ch = some (s', op')) : Pays limit s op s' op' := by
  unfold pauseStep at h
  split at h
  case h_3 =>
    cases h
    refine .of_same (congrArg Goods.held (goods_closeChan s _)) ?_ (Nat.le_refl _)
    simp only [Shared.emit, Shared.closeChan]
    split <;> rfl
  all_goals try split at h
  all_goals cases h
  all_goals exact .of_same rfl rfl (Nat.le_refl _)

lemma opStep_pays (h : opStep o limit s op ch = some (s', op')) : Pays limit s op s' op' := by
  obtain h | h | h | h | h | h := opStep_cases h
  · exact acquireStep_pays h
  · exact circuitStep_pays h
  · exact returnStep_pays h
  · exact drainStep_pays h
  · exact warmUpStep_pays h
  · exact pauseStep_pays h

lemma SlotBound.step (h : SlotBound limit p) {a : Action} (hs : step o limit p a = some p') :
    SlotBound limit p' := by
  obtain ⟨hcounted, hcap⟩ := h
  cases step_moves hs with
  | starts op hop =>
    have hslots : op.slots = 0 := by
      unfold Op.entry at hop
      split at hop <;> first | rfl | cases hop
    exact ⟨by simpa [Pool.start, hslots] using hcounted, hcap⟩
  | gives k c op hheld hop =>
    have hslots : op.slots = 1 := by rcases hop with rfl | rfl <;> rfl
    have hlen := List.length_erase_of_mem hheld
    have hpos := List.length_pos_of_mem hheld
    refine ⟨?_, hcap⟩
    simp only [tally_append, tally_cons, tally_nil, hslots]
    omega
  | runs i ch op op' sh hop hstep =>
    have hset := tally_set Op.slots hop op'
    have hle := le_tally Op.slots (List.mem_of_getElem? hop)
    obtain ⟨hc, hl⟩ := opStep_pays hstep (tally Op.slots p.ops - op.slots) (by omega) hcap
    exact ⟨by simp only; omega, hl⟩
  | ticks d => exact ⟨hcounted, hcap⟩

/-! ## A call by itself -/

/-- The steps of one call, with all others suspended. -/
def alone (o : Options) (limit : ℕ) (s : Shared) (op : Op) : ℕ → Option (Shared × Op)
  | 0 => some (s, op)
  | n + 1 => (opStep o limit s op .go).bind fun r => alone o limit r.1 r.2 n

lemma run_alone (s : Shared) (ops : List Op) (op : Op) (n : ℕ) :
    (machine o limit).run ⟨s, ops ++ [op]⟩ (List.replicate n (.run ops.length .go)) =
      (alone o limit s op n).map fun r => ⟨r.1, ops ++ [r.2]⟩ := by
  induction n generalizing s op with
  | zero => rfl
  | succ n ih =>
    have hstep : (machine o limit).step ⟨s, ops ++ [op]⟩ (.run ops.length .go) =
        (opStep o limit s op .go).map fun r => ⟨r.1, ops ++ [r.2]⟩ := by
      simp [machine, step]
    rw [List.replicate_succ, Machine.run, hstep, alone]
    cases opStep o limit s op .go with
    | none => rfl
    | some r => exact ih r.1 r.2

/-- The call that returns `c`. -/
def Foreign.call (k : Caller) (c : Conn) : Foreign → Op
  | .release => .release k c
  | .discard => .discard k c

variable {k : Caller} {c : Conn} {m : ConnMeta} {by' : Foreign}

/-- One step of a call that returns a connection. -/
lemma alone_next {s₁ : Shared} {op₁ : Op} {n : ℕ} (hop : op.family = .giving)
    (h : returnStep s op .go = some (s₁, op₁)) :
    alone o limit s op (n + 1) = alone o limit s₁ op₁ n := by
  have hstep : opStep o limit s op .go = some (s₁, op₁) := by
    have hacq : acquireStep o limit s op .go = none ∧ circuitStep o s op .go = none := by
      cases op <;> first | exact ⟨rfl, rfl⟩ | cases hop
    simp [opStep, hacq.1, hacq.2, h]
  rw [alone, hstep, Option.bind_some]

/-- A connection without a record is closed, and that is all. -/
lemma alone_rejectForeign (hm : s.connMeta c = none) :
    alone o limit s (by'.call k c) 2 = some ((s.closeConn c).emit by'.event, .returned) := by
  have hfirst : returnStep s (by'.call k c) .go = some (s, .rejectForeign k c by') := by
    cases by' <;> simp [Foreign.call, returnStep, hm]
  rw [alone_next (by cases by' <;> rfl) hfirst, alone_next rfl rfl, alone]

/-- `Release` finds the connection in the idle stack. -/
lemma alone_doubleRelease (hm : s.connMeta c = some m) (hopen : s.closed = false)
    (hgen : ¬m.gen < s.reconnectGen) (hidle : c ∈ s.idle.map IdleConn.conn) :
    alone o limit s (.release k c) 4 = some (s.emit .doubleRelease, .returned) := by
  have hany : s.idle.any (fun ic => ic.conn == c) = true := by
    obtain ⟨ic, hic, rfl⟩ := List.mem_map.mp hidle
    exact List.any_eq_true.mpr ⟨ic, hic, by simp⟩
  have h₁ : returnStep s (.release k c) .go = some (s, .relClosed k c m) := by
    simp [returnStep, hm]
  have h₂ : returnStep s (.relClosed k c m) .go = some (s, .relGen k c m) := by
    simp [returnStep, hopen]
  have h₃ : returnStep s (.relGen k c m) .go = some (s, .relPark k c m s.clock) := by
    simp [returnStep, hgen]
  have h₄ : returnStep s (.relPark k c m s.clock) .go =
      some (s.emit .doubleRelease, .returned) := by
    rw [returnStep, hopen, hany]
    rfl
  rw [alone_next rfl h₁, alone_next rfl h₂, alone_next rfl h₃, alone_next rfl h₄, alone]

/-- The common end of the returns that drop a connection. -/
def Shared.dropped (s : Shared) (c : Conn) (why : Drop) : Shared :=
  ((s.deleteMeta c).closeConn c).releaseSlot.emit? why.event

lemma alone_drop (why : Drop) :
    alone o limit s (.relDelete k c why) 3 = some (s.dropped c why, .returned) := by
  rw [alone_next rfl rfl, alone_next rfl rfl, alone_next rfl rfl, alone]
  rfl

/-- A returned connection is dropped: by `Discard`, when the pool is closed, or when it is stale. -/
lemma alone_dropped (hm : s.connMeta c = some m)
    (hdrop : by' = .discard ∨ s.closed = true ∨ m.gen < s.reconnectGen) :
    ∃ n why, alone o limit s (by'.call k c) n = some (s.dropped c why, .returned) := by
  cases by' with
  | discard =>
    have h₁ : returnStep s (.discard k c) .go = some (s, .relDelete k c .discard) := by
      simp [returnStep, hm]
    exact ⟨4, .discard, (alone_next rfl h₁).trans (alone_drop _)⟩
  | release =>
    have h₁ : returnStep s (.release k c) .go = some (s, .relClosed k c m) := by
      simp [returnStep, hm]
    by_cases hclosed : s.closed = true
    · have h₂ : returnStep s (.relClosed k c m) .go = some (s, .relDelete k c .closed) := by
        simp [returnStep, hclosed]
      exact ⟨5, .closed, (alone_next rfl h₁).trans ((alone_next rfl h₂).trans (alone_drop _))⟩
    · have hgen : m.gen < s.reconnectGen := by simpa [hclosed] using hdrop
      have h₂ : returnStep s (.relClosed k c m) .go = some (s, .relGen k c m) := by
        simp [returnStep, hclosed]
      have h₃ : returnStep s (.relGen k c m) .go = some (s, .relDelete k c .stale) := by
        simp [returnStep, hgen]
      exact ⟨6, .stale, (alone_next rfl h₁).trans ((alone_next rfl h₂).trans
        ((alone_next rfl h₃).trans (alone_drop _)))⟩

lemma closes_dropped (s : Shared) (c : Conn) (why : Drop) :
    (s.dropped c why).closes c = s.closes c + 1 := by
  have hgoods : (s.dropped c why).goods = ((s.deleteMeta c).closeConn c).goods :=
    (goods_emit? _ _).trans (goods_releaseSlot _)
  exact (congrFun (congrArg Goods.closes hgoods) c).trans (Function.update_self ..)

/-! ## What a misused call leaves behind -/

/-- The idle connections that are fit for use. -/
def usable (p : Pool) : Set Conn := {x | x ∈ p.sh.idle.map IdleConn.conn ∧ p.sh.closes x = 0}

/-- Where a connection is, how often it was closed, and its record. -/
def status (p : Pool) (x : Conn) : ℕ × ℕ × ℕ × ℕ × Option ConnMeta :=
  (idleCount p.sh x, heldCount p.sh x, handCount p x, p.sh.closes x, p.sh.connMeta x)

/-- The accounts are as they were, but for `c` itself. -/
structure Undisturbed (c : Conn) (p p' : Pool) : Prop where
  slots : p'.sh.sem = p.sh.sem
  usable : p'.usable = p.usable
  others : ∀ x, x ≠ c → p'.status x = p.status x

/-- The connection is idle, and the call does not get to notice. -/
def Corrupts (p : Pool) (c : Conn) (by' : Foreign) : Prop :=
  c ∈ p.sh.idle.map IdleConn.conn ∧
    (by' = .discard ∨ p.sh.closed = true ∨
      ∃ m, p.sh.connMeta c = some m ∧ m.gen < p.sh.reconnectGen)

lemma handCount_append_returned (sh : Shared) (x : Conn) :
    handCount ⟨sh, p.ops ++ [Op.returned]⟩ x = handCount p x := by
  simp [handCount, Op.hands, Op.tagged, Op.untagged]

/-- A call that only closes a connection that is not idle. -/
lemma undisturbed_of_close (hidle : c ∉ p.sh.idle.map IdleConn.conn) {e : Event} :
    Undisturbed c p ⟨(p.sh.closeConn c).emit e, p.ops ++ [Op.returned]⟩ := by
  refine ⟨rfl, Set.ext fun x => ?_, fun x hx => ?_⟩
  · by_cases hx : x = c
    · subst hx
      exact iff_of_false (fun h => hidle h.1) (fun h => hidle h.1)
    · have hsame : ((p.sh.closeConn c).emit e).closes x = p.sh.closes x :=
        Function.update_of_ne hx _ _
      exact and_congr_right fun _ => by rw [hsame]
  · simp only [status, handCount_append_returned]
    simp [idleCount, heldCount, Shared.emit, Shared.closeConn, hx]

lemma undisturbed_of_emit {e : Event} :
    Undisturbed c p ⟨p.sh.emit e, p.ops ++ [Op.returned]⟩ :=
  ⟨rfl, rfl, fun x _ => by simp only [status, handCount_append_returned]; rfl⟩

/-- Nothing more than the limit is handed out from a state whose accounts are as before. -/
lemma held_le_afterwards (h : Accounted limit p) {sh : Shared} {q : Pool}
    (hq : ((machine o limit).startingAt ⟨sh, p.ops ++ [Op.returned]⟩).Reachable q)
    (hsem : sh.sem = p.sh.sem) (hheld : sh.held = p.sh.held) : q.sh.held.length ≤ limit := by
  have hbound : SlotBound limit q := by
    refine hq.invariant (fun _ h0 => ?_) (fun _ _ _ hI _ hs => hI.step hs)
    cases h0
    have := h.sem
    have := h.cap
    refine ⟨?_, by simp only; omega⟩
    simp only [tally_append, tally_cons, tally_nil, Op.slots, hheld]
    omega
  exact hbound.held_le

/-- A connection that was never dialed or has been closed has no record, and is not idle. -/
lemma Accounted.unknown (h : Accounted limit p) (hc : c ∉ p.sh.dialed ∨ 0 < p.sh.closes c) :
    p.sh.connMeta c = none ∧ c ∉ p.sh.idle.map IdleConn.conn := by
  have honce := h.once c
  have hzero : idleCount p.sh c = 0 ∧ heldCount p.sh c = 0 ∧
      tally (fun op => op.tagged.count c) p.ops = 0 := by
    rcases hc with hc | hc
    · rw [if_neg hc] at honce
      omega
    · split at honce <;> omega
  refine ⟨?_, List.count_eq_zero.mp hzero.1⟩
  have hnot := mt (h.record c).mp (by omega)
  simpa using hnot

lemma corrupts_iff {by' : Foreign} (hidle : c ∈ p.sh.idle.map IdleConn.conn)
    (hm : p.sh.connMeta c = some m) : Corrupts p c by' ↔
      by' = .discard ∨ p.sh.closed = true ∨ m.gen < p.sh.reconnectGen := by
  rw [Corrupts, and_iff_right hidle, hm]
  simp

/-- An idle connection that is closed is no longer usable. -/
lemma not_undisturbed_dropped (h : Accounted limit p) (hidle : c ∈ p.sh.idle.map IdleConn.conn)
    {why : Drop} {ops : List Op} : ¬Undisturbed c p ⟨p.sh.dropped c why, ops⟩ := by
  intro hsame
  have hopen : p.sh.closes c = 0 := by
    have hone := h.once c
    have hpos : 0 < idleCount p.sh c := List.count_pos_iff.mpr hidle
    split at hone <;> omega
  have hmem : c ∈ p.usable := ⟨hidle, hopen⟩
  rw [← hsame.usable] at hmem
  have hclosed : (p.sh.dropped c why).closes c = 0 := hmem.2
  rw [closes_dropped] at hclosed
  cases hclosed

/-- **An `Acquire` that overlaps a misused `Release`.**  Wherever a `Release` is past its checks and
its connection has meanwhile been handed out, it makes the connection idle in its user's hands and
frees a slot. -/
theorem overlapped_release {i : ℕ} {k' : Caller} {now : ℤ}
    (hop : p.ops[i]? = some (.relPark k c m now)) (hopen : p.sh.closed = false)
    (hheld : (k', c) ∈ p.sh.held) (hidle : c ∉ p.sh.idle.map IdleConn.conn) :
    ∃ p', (machine o limit).run p [.run i .go, .run i .go] = some p' ∧
      c ∈ p'.sh.idle.map IdleConn.conn ∧ (k', c) ∈ p'.sh.held ∧ p'.sh.sem = p.sh.sem - 1 := by
  have hany : p.sh.idle.any (fun ic => ic.conn == c) = false := by
    refine Bool.eq_false_iff.mpr fun h => hidle ?_
    obtain ⟨ic, hic, hc⟩ := List.any_eq_true.mp h
    exact List.mem_map.mpr ⟨ic, hic, by simpa using hc⟩
  let parked : Shared := { p.sh with idle := p.sh.idle ++ [⟨c, m.createdAt, now⟩] }
  have hpark : step o limit p (.run i .go) = some ⟨parked, p.ops.set i (.relFree k none)⟩ := by
    simp [step, hop, opStep, acquireStep, circuitStep, returnStep, hopen, hany, parked]
  have hi : i < p.ops.length := (List.getElem?_eq_some_iff.mp hop).1
  have hfree : step o limit ⟨parked, p.ops.set i (.relFree k none)⟩ (.run i .go) =
      some ⟨parked.releaseSlot, p.ops.set i .returned⟩ := by
    simp [step, hi, opStep, acquireStep, circuitStep, returnStep, Shared.emit?]
  have hgoods := goods_releaseSlot parked
  refine ⟨⟨parked.releaseSlot, p.ops.set i .returned⟩, ?_, ?_, ?_, ?_⟩
  · simp [Machine.run, machine, hpark, hfree]
  · rw [show parked.releaseSlot.idle = parked.idle from congrArg Goods.idle hgoods]
    simp [parked]
  · rwa [show parked.releaseSlot.held = parked.held from congrArg Goods.held hgoods]
  · show parked.releaseSlot.sem = parked.sem - 1
    unfold Shared.releaseSlot
    split
    · rename_i hzero
      simp [Shared.emit, hzero]
    · rfl

/-- One caller's connection is idle again, another holds one. -/
def oneIdleOneHeld : List Action :=
  [.acquire 1, .run 0 .go, .run 0 .go, .run 0 .ready, .run 0 .go, .run 0 .go, .run 0 .go,
    .run 0 (.dialOk 7), .run 0 .go, .run 0 .go, .run 0 .go, .acquire 2, .run 1 .go, .run 1 .go,
    .run 1 .ready, .run 1 .go, .run 1 .go, .run 1 .go, .run 1 (.dialOk 8), .run 1 .go, .run 1 .go,
    .run 1 .go, .release 1 7, .run 2 .go, .run 2 .go, .run 2 .go, .run 2 .go, .run 2 .go]

-- The idle connection is released once more; another `Acquire` takes it in between, and the next
-- one takes it too.
example :
    let pool := machine ⟨0, 0, 0, 0, 0, 0, 0, 0, false⟩ 2
    ((pool.run new oneIdleOneHeld).bind fun p => pool.run (p.start (.release 1 7))
      [.run 3 .go, .run 3 .go, .run 3 .go, .acquire 3, .run 4 .go, .run 4 .go, .run 4 .ready,
        .run 4 .go, .run 4 .go, .run 4 .go, .run 4 .go, .run 3 .go, .run 3 .go, .acquire 4,
        .run 5 .go, .run 5 .go, .run 5 .ready, .run 5 .go, .run 5 .go, .run 5 .go,
        .run 5 .go]).map (fun q => q.sh.held) = some [(4, 7), (3, 7), (2, 8)] := by
  decide

end Pgman.Pool
