import Pgman.Construction.Pool.Moves
import Pgman.Properties.PoolOwnership

/-!
# What `Reconnect` leaves in the pool

`Reconnect` bumps the generation, then empties the idle stack.  `Release` compares the generation
of the connection it is given with the current one before it takes the lock, and parks the
connection later.  A `Reconnect` that runs between the two has emptied the stack already when the
stale connection is parked, and nothing retires it after that (`stale_connection_is_parked`).
The flag `closed` is looked at again under the lock; the generation is not.

`parksCurrent` leaves out these parkings.  In every other run the stack holds connections of the
current generation only, unless a `Reconnect` is between its bump and its drain, and calls begun
after a `Reconnect` has returned are handed nothing older.
-/

namespace Pgman.Pool

variable {o : Options} {limit : ℕ} {s s' : Shared} {op op' : Op} {ch : Choice} {p p' : Pool}

/-- A `Release` parks its connection only while the generation it compared with is the current
one. -/
def parksCurrent (p : Pool) : Action → Bool
  | .run i _ =>
    match p.ops[i]? with
    | some (.relPark _ _ m _) => p.sh.closed || m.gen == p.sh.reconnectGen
    | _ => true
  | _ => true

/-! ## Records -/

/-- A step writes no record but that of a connection in the call's hands. -/
inductive Records (s : Shared) (op : Op) (s' : Shared) : Prop
  | keeps (hmeta : s'.connMeta = s.connMeta)
  | writes (c : Conn) (hc : c ∈ op.hands) (v : Option ConnMeta)
      (hmeta : s'.connMeta = Function.update s.connMeta c v)

lemma Records.of_goods (h : s'.goods = s.goods) : Records s op s' :=
  .keeps (congrArg Goods.connMeta h)

lemma opStep_records (h : opStep o limit s op ch = some (s', op')) : Records s op s' := by
  have hand : ∀ (c : Conn) l, c ∈ c :: l := fun c l => List.mem_cons_self
  obtain h | h | h | h | h | h := opStep_cases h
  · unfold acquireStep at h
    split at h
    all_goals try split at h
    all_goals cases h
    all_goals first
      | exact .keeps rfl
      | exact .writes _ (hand _ _) _ rfl
      | exact .of_goods (goods_releaseSlot s)
  · exact .of_goods (circuitStep_goods h)
  · unfold returnStep at h
    split at h
    all_goals try split at h
    all_goals try split at h
    all_goals cases h
    all_goals first
      | exact .keeps rfl
      | exact .writes _ (hand _ _) _ rfl
      | exact .of_goods ((goods_emit? _ _).trans (goods_releaseSlot s))
  · unfold drainStep at h
    split at h
    all_goals try split at h
    all_goals cases h
    all_goals first
      | exact .keeps rfl
      | exact .writes _ (hand _ _) _ rfl
      | exact .keeps (congrArg Goods.connMeta (goods_emit? _ _))
  · unfold warmUpStep at h
    split at h
    all_goals try split at h
    all_goals cases h
    all_goals first
      | exact .keeps rfl
      | exact .writes _ (hand _ _) _ rfl
      | exact .of_goods (goods_releaseSlot s)
  · unfold pauseStep at h
    split at h
    all_goals try split at h
    all_goals cases h
    all_goals first | exact .keeps rfl | exact .of_goods (goods_closeChan s _)

/-- What a step of the call at `i` leaves of a record. -/
lemma Records.of_not_hands (h : Records s op s') {c : Conn} (hc : c ∉ op.hands) :
    s'.connMeta c = s.connMeta c := by
  cases h with
  | keeps hmeta => rw [hmeta]
  | writes x hx v hmeta =>
    rw [hmeta, Function.update_of_ne]
    rintro rfl
    exact hc hx

/-- The record a `Release` has read. -/
def Op.record : Op → Option (Conn × ConnMeta)
  | .relClosed _ c m | .relGen _ c m | .relPark _ c m _ => some (c, m)
  | _ => none

lemma Op.hands_of_record {c : Conn} {m : ConnMeta} (h : op.record = some (c, m)) :
    c ∈ op.hands := by
  unfold Op.record at h
  split at h <;> cases h <;> exact List.mem_singleton_self _

/-- A `Release` reads the record first, and goes on with it. -/
lemma opStep_record (h : opStep o limit s op ch = some (s', op')) {c : Conn} {m : ConnMeta}
    (hop : op'.record = some (c, m)) :
    s' = s ∧ (s.connMeta c = some m ∨ op.record = some (c, m)) := by
  have hfam : op'.family = .giving := by
    unfold Op.record at hop
    split at hop <;> first | rfl | cases hop
  have hr := returnStep_of_giving h hfam
  clear h
  unfold returnStep at hr
  split at hr
  case h_1 =>
    split at hr <;> cases hr <;> cases hop
    exact ⟨rfl, .inl ‹_›⟩
  all_goals try split at hr
  all_goals try split at hr
  all_goals cases hr
  all_goals cases hop
  all_goals exact ⟨rfl, .inr rfl⟩

/-! ## Generations -/

/-- The generation is bumped by `Reconnect`. -/
lemma opStep_gen (h : opStep o limit s op ch = some (s', op')) :
    s'.reconnectGen = s.reconnectGen ∨
      op = .reconnect ∧ op' = .reconnectDrain ∧ s'.reconnectGen = s.reconnectGen + 1 := by
  obtain h | h | h | h | h | h := opStep_cases h
  · exact .inl (congrArg (·.2.1.2.2) (acquireStep_controls h))
  · exact .inl (congrArg (·.2.1.2.2) (circuitStep_controls h))
  · exact .inl (congrArg (·.2.1.2.2) (returnStep_controls h))
  · unfold drainStep at h
    split at h
    case h_3 => cases h; exact .inr ⟨rfl, rfl, rfl⟩
    all_goals try split at h
    all_goals cases h
    all_goals first | exact .inl rfl | exact .inl (congrArg (·.2.1.2.2) (controls_emit? _ _))
  · exact .inl (congrArg (·.2.1.2.2) (warmUpStep_controls h))
  · exact .inl (congrArg (·.2.2) (pauseStep_regime h))

/-- Every idle connection has a record whose generation meets `P`. -/
def IdleGens (P : ℕ → Prop) (s : Shared) : Prop :=
  ∀ ic ∈ s.idle, ∃ m, s.connMeta ic.conn = some m ∧ P m.gen

/-- What holds of the connections in every reachable state. -/
structure Filed (limit : ℕ) (p : Pool) : Prop where
  owned : OwnershipPartition limit p
  records : ∀ op ∈ p.ops, ∀ c m, op.record = some (c, m) → p.sh.connMeta c = some m

lemma filed_step (h : Filed limit p) {a : Action} (hacc : Accounted limit p)
    (hs : step o limit p a = some p') : Filed limit p' := by
  refine ⟨(step_accounted hacc hs).partition, ?_⟩
  cases step_moves hs with
  | starts op hop =>
    intro x hx c m hxm
    rcases List.mem_append.mp hx with hx | hx
    · exact h.records x hx c m hxm
    · obtain rfl : x = op := by simpa using hx
      unfold Op.entry at hop
      split at hop <;> first | cases hxm | cases hop
  | gives k c op hheld hop =>
    intro x hx c m hxm
    rcases List.mem_append.mp hx with hx | hx
    · exact h.records x hx c m hxm
    · obtain rfl : x = op := by simpa using hx
      rcases hop with rfl | rfl <;> cases hxm
  | runs i ch op op' sh hop hstep =>
    intro x hx c m hxm
    obtain ⟨j, hj⟩ := List.mem_iff_getElem?.mp hx
    rcases getElem?_set_cases hj with ⟨hij, hj⟩ | ⟨rfl, rfl⟩
    · -- another call's connection is not in this call's hands
      have hnot : c ∉ op.hands := fun hc =>
        (h.owned.exclusive hop hc).2.2 j x hj hij (Op.hands_of_record hxm)
      rw [(opStep_records hstep).of_not_hands hnot]
      exact h.records x (List.mem_of_getElem? hj) c m hxm
    · obtain ⟨rfl, hread | hread⟩ := opStep_record hstep hxm
      · exact hread
      · exact h.records op (List.mem_of_getElem? hop) c m hread
  | ticks d => exact h.records

theorem filed_of_reachable (h : (machine o limit).Reachable p) : Filed limit p := by
  induction h with
  | init h0 =>
    obtain rfl : _ = new := h0
    exact ⟨(accounted_new limit).partition, by simp [new]⟩
  | step hr _ hs ih => exact filed_step ih (reachable_accounted hr) hs

/-- A step that parks nothing stale keeps the generations of the idle connections. -/
lemma idleGens_set {P : ℕ → Prop} (h : Filed limit p) {i : ℕ} (hop : p.ops[i]? = some op)
    (hstep : opStep o limit p.sh op ch = some (s', op'))
    (hcur : parksCurrent p (.run i ch) = true) (hP : P p.sh.reconnectGen)
    (hidle : IdleGens P p.sh) : IdleGens P s' := by
  have hrec := opStep_records hstep
  -- an idle connection is in nobody's hands, so its record stays
  have hkeep : ∀ ic ∈ p.sh.idle, ∃ m, s'.connMeta ic.conn = some m ∧ P m.gen := by
    intro ic hic
    rw [hrec.of_not_hands fun hc => (h.owned.exclusive hop hc).2.1 ic hic rfl]
    exact hidle ic hic
  intro ic hic
  cases opStep_shelves hstep with
  | keeps hsame => exact hkeep ic (hsame ▸ hic)
  | pops k top htop => exact hkeep ic (List.dropLast_subset _ hic)
  | parks k c m now hopen =>
    rcases List.mem_append.mp hic with hic | hic
    · exact hkeep ic hic
    · obtain rfl : ic = ⟨c, m.createdAt, now⟩ := by simpa using hic
      have hgen : m.gen = p.sh.reconnectGen := by
        simpa [parksCurrent, hop, hopen] using hcur
      exact ⟨m, h.records _ (List.mem_of_getElem? hop) c m rfl, hgen ▸ hP⟩
  | warms i c now hopen =>
    rcases List.mem_append.mp hic with hic | hic
    · exact hkeep ic hic
    · obtain rfl : ic = ⟨c, now, now⟩ := by simpa using hic
      exact ⟨⟨p.sh.reconnectGen, now⟩, Function.update_self .., hP⟩
  | sweeps now => exact hkeep ic (List.mem_of_mem_filter hic)
  | reconnects | closes => cases hic

/-- `Reconnect` empties the stack. -/
lemma opStep_reconnectDrain (h : opStep o limit s .reconnectDrain ch = some (s', op')) :
    s'.idle = [] := by
  obtain h | h | h | h | h | h := opStep_cases h
  case inr.inr.inr.inl =>
    cases ch <;> cases h
    rfl
  all_goals cases ch <;> cases h

lemma idleGens_of_nil {P : ℕ → Prop} (h : s.idle = []) : IdleGens P s := by simp [IdleGens, h]

/-- The idle connections are of the current generation, or a `Reconnect` has yet to drain them. -/
def Current (p : Pool) : Prop :=
  .reconnectDrain ∈ p.ops ∨ IdleGens (· = p.sh.reconnectGen) p.sh

lemma Current.step (h : Current p) (hfiled : Filed limit p) {a : Action}
    (hcur : parksCurrent p a = true) (hs : step o limit p a = some p') : Current p' := by
  cases step_moves hs with
  | starts | gives => exact h.imp_left (List.mem_append_left _)
  | runs i ch op op' sh hop hstep =>
    rcases opStep_gen hstep with hgen | ⟨-, rfl, -⟩
    · rcases h with hdrain | hidle
      · by_cases hd : op = .reconnectDrain
        · subst hd
          exact .inr (idleGens_of_nil (opStep_reconnectDrain hstep))
        · exact .inl (mem_set_of_ne hop hdrain (Ne.symm hd))
      · exact .inr (idleGens_set hfiled hop hstep hcur hgen.symm (hgen ▸ hidle))
    · exact .inl (mem_set_self hop)
  | ticks d => exact h

lemma current_of_reach (h : (machine o limit).Reach (fun p a => parksCurrent p a = true) p) :
    Current p := by
  induction h with
  | init h0 =>
    obtain rfl : _ = new := h0
    exact .inr (idleGens_of_nil rfl)
  | step hr hC hs ih =>
    exact ih.step (filed_of_reachable (hr.mono fun _ _ _ => trivial)) hC hs

/-! ## After a `Reconnect` -/

/-- The connection an `Acquire` is about to hand out has, or is going to get, a record whose
generation meets `P`. -/
def Op.Offers (P : ℕ → Prop) (s : Shared) : Op → Prop
  | .acqExamine _ ic | .acqCheck _ ic | .acqHealth _ ic =>
      ∃ m, s.connMeta ic.conn = some m ∧ P m.gen
  | .acqStore _ _ m => P m.gen
  | _ => True

/-- Other calls leave the offer alone. -/
lemma Op.Offers.mono {P : ℕ → Prop} (h : op.Offers P s)
    (hmeta : ∀ c ∈ op.hands, s'.connMeta c = s.connMeta c) : op.Offers P s' := by
  unfold Op.Offers at h ⊢
  split at h
  case h_1 | h_2 | h_3 =>
    rw [hmeta _ (List.mem_singleton_self _)]
    exact h
  · exact h
  · trivial

/-- An offer comes from the idle stack or carries the generation of now. -/
lemma opStep_offers {P : ℕ → Prop} (h : opStep o limit s op ch = some (s', op'))
    (hP : P s.reconnectGen) (hidle : IdleGens P s) (hop : op.Offers P s) : op'.Offers P s' := by
  by_cases hfam : op'.family = .acquire
  · rcases acquireStep_of_acquire h hfam with h | h
    · unfold acquireStep at h
      split at h
      case h_11 =>
        split at h <;> cases h
        · trivial
        · rename_i ic hic
          exact hidle ic (List.mem_of_getLast? hic)
      case h_12 => cases h; split <;> trivial
      case h_13 => split at h <;> cases h <;> trivial
      case h_23 => cases h; exact hP
      all_goals try split at h
      all_goals cases h
      all_goals repeat' split
      all_goals trivial
    · -- the breaker leads to a dial or to the tagging of what was dialed
      cases circuitStep_moves h with
      | asks d _ hop' => obtain (_ | _ | _) | rfl | rfl := hop' <;> cases d <;> trivial
      | frees => trivial
      | records d err _ hop' => obtain (_ | _ | _) | rfl := hop' <;> cases d <;> trivial
      | succeeds d c _ hop' => obtain (_ | _) | rfl := hop' <;> cases d <;> trivial
  · cases op' <;> trivial

/-- From position `n` on, the calls offer nothing older than `g`. -/
structure Renewed (limit g n : ℕ) (p : Pool) : Prop where
  filed : Filed limit p
  gen : g ≤ p.sh.reconnectGen
  idle : IdleGens (g ≤ ·) p.sh
  offers : ∀ j op, n ≤ j → p.ops[j]? = some op → op.Offers (g ≤ ·) p.sh

lemma Renewed.step {g n : ℕ} (h : Renewed limit g n p) (hacc : Accounted limit p) {a : Action}
    (hcur : parksCurrent p a = true) (hs : step o limit p a = some p') : Renewed limit g n p' := by
  have hfiled := filed_step h.filed hacc hs
  cases step_moves hs with
  | starts op hop =>
    refine ⟨hfiled, h.gen, h.idle, fun j x hj hx => ?_⟩
    rcases getElem?_concat_cases hx with hx | ⟨-, rfl⟩
    · exact h.offers j x hj hx
    · cases x <;> trivial
  | gives k c op hheld hop =>
    refine ⟨hfiled, h.gen, h.idle, fun j x hj hx => ?_⟩
    rcases getElem?_concat_cases hx with hx | ⟨-, rfl⟩
    · exact h.offers j x hj hx
    · rcases hop with rfl | rfl <;> trivial
  | runs i ch op op' sh hop hstep =>
    have hgen : g ≤ sh.reconnectGen := by
      rcases opStep_gen hstep with hg | ⟨-, -, hg⟩
      · exact hg ▸ h.gen
      · exact hg ▸ Nat.le_succ_of_le h.gen
    refine ⟨hfiled, hgen, idleGens_set h.filed hop hstep hcur h.gen h.idle, fun j x hj hx => ?_⟩
    rcases getElem?_set_cases hx with ⟨hij, hx⟩ | ⟨rfl, rfl⟩
    · refine (h.offers j x hj hx).mono fun c hc => ?_
      exact (opStep_records hstep).of_not_hands fun hc' =>
        (h.filed.owned.exclusive hop hc').2.2 j x hx hij hc
    · exact opStep_offers hstep h.gen h.idle (h.offers i op hj hop)
  | ticks d => exact ⟨hfiled, h.gen, h.idle, h.offers⟩

/-- What a call hands out has a record that meets what the call offered. -/
lemma Deals.offered {P : ℕ → Prop} (h : Deals s op s' op') (hop : op.Offers P s) {k : Caller}
    {c : Conn} (hheld : s'.held = (k, c) :: s.held) : ∃ m, s'.connMeta c = some m ∧ P m.gen := by
  cases h with
  | keeps hsame => exact absurd (hheld.symm.trans hsame) (List.cons_ne_self _ _)
  | pooled k' ic hic =>
    obtain ⟨rfl, rfl⟩ : k' = k ∧ ic.conn = c := by simpa [Shared.handOut] using hheld
    rcases hic with rfl | rfl <;> exact hop
  | dialed k' c' m =>
    obtain ⟨rfl, rfl⟩ : k' = k ∧ c' = c := by simpa [Shared.handOut, Shared.storeMeta] using hheld
    exact ⟨m, Function.update_self .., hop⟩

/-- Since the bump of the `Reconnect` at position `i`: it has yet to drain, or the idle connections
are no older than its bump. -/
def Bumped (g i : ℕ) (p : Pool) : Prop :=
  g ≤ p.sh.reconnectGen ∧ (p.ops[i]? = some .reconnectDrain ∨ IdleGens (g ≤ ·) p.sh)

lemma bumped_of_reconnect {i : ℕ} (hop : p.ops[i]? = some .reconnect)
    (hs : step o limit p (.run i .go) = some p') : Bumped p'.sh.reconnectGen i p' := by
  obtain ⟨op, op', sh, hop', hstep, rfl⟩ := run_moves hs
  obtain rfl : op = .reconnect := Option.some.inj (hop'.symm.trans hop)
  cases hstep
  exact ⟨Nat.le_refl _, .inl (List.getElem?_set_self (List.getElem?_eq_some_iff.mp hop).1)⟩

lemma Bumped.step {g i : ℕ} (h : Bumped g i p) (hfiled : Filed limit p) {a : Action}
    (hcur : parksCurrent p a = true) (hs : step o limit p a = some p') : Bumped g i p' := by
  obtain ⟨hgen, hcase⟩ := h
  cases step_moves hs with
  | starts | gives =>
    exact ⟨hgen, hcase.imp_left fun hi =>
      (List.getElem?_append_left (List.getElem?_eq_some_iff.mp hi).1).trans hi⟩
  | runs j ch op op' sh hop hstep =>
    refine ⟨?_, ?_⟩
    · rcases opStep_gen hstep with hg | ⟨-, -, hg⟩
      · exact hg ▸ hgen
      · exact hg ▸ Nat.le_succ_of_le hgen
    · rcases hcase with hi | hidle
      · by_cases hij : j = i
        · subst hij
          obtain rfl : op = .reconnectDrain := Option.some.inj (hop.symm.trans hi)
          exact .inr (idleGens_of_nil (opStep_reconnectDrain hstep))
        · exact .inl (by rwa [List.getElem?_set_ne hij])
      · exact .inr (idleGens_set hfiled hop hstep hcur hgen hidle)
  | ticks d => exact ⟨hgen, hcase⟩

/-- **`Reconnect` leaves nothing stale.**  In every run in which no `Release` parks a connection
after a `Reconnect` has overtaken its look at the generation: unless a `Reconnect` is between its
bump and its drain, every idle connection is recorded with the current generation; and a call
begun after a `Reconnect` has returned is handed no connection recorded with a generation before
that `Reconnect`'s. -/
theorem reconnect_leaves_nothing_stale (o : Options) (limit : ℕ) (p : Pool)
    (h : (machine o limit).Reach (fun p a => parksCurrent p a = true) p) :
    (.reconnectDrain ∉ p.ops →
      ∀ ic ∈ p.sh.idle, ∃ m, p.sh.connMeta ic.conn = some m ∧ m.gen = p.sh.reconnectGen) ∧
    (∀ i p₁ q r n ch r' k c, p.ops[i]? = some .reconnect →
      step o limit p (.run i .go) = some p₁ →
      ((machine o limit).startingAt p₁).Reach (fun p a => parksCurrent p a = true) q →
      q.ops[i]? = some .returned →
      ((machine o limit).startingAt q).Reach (fun p a => parksCurrent p a = true) r →
      q.ops.length ≤ n → step o limit r (.run n ch) = some r' →
      r'.sh.held = (k, c) :: r.sh.held →
      ∃ m, r'.sh.connMeta c = some m ∧ p₁.sh.reconnectGen ≤ m.gen) := by
  have hreach : (machine o limit).Reachable p := h.mono (fun _ _ _ => trivial)
  refine ⟨fun hno => (current_of_reach h).resolve_left hno, ?_⟩
  intro i p₁ q r n ch r' k c hop hbump hq hret hr hn hs hheld
  have hp₁ := reachable_step hreach hbump
  have hq' : (machine o limit).Reachable q := hp₁.trans hq fun _ _ _ => trivial
  have hr' : (machine o limit).Reachable r := hq'.trans hr fun _ _ _ => trivial
  have hbumped : Bumped p₁.sh.reconnectGen i q :=
    hq.invariant_startingAt hp₁ (bumped_of_reconnect hop hbump)
      fun _ _ _ hreach hI hC hs => hI.step (filed_of_reachable hreach) hC hs
  -- the `Reconnect` has returned, so it has drained
  have hidle : IdleGens (p₁.sh.reconnectGen ≤ ·) q.sh :=
    hbumped.2.resolve_left fun hi => by rw [hret] at hi; cases hi
  have hrenewed : Renewed limit p₁.sh.reconnectGen q.ops.length r := by
    refine hr.invariant_startingAt hq'
      ⟨filed_of_reachable hq', hbumped.1, hidle, fun j op hj hx => ?_⟩
      fun _ _ _ hreach hI hC hs => hI.step (reachable_accounted hreach) hC hs
    rw [List.getElem?_eq_none hj] at hx
    cases hx
  obtain ⟨op, op', sh, hop', hstep, rfl⟩ := run_moves hs
  exact (opStep_deals hstep).offered (hrenewed.offers n op hn hop') hheld

/-- A caller's connection is overtaken by a `Reconnect` on its way back. -/
def overtakenRelease : List Action :=
  [.acquire 1, .run 0 .go, .run 0 .go, .run 0 .ready, .run 0 .go, .run 0 .go, .run 0 .go,
    .run 0 (.dialOk 7), .run 0 .go, .run 0 .go, .run 0 .go, .release 1 7, .run 1 .go, .run 1 .go,
    .run 1 .go, .reconnect, .run 2 .go, .run 2 .go, .run 2 .go, .run 1 .go, .run 1 .go]

/-- Every call has returned, and the pool keeps a connection of a generation that is gone; the next
caller is handed it. -/
theorem stale_connection_is_parked :
    let pool := machine ⟨0, 0, 0, 0, 0, 0, 0, 0, false⟩ 1
    let next := [.acquire 2, .run 3 .go, .run 3 .go, .run 3 .ready, .run 3 .go, .run 3 .go,
      .run 3 .go, .run 3 .go]
    ∃ p q, pool.Reachable p ∧ p.ops = [.returned, .returned, .returned] ∧
      p.sh.idle.map IdleConn.conn = [7] ∧ (p.sh.connMeta 7).map ConnMeta.gen = some 0 ∧
      p.sh.reconnectGen = 1 ∧ pool.run p next = some q ∧ q.sh.held = [(2, 7)] ∧
      (q.sh.connMeta 7).map ConnMeta.gen = some 0 := by
  intro pool next
  have hrun : (pool.run new overtakenRelease).bind (fun p => (pool.run p next).map fun q =>
      decide (p.ops = [.returned, .returned, .returned] ∧ p.sh.idle.map IdleConn.conn = [7] ∧
        (p.sh.connMeta 7).map ConnMeta.gen = some 0 ∧ p.sh.reconnectGen = 1 ∧
        q.sh.held = [(2, 7)] ∧ (q.sh.connMeta 7).map ConnMeta.gen = some 0)) = some true := by
    decide
  obtain ⟨p, hp, hrest⟩ := Option.bind_eq_some_iff.mp hrun
  obtain ⟨q, hq, hview⟩ := Option.map_eq_some_iff.mp hrest
  obtain ⟨hops, hidle, hmeta, hgen, hheld, hmeta'⟩ := of_decide_eq_true hview
  exact ⟨p, q, Machine.reach_of_run rfl hp, hops, hidle, hmeta, hgen, hq, hheld, hmeta'⟩

/-- A connection dialed after a `Reconnect` comes back with nothing in its way. -/
def releaseAfterReconnect : List Action :=
  [.reconnect, .run 0 .go, .run 0 .go, .run 0 .go, .acquire 1, .run 1 .go, .run 1 .go,
    .run 1 .ready, .run 1 .go, .run 1 .go, .run 1 .go, .run 1 (.dialOk 7), .run 1 .go, .run 1 .go,
    .run 1 .go, .release 1 7, .run 2 .go, .run 2 .go, .run 2 .go, .run 2 .go, .run 2 .go]

theorem reconnect_leaves_nothing_stale_release_after :
    ∃ p, ((machine ⟨0, 0, 0, 0, 0, 0, 0, 0, false⟩ 1).guarded
        fun p a => parksCurrent p a = true).run
        new releaseAfterReconnect = some p ∧ p.sh.idle.map IdleConn.conn = [7] ∧
      p.sh.reconnectGen = 1 ∧ .reconnectDrain ∉ p.ops ∧
      ∀ ic ∈ p.sh.idle, ∃ m, p.sh.connMeta ic.conn = some m ∧ m.gen = p.sh.reconnectGen := by
  have hrun : (((machine ⟨0, 0, 0, 0, 0, 0, 0, 0, false⟩ 1).guarded
      fun p a => parksCurrent p a = true).run new releaseAfterReconnect).map
        (fun p => (p.sh.idle.map IdleConn.conn, p.sh.reconnectGen, p.ops)) =
      some ([7], 1, [.returned, .returned, .returned]) := by decide
  obtain ⟨p, hp, hview⟩ := Option.map_eq_some_iff.mp hrun
  simp only [Prod.mk.injEq] at hview
  obtain ⟨hidle, hgen, hops⟩ := hview
  have hno : .reconnectDrain ∉ p.ops := by simp [hops]
  exact ⟨p, hp, hidle, hgen, hno,
    (reconnect_leaves_nothing_stale _ 1 p (Machine.reach_of_guarded_run rfl hp)).1 hno⟩

end Pgman.Pool
