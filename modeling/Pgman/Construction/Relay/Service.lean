import Pgman.Construction.Relay.Discipline

/-!
# The quiet phases of a session

Two summaries of `step` for the phases in which little can happen to a connection, so that a
property of connections is checked against a few outcomes and not against every loop.

From the flush of a batch to its last reply, COPY included, the relay reads, writes, moves
the read deadline, and in the end keeps the connection, gives it back or discards it
(`service_step`, and `working_step` for all the phases of a session with a connection in
hand).  Before a connection is in hand the session is idle, or its `Acquire` checks
a connection, or `adoptBackend` begins (`approach_step`).
-/

namespace Pgman

/-- The connection whose batch is in flight. -/
def PC.service : PC → Option Conn
  | .feFlush c | .replies c | .clientFlush c _ | .copyIn c _ | .copyInFlush c _
  | .copyBoth c _ => some c
  | _ => none

/-- What may happen to the connection while input `i` is handled in flight. -/
def Act.plain (c : Conn) (i : Input) : Act → Prop
  | .setReadDeadline c' _ | .batchEnd c' _ => c' = c
  | .flush c' site _ | .flushErr c' site | .recvErr c' site =>
      c' = c ∧ (site = .reply ∨ site = .copyIn ∨ site = .copyBoth)
  | .recv c' site r _ => c' = c ∧ i = .reply r ∧ (site = .reply ∨ site = .copyBoth)
  | .send c' .client m => c' = c ∧ i = .client m
  | .send c' .synth _ => c' = c ∧ i = .client .terminate
  | .toClient _ | .flushClient _ => True
  | _ => False

/-- What a health check does with its connection. -/
def Act.probes (c : Conn) : Act → Prop
  | .setDeadline c' _ | .flush c' .health _ | .flushErr c' .health | .recvErr c' .health => c' = c
  | .send c' .health m => c' = c ∧ m = .query "SELECT 1"
  | .recv c' .health _ fate => c' = c ∧ fate = .consume
  | _ => False

attribute [local simp] Act.plain Act.probes

/-- Plain acts are about `c` or about nothing, and leave the lease alone. -/
lemma Act.plain.on {a : Act} {c : Conn} {i : Input} (h : a.plain c i) :
    a.on = none ∨ a.on = some c ∧ a.lease = none := by
  cases a with
  | setReadDeadline c' on => exact .inr ⟨congrArg some h, rfl⟩
  | batchEnd c' st => exact .inr ⟨congrArg some h, rfl⟩
  | flush c' site sent => exact .inr ⟨congrArg some h.1, rfl⟩
  | flushErr c' site => exact .inr ⟨congrArg some h.1, rfl⟩
  | recv c' site m fate => exact .inr ⟨congrArg some h.1, rfl⟩
  | recvErr c' site => exact .inr ⟨congrArg some h.1, rfl⟩
  | send c' src m =>
    cases src with
    | client => exact .inr ⟨congrArg some h.1, rfl⟩
    | synth => exact .inr ⟨congrArg some h.1, rfl⟩
    | _ => exact h.elim
  | toClient m => exact .inl rfl
  | flushClient ok => exact .inl rfl
  | _ => exact h.elim

lemma Act.probes.on {a : Act} {c : Conn} (h : a.probes c) : a.on = some c ∧ a.lease = none := by
  unfold Act.probes at h
  split at h <;> simp_all [Act.on, Act.lease]

namespace Relay

/-! ## A batch in flight -/

/-- How a step in flight of the session `sess` can end. -/
inductive ServiceEnd (sess : Session) (c : Conn) (i : Input) (r : Local × List Act) : Prop
  /-- The connection stays in hand. -/
  | stay (hsess : r.1.sess = sess) (hacts : ∀ a ∈ r.2, a.plain c i)
      (hpc : r.1.pc.service = some c ∨ r.1.pc = .outer (some c))
  /-- `release(true)`. -/
  | back (hsess : r.1.sess = sess) (acts : List Act) (hacts : ∀ a ∈ acts, a.plain c i)
      (h : r.2 = acts ++ [Act.setOwner c sess.id, .release c]) (hpc : r.1.pc = .outer none)
  /-- `release(false)`. -/
  | drop (hsess : r.1.sess = sess) (acts tail : List Act) (hacts : ∀ a ∈ acts, a.plain c i)
      (htail : ∀ a ∈ tail, a.on = none) (h : r.2 = acts ++ Act.discard c :: tail)
      (hpc : r.1.pc = .done ∨ r.1.pc = .outer none)

variable {opts : RuntimeOpts} {conns : Conn → BackendConn} {nextID : ℕ} {l : Local} {c : Conn}
  {i : Input} {r : Local × List Act}

/-- Something plain in front changes no ending. -/
lemma ServiceEnd.prepend {sess : Session} {acts : List Act} (hacts : ∀ a ∈ acts, a.plain c i)
    (h : ServiceEnd sess c i r) : ServiceEnd sess c i (r.1, acts ++ r.2) := by
  have hboth : ∀ {acts' : List Act}, (∀ a ∈ acts', a.plain c i) →
      ∀ a ∈ acts ++ acts', a.plain c i := by
    intro acts' h' a ha
    rcases List.mem_append.mp ha with ha | ha
    · exact hacts a ha
    · exact h' a ha
  cases h with
  | stay hs h1 hpc => exact .stay hs (hboth h1) hpc
  | back hs acts' h1 h2 hpc => exact .back hs (acts ++ acts') (hboth h1) (by simp [h2]) hpc
  | drop hs acts' tail h1 ht h2 hg =>
    exact .drop hs (acts ++ acts') tail (hboth h1) ht (by simp [h2]) hg

/-- A connection that is not kept is out of hand. -/
lemma hand_of_end (h : r.1.pc = .done ∨ r.1.pc = .outer none) : r.1.hand = none := by
  rcases h with h | h <;> simp [Local.hand, Local.grip, h, PC.grip, Grip.conn]

/-- One plain act in front. -/
lemma ServiceEnd.cons {sess : Session} {a : Act} (ha : a.plain c i)
    (h : ServiceEnd sess c i r) : ServiceEnd sess c i (r.1, a :: r.2) :=
  h.prepend (show ∀ a' ∈ [a], a'.plain c i by simpa using ha)

lemma abandon_end (l : Local) (c : Conn) (i : Input) : ServiceEnd l.sess c i (abandon l c) :=
  .drop rfl [.setReadDeadline c false] [] (by simp [Act.plain]) (by simp) rfl (.inl rfl)

lemma endBatch_end (l : Local) (c : Conn) (i : Input) (st : Char) :
    ServiceEnd l.sess c i (endBatch l c st) := by
  have hmark : ∀ a ∈ [Act.setReadDeadline c false, .batchEnd c st], a.plain c i := by
    simp [Act.plain]
  have hback : ∀ l' : Local, l'.sess = l.sess → ∀ reusable, ServiceEnd l.sess c i
      ({ l' with pc := .outer none }, [Act.setReadDeadline c false, .batchEnd c st] ++
        release l' c reusable) := by
    intro l' hl' reusable
    cases reusable
    · exact .drop hl' [.setReadDeadline c false, .batchEnd c st, .setReadDeadline c false] []
        (by simp [Act.plain]) (by simp) rfl (.inr rfl)
    · exact .back hl' [.setReadDeadline c false, .batchEnd c st, .setReadDeadline c false]
        (by simp [Act.plain]) (by simp [release, hl']) rfl
  unfold endBatch
  simp only
  split
  · exact hback { l with lastTxStatus := st } rfl _
  · exact .stay rfl hmark (.inr rfl)
  · split
    · exact hback { l with lastTxStatus := st } rfl _
    · exact .stay rfl hmark (.inr rfl)

lemma afterReply_end (l : Local) (c : Conn) (i : Input) (m : BackendMsg) :
    ServiceEnd l.sess c i (afterReply l c m) := by
  unfold afterReply
  split
  · exact .stay rfl (by simp [Act.plain]) (.inl rfl)
  · exact .stay rfl (by simp [Act.plain]) (.inl rfl)
  · exact endBatch_end l c i _
  · exact .stay rfl (by simp) (.inl rfl)

lemma onReply_end (l : Local) (c : Conn) (m : BackendMsg) :
    ServiceEnd l.sess c (.reply m) (onReply l c m) := by
  unfold onReply
  split
  · exact .stay rfl (by simp [Act.plain]) (.inl rfl)
  · refine .stay rfl (by simp [Act.plain]) (.inl ?_)
    simp only
    split <;> rfl

lemma conclude_end (l : Local) (c : Conn) (i : Input) (st : CopyBoth) :
    ServiceEnd l.sess c i (CopyBoth.conclude l c st) := by
  have hclear : ∀ a ∈ (if st.forced then [Act.setReadDeadline c false] else []), a.plain c i := by
    split <;> simp [Act.plain]
  unfold CopyBoth.conclude
  split
  · simp only
    split
    · exact .stay rfl hclear (.inl rfl)
    · exact (abandon_end l c i).prepend hclear
  · exact .stay rfl (by simp) (.inl rfl)

lemma copyBothStep_end {st : CopyBoth} (h : copyBothStep conns l c st i = some r) :
    ServiceEnd l.sess c i r := by
  unfold copyBothStep at h
  split at h
  · cases h
    refine .stay rfl ?_ (.inl rfl)
    simp only [CopyBoth.onClient]
    split <;> simp [Act.plain]
  · cases h
    exact conclude_end l c _ _
  · cases h
    refine (conclude_end l c _ _).cons ?_
    split <;> simp [Act.plain]
  · cases h
    exact .stay rfl (by simp [Act.plain]) (.inl rfl)
  · cases h
    exact (conclude_end l c _ _).cons (by simp [Act.plain])
  · cases h
    exact (conclude_end l c _ _).cons (by simp [Act.plain])
  · split at h <;> cases h
    exact .stay rfl (by simp [Act.plain]) (.inl rfl)
  · cases h

lemma copyInStep_end {pc : PC} (h : copyInStep conns l c pc i = some r) :
    ServiceEnd l.sess c i r := by
  unfold copyInStep at h
  split at h
  · cases h
    exact abandon_end l c _
  · split at h <;> cases h
    · exact .stay rfl (by simp [Act.plain]) (.inl rfl)
    · refine .stay rfl (by simp [Act.plain]) (.inl ?_)
      simp only
      split <;> rfl
    · exact .stay rfl (by simp [Act.plain]) (.inl rfl)
    · exact .stay rfl (by simp [Act.plain]) (.inl rfl)
    · exact .stay rfl (by simp [Act.plain]) (.inl rfl)
  · cases h
    refine .stay rfl (by simp [Act.plain]) (.inl ?_)
    simp only
    split <;> rfl
  · cases h
    exact (abandon_end l c _).cons (by simp [Act.plain])
  · cases h

lemma replyStep_end {pc : PC} (h : replyStep opts l c pc i = some r) :
    ServiceEnd l.sess c i r := by
  unfold replyStep at h
  split at h
  · cases h
    exact onReply_end l c _
  · cases h
    exact (abandon_end l c _).cons (by simp [Act.plain])
  · split at h <;> cases h
    exact .drop rfl [.recvErr c .reply, .setReadDeadline c false] [_] (by simp [Act.plain])
      (by simp [Act.on]) rfl (.inl rfl)
  · cases h
    exact (afterReply_end { l with pending := 0 } c _ _).cons trivial
  · cases h
    exact (abandon_end { l with pending := 0 } c _).cons trivial
  · cases h

lemma feFlush_end (h : batchStep opts conns l c (.feFlush c) i = some r) :
    ServiceEnd l.sess c i r := by
  unfold batchStep at h
  split at h
  · simp_all
  · simp_all
  · cases h
    refine .stay rfl ?_ (.inl rfl)
    split <;> simp [Act.plain]
  · cases h
    exact (abandon_end l c _).cons (by simp [Act.plain])
  · cases h

/-- **A step in flight** keeps the session as it is, does plain things to the connection, and
keeps, gives back or discards it. -/
theorem service_step (hc : l.pc.service = some c) (h : step opts conns nextID l i = some r) :
    ServiceEnd l.sess c i r := by
  unfold step at h
  unfold PC.service at hc
  split at h <;> simp_all only [Option.some.injEq, reduceCtorEq]
  · exact feFlush_end h
  · exact replyStep_end h
  · exact replyStep_end h
  · exact copyInStep_end h
  · exact copyInStep_end h
  · exact copyBothStep_end h

/-- The phases of a session with a connection in hand. -/
inductive Working (opts : RuntimeOpts) (conns : Conn → BackendConn) (nextID : ℕ) (l : Local)
    (c : Conn) (i : Input) (r : Local × List Act) : Prop
  | outer (hpc : l.pc = .outer (some c)) (h : outerStep opts conns l (some c) i = some r)
  | reset (msg : FrontendMsg)
      (hpc : l.pc = .resetArm c msg ∨ l.pc = .resetFlush c msg ∨ l.pc = .resetRecv c msg)
      (h : resetStep opts conns l c msg l.pc i = some r)
  | params (msg : FrontendMsg) (hpc : l.pc = .paramsFlush c msg ∨ l.pc = .paramsRecv c msg)
      (h : paramsStep conns l c msg l.pc i = some r)
  | batch (hpc : l.pc = .batch c) (h : batchStep opts conns l c (.batch c) i = some r)
  | service (hpc : l.pc.service = some c) (h : ServiceEnd l.sess c i r)

/-- **A step with a connection in hand**, by phase. -/
theorem working_step (hg : l.grip = .holding c) (h : step opts conns nextID l i = some r) :
    Working opts conns nextID l c i r := by
  have hstep := h
  unfold step at h
  unfold Local.grip at hg
  cases hpc : l.pc <;> simp only [hpc, PC.grip, Grip.holding.injEq, reduceCtorEq] at h hg
  case outer backend =>
    cases backend <;> simp only [Grip.holding.injEq, reduceCtorEq] at hg
    subst hg
    exact .outer hpc h
  case resetArm c' msg => exact hg ▸ .reset msg (by simp [hpc]) (by rw [hpc]; exact h)
  case resetFlush c' msg => exact hg ▸ .reset msg (by simp [hpc]) (by rw [hpc]; exact h)
  case resetRecv c' msg => exact hg ▸ .reset msg (by simp [hpc]) (by rw [hpc]; exact h)
  case paramsFlush c' msg => exact hg ▸ .params msg (by simp [hpc]) (by rw [hpc]; exact h)
  case paramsRecv c' msg => exact hg ▸ .params msg (by simp [hpc]) (by rw [hpc]; exact h)
  case batch => exact hg ▸ .batch hpc h
  all_goals
    have hs : l.pc.service = some c := by simp [hpc, PC.service, hg]
    exact .service hs (service_step hs hstep)

/-! ## Before a connection is in hand -/

/-- How a step without a connection in hand can end. -/
inductive Approach (opts : RuntimeOpts) (conns : Conn → BackendConn) (nextID : ℕ) (l : Local)
    (i : Input) (r : Local × List Act) : Prop
  | idle (hg : l.grip = .loose) (hsess : r.1.sess = l.sess) (hacts : ∀ a ∈ r.2, a.on = none)
      (hr : r.1.grip = .loose)
  /-- `Acquire` pops a connection that wants a health check. -/
  | pop (c : Conn) (msg : FrontendMsg) (hg : l.grip = .loose) (hi : i = .popped c)
      (hr : r = ({ l with pc := .checkArm c msg }, [.take c]))
  /-- `Acquire` returns a connection without one. -/
  | acquire (c : Conn) (msg : FrontendMsg) (hg : l.grip = .loose) (hi : i = .acquired c)
      (hr : r = ((adopt opts (conns c) nextID l c msg).1,
        .acquire c :: (adopt opts (conns c) nextID l c msg).2))
  /-- The health check goes on. -/
  | probe (c : Conn) (hg : l.grip = .checking c) (hsess : r.1.sess = l.sess)
      (hacts : ∀ a ∈ r.2, a.probes c) (hr : r.1.grip = .checking c)
  /-- The health check failed. -/
  | reject (c : Conn) (acts : List Act) (hg : l.grip = .checking c) (hsess : r.1.sess = l.sess)
      (hacts : ∀ a ∈ acts, a.probes c) (h : r.2 = acts ++ [.retire c]) (hr : r.1.grip = .loose)
  /-- The health check passed, and `Acquire` returns the connection. -/
  | passed (c : Conn) (msg : FrontendMsg) (acts : List Act) (hg : l.grip = .checking c)
      (hacts : ∀ a ∈ acts, a.probes c)
      (hr : r = ((adopt opts (conns c) nextID l c msg).1,
        acts ++ Act.acquire c :: (adopt opts (conns c) nextID l c msg).2))

lemma failQuery_idle (l : Local) (msg : FrontendMsg) (code message : String) :
    (failQuery l msg code message).1.sess = l.sess ∧
      (∀ a ∈ (failQuery l msg code message).2, a.on = none) ∧
      (failQuery l msg code message).1.grip = .loose := by
  unfold failQuery
  split
  · exact ⟨rfl, by simp [reportFailure, Act.on], rfl⟩
  · exact ⟨rfl, by simp, rfl⟩

lemma acquireStep_approach {msg : FrontendMsg} (hg : l.grip = .loose)
    (h : acquireStep opts conns nextID l msg i = some r) : Approach opts conns nextID l i r := by
  have hfail : ∀ code message, Approach opts conns nextID l i (failQuery l msg code message) := by
    intro code message
    obtain ⟨h1, h2, h3⟩ := failQuery_idle l msg code message
    exact .idle hg h1 h2 h3
  unfold acquireStep at h
  split at h
  · cases h; exact .pop _ msg hg rfl rfl
  · cases h; exact .acquire _ msg hg rfl rfl
  · split at h <;> cases h
    · exact .idle hg rfl (by simp [shutdownReport, Act.on]) rfl
    · exact .idle hg rfl (by simp [shutdownReport, Act.on]) rfl
    · exact hfail _ _
    · exact hfail _ _
  · cases h

lemma checkStep_approach {msg : FrontendMsg} {pc : PC} (hg : l.grip = .checking c)
    (h : checkStep opts conns nextID l c msg pc i = some r) :
    Approach opts conns nextID l i r := by
  unfold checkStep at h
  split at h
  · cases h; exact .probe c hg rfl (by simp [Act.probes]) rfl
  · cases h; exact .reject c [] hg rfl (by simp) rfl rfl
  · cases h; exact .probe c hg rfl (by simp [Act.probes]) rfl
  · cases h; exact .reject c [_, _] hg rfl (by simp [Act.probes]) rfl rfl
  · cases h; exact .reject c [_, _] hg rfl (by simp [Act.probes]) rfl rfl
  · split at h <;> cases h
    · exact .reject c [_, _] hg rfl (by simp [Act.probes]) rfl rfl
    · exact .passed c msg [_, _] hg (by simp [Act.probes]) rfl
    · exact .probe c hg rfl (by simp [Act.probes]) rfl
  · cases h

lemma failStep_approach {pc : PC} (hg : l.grip = .loose) (h : failStep l pc i = some r) :
    Approach opts conns nextID l i r := by
  unfold failStep at h
  split at h
  · cases h; exact .idle hg rfl (by simp) rfl
  · split at h
    · cases h; exact .idle hg rfl (by simp) rfl
    · split at h <;> cases h
      · exact .idle hg rfl (by simp [reportFailure, Act.on]) rfl
      · exact .idle hg rfl (by simp) rfl
  · cases h
    refine .idle hg rfl (by simp [Act.on]) ?_
    simp only [Local.grip]
    split <;> rfl
  · cases h

/-- **A step without a connection in hand** is idle, is part of a health check, or adopts. -/
theorem approach_step (hg : ∀ c, l.grip ≠ .holding c) (h : step opts conns nextID l i = some r) :
    Approach opts conns nextID l i r := by
  unfold step at h
  cases hpc : l.pc with
  | outer backend =>
    rw [hpc] at h
    cases backend with
    | some c => exact (hg c (congrArg PC.grip hpc)).elim
    | none =>
      have hloose : l.grip = .loose := congrArg PC.grip hpc
      simp only [outerStep] at h
      split at h
      · obtain ⟨t, -, rfl⟩ := Option.map_eq_some_iff.mp h
        exact .idle hloose rfl (by simp [leave, Act.on]) rfl
      · cases h; exact .idle hloose rfl (by simp [leave]) rfl
      · cases h; exact .idle hloose rfl (by simp [leave]) rfl
      · cases h; exact .idle hloose rfl (by simp) rfl
      · cases h
  | drainCheck msg =>
    rw [hpc] at h
    have hloose : l.grip = .loose := congrArg PC.grip hpc
    simp only [drainCheckStep] at h
    split at h <;> cases h
    · exact .idle hloose rfl (by simp [shutdownReport, Act.on]) rfl
    · exact .idle hloose rfl (by simp) rfl
  | acquiring msg =>
    rw [hpc] at h
    exact acquireStep_approach (congrArg PC.grip hpc) h
  | checkArm c msg =>
    rw [hpc] at h
    exact checkStep_approach (congrArg PC.grip hpc) h
  | checkFlush c msg =>
    rw [hpc] at h
    exact checkStep_approach (congrArg PC.grip hpc) h
  | checkRecv c msg =>
    rw [hpc] at h
    exact checkStep_approach (congrArg PC.grip hpc) h
  | drain code message =>
    rw [hpc] at h
    exact failStep_approach (congrArg PC.grip hpc) h
  | failFlush =>
    rw [hpc] at h
    exact failStep_approach (congrArg PC.grip hpc) h
  | done => rw [hpc] at h; cases h
  | _ => exact (hg _ (congrArg PC.grip hpc)).elim

/-- Only a session in `Acquire` is handed a connection. -/
lemma acquiring_of_conn (hc : i.conn = some c) (h : step opts conns nextID l i = some r) :
    ∃ msg, l.pc = .acquiring msg ∧ acquireStep opts conns nextID l msg i = some r := by
  unfold step at h
  cases hpc : l.pc with
  | acquiring msg => exact ⟨msg, rfl, by simpa only [hpc] using h⟩
  | _ =>
    cases i <;> simp only [Input.conn, reduceCtorEq] at hc <;>
      simp [hpc, outerStep, drainCheckStep, checkStep, resetStep, paramsStep, failStep, batchStep,
        replyStep, copyInStep, copyBothStep] at h

end Relay

end Pgman
