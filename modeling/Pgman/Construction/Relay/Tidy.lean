import Pgman.Construction.Relay.Replay
import Pgman.Construction.Relay.Served
import Pgman.Construction.Wire.Cycle

/-!
# Tidy runs

The relay counts on a rhythm: it sends one batch, reads up to one `ReadyForQuery`, and only
then decides what becomes of the connection.  This module follows the write buffer and the
server's debt through that rhythm, as a proof outline for links.

The rhythm can be broken from the client's side in three ways that the relay lets through: a
client that leaves in the middle of a batch, a `FunctionCall`, and messages that do not belong
into a COPY.  `Orderly` steps are those without them.

The transaction status is followed along with the debt.  `ok` is what is wanted of the status
of a connection in the pool; the proxy's own queries have to keep it.
-/

namespace Pgman

/-! ## Orderly steps -/

/-- The inputs that keep the rhythm. -/
def OrderlyInput (l : Local) (i : Input) : Prop :=
  match l.pc, i with
  | .outer _, .client m => m ≠ .functionCall
  | .batch _, .client m => m ≠ .functionCall ∧ (m = .terminate → l.lastTxStatus ≠ 'I')
  | .batch _, .clientErr => l.lastTxStatus ≠ 'I'
  | .copyIn _ _, .client m | .copyBoth _ _, .client m => m.isSilent = true ∨ m = .terminate
  | _, _ => True

instance (l : Local) (i : Input) : Decidable (OrderlyInput l i) := by
  unfold OrderlyInput
  split <;> infer_instance

/-- No client leaves in the middle of a batch that the relay takes for clean, calls a function
through the fast path, or sends anything but copy messages during a COPY. -/
def Orderly (w : Served) : Event → Prop
  | .world (.relay k i) => OrderlyInput (w.loc k) i
  | _ => True

instance (w : Served) (e : Event) : Decidable (Orderly w e) := by
  unfold Orderly
  split <;> infer_instance

/-- The client message a program point keeps for later. -/
def PC.msg : PC → Option FrontendMsg
  | .drainCheck msg | .acquiring msg | .checkArm _ msg | .checkFlush _ msg | .checkRecv _ msg
  | .resetArm _ msg | .resetFlush _ msg | .resetRecv _ msg | .paramsFlush _ msg
  | .paramsRecv _ msg => some msg
  | _ => none

lemma PC.msg_of_service {pc : PC} {c : Conn} (h : pc.service = some c) : pc.msg = none := by
  cases pc <;> first | rfl | cases h

namespace Relay

variable {opts : RuntimeOpts} {conns : Conn → BackendConn} {nextID : ℕ} {l : Local} {c : Conn}
  {msg m : FrontendMsg} {stmts : BackendPSCache} {i : Input} {r : Local × List Act}

lemma forward_msg (h : forward l c stmts msg = .ok r) : r.1.pc.msg = none := by
  unfold forward at h
  split at h <;> cases h
  simp only
  split <;> rfl

lemma beginBatch_msg (l : Local) (c : Conn) (stmts : BackendPSCache) (msg : FrontendMsg) :
    (beginBatch l c stmts msg).1.pc.msg = none := by
  unfold beginBatch
  split
  · rename_i h
    exact forward_msg h
  · rfl

lemma replayParams_msg (l : Local) (c : Conn) (msg : FrontendMsg) :
    (replayParams l c msg).1.pc.msg = none ∨ (replayParams l c msg).1.pc.msg = some msg := by
  unfold replayParams
  split
  · exact .inl (beginBatch_msg l c ∅ msg)
  · exact .inr rfl

lemma adopt_msg (opts : RuntimeOpts) (b : BackendConn) (nextID : ℕ) (l : Local) (c : Conn)
    (msg : FrontendMsg) : (adopt opts b nextID l c msg).1.pc.msg = none ∨
      (adopt opts b nextID l c msg).1.pc.msg = some msg := by
  unfold adopt adoptAs
  simp only
  split
  · exact .inl (beginBatch_msg _ c _ msg)
  · split
    · exact .inr rfl
    · exact replayParams_msg _ c msg

lemma failQuery_msg (l : Local) (msg : FrontendMsg) (code message : String) :
    (failQuery l msg code message).1.pc.msg = none := by
  unfold failQuery
  split <;> rfl

/-- A message kept for later is the one just read, or was kept before. -/
def MsgFrom (l : Local) (i : Input) (r : Local × List Act) : Prop :=
  ∀ m, r.1.pc.msg = some m → l.pc.msg = some m ∨ i = .client m ∧ ∃ backend, l.pc = .outer backend

lemma MsgFrom.of_none (h : r.1.pc.msg = none) : MsgFrom l i r := by
  intro m hm
  simp [h] at hm

lemma MsgFrom.of_same (hl : l.pc.msg = some msg)
    (h : r.1.pc.msg = none ∨ r.1.pc.msg = some msg) : MsgFrom l i r := by
  intro m hm
  rcases h with h | h
  · simp [h] at hm
  · exact .inl (hl.trans (h.symm.trans hm))

lemma ServiceEnd.msgFrom {sess : Session} (h : ServiceEnd sess c i r) : MsgFrom l i r := by
  refine .of_none ?_
  cases h with
  | stay _ _ hpc =>
    rcases hpc with hpc | hpc
    · exact PC.msg_of_service hpc
    · simp [hpc, PC.msg]
  | back _ _ _ _ hpc => simp [hpc, PC.msg]
  | drop _ _ _ _ _ _ hpc => rcases hpc with hpc | hpc <;> simp [hpc, PC.msg]

lemma outerStep_msgFrom {backend : Option Conn} (hl : l.pc = .outer backend)
    (h : outerStep opts conns l backend i = some r) : MsgFrom l i r := by
  unfold outerStep at h
  split at h
  · obtain ⟨t, -, rfl⟩ := Option.map_eq_some_iff.mp h
    exact .of_none rfl
  · cases h; exact .of_none rfl
  · cases h; exact .of_none rfl
  · split at h <;> cases h
    · intro m hm
      simp only [PC.msg, Option.some.injEq] at hm
      exact .inr ⟨by rw [hm], _, hl⟩
    · exact .of_none (beginBatch_msg l _ _ _)
  · cases h

lemma resetStep_msgFrom (hl : l.pc.msg = some msg)
    (h : resetStep opts conns l c msg l.pc i = some r) : MsgFrom l i r := by
  unfold resetStep at h
  split at h
  · cases h; exact .of_same hl (.inr rfl)
  · cases h; exact .of_none (failQuery_msg l msg _ _)
  · cases h; exact .of_same hl (.inr rfl)
  · cases h; exact .of_none (failQuery_msg l msg _ _)
  · cases h; exact .of_none (failQuery_msg l msg _ _)
  · split at h <;> cases h
    · exact .of_none (failQuery_msg l msg _ _)
    · exact .of_same hl (replayParams_msg l c msg)
    · exact .of_same hl (.inr rfl)
  · cases h

lemma paramsStep_msgFrom (hl : l.pc.msg = some msg)
    (h : paramsStep conns l c msg l.pc i = some r) : MsgFrom l i r := by
  unfold paramsStep at h
  split at h
  · cases h; exact .of_same hl (.inr rfl)
  · cases h; exact .of_none (failQuery_msg l msg _ _)
  · cases h; exact .of_none (failQuery_msg l msg _ _)
  · split at h <;> cases h
    · exact .of_none (failQuery_msg l msg _ _)
    · exact .of_none (beginBatch_msg l c ∅ msg)
    · exact .of_same hl (.inr rfl)
  · cases h

lemma batch_msgFrom (h : batchStep opts conns l c (.batch c) i = some r) : MsgFrom l i r := by
  unfold batchStep at h
  split at h
  · cases h; exact .of_none rfl
  · split at h
    · cases h; exact .of_none rfl
    · split at h <;> cases h
      · rename_i hf
        exact .of_none (forward_msg hf)
      · exact .of_none rfl
  · simp_all
  · simp_all
  · cases h

lemma acquireStep_msgFrom (hl : l.pc.msg = some msg)
    (h : acquireStep opts conns nextID l msg i = some r) : MsgFrom l i r := by
  unfold acquireStep at h
  split at h
  · cases h; exact .of_same hl (.inr rfl)
  · cases h; exact .of_same hl (adopt_msg opts _ nextID l _ msg)
  · split at h <;> cases h
    · exact .of_none rfl
    · exact .of_none rfl
    · exact .of_none (failQuery_msg l msg _ _)
    · exact .of_none (failQuery_msg l msg _ _)
  · cases h

lemma checkStep_msgFrom {pc : PC} (hl : l.pc.msg = some msg)
    (h : checkStep opts conns nextID l c msg pc i = some r) : MsgFrom l i r := by
  unfold checkStep at h
  split at h
  · cases h; exact .of_same hl (.inr rfl)
  · cases h; exact .of_same hl (.inr rfl)
  · cases h; exact .of_same hl (.inr rfl)
  · cases h; exact .of_same hl (.inr rfl)
  · cases h; exact .of_same hl (.inr rfl)
  · split at h <;> cases h
    · exact .of_same hl (.inr rfl)
    · exact .of_same hl (adopt_msg opts _ nextID l c msg)
    · exact .of_same hl (.inr rfl)
  · cases h

lemma failStep_msgFrom {pc : PC} (h : failStep l pc i = some r) : MsgFrom l i r := by
  unfold failStep at h
  split at h
  · cases h; exact .of_none rfl
  · split at h
    · cases h; exact .of_none rfl
    · split at h <;> cases h <;> exact .of_none rfl
  · cases h
    refine .of_none ?_
    simp only
    split <;> rfl
  · cases h

lemma step_msgFrom (h : step opts conns nextID l i = some r) : MsgFrom l i r := by
  have hstep := h
  by_cases hg : ∃ c, l.grip = .holding c
  · obtain ⟨c, hg⟩ := hg
    cases working_step hg h with
    | outer hpc h => exact outerStep_msgFrom hpc h
    | reset msg hpc h =>
      exact resetStep_msgFrom (by rcases hpc with h | h | h <;> simp [h, PC.msg]) h
    | params msg hpc h => exact paramsStep_msgFrom (by rcases hpc with h | h <;> simp [h, PC.msg]) h
    | batch _ h => exact batch_msgFrom h
    | service _ h => exact h.msgFrom
  · unfold step at h
    cases hpc : l.pc with
    | outer backend => rw [hpc] at h; exact outerStep_msgFrom hpc h
    | drainCheck msg =>
      rw [hpc] at h
      simp only [drainCheckStep] at h
      split at h <;> cases h
      · exact .of_none rfl
      · exact .of_same (by rw [hpc]; rfl) (.inr rfl)
    | acquiring msg => rw [hpc] at h; exact acquireStep_msgFrom (by rw [hpc]; rfl) h
    | checkArm c msg => rw [hpc] at h; exact checkStep_msgFrom (by rw [hpc]; rfl) h
    | checkFlush c msg => rw [hpc] at h; exact checkStep_msgFrom (by rw [hpc]; rfl) h
    | checkRecv c msg => rw [hpc] at h; exact checkStep_msgFrom (by rw [hpc]; rfl) h
    | drain code message => rw [hpc] at h; exact failStep_msgFrom h
    | failFlush => rw [hpc] at h; exact failStep_msgFrom h
    | done => rw [hpc] at h; cases h
    | _ => exact (hg ⟨_, congrArg PC.grip hpc⟩).elim

end Relay

/-! ## The outline -/

section Outline

variable (quiet : String → Bool) (ok : Char → Prop)

/-- Nothing buffered, nothing owed, and a status to go back to the pool with. -/
def Idle (buf : List (Source × FrontendMsg)) (t : Server) : Prop :=
  buf = [] ∧ t.Settled ∧ ok t.reported

/-- Write buffer and server at each point of the program. -/
def tidyAt (l : Local) (buf : List (Source × FrontendMsg)) (t : Server) : Prop :=
  match l.pc with
  | .outer _ => buf = [] ∧ t.Settled ∧ t.reported = l.lastTxStatus
  | .checkArm _ _ | .resetArm _ _ => Idle ok buf t
  | .checkFlush _ _ | .resetFlush _ _ | .paramsFlush _ _ =>
      (∃ src sql, buf = [(src, .query sql)] ∧ Server.Keeps quiet ok sql) ∧ t.Settled ∧
        ok t.reported
  | .checkRecv _ _ | .resetRecv _ _ | .paramsRecv _ _ => buf = [] ∧ t.Probing quiet ok
  | .batch _ => (∀ e ∈ buf, e.2.endsCycle = false) ∧ t.Settled
  | .feFlush _ =>
      (∃ es e, buf = es ++ [e] ∧ (∀ e ∈ es, e.2.endsCycle = false) ∧
        isTerminalMessage e.2 = true) ∧ t.Settled
  | .replies _ => buf = [] ∧ t.InFlight
  | .clientFlush _ r =>
      buf = [] ∧ (∀ st, r = .readyForQuery st → t.Settled ∧ t.reported = st) ∧
        (r.isReady = false → t.InFlight)
  | .copyIn _ _ | .copyInFlush _ _ => (∀ e ∈ buf, e.2.isSilent = true) ∧ t.InFlight
  | .copyBoth _ st =>
      (∀ e ∈ buf, e.2.isSilent = true) ∧
        ((∀ what, st.clientPump ≠ .flushing what) → buf = []) ∧ t.InFlight
  | _ => True

/-- Messages with the session that sent them. -/
abbrev Signed := List (Caller × Source × FrontendMsg)

/-- What an act does to the messages sent and not flushed. -/
def Signed.next (s : Signed) (e : Caller × Act) : Signed :=
  match e.2 with
  | .send _ src m => s ++ [(e.1, src, m)]
  | .flush _ _ _ | .flushErr _ _ => []
  | _ => s

/-- The messages sent on a connection since its last flush. -/
def unflushed (c : Conn) (log : List (Caller × Act)) : Signed :=
  log.foldl (fun s e => if e.2.on = some c then s.next e else s) []

/-- A buffer filled by one session. -/
def signed (k : Caller) (buf : List (Source × FrontendMsg)) : Signed := buf.map fun e => (k, e)

/-- A flush writes out the buffer, and nothing is buffered when a connection goes back. -/
def Act.Clears (buf : List (Source × FrontendMsg)) : Act → Prop
  | .flush _ _ delivered => delivered = buf
  | .release _ => buf = []
  | _ => True

/-- The outline: what is in the pool is idle, and what is in a buffer was sent by the session
that has the connection. -/
def tidiness : Outline Caller Local Link Act Signed where
  init := []
  next := Signed.next
  good s e := ∃ buf, s = signed e.1 buf ∧ e.2.Clears buf
  free b s := s = [] ∧ Idle ok b.conn.wbuf b.server
  held k l b s := s = signed k b.conn.wbuf ∧ tidyAt quiet ok l b.conn.wbuf b.server
  gone _ _ := True

variable {quiet ok} {k : Caller} {l l' : Local} {c : Conn} {a : Act} {b : Link} {p : Place Caller}
  {msg : FrontendMsg} {acts : List Act} {opts : RuntimeOpts} {stmts : BackendPSCache}
  {r : Local × List Act} {i : Input} {t : Server}

/-- A local step, on a connection whose buffer `k` has filled. -/
abbrev Tidies (quiet : String → Bool) (ok : Char → Prop) (k : Caller) (l : Local)
    (acts : List Act) (c : Conn) (p : Place Caller) (b : Link) : Prop :=
  Outline.LocalStep servedSem (tidiness quiet ok) Local.hand k l acts c p b (signed k b.conn.wbuf)

lemma signed_next (k : Caller) (b : BackendConn) (a : Act) :
    (signed k b.wbuf).next (k, a) = signed k (b.after a).wbuf := by
  cases a <;> simp [Signed.next, signed, BackendConn.after]

lemma Tidies.cons (hon : a.on = some c) (hclears : a.Clears b.conn.wbuf)
    (h : Tidies quiet ok k l acts c (LeaseSem.moved k p a.lease) (b.after a)) :
    Tidies quiet ok k l (a :: acts) c p b := by
  refine Outline.LocalStep.cons hon ⟨_, rfl, hclears⟩ ?_
  rw [show (tidiness quiet ok).next (signed k b.conn.wbuf) (k, a) = _ from signed_next k b.conn a]
  exact h

lemma Tidies.skip (hon : a.on = none) (h : Tidies quiet ok k l acts c p b) :
    Tidies quiet ok k l (a :: acts) c p b :=
  Outline.LocalStep.skip hon h

lemma Tidies.keeps (h : tidyAt quiet ok l b.conn.wbuf b.server) :
    Tidies quiet ok k l [] c (.held k) b :=
  Outline.LocalStep.keeps ⟨rfl, h⟩

lemma Tidies.returns (hl : l.hand = none) (h : Idle ok b.conn.wbuf b.server) :
    Tidies quiet ok k l [] c .pooled b :=
  Outline.LocalStep.returns hl ⟨by rw [h.1]; rfl, h⟩

lemma Tidies.discard (hl : l.hand = none) {tail : List Act} (htail : ∀ a ∈ tail, a.on = none) :
    Tidies quiet ok k l (.discard c :: tail) c (.held k) b :=
  .cons rfl trivial (.idle htail (.drops hl trivial))

/-- What the server does on its own is fine at every point. -/
lemma tidyAt_move {mv : ServerMove} {buf : List (Source × FrontendMsg)} {t' : Server}
    (h : tidyAt quiet ok l buf t) (hm : t.move quiet mv = some t') : tidyAt quiet ok l buf t' := by
  have hsettled : t.Settled → t'.Settled ∧ t'.reported = t.reported := fun hs => hs.move hm
  unfold tidyAt at h ⊢
  split at h
  · obtain ⟨h1, h2⟩ := hsettled h.2.1
    exact ⟨h.1, h1, h2.trans h.2.2⟩
  · obtain ⟨h1, h2⟩ := hsettled h.2.1
    exact ⟨h.1, h1, h2 ▸ h.2.2⟩
  · obtain ⟨h1, h2⟩ := hsettled h.2.1
    exact ⟨h.1, h1, h2 ▸ h.2.2⟩
  · obtain ⟨h1, h2⟩ := hsettled h.2.1
    exact ⟨h.1, h1, h2 ▸ h.2.2⟩
  · obtain ⟨h1, h2⟩ := hsettled h.2.1
    exact ⟨h.1, h1, h2 ▸ h.2.2⟩
  · obtain ⟨h1, h2⟩ := hsettled h.2.1
    exact ⟨h.1, h1, h2 ▸ h.2.2⟩
  · exact ⟨h.1, h.2.move hm⟩
  · exact ⟨h.1, h.2.move hm⟩
  · exact ⟨h.1, h.2.move hm⟩
  · exact ⟨h.1, (hsettled h.2).1⟩
  · exact ⟨h.1, (hsettled h.2).1⟩
  · exact ⟨h.1, h.2.move hm⟩
  · refine ⟨h.1, fun st hst => ?_, fun hr => (h.2.2 hr).move hm⟩
    obtain ⟨h1, h2⟩ := hsettled (h.2.1 st hst).1
    exact ⟨h1, h2.trans (h.2.1 st hst).2⟩
  · exact ⟨h.1, h.2.move hm⟩
  · exact ⟨h.1, h.2.move hm⟩
  · exact ⟨h.1, h.2.1, h.2.2.move hm⟩
  · trivial

lemma Idle.move {mv : ServerMove} {buf : List (Source × FrontendMsg)} {t' : Server}
    (h : Idle ok buf t) (hm : t.move quiet mv = some t') : Idle ok buf t' := by
  obtain ⟨h1, h2⟩ := h.2.1.move hm
  exact ⟨h.1, h1, h2 ▸ h.2.2⟩

/-! ## The pieces of the loop -/

/-- `release`, where the relay may give back only an idle connection. -/
lemma release_tidies (reusable : Bool) (hl : l'.hand = none)
    (h : reusable = true → Idle ok b.conn.wbuf b.server) :
    Tidies quiet ok k l' (Relay.release l c reusable) c (.held k) b := by
  refine .cons rfl trivial ?_
  cases reusable
  · exact .discard hl (by simp)
  · exact .cons rfl trivial (.cons rfl (h rfl).1 (.returns hl (h rfl)))

lemma endsCycle_of_injectable {m : FrontendMsg} (h : Injectable m) : m.endsCycle = false := by
  cases h <;> rfl

/-- Forwarding a message behind others that end no cycle. -/
lemma endsCycle_of_not_terminal {m : FrontendMsg} (hm : m ≠ .functionCall)
    (ht : isTerminalMessage m = false) : m.endsCycle = false := by
  cases m with
  | functionCall => exact absurd rfl hm
  | query | sync => cases ht
  | _ => rfl

lemma forward_tidies (hmsg : msg ≠ .functionCall)
    (hbuf : ∀ e ∈ b.conn.wbuf, e.2.endsCycle = false) (hs : b.server.Settled)
    (hr : Relay.forward l c stmts msg = .ok r) : Tidies quiet ok k r.1 r.2 c (.held k) b := by
  unfold Relay.forward at hr
  split at hr <;> cases hr
  rename_i p hp
  have hinj := processClientMsg_injected hp
  refine Outline.LocalStep.run
    (I := fun b s => s = signed k b.conn.wbuf ∧ (∀ e ∈ b.conn.wbuf, e.2.endsCycle = false) ∧
      b.server.Settled)
    ⟨rfl, hbuf, hs⟩ (fun a ha => .inr ?_) ?_
  · obtain ⟨m, hm, rfl⟩ := List.mem_map.mp ha
    refine ⟨rfl, rfl, ?_⟩
    rintro b s ⟨rfl, hb⟩
    refine ⟨⟨_, rfl, trivial⟩, signed_next k b.conn (.send c .inject m), fun e he => ?_, hb.2⟩
    simp only [servedSem, Link.after, BackendConn.after, List.mem_append,
      List.mem_singleton] at he
    rcases he with he | rfl
    · exact hb.1 e he
    · exact endsCycle_of_injectable (hinj m hm)
  · rintro b s ⟨rfl, hb⟩
    refine Tidies.cons rfl trivial (Tidies.cons rfl trivial (.keeps ?_))
    show tidyAt quiet ok _ (b.conn.wbuf ++ [(Source.client, msg)]) b.server
    cases ht : isTerminalMessage msg with
    | true =>
      simp only [tidyAt, if_true]
      exact ⟨⟨_, _, rfl, hb.1, ht⟩, hb.2⟩
    | false =>
      simp only [tidyAt, Bool.false_eq_true, if_false]
      refine ⟨fun e he => ?_, hb.2⟩
      rcases List.mem_append.mp he with he | he
      · exact hb.1 e he
      · obtain rfl := List.mem_singleton.mp he
        exact endsCycle_of_not_terminal hmsg ht

/-- The first message of a batch. -/
lemma beginBatch_tidies (hmsg : msg ≠ .functionCall) (hbuf : b.conn.wbuf = [])
    (hs : b.server.Settled) (hok : l.lastTxStatus = 'I' → ok b.server.reported) :
    Tidies quiet ok k (Relay.beginBatch l c stmts msg).1 (Relay.beginBatch l c stmts msg).2 c
      (.held k) b := by
  unfold Relay.beginBatch
  split
  · rename_i hr
    exact forward_tidies hmsg (by simp [hbuf]) hs hr
  · refine .skip rfl (release_tidies _ rfl (fun hreuse => ⟨hbuf, hs, hok ?_⟩))
    simpa using hreuse

lemma adopted_tidies (hmsg : msg ≠ .functionCall) (h : Idle ok b.conn.wbuf b.server) :
    Tidies quiet ok k (Relay.adopted l c msg).1 (Relay.adopted l c msg).2 c (.held k) b :=
  .cons rfl trivial (beginBatch_tidies hmsg h.1 h.2.1 (fun _ => h.2.2))

lemma replayParams_tidies (hmsg : msg ≠ .functionCall)
    (hkeeps : Server.Keeps quiet ok (Relay.setBatch l.sess.trackedParams))
    (h : Idle ok b.conn.wbuf b.server) :
    Tidies quiet ok k (Relay.replayParams l c msg).1 (Relay.replayParams l c msg).2 c (.held k)
      b := by
  unfold Relay.replayParams
  split
  · exact .cons rfl trivial (adopted_tidies hmsg h)
  · refine .cons rfl trivial (.cons rfl trivial (.keeps ⟨⟨.params, _, ?_, hkeeps⟩, h.2⟩))
    show b.conn.wbuf ++ _ = _
    rw [h.1]
    rfl

lemma adopt_tidies {b₀ : BackendConn} {nextID : ℕ} (hmsg : msg ≠ .functionCall)
    (hkeeps : Server.Keeps quiet ok (Relay.setBatch l.sess.trackedParams))
    (h : Idle ok b.conn.wbuf b.server) :
    Tidies quiet ok k (Relay.adopt opts b₀ nextID l c msg).1 (Relay.adopt opts b₀ nextID l c msg).2
      c (.held k) b := by
  have hmain : ∀ l : Local, Server.Keeps quiet ok (Relay.setBatch l.sess.trackedParams) →
      Tidies quiet ok k (Relay.adoptAs opts b₀ l c msg).1 (Relay.adoptAs opts b₀ l c msg).2 c
        (.held k) b := by
    intro l hkeeps
    unfold Relay.adoptAs
    split
    · exact beginBatch_tidies hmsg h.1 h.2.1 (fun _ => h.2.2)
    · split
      · exact .keeps h
      · exact replayParams_tidies hmsg hkeeps h
  unfold Relay.adopt Relay.ensureID
  split
  · exact .skip rfl (hmain _ hkeeps)
  · exact hmain l hkeeps

lemma adoptFailed_tidies (err : String) :
    Tidies quiet ok k (Relay.adoptFailed l c msg err).1 (Relay.adoptFailed l c msg err).2 c
      (.held k) b := by
  obtain ⟨-, hacts, hgrip⟩ := Relay.failQuery_idle l msg "08006"
    ("backend could not be prepared for this session: " ++ err)
  refine .cons rfl trivial (.discard ?_ hacts)
  simp only [Relay.adoptFailed, Local.hand, hgrip, Grip.conn]

/-! ## The steps -/

variable {conns : Conn → BackendConn} {nextID : ℕ}

lemma resetStep_tidies (hmsg : msg ≠ .functionCall)
    (hreset : Server.Keeps quiet ok opts.serverResetQuery)
    (hparams : Server.Keeps quiet ok (Relay.setBatch l.sess.trackedParams))
    (hb : conns c = b.conn) (hheard : ∀ m, i = .reply m → b.server.outbox.head? = some m)
    (h : tidyAt quiet ok l b.conn.wbuf b.server)
    (hr : Relay.resetStep opts conns l c msg l.pc i = some r) :
    Tidies quiet ok k r.1 r.2 c (.held k) b := by
  unfold Relay.resetStep at hr
  split at hr <;> rename_i hpc <;> simp only [hpc, tidyAt] at h
  · cases hr
    refine .cons rfl trivial (.cons rfl trivial (.keeps ⟨⟨.reset, _, ?_, hreset⟩, h.2⟩))
    show b.conn.wbuf ++ _ = _
    rw [h.1]
    rfl
  · cases hr; exact adoptFailed_tidies _
  · cases hr
    obtain ⟨⟨src, sql, hbuf, hkeeps⟩, hs, hok⟩ := h
    rw [hb, hbuf]
    exact .cons rfl hbuf.symm (.keeps ⟨rfl, hs.probe hkeeps hok⟩)
  · cases hr; exact .cons rfl trivial (.cons rfl trivial (adoptFailed_tidies _))
  · cases hr; exact .cons rfl trivial (.cons rfl trivial (adoptFailed_tidies _))
  · have hhead := hheard _ rfl
    split at hr <;> cases hr
    · exact .cons rfl trivial (.cons rfl trivial (adoptFailed_tidies _))
    · obtain ⟨hs, hok⟩ := h.2.read_ready hhead
      exact .cons rfl trivial (.cons rfl trivial (replayParams_tidies hmsg hparams ⟨h.1, hs, hok⟩))
    · rename_i herr hready
      exact .cons rfl trivial (.keeps ⟨h.1, h.2.read hhead (BackendMsg.isReady_eq_false hready)
        (BackendMsg.isError_eq_false herr)⟩)
  · cases hr

lemma paramsStep_tidies (hmsg : msg ≠ .functionCall) (hb : conns c = b.conn)
    (hheard : ∀ m, i = .reply m → b.server.outbox.head? = some m)
    (h : tidyAt quiet ok l b.conn.wbuf b.server)
    (hr : Relay.paramsStep conns l c msg l.pc i = some r) :
    Tidies quiet ok k r.1 r.2 c (.held k) b := by
  unfold Relay.paramsStep at hr
  split at hr <;> rename_i hpc <;> simp only [hpc, tidyAt] at h
  · cases hr
    obtain ⟨⟨src, sql, hbuf, hkeeps⟩, hs, hok⟩ := h
    rw [hb, hbuf]
    exact .cons rfl hbuf.symm (.keeps ⟨rfl, hs.probe hkeeps hok⟩)
  · cases hr; exact .cons rfl trivial (adoptFailed_tidies _)
  · cases hr; exact .cons rfl trivial (adoptFailed_tidies _)
  · have hhead := hheard _ rfl
    split at hr <;> cases hr
    · exact .cons rfl trivial (adoptFailed_tidies _)
    · obtain ⟨hs, hok⟩ := h.2.read_ready hhead
      exact .cons rfl trivial (adopted_tidies hmsg ⟨h.1, hs, hok⟩)
    · rename_i herr hready
      exact .cons rfl trivial (.keeps ⟨h.1, h.2.read hhead (BackendMsg.isReady_eq_false hready)
        (BackendMsg.isError_eq_false herr)⟩)
  · cases hr

lemma outerStep_tidies (hokI : ok 'I') (hi : OrderlyInput l i) (hl : l.pc = .outer (some c))
    (h : tidyAt quiet ok l b.conn.wbuf b.server)
    (hr : Relay.outerStep opts conns l (some c) i = some r) :
    Tidies quiet ok k r.1 r.2 c (.held k) b := by
  simp only [tidyAt, hl] at h
  obtain ⟨hbuf, hs, hst⟩ := h
  have hidle : l.lastTxStatus = 'I' → Idle ok b.conn.wbuf b.server :=
    fun hI => ⟨hbuf, hs, by rw [hst, hI]; exact hokI⟩
  have hleave : Tidies quiet ok k { l with pc := .done }
      (Relay.release l c (l.lastTxStatus == 'I')) c (.held k) b :=
    release_tidies _ rfl (fun hreuse => hidle (by simpa using hreuse))
  unfold Relay.outerStep at hr
  split at hr
  · obtain ⟨t, -, rfl⟩ := Option.map_eq_some_iff.mp hr
    exact .skip rfl hleave
  · cases hr; exact hleave
  · cases hr; exact hleave
  · cases hr
    simp only [OrderlyInput, hl] at hi
    exact beginBatch_tidies hi hbuf hs (fun hI => (hidle hI).2.2)
  · cases hr

lemma batchStep_tidies (hi : OrderlyInput l i) (hl : l.pc = .batch c)
    (h : tidyAt quiet ok l b.conn.wbuf b.server)
    (hr : Relay.batchStep opts conns l c (.batch c) i = some r) :
    Tidies quiet ok k r.1 r.2 c (.held k) b := by
  simp only [tidyAt, hl] at h
  unfold Relay.batchStep at hr
  split at hr
  · cases hr
    simp only [OrderlyInput, hl] at hi
    refine release_tidies _ rfl (fun hreuse => absurd ?_ hi)
    simpa using hreuse
  · simp only [OrderlyInput, hl] at hi
    split at hr
    · rename_i hterm
      cases hr
      refine release_tidies _ rfl (fun hreuse => absurd ?_ (hi.2 hterm))
      simpa using hreuse
    · split at hr <;> cases hr
      · rename_i hf
        exact forward_tidies hi.1 h.1 h.2 hf
      · exact .skip rfl (release_tidies _ rfl (by simp))
  · simp_all
  · simp_all
  · cases hr

lemma abandon_tidies {l : Local} :
    Tidies quiet ok k (Relay.abandon l c).1 (Relay.abandon l c).2 c (.held k) b :=
  release_tidies _ rfl (by simp)

lemma feFlush_tidies (hl : l.pc = .feFlush c) (hb : conns c = b.conn)
    (h : tidyAt quiet ok l b.conn.wbuf b.server)
    (hr : Relay.batchStep opts conns l c (.feFlush c) i = some r) :
    Tidies quiet ok k r.1 r.2 c (.held k) b := by
  simp only [tidyAt, hl] at h
  unfold Relay.batchStep at hr
  split at hr
  · simp_all
  · simp_all
  · cases hr
    obtain ⟨⟨es, e, hbuf, hes, ht⟩, hs⟩ := h
    have hflight : (b.server.hear (.flush c .reply (conns c).wbuf)).InFlight := by
      have hms : ∀ m ∈ es.map Prod.snd, m.endsCycle = false := by
        intro m hm
        obtain ⟨x, hx, rfl⟩ := List.mem_map.mp hm
        exact hes x hx
      simpa [Server.hear, hb, hbuf] using hs.deliver hms ht
    refine Tidies.cons rfl (congrArg BackendConn.wbuf hb) ?_
    split
    · exact .cons rfl trivial (.keeps ⟨rfl, hflight⟩)
    · exact .keeps ⟨rfl, hflight⟩
  · cases hr; exact .cons rfl trivial abandon_tidies
  · cases hr

/-- The end of a batch: what goes back is idle. -/
lemma endBatch_tidies {st : Char} (hokI : ok 'I')
    (hstmt : l.sess.poolMode = .statement → ∀ st, st ≠ 'E' → ok st) (hbuf : b.conn.wbuf = [])
    (hs : b.server.Settled) (hst : b.server.reported = st) :
    Tidies quiet ok k (Relay.endBatch l c st).1 (Relay.endBatch l c st).2 c (.held k) b := by
  have hkeep : Tidies quiet ok k { l with lastTxStatus := st, pc := .outer (some c) }
      [.setReadDeadline c false, .batchEnd c st] c (.held k) b :=
    .cons rfl trivial (.cons rfl trivial (.keeps ⟨hbuf, hs, hst⟩))
  have hback : ∀ (l' : Local) (reusable : Bool), (reusable = true → ok st) →
      Tidies quiet ok k { l' with pc := .outer none }
        (Act.setReadDeadline c false :: Act.batchEnd c st :: Relay.release l' c reusable) c
        (.held k) b := by
    intro l' reusable hok
    exact .cons rfl trivial (.cons rfl trivial (release_tidies _ rfl (fun hreuse =>
      ⟨hbuf, hs, show ok b.server.reported by rw [hst]; exact hok hreuse⟩)))
  unfold Relay.endBatch
  simp only
  split
  · rename_i hmode
    exact hback { l with lastTxStatus := st } _ (fun hne => hstmt hmode st (by simpa using hne))
  · exact hkeep
  · split
    · rename_i hI
      exact hback { l with lastTxStatus := st } true (fun _ => by rw [hI]; exact hokI)
    · exact hkeep

/-- The reply loop. -/
lemma replyStep_tidies (hokI : ok 'I')
    (hstmt : l.sess.poolMode = .statement → ∀ st, st ≠ 'E' → ok st)
    (hheard : ∀ m, i = .reply m → b.server.outbox.head? = some m)
    (h : tidyAt quiet ok l b.conn.wbuf b.server)
    (hr : Relay.replyStep opts l c l.pc i = some r) :
    Tidies quiet ok k r.1 r.2 c (.held k) b := by
  unfold Relay.replyStep at hr
  split at hr <;> rename_i hpc <;> simp only [hpc, tidyAt] at h
  · rename_i m
    cases hr
    have hhead := hheard m rfl
    unfold Relay.onReply
    split
    · rename_i sw hsw
      have hne : m.isReady = false :=
        (Relay.plain_of_swallowReply hsw).1
      exact .cons rfl trivial (.keeps ⟨h.1, h.2.read hhead hne⟩)
    · refine .cons rfl trivial (.skip rfl (.keeps ?_))
      show tidyAt quiet ok _ b.conn.wbuf { b.server with outbox := b.server.outbox.tail }
      by_cases hflush : (decide (clientFlushThreshold ≤ l.pending + replyEncodedSize m) ||
          Relay.forcesFlush m) = true
      · simp only [hflush, if_true, tidyAt]
        refine ⟨h.1, fun st hst => ?_, fun hne => h.2.read hhead hne⟩
        subst hst
        exact h.2.read_ready hhead
      · simp only [hflush, tidyAt]
        have hne : m.isReady = false :=
          (Relay.plain_of_not_forcesFlush
            (Bool.or_eq_false_iff.mp (eq_false_of_ne_true hflush)).2).1
        exact ⟨h.1, h.2.read hhead hne⟩
  · cases hr; exact .cons rfl trivial abandon_tidies
  · split at hr <;> cases hr
    exact .cons rfl trivial (.cons rfl trivial (.discard rfl (by simp [Act.on])))
  · rename_i m
    cases hr
    refine .skip rfl ?_
    have hsilent : ∀ e ∈ b.conn.wbuf, e.2.isSilent = true := by simp [h.1]
    unfold Relay.afterReply
    split
    · exact Tidies.cons rfl trivial (.keeps ⟨hsilent, h.2.2 rfl⟩)
    · exact Tidies.cons rfl trivial (.keeps ⟨hsilent, fun _ => h.1, h.2.2 rfl⟩)
    · obtain ⟨hs, hst⟩ := h.2.1 _ rfl
      exact endBatch_tidies hokI hstmt h.1 hs hst
    · rename_i hready
      exact .keeps ⟨h.1, h.2.2 (BackendMsg.isReady_eq_false hready)⟩
  · cases hr; exact .skip rfl abandon_tidies
  · cases hr

/-- A silent message joins the write buffer. -/
lemma silent_snoc {buf : List (Source × FrontendMsg)} (src : Source) {m : FrontendMsg}
    (h : ∀ e ∈ buf, e.2.isSilent = true) (hm : m.isSilent = true) :
    ∀ e ∈ buf ++ [(src, m)], e.2.isSilent = true := by
  intro e he
  rcases List.mem_append.mp he with he | he
  · exact h e he
  · obtain rfl := List.mem_singleton.mp he
    exact hm

lemma hear_silent (c : Conn) (site : Site) {buf : List (Source × FrontendMsg)}
    (h : ∀ e ∈ buf, e.2.isSilent = true) (ht : t.InFlight) :
    (t.hear (.flush c site buf)).InFlight := by
  refine ht.deliver (fun m hm => ?_)
  obtain ⟨e, he, rfl⟩ := List.mem_map.mp hm
  exact h e he

lemma copyInStep_tidies (hi : OrderlyInput l i) (hb : conns c = b.conn)
    (h : tidyAt quiet ok l b.conn.wbuf b.server)
    (hr : Relay.copyInStep conns l c l.pc i = some r) :
    Tidies quiet ok k r.1 r.2 c (.held k) b := by
  unfold Relay.copyInStep at hr
  split at hr <;> rename_i hpc <;> simp only [hpc, tidyAt] at h
  · cases hr; exact abandon_tidies
  · rename_i pending _
    simp only [OrderlyInput, hpc] at hi
    split at hr <;> cases hr
    · exact .cons rfl trivial (.keeps ⟨silent_snoc _ h.1 rfl, h.2⟩)
    · rename_i data
      have hbuf := silent_snoc .client (m := .copyData data) h.1 rfl
      refine .cons rfl trivial (.keeps ?_)
      show tidyAt quiet ok _ (b.conn.wbuf ++ _) b.server
      unfold tidyAt
      by_cases hfull : 32 ≤ pending + 1
      · simpa only [hfull, if_true] using ⟨hbuf, h.2⟩
      · simpa only [hfull, if_false] using ⟨hbuf, h.2⟩
    · exact .cons rfl trivial (.keeps ⟨silent_snoc _ h.1 rfl, h.2⟩)
    · exact .cons rfl trivial (.keeps ⟨silent_snoc _ h.1 rfl, h.2⟩)
    · rename_i hterm _ _ _
      exact .cons rfl trivial (.keeps ⟨silent_snoc _ h.1 (hi.resolve_right hterm), h.2⟩)
  · rename_i next
    cases hr
    rw [hb]
    refine .cons rfl rfl (.keeps ?_)
    have hflight := hear_silent c .copyIn h.1 h.2
    cases next with
    | none => exact ⟨rfl, hflight⟩
    | some pending => exact ⟨by simp [Link.after, BackendConn.after], hflight⟩
  · cases hr; exact .cons rfl trivial abandon_tidies
  · cases hr

lemma CopyBoth.onClientFlush_clientPump (st : CopyBoth) (m : BackendMsg) (ok : Bool) :
    (st.onClientFlush m ok).clientPump = st.clientPump := by
  unfold CopyBoth.onClientFlush
  split <;> rfl

/-- A pump of `relayCopyBoth` has moved on. -/
lemma conclude_tidies {st : CopyBoth} (hsilent : ∀ e ∈ b.conn.wbuf, e.2.isSilent = true)
    (hempty : (∀ what, st.clientPump ≠ .flushing what) → b.conn.wbuf = [])
    (hflight : b.server.InFlight) :
    Tidies quiet ok k (CopyBoth.conclude l c st).1 (CopyBoth.conclude l c st).2 c (.held k) b := by
  unfold CopyBoth.conclude
  split
  · rename_i hclient _
    have hbuf : b.conn.wbuf = [] := hempty (by simp [hclient])
    have hclear : ∀ (l' : Local) acts,
        (∀ b' : Link, b'.conn.wbuf = [] → b'.server.InFlight →
          Tidies quiet ok k l' acts c (.held k) b') →
        Tidies quiet ok k l' ((if st.forced then [Act.setReadDeadline c false] else []) ++ acts) c
          (.held k) b := by
      intro l' acts hacts
      split
      · exact Tidies.cons rfl trivial (hacts _ hbuf hflight)
      · exact hacts b hbuf hflight
    simp only
    split
    · simpa using hclear { l with pc := .replies c } []
        (fun b' hbuf' hflight' => .keeps ⟨hbuf', hflight'⟩)
    · exact hclear _ _ (fun b' _ _ => abandon_tidies)
  · exact .keeps ⟨hsilent, hempty, hflight⟩

lemma copyBothStep_tidies {st : CopyBoth} (hl : l.pc = .copyBoth c st) (hi : OrderlyInput l i)
    (hb : conns c = b.conn) (hheard : ∀ m, i = .reply m → b.server.outbox.head? = some m)
    (h : tidyAt quiet ok l b.conn.wbuf b.server)
    (hr : Relay.copyBothStep conns l c st i = some r) :
    Tidies quiet ok k r.1 r.2 c (.held k) b := by
  simp only [tidyAt, hl] at h
  obtain ⟨hsilent, hempty, hflight⟩ := h
  unfold Relay.copyBothStep at hr
  split at hr
  · rename_i msg hpump
    cases hr
    simp only [OrderlyInput, hl] at hi
    unfold CopyBoth.onClient
    split
    · exact .cons rfl trivial
        (.keeps ⟨silent_snoc _ hsilent rfl, fun h => absurd rfl (h _), hflight⟩)
    · exact .cons rfl trivial
        (.keeps ⟨silent_snoc _ hsilent rfl, fun h => absurd rfl (h _), hflight⟩)
    · exact .cons rfl trivial
        (.keeps ⟨silent_snoc _ hsilent rfl, fun h => absurd rfl (h _), hflight⟩)
    · rename_i hterm _ _
      exact .cons rfl trivial (.keeps ⟨silent_snoc _ hsilent (hi.resolve_right hterm),
        fun h => absurd rfl (h _), hflight⟩)
  · rename_i hpump
    cases hr
    exact conclude_tidies hsilent (fun _ => hempty (by simp [hpump])) hflight
  · rename_i what err hpump
    cases hr
    rw [hb]
    cases err with
    | none =>
      exact .cons rfl rfl (conclude_tidies (by simp [Link.after, BackendConn.after])
        (fun _ => rfl) (hear_silent c .copyBoth hsilent hflight))
    | some err =>
      exact .cons rfl trivial (conclude_tidies (by simp [Link.after, BackendConn.after])
        (fun _ => rfl) hflight)
  · rename_i m _
    cases hr
    have hhead := hheard m rfl
    have hnext : Server.InFlight { b.server with outbox := b.server.outbox.tail } := by
      cases hm : m.isReady with
      | false => exact hflight.read hhead hm
      | true =>
        obtain ⟨st, rfl⟩ := BackendMsg.exists_of_isReady hm
        exact (hflight.read_ready hhead).1.inFlight
    exact .cons rfl trivial (.skip rfl (.keeps ⟨hsilent, hempty, hnext⟩))
  · cases hr
    exact .cons rfl trivial (conclude_tidies hsilent hempty hflight)
  · cases hr
    refine .skip rfl (conclude_tidies hsilent (fun hne => hempty ?_) hflight)
    rwa [CopyBoth.onClientFlush_clientPump] at hne
  · split at hr <;> cases hr
    exact .cons rfl trivial (.keeps ⟨hsilent, hempty, hflight⟩)
  · cases hr

/-- `healthCheckWithTimeout`, on a connection `Acquire` has popped. -/
lemma checkStep_tidies (hmsg : msg ≠ .functionCall) (hhealth : Server.Keeps quiet ok "SELECT 1")
    (hparams : Server.Keeps quiet ok (Relay.setBatch l.sess.trackedParams))
    (hb : conns c = b.conn) (hheard : ∀ m, i = .reply m → b.server.outbox.head? = some m)
    (h : tidyAt quiet ok l b.conn.wbuf b.server)
    (hr : Relay.checkStep opts conns nextID l c msg l.pc i = some r) :
    Tidies quiet ok k r.1 r.2 c (.held k) b := by
  unfold Relay.checkStep at hr
  split at hr <;> rename_i hpc <;> simp only [hpc, tidyAt] at h
  · cases hr
    refine .cons rfl trivial (.cons rfl trivial (.keeps ⟨⟨.health, _, ?_, hhealth⟩, h.2⟩))
    show b.conn.wbuf ++ _ = _
    rw [h.1]
    rfl
  · cases hr; exact .cons rfl trivial (.drops rfl trivial)
  · cases hr
    obtain ⟨⟨src, sql, hbuf, hkeeps⟩, hs, hok⟩ := h
    rw [hb, hbuf]
    exact .cons rfl hbuf.symm (.keeps ⟨rfl, hs.probe hkeeps hok⟩)
  · cases hr; exact .cons rfl trivial (.cons rfl trivial (.cons rfl trivial (.drops rfl trivial)))
  · cases hr; exact .cons rfl trivial (.cons rfl trivial (.cons rfl trivial (.drops rfl trivial)))
  · have hhead := hheard _ rfl
    split at hr <;> cases hr
    · exact .cons rfl trivial (.cons rfl trivial (.cons rfl trivial (.drops rfl trivial)))
    · obtain ⟨hs, hok⟩ := h.2.read_ready hhead
      exact .cons rfl trivial (.cons rfl trivial (.cons rfl trivial
        (adopt_tidies hmsg hparams ⟨h.1, hs, hok⟩)))
    · rename_i herr hready
      exact .cons rfl trivial (.keeps ⟨h.1, h.2.read hhead (BackendMsg.isReady_eq_false hready)
        (BackendMsg.isError_eq_false herr)⟩)
  · cases hr

/-! ## The system -/

/-- What the proxy's own queries and the release rules must keep of a transaction status. -/
structure Upkeep (opts : RuntimeOpts) (quiet : String → Bool) (mode : PoolMode)
    (params : Caller → List TrackedParam) (ok : Char → Prop) : Prop where
  idle : ok 'I'
  statement : mode = .statement → ∀ st, st ≠ 'E' → ok st
  health : Server.Keeps quiet ok "SELECT 1"
  reset : Server.Keeps quiet ok opts.serverResetQuery
  params (k : Caller) : Server.Keeps quiet ok (Relay.setBatch (params k))

/-- Where nothing is wanted of the status, nothing is asked of the queries. -/
lemma upkeep_any (opts : RuntimeOpts) (quiet : String → Bool) (mode : PoolMode)
    (params : Caller → List TrackedParam) : Upkeep opts quiet mode params (fun _ => True) :=
  ⟨trivial, fun _ _ _ => trivial, fun _ _ _ _ => trivial, fun _ _ _ _ => trivial,
    fun _ _ _ _ _ => trivial⟩

/-- A step with a connection in hand. -/
lemma held_tidies {mode : PoolMode} {params : Caller → List TrackedParam}
    (up : Upkeep opts quiet mode params ok) (hmode : l.sess.poolMode = mode)
    (hparams : l.sess.trackedParams = params k) (hmsg : l.pc.msg ≠ some .functionCall)
    (hi : OrderlyInput l i) (hb : conns c = b.conn)
    (hheard : ∀ m, i = .reply m → b.server.outbox.head? = some m) (hc : l.hand = some c)
    (h : tidyAt quiet ok l b.conn.wbuf b.server)
    (hr : Relay.step opts conns nextID l i = some r) :
    Tidies quiet ok k r.1 r.2 c (.held k) b := by
  have hkeeps : Server.Keeps quiet ok (Relay.setBatch l.sess.trackedParams) :=
    hparams ▸ up.params k
  have hstmt : l.sess.poolMode = .statement → ∀ st, st ≠ 'E' → ok st :=
    fun hs => up.statement (hmode ▸ hs)
  have hne : ∀ {m}, l.pc.msg = some m → m ≠ .functionCall :=
    fun hm hfc => hmsg (hfc ▸ hm)
  unfold Relay.step at hr
  unfold Local.hand Local.grip at hc
  cases hpc : l.pc <;> simp only [hpc, PC.grip, Grip.conn, Option.some.injEq, reduceCtorEq] at hc hr
  case outer backend =>
    cases backend <;> simp only [Option.some.injEq, reduceCtorEq] at hc
    subst hc
    exact outerStep_tidies up.idle hi hpc h hr
  all_goals subst hc
  case checkArm msg =>
    exact checkStep_tidies (hne (by rw [hpc]; rfl)) up.health hkeeps hb hheard h (by rwa [hpc])
  case checkFlush msg =>
    exact checkStep_tidies (hne (by rw [hpc]; rfl)) up.health hkeeps hb hheard h (by rwa [hpc])
  case checkRecv msg =>
    exact checkStep_tidies (hne (by rw [hpc]; rfl)) up.health hkeeps hb hheard h (by rwa [hpc])
  case resetArm msg =>
    exact resetStep_tidies (hne (by rw [hpc]; rfl)) up.reset hkeeps hb hheard h (by rwa [hpc])
  case resetFlush msg =>
    exact resetStep_tidies (hne (by rw [hpc]; rfl)) up.reset hkeeps hb hheard h (by rwa [hpc])
  case resetRecv msg =>
    exact resetStep_tidies (hne (by rw [hpc]; rfl)) up.reset hkeeps hb hheard h (by rwa [hpc])
  case paramsFlush msg =>
    exact paramsStep_tidies (hne (by rw [hpc]; rfl)) hb hheard h (by rwa [hpc])
  case paramsRecv msg =>
    exact paramsStep_tidies (hne (by rw [hpc]; rfl)) hb hheard h (by rwa [hpc])
  case batch => exact batchStep_tidies hi hpc h hr
  case feFlush => exact feFlush_tidies hpc hb h hr
  case replies => exact replyStep_tidies up.idle hstmt hheard h (by rwa [hpc])
  case clientFlush => exact replyStep_tidies up.idle hstmt hheard h (by rwa [hpc])
  case copyIn => exact copyInStep_tidies hi hb h (by rwa [hpc])
  case copyInFlush => exact copyInStep_tidies hi hb h (by rwa [hpc])
  case copyBoth st => exact copyBothStep_tidies hpc hi hb hheard h hr

/-- `Acquire` takes a connection out of the pool. -/
lemma taken_tidies {mode : PoolMode} {params : Caller → List TrackedParam}
    (up : Upkeep opts quiet mode params ok) (hparams : l.sess.trackedParams = params k)
    (hmsg : l.pc.msg ≠ some .functionCall) (hc : i.conn = some c)
    (h : Idle ok b.conn.wbuf b.server) (hr : Relay.step opts conns nextID l i = some r) :
    Tidies quiet ok k r.1 r.2 c .pooled b := by
  obtain ⟨msg, hpc, hr⟩ := Relay.acquiring_of_conn hc hr
  have hne : msg ≠ .functionCall := by
    rintro rfl
    exact hmsg (by rw [hpc]; rfl)
  unfold Relay.acquireStep at hr
  split at hr
  · cases hc
    cases hr
    exact .cons rfl trivial (.keeps h)
  · cases hc
    cases hr
    exact .cons rfl trivial (adopt_tidies hne (hparams ▸ up.params k) h)
  · cases hc
  · cases hr

end Outline

namespace Served

variable {opts : RuntimeOpts} {quiet : String → Bool} {mode : PoolMode}
  {params : Caller → List TrackedParam} {ok : Char → Prop} {w : Served}

/-- A message kept for later was let in by the condition on the run. -/
lemma msg_of_reach_of {C : Served → Event → Prop} {P : FrontendMsg → Prop}
    (hC : ∀ w k m backend, C w (.world (.relay k (.client m))) →
      (w.loc k).pc = .outer backend → P m)
    (hw : (machine opts quiet mode params).Reach C w) (k : Caller) :
    ∀ m, (w.loc k).pc.msg = some m → P m := by
  induction hw with
  | init h0 =>
    obtain ⟨psLimit, rfl⟩ := h0
    simp [start, World.start, World.newLocal, PC.msg]
  | @step w w' e _ hCe hs ih =>
    cases e with
    | server c mv =>
      obtain ⟨t, -, rfl⟩ := Option.map_eq_some_iff.mp hs
      exact ih
    | world a =>
      cases a with
      | relay k' i =>
        simp only [machine, step] at hs
        split at hs
        · obtain ⟨r, hr, rfl⟩ := Option.map_eq_some_iff.mp hs
          by_cases hk : k' = k
          · subst hk
            intro m hmsg
            simp only [Leased.perform, Function.update_self] at hmsg
            rcases Relay.step_msgFrom hr _ hmsg with hold | ⟨rfl, backend, hpc⟩
            · exact ih m hold
            · exact hC w k' m backend hCe hpc
          · simpa [Leased.perform, Function.update_of_ne (Ne.symm hk)] using ih
        · cases hs
      | register k' =>
        simp only [machine, step] at hs
        split at hs <;> cases hs
        by_cases hk : k' = k
        · subst hk
          simpa [World.register, world] using ih
        · simpa [World.register, world, Function.update_of_ne (Ne.symm hk)] using ih
      | dial c =>
        simp only [machine, step] at hs
        split at hs <;> cases hs
        exact ih
      | retire c =>
        simp only [machine, step] at hs
        split at hs <;> cases hs
        exact ih

/-- No session keeps a function call for later. -/
lemma msg_of_reach (hw : (machine opts quiet mode params).Reach Orderly w) (k : Caller) :
    (w.loc k).pc.msg ≠ some .functionCall := by
  intro hmsg
  refine msg_of_reach_of (P := (· ≠ .functionCall)) (fun w k m backend hC hpc => ?_) hw k _ hmsg rfl
  simpa [Orderly, OrderlyInput, hpc] using hC

/-- **Tidy runs.**  In orderly runs whatever is in the pool is idle, and at every point of the
relay the connection in hand is as the outline says. -/
theorem tidy_of_reach (up : Upkeep opts quiet mode params ok)
    (hw : (machine opts quiet mode params).Reach Orderly w) :
    (tidiness quiet ok).Holds servedSem w := by
  have hfresh : Server.fresh.Settled :=
    ⟨by simp [Server.Silent, Server.fresh], by simp [Server.Notices, Server.fresh], rfl, rfl⟩
  refine outline_rule ⟨rfl, rfl, hfresh, up.idle⟩ (fun _ _ _ => trivial) ?_ ?_ ?_ ?_ hw
  · intro w k b s _ h
    refine ⟨h.1, ?_⟩
    simp only [World.register, Function.update_self]
    exact h.2
  · intro w c mv t _ hm
    exact ⟨fun _ h => ⟨h.1, h.2.move hm⟩, fun k _ h => ⟨h.1, tidyAt_move h.2 hm⟩,
      fun _ _ => trivial⟩
  · intro w k i r c hreach hC hheard hr hc h
    have hsteady := steady_of_reach hreach
    rw [OutlineStep, h.1]
    refine held_tidies up (hsteady.modes k) (hsteady.tracked k) (msg_of_reach hreach k) hC rfl ?_
      hc h.2 hr
    rintro m rfl
    obtain ⟨c', hc', hhead⟩ := hheard
    obtain rfl : c' = c := Option.some.inj (hc'.symm.trans hc)
    exact hhead
  · intro w k i r c hreach _ hr _ hconn _ h
    have hsteady := steady_of_reach hreach
    rw [OutlineStep, h.1, show [] = signed k (w.res c).conn.wbuf by rw [h.2.1]; rfl]
    exact taken_tidies up (hsteady.tracked k) (msg_of_reach hreach k) hconn h.2 hr

end Served

end Pgman
