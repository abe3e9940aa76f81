import Pgman.Construction.Relay.Replay
import Pgman.Construction.Relay.Tidy

/-!
# One batch, one cycle

The part of `Construction/Relay/Tidy.lean` that survives clients that leave in the middle of a
batch.  Such a client may leave messages behind in the write buffer of a connection that goes back
to the pool, and the next session's first flush delivers them in front of its own.  They end no
cycle, so a flush still starts at most one, and a session that is back at its client has read it to
its end.

What is asked of the clients is only that they send no `FunctionCall`, and nothing but copy messages
during a COPY.  `Prompt` asks for a little more, that they send no `Flush` outside of COPY either;
`Properties/PromptForwarding.lean` says why.
-/

namespace Pgman

/-! ## The condition -/

/-- Outside of COPY, no message that wants an answer without ending its batch; inside, copy
messages. -/
def PromptInput (l : Local) (i : Input) : Prop :=
  match l.pc, i with
  | .outer _, .client m | .batch _, .client m | .drain _ _, .client m =>
      m ≠ .functionCall ∧ m ≠ .flush
  | .copyIn _ _, .client m | .copyBoth _ _, .client m => m.isSilent = true ∨ m = .terminate
  | _, _ => True

/-- The condition as a test. -/
def promptInput (pc : PC) (i : Input) : Bool :=
  match pc, i with
  | .outer _, .client m | .batch _, .client m | .drain _ _, .client m =>
      decide (m ≠ .functionCall ∧ m ≠ .flush)
  | .copyIn _ _, .client m | .copyBoth _ _, .client m => decide (m.isSilent = true ∨ m = .terminate)
  | _, _ => true

lemma promptInput_iff {l : Local} {i : Input} : promptInput l.pc i = true ↔ PromptInput l i := by
  unfold promptInput PromptInput
  split <;> simp

instance (l : Local) (i : Input) : Decidable (PromptInput l i) := decidable_of_iff _ promptInput_iff

/-- No client calls a function through the fast path or sends a `Flush` outside of COPY, or sends
anything but copy messages during one. -/
def Prompt (w : Served) : Event → Prop
  | .world (.relay k i) => PromptInput (w.loc k) i
  | _ => True

instance (w : Served) : (e : Event) → Decidable (Prompt w e)
  | .world (.relay k i) => inferInstanceAs (Decidable (PromptInput (w.loc k) i))
  | .world (.register _) | .world (.dial _) | .world (.retire _) | .server _ _ => .isTrue trivial

/-! ## The outline -/

/-- Messages that end no cycle, perhaps, in front of a server that owes nothing. -/
def Dormant (buf : List (Source × FrontendMsg)) (t : Server) : Prop :=
  (∀ e ∈ buf, e.2.endsCycle = false) ∧ t.Settled

/-- A batch in front of a server that owes nothing. -/
def Loaded (buf : List (Source × FrontendMsg)) (t : Server) : Prop :=
  (∃ es e, buf = es ++ [e] ∧ (∀ e ∈ es, e.2.endsCycle = false) ∧ isTerminalMessage e.2 = true) ∧
    t.Settled

/-- Write buffer and server at each point of the program. -/
def cadenceAt (pc : PC) (buf : List (Source × FrontendMsg)) (t : Server) : Prop :=
  match pc with
  | .outer _ => buf = [] ∧ t.Settled
  | .checkArm _ _ | .resetArm _ _ | .batch _ => Dormant buf t
  | .checkFlush _ _ | .resetFlush _ _ | .paramsFlush _ _ | .feFlush _ => Loaded buf t
  | .checkRecv _ _ | .resetRecv _ _ | .paramsRecv _ _ | .replies _ => buf = [] ∧ t.InFlight
  | .clientFlush _ r =>
      buf = [] ∧ (r.isReady = true → t.Settled) ∧ (r.isReady = false → t.InFlight)
  | .copyIn _ _ | .copyInFlush _ _ => (∀ e ∈ buf, e.2.isSilent = true) ∧ t.InFlight
  | .copyBoth _ st =>
      (∀ e ∈ buf, e.2.isSilent = true) ∧
        ((∀ what, st.clientPump ≠ .flushing what) → buf = []) ∧ t.InFlight
  | _ => True

/-- The outline.  It needs no history. -/
def cadence : Outline Caller Local Link Act Unit where
  init := ()
  next _ _ := ()
  good _ _ := True
  free b _ := Dormant b.conn.wbuf b.server
  held _ l b _ := cadenceAt l.pc b.conn.wbuf b.server
  gone _ _ := True

variable {k : Caller} {l l' : Local} {c : Conn} {a : Act} {b : Link} {p : Place Caller}
  {msg : FrontendMsg} {acts : List Act} {opts : RuntimeOpts} {stmts : BackendPSCache}
  {r : Local × List Act} {i : Input} {t : Server} {quiet : String → Bool}

/-- A local step. -/
abbrev Cadent (k : Caller) (l : Local) (acts : List Act) (c : Conn) (p : Place Caller) (b : Link) :
    Prop :=
  Outline.LocalStep servedSem cadence Local.hand k l acts c p b ()

lemma Cadent.cons (hon : a.on = some c)
    (h : Cadent k l acts c (LeaseSem.moved k p a.lease) (b.after a)) :
    Cadent k l (a :: acts) c p b :=
  Outline.LocalStep.cons hon trivial h

lemma Cadent.skip (hon : a.on = none) (h : Cadent k l acts c p b) : Cadent k l (a :: acts) c p b :=
  Outline.LocalStep.skip hon h

lemma Cadent.discard (hl : l.hand = none) {tail : List Act} (htail : ∀ a ∈ tail, a.on = none) :
    Cadent k l (.discard c :: tail) c (.held k) b :=
  .cons rfl (.idle htail (.drops hl trivial))

lemma Dormant.loaded {buf : List (Source × FrontendMsg)} {src : Source} {m : FrontendMsg}
    (h : Dormant buf t) (hm : isTerminalMessage m = true) : Loaded (buf ++ [(src, m)]) t :=
  ⟨⟨buf, _, rfl, h.1, hm⟩, h.2⟩

/-- A flush delivers a batch. -/
lemma Loaded.deliver {buf : List (Source × FrontendMsg)} (h : Loaded buf t) (c : Conn)
    (site : Site) : (t.hear (.flush c site buf)).InFlight := by
  obtain ⟨⟨es, e, rfl, hes, ht⟩, hs⟩ := h
  have hms : ∀ m ∈ es.map Prod.snd, m.endsCycle = false := by
    intro m hm
    obtain ⟨x, hx, rfl⟩ := List.mem_map.mp hm
    exact hes x hx
  simpa [Server.hear] using hs.deliver hms ht

/-- What the server does on its own is fine at every point. -/
lemma cadenceAt_move {pc : PC} {mv : ServerMove} {buf : List (Source × FrontendMsg)} {t' : Server}
    (h : cadenceAt pc buf t) (hm : t.move quiet mv = some t') : cadenceAt pc buf t' := by
  have hsettled : t.Settled → t'.Settled := fun hs => (hs.move hm).1
  have hflight : t.InFlight → t'.InFlight := fun hs => hs.move hm
  unfold cadenceAt at h ⊢
  split at h
  · exact ⟨h.1, hsettled h.2⟩
  · exact ⟨h.1, hsettled h.2⟩
  · exact ⟨h.1, hsettled h.2⟩
  · exact ⟨h.1, hsettled h.2⟩
  · exact ⟨h.1, hsettled h.2⟩
  · exact ⟨h.1, hsettled h.2⟩
  · exact ⟨h.1, hsettled h.2⟩
  · exact ⟨h.1, hsettled h.2⟩
  · exact ⟨h.1, hflight h.2⟩
  · exact ⟨h.1, hflight h.2⟩
  · exact ⟨h.1, hflight h.2⟩
  · exact ⟨h.1, hflight h.2⟩
  · exact ⟨h.1, fun hr => hsettled (h.2.1 hr), fun hr => hflight (h.2.2 hr)⟩
  · exact ⟨h.1, hflight h.2⟩
  · exact ⟨h.1, hflight h.2⟩
  · exact ⟨h.1, h.2.1, hflight h.2.2⟩
  · trivial

/-! ## The pieces of the loop -/

lemma release_cadent (reusable : Bool) (hl : l'.hand = none) (h : Dormant b.conn.wbuf b.server) :
    Cadent k l' (Relay.release l c reusable) c (.held k) b := by
  refine .cons rfl ?_
  cases reusable
  · exact .discard hl (by simp)
  · exact .cons rfl (.cons rfl (.returns hl h))

lemma abandon_cadent {l : Local} :
    Cadent k (Relay.abandon l c).1 (Relay.abandon l c).2 c (.held k) b :=
  .cons rfl (.discard rfl (by simp))

/-- Forwarding a message behind others that end no cycle. -/
lemma forward_cadent (hmsg : msg ≠ .functionCall) (h : Dormant b.conn.wbuf b.server)
    (hr : Relay.forward l c stmts msg = .ok r) : Cadent k r.1 r.2 c (.held k) b := by
  unfold Relay.forward at hr
  split at hr <;> cases hr
  rename_i p hp
  have hinj := processClientMsg_injected hp
  refine Outline.LocalStep.run (I := fun b _ => Dormant b.conn.wbuf b.server) h
    (fun a ha => .inr ?_) ?_
  · obtain ⟨m, hm, rfl⟩ := List.mem_map.mp ha
    refine ⟨rfl, rfl, fun b s hb => ⟨trivial, fun e he => ?_, hb.2⟩⟩
    simp only [servedSem, Link.after, BackendConn.after, List.mem_append,
      List.mem_singleton] at he
    rcases he with he | rfl
    · exact hb.1 e he
    · exact endsCycle_of_injectable (hinj m hm)
  · intro b s hb
    refine Cadent.cons rfl (Cadent.cons rfl (.keeps ?_))
    show cadenceAt _ (b.conn.wbuf ++ [(Source.client, msg)]) b.server
    cases ht : isTerminalMessage msg with
    | true => exact hb.loaded ht
    | false =>
      refine ⟨fun e he => ?_, hb.2⟩
      rcases List.mem_append.mp he with he | he
      · exact hb.1 e he
      · obtain rfl := List.mem_singleton.mp he
        exact endsCycle_of_not_terminal hmsg ht

lemma beginBatch_cadent (hmsg : msg ≠ .functionCall) (h : Dormant b.conn.wbuf b.server) :
    Cadent k (Relay.beginBatch l c stmts msg).1 (Relay.beginBatch l c stmts msg).2 c
      (.held k) b := by
  unfold Relay.beginBatch
  split
  · rename_i hr
    exact forward_cadent hmsg h hr
  · exact .skip rfl (release_cadent _ rfl h)

lemma adopted_cadent (hmsg : msg ≠ .functionCall) (h : Dormant b.conn.wbuf b.server) :
    Cadent k (Relay.adopted l c msg).1 (Relay.adopted l c msg).2 c (.held k) b :=
  .cons rfl (beginBatch_cadent hmsg h)

lemma replayParams_cadent (hmsg : msg ≠ .functionCall) (h : Dormant b.conn.wbuf b.server) :
    Cadent k (Relay.replayParams l c msg).1 (Relay.replayParams l c msg).2 c (.held k) b := by
  unfold Relay.replayParams
  split
  · exact .cons rfl (adopted_cadent hmsg h)
  · exact .cons rfl (.cons rfl (.keeps (h.loaded rfl)))

lemma adopt_cadent {b₀ : BackendConn} {nextID : ℕ} (hmsg : msg ≠ .functionCall)
    (h : Dormant b.conn.wbuf b.server) :
    Cadent k (Relay.adopt opts b₀ nextID l c msg).1 (Relay.adopt opts b₀ nextID l c msg).2 c
      (.held k) b := by
  have hmain : ∀ l : Local, Cadent k (Relay.adoptAs opts b₀ l c msg).1
      (Relay.adoptAs opts b₀ l c msg).2 c (.held k) b := by
    intro l
    unfold Relay.adoptAs
    split
    · exact beginBatch_cadent hmsg h
    · split
      · exact .keeps h
      · exact replayParams_cadent hmsg h
  unfold Relay.adopt Relay.ensureID
  split
  · exact .skip rfl (hmain _)
  · exact hmain l

lemma adoptFailed_cadent (err : String) :
    Cadent k (Relay.adoptFailed l c msg err).1 (Relay.adoptFailed l c msg err).2 c (.held k) b := by
  obtain ⟨-, hacts, hgrip⟩ := Relay.failQuery_idle l msg "08006"
    ("backend could not be prepared for this session: " ++ err)
  refine .cons rfl (.discard ?_ hacts)
  simp only [Relay.adoptFailed, Local.hand, hgrip, Grip.conn]

lemma endBatch_cadent {st : Char} (hbuf : b.conn.wbuf = []) (hs : b.server.Settled) :
    Cadent k (Relay.endBatch l c st).1 (Relay.endBatch l c st).2 c (.held k) b := by
  have hkeep : Cadent k { l with lastTxStatus := st, pc := .outer (some c) }
      [.setReadDeadline c false, .batchEnd c st] c (.held k) b :=
    .cons rfl (.cons rfl (.keeps ⟨hbuf, hs⟩))
  have hdormant : Dormant b.conn.wbuf b.server := ⟨by simp [hbuf], hs⟩
  have hback : ∀ (l' : Local) reusable, Cadent k { l' with pc := .outer none }
      ([Act.setReadDeadline c false, .batchEnd c st] ++ Relay.release l' c reusable) c (.held k)
      b :=
    fun l' reusable => .cons rfl (.cons rfl (release_cadent _ rfl hdormant))
  unfold Relay.endBatch
  simp only
  split
  · exact hback { l with lastTxStatus := st } _
  · exact hkeep
  · split
    · exact hback { l with lastTxStatus := st } true
    · exact hkeep

/-! ## The steps -/

variable {conns : Conn → BackendConn} {nextID : ℕ}

/-- Reading a reply of a query of the proxy's own: an error, the end of the cycle, or neither. -/
lemma Server.InFlight.dormant_of_ready {st : Char} (h : b.server.InFlight) (hbuf : b.conn.wbuf = [])
    (hhead : b.server.outbox.head? = some (.readyForQuery st)) (c : Conn) (site : Site)
    (fate : Fate) : Dormant (b.after (.recv c site (.readyForQuery st) fate)).conn.wbuf
      (b.after (.recv c site (.readyForQuery st) fate)).server :=
  ⟨by simp [Link.after, BackendConn.after, hbuf], (h.read_ready hhead).1⟩

lemma resetStep_cadent (hmsg : msg ≠ .functionCall) (hb : conns c = b.conn)
    (hheard : ∀ m, i = .reply m → b.server.outbox.head? = some m)
    (h : cadenceAt l.pc b.conn.wbuf b.server)
    (hr : Relay.resetStep opts conns l c msg l.pc i = some r) : Cadent k r.1 r.2 c (.held k) b := by
  unfold Relay.resetStep at hr
  split at hr <;> rename_i hpc <;> simp only [hpc, cadenceAt] at h
  · cases hr; exact .cons rfl (.cons rfl (.keeps (h.loaded rfl)))
  · cases hr; exact adoptFailed_cadent _
  · cases hr
    rw [hb]
    exact .cons rfl (.keeps ⟨rfl, h.deliver c .reset⟩)
  · cases hr; exact .cons rfl (.cons rfl (adoptFailed_cadent _))
  · cases hr; exact .cons rfl (.cons rfl (adoptFailed_cadent _))
  · have hhead := hheard _ rfl
    split at hr <;> cases hr
    · exact .cons rfl (.cons rfl (adoptFailed_cadent _))
    · exact .cons rfl (.cons rfl (replayParams_cadent hmsg (h.2.dormant_of_ready h.1 hhead c _ _)))
    · rename_i herr hready
      exact .cons rfl (.keeps ⟨h.1, h.2.read hhead (BackendMsg.isReady_eq_false hready)⟩)
  · cases hr

lemma paramsStep_cadent (hmsg : msg ≠ .functionCall) (hb : conns c = b.conn)
    (hheard : ∀ m, i = .reply m → b.server.outbox.head? = some m)
    (h : cadenceAt l.pc b.conn.wbuf b.server)
    (hr : Relay.paramsStep conns l c msg l.pc i = some r) : Cadent k r.1 r.2 c (.held k) b := by
  unfold Relay.paramsStep at hr
  split at hr <;> rename_i hpc <;> simp only [hpc, cadenceAt] at h
  · cases hr
    rw [hb]
    exact .cons rfl (.keeps ⟨rfl, h.deliver c .params⟩)
  · cases hr; exact .cons rfl (adoptFailed_cadent _)
  · cases hr; exact .cons rfl (adoptFailed_cadent _)
  · have hhead := hheard _ rfl
    split at hr <;> cases hr
    · exact .cons rfl (adoptFailed_cadent _)
    · exact .cons rfl (adopted_cadent hmsg (h.2.dormant_of_ready h.1 hhead c _ _))
    · rename_i herr hready
      exact .cons rfl (.keeps ⟨h.1, h.2.read hhead (BackendMsg.isReady_eq_false hready)⟩)
  · cases hr

lemma checkStep_cadent (hmsg : msg ≠ .functionCall) (hb : conns c = b.conn)
    (hheard : ∀ m, i = .reply m → b.server.outbox.head? = some m)
    (h : cadenceAt l.pc b.conn.wbuf b.server)
    (hr : Relay.checkStep opts conns nextID l c msg l.pc i = some r) :
    Cadent k r.1 r.2 c (.held k) b := by
  unfold Relay.checkStep at hr
  split at hr <;> rename_i hpc <;> simp only [hpc, cadenceAt] at h
  · cases hr; exact .cons rfl (.cons rfl (.keeps (h.loaded rfl)))
  · cases hr; exact .cons rfl (.drops rfl trivial)
  · cases hr
    rw [hb]
    exact .cons rfl (.keeps ⟨rfl, h.deliver c .health⟩)
  · cases hr; exact .cons rfl (.cons rfl (.cons rfl (.drops rfl trivial)))
  · cases hr; exact .cons rfl (.cons rfl (.cons rfl (.drops rfl trivial)))
  · have hhead := hheard _ rfl
    split at hr <;> cases hr
    · exact .cons rfl (.cons rfl (.cons rfl (.drops rfl trivial)))
    · exact .cons rfl (.cons rfl (.cons rfl
        (adopt_cadent hmsg (h.2.dormant_of_ready h.1 hhead c _ _))))
    · rename_i herr hready
      exact .cons rfl (.keeps ⟨h.1, h.2.read hhead (BackendMsg.isReady_eq_false hready)⟩)
  · cases hr

lemma outerStep_cadent (hi : PromptInput l i) (hl : l.pc = .outer (some c))
    (h : cadenceAt l.pc b.conn.wbuf b.server)
    (hr : Relay.outerStep opts conns l (some c) i = some r) : Cadent k r.1 r.2 c (.held k) b := by
  simp only [cadenceAt, hl] at h
  have hdormant : Dormant b.conn.wbuf b.server := ⟨by simp [h.1], h.2⟩
  unfold Relay.outerStep at hr
  split at hr
  · obtain ⟨t, -, rfl⟩ := Option.map_eq_some_iff.mp hr
    exact .skip rfl (release_cadent _ rfl hdormant)
  · cases hr; exact release_cadent _ rfl hdormant
  · cases hr; exact release_cadent _ rfl hdormant
  · cases hr
    simp only [PromptInput, hl] at hi
    exact beginBatch_cadent hi.1 hdormant
  · cases hr

lemma batchStep_cadent (hi : PromptInput l i) (hl : l.pc = .batch c)
    (h : cadenceAt l.pc b.conn.wbuf b.server)
    (hr : Relay.batchStep opts conns l c (.batch c) i = some r) :
    Cadent k r.1 r.2 c (.held k) b := by
  simp only [cadenceAt, hl] at h
  unfold Relay.batchStep at hr
  split at hr
  · cases hr; exact release_cadent _ rfl h
  · simp only [PromptInput, hl] at hi
    split at hr
    · cases hr; exact release_cadent _ rfl h
    · split at hr <;> cases hr
      · rename_i hf
        exact forward_cadent hi.1 h hf
      · exact .skip rfl (release_cadent _ rfl h)
  · simp_all
  · simp_all
  · cases hr

lemma feFlush_cadent (hl : l.pc = .feFlush c) (hb : conns c = b.conn)
    (h : cadenceAt l.pc b.conn.wbuf b.server)
    (hr : Relay.batchStep opts conns l c (.feFlush c) i = some r) :
    Cadent k r.1 r.2 c (.held k) b := by
  simp only [cadenceAt, hl] at h
  unfold Relay.batchStep at hr
  split at hr
  · simp_all
  · simp_all
  · cases hr
    rw [hb]
    refine Cadent.cons rfl ?_
    split
    · exact .cons rfl (.keeps ⟨rfl, h.deliver c .reply⟩)
    · exact .keeps ⟨rfl, h.deliver c .reply⟩
  · cases hr; exact .cons rfl abandon_cadent
  · cases hr

lemma onReply_cadent {m : BackendMsg} (h : cadenceAt (.replies c) b.conn.wbuf b.server)
    (hhead : b.server.outbox.head? = some m) :
    Cadent k (Relay.onReply l c m).1 (Relay.onReply l c m).2 c (.held k) b := by
  unfold Relay.onReply
  split
  · rename_i sw hsw
    have hne : m.isReady = false :=
      (Relay.plain_of_swallowReply hsw).1
    exact .cons rfl (.keeps ⟨h.1, h.2.read hhead hne⟩)
  · refine .cons rfl (.skip rfl (.keeps ?_))
    show cadenceAt _ b.conn.wbuf { b.server with outbox := b.server.outbox.tail }
    by_cases hflush : (decide (clientFlushThreshold ≤ l.pending + replyEncodedSize m) ||
        Relay.forcesFlush m) = true
    · simp only [hflush, if_true, cadenceAt]
      refine ⟨h.1, fun hm => ?_, fun hne => h.2.read hhead hne⟩
      obtain ⟨st, rfl⟩ := BackendMsg.exists_of_isReady hm
      exact (h.2.read_ready hhead).1
    · simp only [hflush, cadenceAt]
      have hne : m.isReady = false :=
        (Relay.plain_of_not_forcesFlush (Bool.or_eq_false_iff.mp (eq_false_of_ne_true hflush)).2).1
      exact ⟨h.1, h.2.read hhead hne⟩

lemma replyStep_cadent (hheard : ∀ m, i = .reply m → b.server.outbox.head? = some m)
    (h : cadenceAt l.pc b.conn.wbuf b.server) (hr : Relay.replyStep opts l c l.pc i = some r) :
    Cadent k r.1 r.2 c (.held k) b := by
  unfold Relay.replyStep at hr
  split at hr <;> rename_i hpc <;> simp only [hpc, cadenceAt] at h
  · cases hr; exact onReply_cadent h (hheard _ rfl)
  · cases hr; exact .cons rfl abandon_cadent
  · split at hr <;> cases hr
    exact .cons rfl (.cons rfl (.discard rfl (by simp [Act.on])))
  · cases hr
    refine .skip rfl ?_
    have hsilent : ∀ e ∈ b.conn.wbuf, e.2.isSilent = true := by simp [h.1]
    unfold Relay.afterReply
    split
    · exact Cadent.cons rfl (.keeps ⟨hsilent, h.2.2 rfl⟩)
    · exact Cadent.cons rfl (.keeps ⟨hsilent, fun _ => h.1, h.2.2 rfl⟩)
    · exact endBatch_cadent h.1 (h.2.1 rfl)
    · rename_i hready
      exact .keeps ⟨h.1, h.2.2 (BackendMsg.isReady_eq_false hready)⟩
  · cases hr; exact .skip rfl abandon_cadent
  · cases hr

lemma copyInStep_cadent (hi : PromptInput l i) (hb : conns c = b.conn)
    (h : cadenceAt l.pc b.conn.wbuf b.server) (hr : Relay.copyInStep conns l c l.pc i = some r) :
    Cadent k r.1 r.2 c (.held k) b := by
  unfold Relay.copyInStep at hr
  split at hr <;> rename_i hpc <;> simp only [hpc, cadenceAt] at h
  · cases hr; exact abandon_cadent
  · rename_i pending _
    simp only [PromptInput, hpc] at hi
    split at hr <;> cases hr
    · exact .cons rfl (.keeps ⟨silent_snoc _ h.1 rfl, h.2⟩)
    · rename_i data
      have hbuf := silent_snoc .client (m := .copyData data) h.1 rfl
      refine .cons rfl (.keeps ?_)
      show cadenceAt _ (b.conn.wbuf ++ _) b.server
      by_cases hfull : 32 ≤ pending + 1
      · simpa only [hfull, if_true] using ⟨hbuf, h.2⟩
      · simpa only [hfull, if_false] using ⟨hbuf, h.2⟩
    · exact .cons rfl (.keeps ⟨silent_snoc _ h.1 rfl, h.2⟩)
    · exact .cons rfl (.keeps ⟨silent_snoc _ h.1 rfl, h.2⟩)
    · rename_i hterm _ _ _
      exact .cons rfl (.keeps ⟨silent_snoc _ h.1 (hi.resolve_right hterm), h.2⟩)
  · rename_i next
    cases hr
    rw [hb]
    refine .cons rfl (.keeps ?_)
    have hflight := hear_silent c .copyIn h.1 h.2
    cases next with
    | none => exact ⟨rfl, hflight⟩
    | some pending => exact ⟨by simp [Link.after, BackendConn.after], hflight⟩
  · cases hr; exact .cons rfl abandon_cadent
  · cases hr

lemma conclude_cadent {st : CopyBoth} (hsilent : ∀ e ∈ b.conn.wbuf, e.2.isSilent = true)
    (hempty : (∀ what, st.clientPump ≠ .flushing what) → b.conn.wbuf = [])
    (hflight : b.server.InFlight) :
    Cadent k (CopyBoth.conclude l c st).1 (CopyBoth.conclude l c st).2 c (.held k) b := by
  unfold CopyBoth.conclude
  split
  · rename_i hclient _
    have hbuf : b.conn.wbuf = [] := hempty (by simp [hclient])
    simp only
    split
    · split
      · exact Cadent.cons rfl (.keeps ⟨hbuf, hflight⟩)
      · exact .keeps ⟨hbuf, hflight⟩
    · split
      · exact Cadent.cons rfl abandon_cadent
      · exact abandon_cadent
  · exact .keeps ⟨hsilent, hempty, hflight⟩

lemma copyBothStep_cadent {st : CopyBoth} (hl : l.pc = .copyBoth c st) (hi : PromptInput l i)
    (hb : conns c = b.conn) (hheard : ∀ m, i = .reply m → b.server.outbox.head? = some m)
    (h : cadenceAt l.pc b.conn.wbuf b.server)
    (hr : Relay.copyBothStep conns l c st i = some r) : Cadent k r.1 r.2 c (.held k) b := by
  simp only [cadenceAt, hl] at h
  obtain ⟨hsilent, hempty, hflight⟩ := h
  unfold Relay.copyBothStep at hr
  split at hr
  · rename_i msg hpump
    cases hr
    simp only [PromptInput, hl] at hi
    unfold CopyBoth.onClient
    split
    · exact .cons rfl (.keeps ⟨silent_snoc _ hsilent rfl, fun h => absurd rfl (h _), hflight⟩)
    · exact .cons rfl (.keeps ⟨silent_snoc _ hsilent rfl, fun h => absurd rfl (h _), hflight⟩)
    · exact .cons rfl (.keeps ⟨silent_snoc _ hsilent rfl, fun h => absurd rfl (h _), hflight⟩)
    · rename_i hterm _ _
      exact .cons rfl (.keeps ⟨silent_snoc _ hsilent (hi.resolve_right hterm),
        fun h => absurd rfl (h _), hflight⟩)
  · rename_i hpump
    cases hr
    exact conclude_cadent hsilent (fun _ => hempty (by simp [hpump])) hflight
  · rename_i what err hpump
    cases hr
    rw [hb]
    cases err with
    | none =>
      exact .cons rfl (conclude_cadent (by simp [Link.after, BackendConn.after])
        (fun _ => rfl) (hear_silent c .copyBoth hsilent hflight))
    | some err =>
      exact .cons rfl (conclude_cadent (by simp [Link.after, BackendConn.after])
        (fun _ => rfl) hflight)
  · rename_i m _
    cases hr
    have hhead := hheard m rfl
    have hnext : Server.InFlight { b.server with outbox := b.server.outbox.tail } := by
      cases hm : m.isReady with
      | false => exact hflight.read hhead hm
      | true =>
        obtain ⟨st, rfl⟩ := BackendMsg.exists_of_isReady hm
        exact (hflight.read_ready hhead).1.inFlight
    exact .cons rfl (.skip rfl (.keeps ⟨hsilent, hempty, hnext⟩))
  · cases hr
    exact .cons rfl (conclude_cadent hsilent hempty hflight)
  · cases hr
    refine .skip rfl (conclude_cadent hsilent (fun hne => hempty ?_) hflight)
    rwa [CopyBoth.onClientFlush_clientPump] at hne
  · split at hr <;> cases hr
    exact .cons rfl (.keeps ⟨hsilent, hempty, hflight⟩)
  · cases hr

/-! ## The system -/

lemma held_cadent (hmsg : l.pc.msg ≠ some .functionCall) (hi : PromptInput l i)
    (hb : conns c = b.conn) (hheard : ∀ m, i = .reply m → b.server.outbox.head? = some m)
    (hc : l.hand = some c) (h : cadenceAt l.pc b.conn.wbuf b.server)
    (hr : Relay.step opts conns nextID l i = some r) : Cadent k r.1 r.2 c (.held k) b := by
  have hne : ∀ {m}, l.pc.msg = some m → m ≠ .functionCall :=
    fun hm hfc => hmsg (hfc ▸ hm)
  unfold Relay.step at hr
  unfold Local.hand Local.grip at hc
  cases hpc : l.pc <;> simp only [hpc, PC.grip, Grip.conn, Option.some.injEq, reduceCtorEq] at hc hr
  case outer backend =>
    cases backend <;> simp only [Option.some.injEq, reduceCtorEq] at hc
    subst hc
    exact outerStep_cadent hi hpc h hr
  all_goals subst hc
  case checkArm | checkFlush | checkRecv =>
    exact checkStep_cadent (hne (by rw [hpc]; rfl)) hb hheard h (by rwa [hpc])
  case resetArm | resetFlush | resetRecv =>
    exact resetStep_cadent (hne (by rw [hpc]; rfl)) hb hheard h (by rwa [hpc])
  case paramsFlush | paramsRecv =>
    exact paramsStep_cadent (hne (by rw [hpc]; rfl)) hb hheard h (by rwa [hpc])
  case batch => exact batchStep_cadent hi hpc h hr
  case feFlush => exact feFlush_cadent hpc hb h hr
  case replies | clientFlush => exact replyStep_cadent hheard h (by rwa [hpc])
  case copyIn | copyInFlush => exact copyInStep_cadent hi hb h (by rwa [hpc])
  case copyBoth st => exact copyBothStep_cadent hpc hi hb hheard h hr

/-- `Acquire` takes a connection out of the pool. -/
lemma taken_cadent (hmsg : l.pc.msg ≠ some .functionCall) (hc : i.conn = some c)
    (h : Dormant b.conn.wbuf b.server) (hr : Relay.step opts conns nextID l i = some r) :
    Cadent k r.1 r.2 c .pooled b := by
  obtain ⟨msg, hpc, hr⟩ := Relay.acquiring_of_conn hc hr
  have hne : msg ≠ .functionCall := by
    rintro rfl
    exact hmsg (by rw [hpc]; rfl)
  unfold Relay.acquireStep at hr
  split at hr
  · cases hc
    cases hr
    exact .cons rfl (.keeps h)
  · cases hc
    cases hr
    exact .cons rfl (adopt_cadent hne h)
  · cases hc
  · cases hr

namespace Served

variable {mode : PoolMode} {params : Caller → List TrackedParam} {w : Served}

/-- No session keeps a message for later that wants an answer without ending its batch. -/
lemma prompt_msg_of_reach (hw : (machine opts quiet mode params).Reach Prompt w) (k : Caller)
    {m : FrontendMsg} (hm : (w.loc k).pc.msg = some m) : m ≠ .functionCall ∧ m ≠ .flush := by
  refine msg_of_reach_of (P := fun m => m ≠ .functionCall ∧ m ≠ .flush)
    (fun w k m backend hC hpc => ?_) hw k m hm
  simpa [Prompt, PromptInput, hpc] using hC

/-- **The cadence.**  In runs of prompt steps, whatever is in the pool owes nothing, and at every
point of the relay the connection in hand is as the outline says. -/
theorem cadence_of_reach (hw : (machine opts quiet mode params).Reach Prompt w) :
    cadence.Holds servedSem w := by
  have hfresh : Server.fresh.Settled :=
    ⟨by simp [Server.Silent, Server.fresh], by simp [Server.Notices, Server.fresh], rfl, rfl⟩
  refine outline_rule ⟨by simp, hfresh⟩ (fun _ _ _ => trivial) ?_ ?_ ?_ ?_ hw
  · intro w k b s _ h
    show cadenceAt ((w.world.register k).loc k).pc b.conn.wbuf b.server
    simp only [World.register, Function.update_self]
    exact h
  · intro w c mv t _ hm
    exact ⟨fun _ h => ⟨h.1, (h.2.move hm).1⟩, fun k _ h => cadenceAt_move h hm, fun _ _ => trivial⟩
  · intro w k i r c hreach hC hheard hr hc h
    refine held_cadent (fun hm => (prompt_msg_of_reach hreach k hm).1 rfl) hC rfl ?_ hc h hr
    rintro m rfl
    obtain ⟨c', hc', hhead⟩ := hheard
    obtain rfl : c' = c := Option.some.inj (hc'.symm.trans hc)
    exact hhead
  · intro w k i r c hreach _ hr _ hconn _ h
    exact taken_cadent (fun hm => (prompt_msg_of_reach hreach k hm).1 rfl) hconn h hr

end Served

end Pgman
