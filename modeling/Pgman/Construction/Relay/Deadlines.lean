import Pgman.Construction.Relay.Steady

/-!
# Deadlines on a backend connection (`relay.go`, `main.go`)

Six functions set and clear deadlines on a connection.  The health check and `runResetQuery` arm
both deadlines and clear them in a deferred call; the reply loop arms the read deadline for
`query_timeout` and clears it at `ReadyForQuery` or when it hands over to COPY; `relayCopyBoth`
trips it to wake a pump; `release` clears it once more.

`DeadlinePhase` sorts the program points by what the deadlines must be there, and `timing` is the
outline that follows a connection through them.  Its ghost state is the connection as the log
leaves it, whether a client's message has been forwarded on it since `Acquire`, and whether the
batch in flight has been handed over to COPY.
-/

namespace Pgman

/-- A connection as it is dialed. -/
def BackendConn.blank : BackendConn := ⟨∅, 0, [], false, false⟩

/-- Neither deadline is armed. -/
def BackendConn.NoDeadline (b : BackendConn) : Prop :=
  b.readDeadline = false ∧ b.writeDeadline = false

/-- The replies on which the reply loop hands over to COPY. -/
def BackendMsg.startsCopy : BackendMsg → Bool
  | .copyInResponse | .copyBothResponse => true
  | _ => false

/-- What has become of a connection. -/
structure DeadlineTrail where
  conn : BackendConn
  /-- A client's message has been forwarded since the last `Acquire`. -/
  forwarded : Bool
  /-- The batch in flight has been handed over to COPY. -/
  copying : Bool

namespace DeadlineTrail

def next (s : DeadlineTrail) (a : Act) : DeadlineTrail where
  conn := s.conn.after a
  forwarded :=
    match a with
    | .acquire _ => false
    | .send _ .client _ => true
    | _ => s.forwarded
  copying :=
    match a with
    | .flush _ .reply _ => false
    | .recv _ .reply r _ => r.startsCopy || s.copying
    | _ => s.copying

/-- A client's message first goes out on a connection without deadlines, and every batch is
written to one. -/
def Good (s : DeadlineTrail) : Act → Prop
  | .send _ .client _ => s.forwarded = false → s.conn.NoDeadline
  | .flush _ .reply _ => s.conn.NoDeadline
  | _ => True

end DeadlineTrail

/-- What the deadlines are for at a program point. -/
inductive DeadlinePhase
  /-- No deadline is in force. -/
  | quiet
  /-- Nor is there one while a batch is collected and written. -/
  | sending
  /-- A round trip of the proxy's own, under a deadline for reads and writes. -/
  | roundTrip
  /-- The reply loop. -/
  | replying
  /-- The response that enters COPY is written to the client. -/
  | handing
  /-- A COPY exchange; a pump may have been tripped by the read deadline. -/
  | copying (tripped : Bool)
  deriving DecidableEq, Repr

def PC.deadlines : PC → DeadlinePhase
  | .checkFlush _ _ | .checkRecv _ _ | .resetFlush _ _ | .resetRecv _ _ => .roundTrip
  | .batch _ | .feFlush _ => .sending
  | .replies _ => .replying
  | .clientFlush _ r => if r.startsCopy then .handing else .replying
  | .copyIn _ _ | .copyInFlush _ _ => .copying false
  | .copyBoth _ st => .copying st.forced
  | _ => .quiet

/-- What a phase knows of the connection in hand. -/
def DeadlinePhase.Fits (queryTimeout : ℤ) (s : DeadlineTrail) : DeadlinePhase → Prop
  | .quiet => s.conn.NoDeadline
  | .sending => s.conn.NoDeadline ∧ s.forwarded = true
  | .roundTrip => s.conn.readDeadline = true
  | .replying => s.conn.writeDeadline = false ∧ s.forwarded = true ∧
      (s.conn.readDeadline = true ↔ s.copying = false ∧ 0 < queryTimeout)
  | .handing => s.conn.writeDeadline = false ∧ s.forwarded = true ∧ s.copying = true
  | .copying tripped => s.conn.writeDeadline = false ∧ s.forwarded = true ∧ s.copying = true ∧
      s.conn.readDeadline = tripped

/-- The deadlines of a connection, in the pool and in a session's hand. -/
def timing (opts : RuntimeOpts) : Outline Caller Local BackendConn Act DeadlineTrail where
  init := ⟨.blank, false, false⟩
  next s e := s.next e.2
  good s e := s.Good e.2
  free _ s := s.conn.NoDeadline
  held _ l _ s := l.pc.deadlines.Fits opts.queryTimeout s
  gone _ _ := True

namespace Relay

variable {opts : RuntimeOpts} {conns : Conn → BackendConn} {nextID : ℕ} {l l' : Local} {c : Conn}
  {k : Caller} {i : Input} {r : Local × List Act} {msg : FrontendMsg} {stmts : BackendPSCache}
  {b : BackendConn} {s : DeadlineTrail} {acts tail : List Act}

/-- What a step in flight must show for the deadlines of the connection in hand. -/
abbrev Timely (opts : RuntimeOpts) (k : Caller) (c : Conn) (b : BackendConn) (s : DeadlineTrail)
    (r : Local × List Act) : Prop :=
  Outline.LocalStep relaySem (timing opts) Local.hand k r.1 r.2 c (.held k) b s

/-! ## The pieces of the loop -/

/-- The proxy swallows no reply that enters COPY. -/
lemma startsCopy_of_swallowReply {t t' : PsSwallow} {m : BackendMsg}
    (h : swallowReply t m = some t') : m.startsCopy = false := by
  cases m with
  | copyInResponse | copyBothResponse => cases h
  | _ => rfl

/-- What enters COPY is written to the client at once. -/
lemma forcesFlush_of_startsCopy {m : BackendMsg} (h : m.startsCopy = true) :
    forcesFlush m = true := by
  cases m with
  | copyInResponse | copyBothResponse => rfl
  | _ => cases h

/-- `release` clears the read deadline, and a write deadline there is none. -/
lemma release_timely (hl : l'.hand = none) (hw : s.conn.writeDeadline = false) (reusable : Bool)
    (htail : ∀ a ∈ tail, a.on = none) : Timely opts k c b s (l', release l c reusable ++ tail) := by
  refine .cons rfl trivial ?_
  cases reusable with
  | false => exact .cons rfl trivial (.idle htail (.drops hl trivial))
  | true => exact .cons rfl trivial (.cons rfl trivial (.idle htail (.returns hl ⟨rfl, hw⟩)))

lemma release_timely_nil (hl : l'.hand = none) (hw : s.conn.writeDeadline = false)
    (reusable : Bool) : Timely opts k c b s (l', release l c reusable) := by
  have h : Timely opts k c b s (l', release l c reusable ++ []) :=
    release_timely hl hw reusable (by simp)
  rwa [List.append_nil] at h

lemma abandon_timely (hw : s.conn.writeDeadline = false) : Timely opts k c b s (abandon l c) :=
  release_timely_nil rfl hw false

lemma leave_timely (hw : s.conn.writeDeadline = false) :
    Timely opts k c b s (leave l (some c)) :=
  release_timely_nil rfl hw _

/-- Forwarding a message leaves the deadlines as they are. -/
lemma forward_timely (hs : s.conn.NoDeadline) (h : forward l c stmts msg = .ok r) :
    Timely opts k c b s r := by
  unfold forward at h
  split at h <;> cases h
  refine .run (I := fun _ s => s.conn.NoDeadline) hs (fun a ha => ?_) (fun b s hs => ?_)
  · obtain ⟨m, -, rfl⟩ := List.mem_map.mp ha
    exact .inr ⟨rfl, rfl, fun b s hs => ⟨trivial, hs⟩⟩
  · refine .cons rfl trivial (.cons rfl (fun _ => hs) (.keeps ?_))
    simp only [timing]
    split <;> exact ⟨hs, rfl⟩

lemma beginBatch_timely (hs : s.conn.NoDeadline) :
    Timely opts k c b s (beginBatch l c stmts msg) := by
  unfold beginBatch
  split
  · rename_i h
    exact forward_timely hs h
  · exact .skip rfl (release_timely_nil rfl hs.2 _)

lemma adopted_timely (hs : s.conn.NoDeadline) : Timely opts k c b s (adopted l c msg) :=
  .cons rfl trivial (beginBatch_timely (s := s.next (.setOwner c l.sess.id)) hs)

lemma replayParams_timely (hs : s.conn.NoDeadline) :
    Timely opts k c b s (replayParams l c msg) := by
  unfold replayParams
  split
  · exact .cons rfl trivial (adopted_timely (s := s.next (.clearStmts c)) hs)
  · exact .cons rfl trivial (.cons rfl trivial (.keeps hs))

lemma adopt_timely (hs : s.conn.NoDeadline) :
    Timely opts k c b s (adopt opts (conns c) nextID l c msg) := by
  have has : ∀ l' : Local, Timely opts k c b s (adoptAs opts (conns c) l' c msg) := by
    intro l'
    unfold adoptAs
    split
    · exact beginBatch_timely hs
    · split
      · exact .keeps hs
      · exact replayParams_timely hs
  unfold adopt ensureID
  split
  · exact .skip rfl (has _)
  · exact has _

/-- `Acquire` returns a connection without deadlines. -/
lemma acquired_timely (hs : s.conn.NoDeadline) {p : Place Caller} :
    Outline.LocalStep relaySem (timing opts) Local.hand k (adopt opts (conns c) nextID l c msg).1
      (.acquire c :: (adopt opts (conns c) nextID l c msg).2) c p b s :=
  .cons rfl trivial (adopt_timely (s := s.next (.acquire c)) hs)

lemma adoptFailed_timely (err : String) : Timely opts k c b s (adoptFailed l c msg err) := by
  obtain ⟨hacts, hloose⟩ : (∀ a ∈ (failQuery l msg "08006"
      ("backend could not be prepared for this session: " ++ err)).2, a.on = none) ∧
      (failQuery l msg "08006"
        ("backend could not be prepared for this session: " ++ err)).1.hand = none := by
    unfold failQuery
    split
    · exact ⟨by simp [reportFailure, Act.on], rfl⟩
    · exact ⟨by simp, rfl⟩
  exact .cons rfl trivial (.cons rfl trivial (.idle hacts (.drops hloose trivial)))

/-- The end of a batch clears the read deadline. -/
lemma endBatch_timely (hw : s.conn.writeDeadline = false) (st : Char) :
    Timely opts k c b s (endBatch l c st) := by
  have hback : ∀ (l' : Local) (reusable : Bool), Timely opts k c b s
      ({ l' with pc := .outer none }, [Act.setReadDeadline c false, .batchEnd c st] ++
        release l' c reusable) := by
    intro l' reusable
    refine .cons rfl trivial (.cons rfl trivial ?_)
    exact release_timely_nil (s := (s.next (.setReadDeadline c false)).next (.batchEnd c st)) rfl hw
      reusable
  have hkeep : ∀ l' : Local, Timely opts k c b s
      ({ l' with pc := .outer (some c) }, [.setReadDeadline c false, .batchEnd c st]) :=
    fun l' => .cons rfl trivial (.cons rfl trivial (.keeps ⟨rfl, hw⟩))
  unfold endBatch
  simp only
  split
  · exact hback { l with lastTxStatus := st } _
  · exact hkeep { l with lastTxStatus := st }
  · split
    · exact hback { l with lastTxStatus := st } _
    · exact hkeep { l with lastTxStatus := st }

/-- The reply loop after the client has its reply. -/
lemma afterReply_timely {m : BackendMsg}
    (hs : (PC.clientFlush c m).deadlines.Fits opts.queryTimeout s) :
    Timely opts k c b s (afterReply l c m) := by
  unfold afterReply
  split
  · exact .cons rfl trivial (.keeps ⟨hs.1, hs.2.1, hs.2.2, rfl⟩)
  · exact .cons rfl trivial (.keeps ⟨hs.1, hs.2.1, hs.2.2, rfl⟩)
  · exact endBatch_timely hs.1 _
  · rename_i hin hboth _
    have hplain : m.startsCopy = false := by
      cases m with
      | copyInResponse => exact (hin rfl).elim
      | copyBothResponse => exact (hboth rfl).elim
      | _ => rfl
    rw [PC.deadlines, hplain] at hs
    exact .keeps hs

lemma onReply_timely {m : BackendMsg} (hs : DeadlinePhase.replying.Fits opts.queryTimeout s) :
    Timely opts k c b s (onReply l c m) := by
  -- a reply that does not enter COPY changes nothing
  have hplain : ∀ how, m.startsCopy = false →
      DeadlinePhase.replying.Fits opts.queryTimeout (s.next (.recv c .reply m how)) := by
    intro how hm
    simpa [DeadlinePhase.Fits, DeadlineTrail.next, BackendConn.after, hm] using hs
  unfold onReply
  split
  · rename_i s' hswallow
    exact .cons rfl trivial (.keeps (hplain _ (startsCopy_of_swallowReply hswallow)))
  · refine .cons rfl trivial (.skip rfl (.keeps ?_))
    simp only [timing]
    cases hm : m.startsCopy with
    | true =>
      -- handing over is the business of the client's flush
      rw [if_pos (by simp [forcesFlush_of_startsCopy hm])]
      simp [PC.deadlines, hm, DeadlinePhase.Fits, DeadlineTrail.next, BackendConn.after, hs.1,
        hs.2.1]
    | false =>
      split
      · rw [PC.deadlines, hm]
        exact hplain _ hm
      · exact hplain _ hm

lemma onFlush_forced (st : CopyBoth) {what : PumpFlush} {ok : Bool} :
    (st.onFlush what ok).forced = st.forced := by
  unfold CopyBoth.onFlush
  split <;> rfl

lemma onClientFlush_forced (st : CopyBoth) {m : BackendMsg} {ok : Bool} :
    (st.onClientFlush m ok).forced = st.forced := by
  unfold CopyBoth.onClientFlush
  split <;> rfl

/-- `relayCopyBoth` returns, or goes on. -/
lemma conclude_timely {st : CopyBoth}
    (hs : (DeadlinePhase.copying st.forced).Fits opts.queryTimeout s) :
    Timely opts k c b s (CopyBoth.conclude l c st) := by
  obtain ⟨hw, hf, hc, hr⟩ := hs
  unfold CopyBoth.conclude
  split
  · simp only
    cases hforced : st.forced with
    | true =>
      split
      · refine .cons rfl trivial (.keeps ⟨hw, hf, ?_⟩)
        simp [timing, DeadlineTrail.next, BackendConn.after, hc]
      · exact .cons rfl trivial (abandon_timely hw)
    | false =>
      split
      · exact .keeps ⟨hw, hf, by simp [hr, hforced, hc]⟩
      · exact abandon_timely hw
  · exact .keeps ⟨hw, hf, hc, hr⟩

/-! ## The steps -/

lemma outerStep_timely (hs : s.conn.NoDeadline) (h : outerStep opts conns l (some c) i = some r) :
    Timely opts k c b s r := by
  unfold outerStep at h
  split at h
  · obtain ⟨t, -, rfl⟩ := Option.map_eq_some_iff.mp h
    exact .skip rfl (leave_timely hs.2)
  · cases h; exact leave_timely hs.2
  · cases h; exact leave_timely hs.2
  · cases h; exact beginBatch_timely hs
  · cases h

lemma checkStep_timely {pc : PC} (hpc : pc.deadlines.Fits opts.queryTimeout s)
    (h : checkStep opts conns nextID l c msg pc i = some r) : Timely opts k c b s r := by
  have hreject : ∀ (a : Act) (s : DeadlineTrail) (b : BackendConn), a.on = some c → a.lease = none →
      s.Good a → Timely opts k c b s
        ({ l with pc := .acquiring msg }, [a, .setDeadline c false, .retire c]) := by
    intro a s b hon hlease hgood
    refine .cons hon hgood ?_
    rw [show relaySem.lease a = none from hlease]
    exact .cons rfl trivial (.cons rfl trivial (.drops rfl trivial))
  unfold checkStep at h
  split at h
  · cases h; exact .cons rfl trivial (.cons rfl trivial (.keeps rfl))
  · cases h; exact .cons rfl trivial (.drops rfl trivial)
  · cases h; exact .cons rfl trivial (.keeps hpc)
  · cases h; exact hreject _ s b rfl rfl trivial
  · cases h; exact hreject _ s b rfl rfl trivial
  · split at h <;> cases h
    · exact hreject _ s b rfl rfl trivial
    · exact .cons rfl trivial (.cons rfl trivial (acquired_timely ⟨rfl, rfl⟩))
    · exact .cons rfl trivial (.keeps hpc)
  · cases h

lemma resetStep_timely {pc : PC} (hpc : pc.deadlines.Fits opts.queryTimeout s)
    (h : resetStep opts conns l c msg pc i = some r) : Timely opts k c b s r := by
  unfold resetStep at h
  split at h
  · cases h; exact .cons rfl trivial (.cons rfl trivial (.keeps rfl))
  · cases h; exact adoptFailed_timely _
  · cases h; exact .cons rfl trivial (.keeps hpc)
  · cases h; exact .cons rfl trivial (.cons rfl trivial (adoptFailed_timely _))
  · cases h; exact .cons rfl trivial (.cons rfl trivial (adoptFailed_timely _))
  · split at h <;> cases h
    · exact .cons rfl trivial (.cons rfl trivial (adoptFailed_timely _))
    · exact .cons rfl trivial (.cons rfl trivial (replayParams_timely ⟨rfl, rfl⟩))
    · exact .cons rfl trivial (.keeps hpc)
  · cases h

lemma paramsStep_timely {pc : PC} (hs : s.conn.NoDeadline)
    (h : paramsStep conns l c msg pc i = some r) : Timely opts k c b s r := by
  unfold paramsStep at h
  split at h
  · cases h; exact .cons rfl trivial (.keeps hs)
  · cases h; exact .cons rfl trivial (adoptFailed_timely _)
  · cases h; exact .cons rfl trivial (adoptFailed_timely _)
  · split at h <;> cases h
    · exact .cons rfl trivial (adoptFailed_timely _)
    · exact .cons rfl trivial (adopted_timely hs)
    · exact .cons rfl trivial (.keeps hs)
  · cases h

/-- The reply loop begins with the read deadline armed, if there is a `query_timeout`. -/
lemma batchStep_timely {pc : PC} (hs : DeadlinePhase.sending.Fits opts.queryTimeout s)
    (h : batchStep opts conns l c pc i = some r) : Timely opts k c b s r := by
  obtain ⟨hclear, hf⟩ := hs
  unfold batchStep at h
  split at h
  · cases h; exact leave_timely hclear.2
  · split at h
    · cases h; exact leave_timely hclear.2
    · split at h <;> cases h
      · rename_i hr
        exact forward_timely hclear hr
      · exact .skip rfl (release_timely_nil rfl hclear.2 _)
  · cases h
    refine .cons rfl hclear ?_
    split
    · rename_i hq
      refine .cons rfl trivial (.keeps ⟨hclear.2, hf, ?_⟩)
      simp [timing, DeadlineTrail.next, BackendConn.after, hq]
    · rename_i hq
      refine .keeps ⟨hclear.2, hf, ?_⟩
      simp [timing, DeadlineTrail.next, BackendConn.after, hclear.1, hq]
  · cases h; exact .cons rfl trivial (abandon_timely hclear.2)
  · cases h

lemma replyStep_timely {pc : PC} (hs : pc.deadlines.Fits opts.queryTimeout s)
    (h : replyStep opts l c pc i = some r) : Timely opts k c b s r := by
  have hw : ∀ {m : BackendMsg}, (PC.clientFlush c m).deadlines.Fits opts.queryTimeout s →
      s.conn.writeDeadline = false := by
    intro m hm
    simp only [PC.deadlines] at hm
    split at hm <;> exact hm.1
  unfold replyStep at h
  split at h
  · cases h; exact onReply_timely hs
  · cases h; exact .cons rfl trivial (abandon_timely hs.1)
  · split at h <;> cases h
    exact .cons rfl trivial (release_timely rfl hs.1 false (by simp [Act.on]))
  · cases h; exact .skip rfl (afterReply_timely hs)
  · cases h; exact .skip rfl (abandon_timely (hw hs))
  · cases h

lemma copyInStep_timely {pc : PC} (hs : (DeadlinePhase.copying false).Fits opts.queryTimeout s)
    (h : copyInStep conns l c pc i = some r) : Timely opts k c b s r := by
  obtain ⟨hw, hf, hc, hr⟩ := hs
  have hsend : s.forwarded = false → s.conn.NoDeadline := by simp [hf]
  unfold copyInStep at h
  split at h
  · cases h; exact abandon_timely hw
  · split at h <;> cases h
    · exact .cons rfl trivial (.keeps ⟨hw, hf, hc, hr⟩)
    · refine .cons rfl hsend (.keeps ?_)
      simp only [timing]
      split <;> exact ⟨hw, rfl, hc, hr⟩
    · exact .cons rfl hsend (.keeps ⟨hw, rfl, hc, hr⟩)
    · exact .cons rfl hsend (.keeps ⟨hw, rfl, hc, hr⟩)
    · exact .cons rfl hsend (.keeps ⟨hw, rfl, hc, hr⟩)
  · cases h
    refine .cons rfl trivial (.keeps ?_)
    simp only [timing]
    split
    · refine ⟨hw, hf, ?_⟩
      simp [DeadlineTrail.next, BackendConn.after, hc, hr]
    · exact ⟨hw, hf, hc, hr⟩
  · cases h; exact .cons rfl trivial (abandon_timely hw)
  · cases h

lemma copyBothStep_timely {st : CopyBoth}
    (hs : (DeadlinePhase.copying st.forced).Fits opts.queryTimeout s)
    (h : copyBothStep conns l c st i = some r) : Timely opts k c b s r := by
  obtain ⟨hw, hf, hc, hr⟩ := hs
  have hsend : s.forwarded = false → s.conn.NoDeadline := by simp [hf]
  unfold copyBothStep at h
  split at h
  · cases h
    unfold CopyBoth.onClient
    split
    · exact .cons rfl trivial (.keeps ⟨hw, hf, hc, hr⟩)
    all_goals
      exact .cons rfl hsend (.keeps ⟨hw, rfl, hc, hr⟩)
  · cases h; exact conclude_timely ⟨hw, hf, hc, hr⟩
  · cases h
    split
    · exact .cons rfl trivial (conclude_timely ⟨hw, hf, hc, hr.trans (onFlush_forced st).symm⟩)
    · exact .cons rfl trivial (conclude_timely ⟨hw, hf, hc, hr.trans (onFlush_forced st).symm⟩)
  · cases h; exact .cons rfl trivial (.skip rfl (.keeps ⟨hw, hf, hc, hr⟩))
  · cases h; exact .cons rfl trivial (conclude_timely ⟨hw, hf, hc, hr⟩)
  · cases h
    exact .skip rfl (conclude_timely ⟨hw, hf, hc, hr.trans (onClientFlush_forced st).symm⟩)
  · split at h <;> cases h
    exact .cons rfl trivial (.keeps ⟨hw, hf, hc, rfl⟩)
  · cases h

/-- **A step with a connection in hand** keeps its deadlines in order. -/
theorem held_timely (hhand : l.hand = some c) (hs : l.pc.deadlines.Fits opts.queryTimeout s)
    (h : step opts conns nextID l i = some r) : Timely opts k c b s r := by
  unfold Local.hand Local.grip at hhand
  unfold step at h
  cases hpc : l.pc <;>
    simp only [hpc, PC.grip, Grip.conn, Option.some.injEq, reduceCtorEq] at h hs hhand
  case outer backend =>
    cases backend <;> simp only [Option.some.injEq, reduceCtorEq] at hhand
    subst hhand
    exact outerStep_timely hs h
  all_goals subst hhand
  case checkArm | checkFlush | checkRecv => exact checkStep_timely hs h
  case resetArm | resetFlush | resetRecv => exact resetStep_timely hs h
  case paramsFlush | paramsRecv => exact paramsStep_timely hs h
  case batch | feFlush => exact batchStep_timely hs h
  case replies | clientFlush => exact replyStep_timely hs h
  case copyIn | copyInFlush => exact copyInStep_timely hs h
  case copyBoth => exact copyBothStep_timely hs h

/-- **A step that takes a connection from the pool** finds it without deadlines. -/
theorem taken_timely (hconn : i.conn = some c) (hs : s.conn.NoDeadline)
    (h : step opts conns nextID l i = some r) :
    Outline.LocalStep relaySem (timing opts) Local.hand k r.1 r.2 c .pooled b s := by
  obtain ⟨msg, -, h⟩ := acquiring_of_conn hconn h
  unfold acquireStep at h
  split at h
  · cases h; cases hconn
    exact .cons rfl trivial (.keeps hs)
  · cases h; cases hconn
    exact acquired_timely hs
  · cases hconn
  · cases h

end Relay

namespace World

variable {opts : RuntimeOpts} {mode : PoolMode} {params : Caller → List TrackedParam} {w : World}

/-- **The deadlines of every connection are in order**, in every world reached. -/
theorem timing_of_reach {C : World → Happening → Prop}
    (h : (machine opts mode params).Reach C w) : (timing opts).Holds relaySem w := by
  refine outline_rule ⟨rfl, rfl⟩ (fun _ _ _ => trivial) ?_ ?_ ?_ h
  · intro w k b s _ hs
    simpa [register, timing] using hs
  · intro w k i r c _ _ hr hhand hs
    exact Relay.held_timely hhand hs hr
  · intro w k i r c _ _ hr _ hconn _ hs
    exact Relay.taken_timely hconn hs hr

/-- The connection `c` as a log leaves it. -/
def connAfter (c : Conn) (log : List (Caller × Act)) : BackendConn :=
  relaySem.resAfter c .blank (log.map Prod.snd)

/-- The ghost follows the connection. -/
lemma ghost_conn (opts : RuntimeOpts) (c : Conn) (log : List (Caller × Act)) :
    ((timing opts).ghost relaySem c log).conn = connAfter c log := by
  suffices h : ∀ s : DeadlineTrail, (log.foldl (fun s e => if relaySem.on e.2 = some c
      then (timing opts).next s e else s) s).conn =
        relaySem.resAfter c s.conn (log.map Prod.snd) from h ⟨.blank, false, false⟩
  induction log with
  | nil => exact fun _ => rfl
  | cons e log ih =>
    intro s
    rw [List.foldl_cons, ih, List.map_cons, relaySem.resAfter_cons]
    split <;> rfl

/-- A connection is what its log says. -/
lemma res_of_reach {C : World → Happening → Prop} (h : (machine opts mode params).Reach C w)
    (c : Conn) : w.res c = connAfter c w.log := by
  induction h with
  | init h0 =>
    obtain ⟨psLimit, rfl⟩ := h0
    rfl
  | @step w w' a _ _ hs ih =>
    cases a with
    | relay k i =>
      simp only [machine, World.step] at hs
      split at hs
      · obtain ⟨r, -, rfl⟩ := Option.map_eq_some_iff.mp hs
        have hacts : (r.2.map fun a => (k, a)).map Prod.snd = r.2 := by
          rw [List.map_map]
          exact List.map_id r.2
        rw [connAfter, Leased.perform, List.map_append, hacts, relaySem.resAfter_append]
        exact congrArg (fun b => relaySem.resAfter c b r.2) ih
      · cases hs
    | register k | dial k | retire k =>
      simp only [machine, World.step] at hs
      split at hs <;> cases hs
      exact ih

end World

end Pgman
