import Pgman.Construction.Relay.Engagement
import Pgman.Construction.Relay.Served
import Pgman.Construction.Wire.Cycle

/-!
# Out of COPY BOTH

`relayCopyBoth` ends with the `ReadyForQuery` of the statement that copies: its backend pump
forwards it and stops.  The relay then goes back to its reply loop, which reads the backend up to
the next `ReadyForQuery`.  Where the pump has taken the only one there is, the relay waits for a
backend that has nothing more to say, and keeps its connection for good:
`copyBoth_waits_for_nothing`.

The reply loop is right to wait as long as the pump leaves that `ReadyForQuery` alone, or has
failed to pass it on to an exchange that then fails as a whole.  `SparesReady` steps are those; in
runs of such steps the reply loop only ever waits for an answer that is still due
(`copyBoth_leaves_answer_due`).

What is due is read off the session's history: the message that ended the batch in progress, until
a `ReadyForQuery` has been received.
-/

namespace Pgman

/-! ## What is due -/

/-- The last client message sent on, and the one whose `ReadyForQuery` is due. -/
structure Awaited where
  sent : Option FrontendMsg
  due : Option FrontendMsg
  deriving DecidableEq, Repr

/-- What an act of the session makes of them. -/
def Awaited.next (s : Awaited) : Act → Awaited
  | .send _ .client m => { s with sent := some m }
  | .flush _ .reply _ => { s with due := s.sent }
  | .recv _ _ (.readyForQuery _) _ => { s with due := none }
  | _ => s

/-- A message that ends a batch is unanswered. -/
def Awaited.Due (s : Awaited) : Prop := ∃ m, s.due = some m ∧ isTerminalMessage m = true

/-- The exchange has not taken the answer, or has failed. -/
def CopyBoth.Honest (st : CopyBoth) (s : Awaited) : Prop :=
  s.Due ∨ (∃ x, st.backendPump = .flushing (.readyForQuery x)) ∨
    st.backendPump = .ended ∧ st.first = some false

/-- Where the relay reads the backend, an answer is due. -/
def askedDiary : Diary Local Act Awaited where
  init := ⟨none, none⟩
  next := Awaited.next
  good _ _ := True
  at' l s :=
    match l.pc with
    | .feFlush _ => ∃ m, s.sent = some m ∧ isTerminalMessage m = true
    | .replies _ | .copyIn _ _ | .copyInFlush _ _ => s.Due
    | .clientFlush _ r => r.isReady = false → s.Due
    | .copyBoth _ st => st.Honest s
    | _ => True

/-- The message of session `k` whose `ReadyForQuery` is due. -/
def dueAnswer (k : Caller) (log : List (Caller × Act)) : Option FrontendMsg :=
  (askedDiary.ghost k log).due

/-! ## The condition -/

/-- The backend pump has passed a `ReadyForQuery` on, or failed to: an exchange that has failed,
or fails with this. -/
def CopyBoth.SparesReady (st : CopyBoth) (ok : Bool) : Prop :=
  match st.backendPump with
  | .flushing (.readyForQuery _) => st.first = some false ∨ st.first = none ∧ ok = false
  | _ => True

instance (st : CopyBoth) (ok : Bool) : Decidable (st.SparesReady ok) := by
  unfold CopyBoth.SparesReady
  split <;> infer_instance

/-- No backend pump takes the `ReadyForQuery` of an exchange that goes on to succeed. -/
def SparesReady (w : World) : Happening → Prop
  | .relay k (.flushClient ok) =>
      match (w.loc k).pc with
      | .copyBoth _ st => st.SparesReady ok
      | _ => True
  | _ => True

/-- The condition as a test. -/
def sparesReady (w : World) : Happening → Bool
  | .relay k (.flushClient ok) =>
      match (w.loc k).pc with
      | .copyBoth _ st => decide (st.SparesReady ok)
      | _ => true
  | _ => true

lemma sparesReady_iff {w : World} {a : Happening} : sparesReady w a = true ↔ SparesReady w a := by
  unfold sparesReady SparesReady
  split
  · split <;> simp
  · simp

instance (w : World) (a : Happening) : Decidable (SparesReady w a) :=
  decidable_of_iff _ sparesReady_iff

/-! ## The steps -/

section Steps

variable {opts : RuntimeOpts} {conns : Conn → BackendConn} {nextID : ℕ} {l : Local} {c : Conn}
  {i : Input} {r : Local × List Act} {s : Awaited} {stmts : BackendPSCache} {msg : FrontendMsg}

/-- Where no batch is in flight nothing is claimed. -/
lemma asked_of_service (h : r.1.pc.service = none) : askedDiary.at' r.1 s := by
  unfold askedDiary
  simp only
  split <;> simp_all [PC.service]

lemma asked_of_done (h : r.1.pc = .done) : askedDiary.at' r.1 s := asked_of_service (by rw [h]; rfl)

/-- A message that ends its batch is the last one sent. -/
lemma forward_asked (h : Relay.forward l c stmts msg = .ok r) :
    askedDiary.at' r.1 (r.2.foldl askedDiary.next s) := by
  unfold Relay.forward at h
  split at h <;> cases h
  cases hm : isTerminalMessage msg with
  | true =>
    simp only [askedDiary, if_true, List.foldl_append, List.foldl_cons, List.foldl_nil]
    exact ⟨msg, rfl, hm⟩
  | false => exact asked_of_service (by simp [PC.service])

lemma beginBatch_asked : askedDiary.at' (Relay.beginBatch l c stmts msg).1
    ((Relay.beginBatch l c stmts msg).2.foldl askedDiary.next s) := by
  unfold Relay.beginBatch
  split
  · rename_i hf
    exact forward_asked hf
  · exact asked_of_done rfl

lemma outerStep_asked (h : Relay.outerStep opts conns l (some c) i = some r) :
    askedDiary.at' r.1 (r.2.foldl askedDiary.next s) := by
  unfold Relay.outerStep at h
  split at h
  · obtain ⟨t, -, rfl⟩ := Option.map_eq_some_iff.mp h
    exact asked_of_done rfl
  · cases h; exact asked_of_done rfl
  · cases h; exact asked_of_done rfl
  · cases h; exact beginBatch_asked
  · cases h

lemma batchStep_asked (hl : l.pc = .batch c ∨ l.pc = .feFlush c)
    (hs : l.pc = .feFlush c → ∃ m, s.sent = some m ∧ isTerminalMessage m = true)
    (h : Relay.batchStep opts conns l c l.pc i = some r) :
    askedDiary.at' r.1 (r.2.foldl askedDiary.next s) := by
  unfold Relay.batchStep at h
  split at h
  · cases h; exact asked_of_done rfl
  · split at h
    · cases h; exact asked_of_done rfl
    · split at h <;> cases h
      · rename_i hf
        exact forward_asked hf
      · exact asked_of_done rfl
  · rename_i hpc
    cases h
    obtain ⟨m, hm, hterm⟩ := hs (by simpa [hpc] using hl)
    split
    · exact ⟨m, hm, hterm⟩
    · exact ⟨m, hm, hterm⟩
  · cases h; exact asked_of_done rfl
  · cases h

/-- A reply that is not dropped is not the last one, or ends the reply loop. -/
lemma onReply_asked (hs : s.Due) (m : BackendMsg) : askedDiary.at' (Relay.onReply l c m).1
    ((Relay.onReply l c m).2.foldl askedDiary.next s) := by
  have hkeep : m.isReady = false → ∀ fate, s.next (.recv c .reply m fate) = s := by
    intro hm fate
    cases m <;> first | rfl | simp [BackendMsg.isReady] at hm
  unfold Relay.onReply
  split
  · rename_i sw hsw
    have hm : m.isReady = false :=
      (Relay.plain_of_swallowReply hsw).1
    simpa [askedDiary, hkeep hm] using hs
  · by_cases hflush : (decide (clientFlushThreshold ≤ l.pending + replyEncodedSize m) ||
        Relay.forcesFlush m) = true
    · simp only [askedDiary, hflush, if_true, List.foldl_cons, List.foldl_nil]
      intro hm
      rw [hkeep hm]
      exact hs
    · have hm : m.isReady = false :=
        (Relay.plain_of_not_forcesFlush (Bool.or_eq_false_iff.mp (eq_false_of_ne_true hflush)).2).1
      simp only [askedDiary, hflush, List.foldl_cons, List.foldl_nil, hkeep hm]
      exact hs

lemma afterReply_asked {m : BackendMsg} (hs : m.isReady = false → s.Due) :
    askedDiary.at' (Relay.afterReply l c m).1
      ((Relay.afterReply l c m).2.foldl askedDiary.next s) := by
  unfold Relay.afterReply
  split
  · exact hs rfl
  · exact .inl (hs rfl)
  · refine asked_of_service ?_
    unfold Relay.endBatch
    simp only
    split
    · rfl
    · rfl
    · split <;> rfl
  · rename_i hm
    exact hs (BackendMsg.isReady_eq_false hm)

lemma replyStep_asked (hs : askedDiary.at' l s)
    (h : Relay.replyStep opts l c l.pc i = some r) :
    askedDiary.at' r.1 (r.2.foldl askedDiary.next s) := by
  unfold Relay.replyStep at h
  split at h <;> rename_i hpc <;> simp only [askedDiary, hpc] at hs
  · cases h; exact onReply_asked hs _
  · cases h; exact asked_of_done rfl
  · split at h <;> cases h
    exact asked_of_done rfl
  · cases h; exact afterReply_asked hs
  · cases h; exact asked_of_done rfl
  · cases h

lemma copyInStep_asked (hs : s.Due) (h : Relay.copyInStep conns l c l.pc i = some r) :
    askedDiary.at' r.1 (r.2.foldl askedDiary.next s) := by
  unfold Relay.copyInStep at h
  split at h
  · cases h; exact asked_of_done rfl
  · rename_i pending msg hpc
    split at h <;> cases h
    · exact hs
    · by_cases hfull : 32 ≤ pending + 1
      · simp only [askedDiary, hfull, if_true]
        exact hs
      · simp only [askedDiary, hfull, if_false]
        exact hs
    · exact hs
    · exact hs
    · exact hs
  · rename_i next _
    cases h
    cases next <;> exact hs
  · cases h; exact asked_of_done rfl
  · cases h

/-- Both pumps have ended: an exchange that succeeds leaves its answer due. -/
lemma conclude_asked {st : CopyBoth} (hs : st.Honest s) :
    askedDiary.at' (CopyBoth.conclude l c st).1
      ((CopyBoth.conclude l c st).2.foldl askedDiary.next s) := by
  unfold CopyBoth.conclude
  split
  · rename_i hended
    simp only
    split
    · rename_i hfirst
      have hdue : s.Due := by
        rcases hs with hs | ⟨x, hx⟩ | ⟨-, hfalse⟩
        · exact hs
        · simp [hended] at hx
        · simp [hfirst] at hfalse
      split <;> exact hdue
    · exact asked_of_done rfl
  · exact hs

/-- A result on `errCh` changes no result that is there. -/
lemma CopyBoth.Honest.report {st : CopyBoth} {p : ClientPump} {ok : Bool} (hs : st.Honest s) :
    ({ st with clientPump := p }.report ok).Honest s := by
  rcases hs with hs | hs | ⟨hpump, hfirst⟩
  · exact .inl hs
  · exact .inr (.inl hs)
  · exact .inr (.inr ⟨hpump, by simp [CopyBoth.report, hfirst]⟩)

/-- While the backend pump reads, it has not taken the answer. -/
lemma CopyBoth.Honest.due_of_reading {st : CopyBoth} (hs : st.Honest s)
    (hpump : st.backendPump = .reading) : s.Due := by
  refine hs.resolve_right ?_
  rintro (⟨x, hx⟩ | ⟨hx, -⟩) <;> simp [hpump] at hx

lemma CopyBoth.Honest.onFlush {st : CopyBoth} (hs : st.Honest s) (what : PumpFlush) (ok : Bool) :
    (st.onFlush what ok).Honest s := by
  unfold CopyBoth.onFlush
  split
  · exact hs
  · exact hs.report
  · exact hs.report

lemma CopyBoth.Honest.onClientFlush {st : CopyBoth} {m : BackendMsg} {ok : Bool}
    (hpump : st.backendPump = .flushing m) (hs : st.Honest s) (hspare : st.SparesReady ok) :
    (st.onClientFlush m ok).Honest s := by
  cases hm : m.isReady with
  | true =>
    obtain ⟨x, rfl⟩ := BackendMsg.exists_of_isReady hm
    simp only [CopyBoth.SparesReady, hpump] at hspare
    refine .inr (.inr ?_)
    rcases hspare with hfirst | ⟨hfirst, rfl⟩
    · cases ok <;> simp [CopyBoth.onClientFlush, CopyBoth.report, hfirst]
    · simp [CopyBoth.onClientFlush, CopyBoth.report, hfirst]
  | false =>
    -- the answer is still due, and stays so
    refine .inl (hs.resolve_right ?_)
    rintro (⟨x, hx⟩ | ⟨hx, -⟩)
    · simp only [hpump, BackendPump.flushing.injEq] at hx
      simp [hx, BackendMsg.isReady] at hm
    · simp [hpump] at hx

lemma copyBothStep_asked {st : CopyBoth} (hs : st.Honest s)
    (hspare : ∀ ok, i = .flushClient ok → st.SparesReady ok)
    (h : Relay.copyBothStep conns l c st i = some r) :
    askedDiary.at' r.1 (r.2.foldl askedDiary.next s) := by
  unfold Relay.copyBothStep at h
  split at h
  · cases h
    unfold CopyBoth.onClient
    split <;> exact hs
  · cases h; exact conclude_asked hs.report
  · cases h
    simp only [List.foldl_cons]
    split <;> exact conclude_asked (hs.onFlush _ _)
  · rename_i m hpump
    cases h
    cases hm : m.isReady with
    | true =>
      obtain ⟨x, rfl⟩ := BackendMsg.exists_of_isReady hm
      exact .inr (.inl ⟨x, rfl⟩)
    | false =>
      have hsame : s.next (.recv c .copyBoth m .forward) = s := by
        cases m <;> first | rfl | simp [BackendMsg.isReady] at hm
      refine .inl ?_
      simp only [askedDiary, List.foldl_cons, List.foldl_nil, hsame]
      exact hs.due_of_reading hpump
  · rename_i hpump
    cases h
    exact conclude_asked (.inl (hs.due_of_reading hpump))
  · rename_i m ok hpump
    cases h
    exact conclude_asked (hs.onClientFlush hpump (hspare ok rfl))
  · split at h <;> cases h
    exact hs
  · cases h

/-- **Every step keeps the diary.** -/
theorem step_asked (hs : askedDiary.at' l s)
    (hspare : ∀ c st ok, l.pc = .copyBoth c st → i = .flushClient ok → st.SparesReady ok)
    (h : Relay.step opts conns nextID l i = some r) :
    askedDiary.at' r.1 (r.2.foldl askedDiary.next s) := by
  have hstep := h
  have henters : l.pc.engaged = none → askedDiary.at' r.1 (r.2.foldl askedDiary.next s) := by
    intro hc
    cases Relay.entering_step hc hstep with
    | outside _ hpc =>
      exact asked_of_service (PC.service_of_engaged hpc)
    | begins c' l' stmts msg acts acts' heq _ hf =>
      rw [heq, List.foldl_append]
      exact forward_asked hf
  unfold Relay.step at h
  cases hpc : l.pc with
  | outer backend =>
    cases backend with
    | none => exact henters (by rw [hpc]; rfl)
    | some c => rw [hpc] at h; exact outerStep_asked h
  | batch c =>
    have hb : Relay.batchStep opts conns l c l.pc i = some r := by simpa only [hpc] using h
    exact batchStep_asked (.inl hpc) (fun hf => by simp [hpc] at hf) hb
  | feFlush c =>
    have hb : Relay.batchStep opts conns l c l.pc i = some r := by simpa only [hpc] using h
    exact batchStep_asked (.inr hpc) (fun _ => by simpa [askedDiary, hpc] using hs) hb
  | replies c => simp only [hpc] at h; exact replyStep_asked hs (by rw [hpc]; exact h)
  | clientFlush c m => simp only [hpc] at h; exact replyStep_asked hs (by rw [hpc]; exact h)
  | copyIn c n =>
    simp only [askedDiary, hpc] at hs h
    exact copyInStep_asked hs (by rw [hpc]; exact h)
  | copyInFlush c next =>
    simp only [askedDiary, hpc] at hs h
    exact copyInStep_asked hs (by rw [hpc]; exact h)
  | copyBoth c st =>
    simp only [askedDiary, hpc] at hs h
    exact copyBothStep_asked hs (fun ok hi => hspare c st ok hpc hi) h
  | _ => exact henters (by rw [hpc]; rfl)

end Steps

/-! ## The main result -/

variable {opts : RuntimeOpts} {mode : PoolMode} {params : Caller → List TrackedParam} {w : World}

theorem asked_holds (h : (World.machine opts mode params).Reach SparesReady w) :
    askedDiary.Holds w := by
  refine World.diary_rule (fun _ _ _ => trivial) (fun w k s _ hs => ?_)
    (fun w k i r s _ hC hr hs => ⟨Diary.goodRun_of_good fun _ _ => trivial,
      step_asked hs (fun c st ok hpc hi => ?_) hr⟩) h
  · simpa [World.register, askedDiary] using hs
  · subst hi
    simpa [SparesReady, hpc] using hC

/-- The answer takes a session back to its client, or to its end. -/
lemma answer_ends_wait {k : Caller} {c : Conn} (hpc : (w.loc k).pc = .replies c) (x : Char)
    (ok : Bool) : ∃ w', (World.machine opts mode params).run w
      [.relay k (.reply (.readyForQuery x)), .relay k (.flushClient ok)] = some w' ∧
      ((∃ backend, (w'.loc k).pc = .outer backend) ∨ (w'.loc k).pc = .done) := by
  have hadmits : ∀ (w : World) (i : Input), i.conn = none → w.Admits i := by
    intro w i hi c hc
    simp [hi] at hc
  have hread : ∀ (w : World), (w.loc k).pc = .replies c → ∃ w₁,
      World.step opts w (.relay k (.reply (.readyForQuery x))) = some w₁ ∧
        (w₁.loc k).pc = .clientFlush c (.readyForQuery x) := by
    intro w hpc
    simp only [World.step, if_pos (hadmits w (.reply (.readyForQuery x)) rfl), Relay.step, hpc,
      Relay.replyStep]
    exact ⟨_, rfl, by simp [Leased.perform, Relay.onReply, Relay.swallowReply, Relay.forcesFlush]⟩
  obtain ⟨w₁, hw₁, hpc₁⟩ := hread w hpc
  have hflush : ∃ w₂, World.step opts w₁ (.relay k (.flushClient ok)) = some w₂ ∧
      ((∃ backend, (w₂.loc k).pc = .outer backend) ∨ (w₂.loc k).pc = .done) := by
    simp only [World.step, if_pos (hadmits w₁ (.flushClient ok) rfl), Relay.step, hpc₁]
    cases ok with
    | false => exact ⟨_, rfl, .inr (by simp [Leased.perform, Relay.abandon])⟩
    | true =>
      refine ⟨_, rfl, .inl ?_⟩
      simp only [Leased.perform, Relay.afterReply, Relay.endBatch, Function.update_self]
      split
      · exact ⟨_, rfl⟩
      · exact ⟨_, rfl⟩
      · split <;> exact ⟨_, rfl⟩
  obtain ⟨w₂, hw₂, hend⟩ := hflush
  refine ⟨w₂, ?_, hend⟩
  simp only [Machine.run, World.machine, hw₁, Option.bind_some, hw₂]

/-- **The reply loop waits for answers that are due.**  In every run in which no backend pump takes
the `ReadyForQuery` of a COPY BOTH that goes on to succeed: wherever a session reads the backend in
its reply loop, also after `relayCopyBoth` has returned, a message it has forwarded is still owed
its `ReadyForQuery`, and with that the session goes back to its client or ends. -/
theorem copyBoth_leaves_answer_due (hw : (World.machine opts mode params).Reach SparesReady w)
    {k : Caller} {c : Conn} (hpc : (w.loc k).pc = .replies c) :
    (∃ m, dueAnswer k w.log = some m ∧ isTerminalMessage m = true) ∧
      ∀ x ok, ∃ w', (World.machine opts mode params).run w
        [.relay k (.reply (.readyForQuery x)), .relay k (.flushClient ok)] = some w' ∧
        ((∃ backend, (w'.loc k).pc = .outer backend) ∨ (w'.loc k).pc = .done) := by
  have hdue := (asked_holds hw).asserts k
  simp only [askedDiary, hpc] at hdue
  exact ⟨hdue, fun x ok => answer_ends_wait hpc x ok⟩

/-- No timeouts, and connections scrubbed between sessions. -/
def replicationOpts : RuntimeOpts := ⟨"DISCARD ALL", true, 0, 0, 0⟩

/-- A client ends its replication, and the backend is slower than the grace: the pump is woken, and
the reply loop waits for the answer that is still due. -/
theorem copyBoth_leaves_answer_due_after_grace :
    ∃ w, (World.machine replicationOpts .session fun _ => []).Reach SparesReady w ∧
      (w.loc 0).pc = .replies 3 ∧
      ∃ m, dueAnswer 0 w.log = some m ∧ isTerminalMessage m = true := by
  have hrun : (((World.machine replicationOpts .session fun _ => []).guarded SparesReady).run
      (World.start .session (fun _ => []) fun _ => 0)
      [.dial 3, .relay 0 (.client (.query "START_REPLICATION")), .relay 0 (.draining false),
        .relay 0 (.acquired 3), .relay 0 (.feFlush none), .relay 0 (.reply .copyBothResponse),
        .relay 0 (.flushClient true), .relay 0 (.reply (.copyData "wal")),
        .relay 0 (.flushClient true), .relay 0 (.client .copyDone), .relay 0 (.feFlush none),
        .relay 0 .grace, .relay 0 (.replyErr "i/o timeout")]).map
      (fun w => (w.loc 0).pc) = some (.replies 3) := by decide
  obtain ⟨w, hw, hpc⟩ := Option.map_eq_some_iff.mp hrun
  have hreach : (World.machine replicationOpts .session fun _ => []).Reach SparesReady w :=
    Machine.reach_of_guarded_run ⟨fun _ => 0, rfl⟩ hw
  exact ⟨w, hreach, hpc, (copyBoth_leaves_answer_due hreach hpc).1⟩

/-- **The relay waits for nothing.**  A client ends its replication, the backend answers in full,
and the backend pump passes the answer on.  The relay is back in its reply loop with its connection
in hand and no answer due: the server has nothing to say, and will not have, whatever it does. -/
theorem copyBoth_waits_for_nothing :
    ∃ w, (Served.machine replicationOpts (fun _ => false) .session fun _ => []).Reachable w ∧
      (w.loc 0).pc = .replies 3 ∧ w.place 3 = .held 0 ∧ dueAnswer 0 w.log = none ∧
      (w.res 3).server.outbox = [] ∧ (w.res 3).server.Settled ∧
      ∀ mv t, (w.res 3).server.move (fun _ => false) mv = some t → t.Settled := by
  have hrun : ((Served.machine replicationOpts (fun _ => false) .session fun _ => []).run
      (Served.start .session (fun _ => []) fun _ => 0)
      [.world (.dial 3), .world (.relay 0 (.client (.query "START_REPLICATION"))),
        .world (.relay 0 (.draining false)), .world (.relay 0 (.acquired 3)),
        .world (.relay 0 (.feFlush none)), .server 3 (.serve (.copyBoth [])),
        .world (.relay 0 (.reply .copyBothResponse)), .world (.relay 0 (.flushClient true)),
        .world (.relay 0 (.client .copyDone)), .world (.relay 0 (.feFlush none)),
        .server 3 (.serve (.done [.copyDone, .commandComplete "COPY 0"] 'I' [])),
        .world (.relay 0 (.reply .copyDone)), .world (.relay 0 (.flushClient true)),
        .world (.relay 0 (.reply (.commandComplete "COPY 0"))),
        .world (.relay 0 (.flushClient true)), .world (.relay 0 (.reply (.readyForQuery 'I'))),
        .world (.relay 0 (.flushClient true))]).map
      (fun w => decide ((w.loc 0).pc = .replies 3 ∧ w.place 3 = .held 0 ∧
        dueAnswer 0 w.log = none ∧ (w.res 3).server.inbox = [] ∧ (w.res 3).server.outbox = [] ∧
        (w.res 3).server.phase = .ready ∧
        (w.res 3).server.status = (w.res 3).server.reported)) = some true := by decide
  obtain ⟨w, hw, hview⟩ := Option.map_eq_some_iff.mp hrun
  obtain ⟨hpc, hplace, hdue, hin, hout, hphase, hstatus⟩ := of_decide_eq_true hview
  have hsettled : (w.res 3).server.Settled :=
    ⟨by simp [Server.Silent, hin], by simp [Server.Notices, hout], hphase, hstatus⟩
  exact ⟨w, Machine.reach_of_run ⟨fun _ => 0, rfl⟩ hw, hpc, hplace, hdue, hout, hsettled,
    fun mv t ht => (hsettled.move ht).1⟩

end Pgman
