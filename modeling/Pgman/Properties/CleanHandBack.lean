import Pgman.Construction.Relay.Tidy

/-!
# What goes back to the pool

Two readings of tidy runs.  In an orderly run a connection in the pool has an empty write
buffer and a server that owes nothing, so a session's messages are written out by that session
or not at all; and its server has last reported a transaction status that the pool mode
allows.

Without the restriction to orderly runs both fail.  A client that leaves in the middle of a
batch makes the relay decide by the status of an earlier batch: it gives the connection back
with the batch still in the write buffer, and the next session's health check sends it.
-/

namespace Pgman

variable {opts : RuntimeOpts} {quiet : String → Bool} {mode : PoolMode}
  {params : Caller → List TrackedParam} {w : Served}

/-! ## Clean hand-backs -/

/-- What a clean hand-back means for the connections in the pool and for the log. -/
structure HandsBackClean (w : Served) : Prop where
  /-- Nothing is buffered on a connection in the pool, and no reply is owed on it. -/
  pooled : ∀ c, w.place c = .pooled → (w.res c).conn.wbuf = [] ∧ (w.res c).server.Settled
  /-- Everything sent on a connection has been flushed when the connection is released. -/
  released : ∀ pre k c post, w.log = pre ++ (k, Act.release c) :: post → unflushed c pre = []
  /-- A flush writes what the session that flushes has sent since the last flush. -/
  written : ∀ pre k c site delivered post, w.log = pre ++ (k, Act.flush c site delivered) :: post →
    unflushed c pre = signed k delivered

lemma signed_eq_nil {k : Caller} {buf : List (Source × FrontendMsg)} (h : buf = []) :
    signed k buf = [] := by
  rw [h]
  rfl

/-- The outline, read off the log. -/
lemma handsBackClean_of_tidy {ok : Char → Prop} (h : (tidiness quiet ok).Holds servedSem w) :
    HandsBackClean w := by
  have hgood : ∀ pre k (a : Act) post c, w.log = pre ++ (k, a) :: post → a.on = some c →
      ∃ buf, unflushed c pre = signed k buf ∧ a.Clears buf :=
    fun pre k a post c hlog hon => h.good pre (k, a) post hlog c hon
  refine ⟨fun c hc => ?_, fun pre k c post hlog => ?_, fun pre k c site delivered post hlog => ?_⟩
  · have hasserts := h.asserts c
    simp only [Outline.Asserts, hc] at hasserts
    exact ⟨hasserts.2.1, hasserts.2.2.1⟩
  · obtain ⟨buf, hbuf, hclears⟩ := hgood pre k _ post c hlog rfl
    rw [hbuf, signed_eq_nil hclears]
  · obtain ⟨buf, hbuf, hclears⟩ := hgood pre k _ post c hlog rfl
    rw [hbuf, show delivered = buf from hclears]

/-- **Clean hand-back.**  In every run whose steps are orderly, with any number of sessions, in
every mode and against every conforming server. -/
theorem clean_hand_back (opts : RuntimeOpts) (quiet : String → Bool) (mode : PoolMode)
    (params : Caller → List TrackedParam) (w : Served)
    (h : (Served.machine opts quiet mode params).Reach Orderly w) : HandsBackClean w :=
  handsBackClean_of_tidy (Served.tidy_of_reach (upkeep_any opts quiet mode params) h)

/-- Session 1 runs a query and gets the same connection again for the first half of a batch. -/
def halfBatch : List Event :=
  [.world (.dial 7), .world (.relay 1 (.client (.query "select 1"))),
    .world (.relay 1 (.draining false)), .world (.relay 1 (.acquired 7)),
    .world (.relay 1 (.feFlush none)),
    .server 7 (.serve (.done [.commandComplete "SELECT 1"] 'I' [])),
    .world (.relay 1 (.reply (.commandComplete "SELECT 1"))),
    .world (.relay 1 (.reply (.readyForQuery 'I'))), .world (.relay 1 (.flushClient true)),
    .world (.relay 1 (.client (.parse "s" "select 2" []))), .world (.relay 1 (.draining false)),
    .world (.relay 1 (.acquired 7))]

/-- The batch is completed and answered. -/
def wholeBatch : List Event :=
  halfBatch ++ [Event.world (.relay 1 (.client .sync)), .world (.relay 1 (.feFlush none)),
    .server 7 (.serve (.done [] 'I' [])), .server 7 (.serve (.done [] 'I' [])),
    .world (.relay 1 (.reply .parseComplete)), .world (.relay 1 (.reply (.readyForQuery 'I'))),
    .world (.relay 1 (.flushClient true))]

/-- The client leaves in the middle of the batch, and session 2 draws the connection. -/
def deserted : List Event :=
  halfBatch ++ [Event.world (.relay 1 .clientErr), .world (.relay 2 (.client (.query "select 3"))),
    .world (.relay 2 (.draining false)), .world (.relay 2 (.popped 7)),
    .world (.relay 2 (.armed none)), .world (.relay 2 (.feFlush none))]

theorem clean_hand_back_whole_batch :
    let M := Served.machine ⟨"DISCARD ALL", true, 0, 0, 0⟩ (fun _ => true) .transaction fun _ => []
    ∃ w, (M.guarded Orderly).run (Served.start .transaction (fun _ => []) (fun _ => 0)) wholeBatch =
        some w ∧
      w.place 7 = .pooled ∧ HandsBackClean w := by
  intro M
  have hrun : ((M.guarded Orderly).run (Served.start .transaction (fun _ => []) (fun _ => 0))
      wholeBatch).map (fun w => w.place 7) = some .pooled := by decide
  obtain ⟨w, hw, hplace⟩ := Option.map_eq_some_iff.mp hrun
  exact ⟨w, hw, hplace, clean_hand_back _ _ .transaction _ w
    (Machine.reach_of_guarded_run ⟨_, rfl⟩ hw)⟩

/-- A client that leaves in the middle of a batch: its connection goes back with the batch in
the write buffer, and session 2's health check writes session 1's message. -/
theorem deserted_batch_is_pooled :
    let M := Served.machine ⟨"DISCARD ALL", true, 0, 0, 0⟩ (fun _ => true) .transaction fun _ => []
    (∃ w, M.Reachable w ∧ w.place 7 = .pooled ∧
      (w.res 7).conn.wbuf = [(.client, .parse "s" "select 2" [])] ∧ ¬HandsBackClean w) ∧
    ∃ w, M.Reachable w ∧ (1, .send 7 .client (.parse "s" "select 2" [])) ∈ w.log ∧
      (2, .flush 7 .health [(.client, .parse "s" "select 2" []), (.health, .query "SELECT 1")]) ∈
        w.log := by
  intro M
  have hrun₁ : (M.run (Served.start .transaction (fun _ => []) (fun _ => 0))
      (halfBatch ++ [Event.world (.relay 1 .clientErr)])).map
        (fun w => (w.place 7, (w.res 7).conn.wbuf)) =
      some (.pooled, [(.client, .parse "s" "select 2" [])]) := by decide
  have hrun₂ : (M.run (Served.start .transaction (fun _ => []) (fun _ => 0)) deserted).map
      (fun w => (w.log.contains (1, .send 7 .client (.parse "s" "select 2" [])),
        w.log.contains (2, .flush 7 .health [(.client, .parse "s" "select 2" []),
          (.health, .query "SELECT 1")]))) = some (true, true) := by decide
  obtain ⟨w₁, hw₁, hview₁⟩ := Option.map_eq_some_iff.mp hrun₁
  obtain ⟨w₂, hw₂, hview₂⟩ := Option.map_eq_some_iff.mp hrun₂
  simp only [Prod.mk.injEq, List.contains_iff_mem] at hview₁ hview₂
  refine ⟨⟨w₁, Machine.reach_of_run ⟨_, rfl⟩ hw₁, hview₁.1, hview₁.2, fun hclean => ?_⟩, w₂,
    Machine.reach_of_run ⟨_, rfl⟩ hw₂, hview₂⟩
  have hempty := (hclean.pooled 7 hview₁.1).1
  simp [hview₁.2] at hempty

/-! ## Transactions in the pool -/

/-- The transaction status a mode gives connections back with: statement mode gives back all
but failed transactions. -/
def Poolable (mode : PoolMode) (st : Char) : Prop :=
  match mode with
  | .statement => st ≠ 'E'
  | .transaction | .session => st = 'I'

lemma keeps_poolable {sql : String} (h : quiet sql = true) :
    Server.Keeps quiet (Poolable mode) sql := by
  cases mode
  · exact Server.keeps_idle h
  · exact Server.keeps_idle h
  · exact Server.keeps_unfailed h

/-- **No open transaction is pooled**, statement mode apart.  In every orderly run, if the reset
query, the health check and the replayed parameters open no transaction. -/
theorem pooled_status (opts : RuntimeOpts) (quiet : String → Bool) (mode : PoolMode)
    (params : Caller → List TrackedParam) (w : Served) (hhealth : quiet "SELECT 1" = true)
    (hreset : quiet opts.serverResetQuery = true)
    (hparams : ∀ k, quiet (Relay.setBatch (params k)) = true)
    (h : (Served.machine opts quiet mode params).Reach Orderly w) (c : Conn)
    (hc : w.place c = .pooled) : Poolable mode (w.res c).server.reported := by
  have up : Upkeep opts quiet mode params (Poolable mode) := by
    refine ⟨by cases mode <;> simp [Poolable], ?_, keeps_poolable hhealth, keeps_poolable hreset,
      fun k => keeps_poolable (hparams k)⟩
    rintro rfl st hst
    exact hst
  have hasserts := (Served.tidy_of_reach up h).asserts c
  simp only [Outline.Asserts, hc] at hasserts
  exact hasserts.2.2.2

theorem pooled_status_whole_batch :
    let opts : RuntimeOpts := ⟨"DISCARD ALL", true, 0, 0, 0⟩
    let quiet : String → Bool := fun sql => sql != "begin"
    ∃ w, ((Served.machine opts quiet .transaction fun _ => []).guarded Orderly).run
        (Served.start .transaction (fun _ => []) (fun _ => 0)) wholeBatch = some w ∧
      w.place 7 = .pooled ∧ Poolable .transaction (w.res 7).server.reported := by
  intro opts quiet
  have hrun : (((Served.machine opts quiet .transaction fun _ => []).guarded Orderly).run
      (Served.start .transaction (fun _ => []) (fun _ => 0)) wholeBatch).map
        (fun w => w.place 7) = some .pooled := by decide
  obtain ⟨w, hw, hplace⟩ := Option.map_eq_some_iff.mp hrun
  exact ⟨w, hw, hplace, pooled_status opts quiet .transaction _ w (by decide) (by decide)
    (fun _ => by decide) (Machine.reach_of_guarded_run ⟨_, rfl⟩ hw) 7 hplace⟩

/-- In statement mode a session opens a transaction. -/
def opened : List Event :=
  [.world (.dial 7), .world (.relay 1 (.client (.query "begin"))),
    .world (.relay 1 (.draining false)), .world (.relay 1 (.acquired 7)),
    .world (.relay 1 (.feFlush none)), .server 7 (.serve (.done [.commandComplete "BEGIN"] 'T' [])),
    .world (.relay 1 (.reply (.commandComplete "BEGIN"))),
    .world (.relay 1 (.reply (.readyForQuery 'T'))), .world (.relay 1 (.flushClient true))]

/-- Session 2 prepares as many statements as it may.  Session 1 deserts a batch that opens a
transaction; session 2's health check executes it, and session 2, at its ceiling, gives the
connection back at once. -/
def inherited : List Event :=
  [.world (.dial 7), .world (.relay 2 (.client (.parse "a" "select 1" []))),
    .world (.relay 2 (.draining false)), .world (.relay 2 (.acquired 7)),
    .world (.relay 2 (.client (.parse "b" "select 1" []))),
    .world (.relay 2 (.client (.parse "c" "select 1" []))),
    .world (.relay 2 (.client (.parse "d" "select 1" []))),
    .world (.relay 2 (.client .sync)), .world (.relay 2 (.feFlush none)),
    .server 7 (.serve (.done [] 'I' [])), .server 7 (.serve (.done [] 'I' [])),
    .server 7 (.serve (.done [] 'I' [])), .server 7 (.serve (.done [] 'I' [])),
    .server 7 (.serve (.done [] 'I' [])), .server 7 (.serve (.done [] 'I' [])),
    .server 7 (.serve (.done [] 'I' [])), .server 7 (.serve (.done [] 'I' [])),
    .world (.relay 2 (.reply .parseComplete)), .world (.relay 2 (.reply .closeComplete)),
    .world (.relay 2 (.reply .parseComplete)), .world (.relay 2 (.reply .closeComplete)),
    .world (.relay 2 (.reply .parseComplete)), .world (.relay 2 (.reply .closeComplete)),
    .world (.relay 2 (.reply .parseComplete)), .world (.relay 2 (.reply (.readyForQuery 'I'))),
    .world (.relay 2 (.flushClient true)),
    .world (.relay 1 (.client .sync)), .world (.relay 1 (.draining false)),
    .world (.relay 1 (.acquired 7)), .world (.relay 1 (.feFlush none)),
    .server 7 (.serve (.done [] 'I' [])), .world (.relay 1 (.reply (.readyForQuery 'I'))),
    .world (.relay 1 (.flushClient true)),
    .world (.relay 1 (.client (.parse "" "begin" []))), .world (.relay 1 (.draining false)),
    .world (.relay 1 (.acquired 7)), .world (.relay 1 (.client (.bind "" ""))),
    .world (.relay 1 (.client (.execute ""))), .world (.relay 1 .clientErr),
    .world (.relay 2 (.client (.parse "e" "select 1" []))), .world (.relay 2 (.draining false)),
    .world (.relay 2 (.popped 7)), .world (.relay 2 (.armed none)),
    .world (.relay 2 (.feFlush none)), .server 7 (.serve (.done [] 'I' [])),
    .server 7 (.serve (.done [] 'I' [])),
    .server 7 (.serve (.done [.commandComplete "BEGIN"] 'T' [])),
    .server 7 (.serve (.done [.commandComplete "SELECT 1"] 'T' [])),
    .world (.relay 2 (.reply .parseComplete)), .world (.relay 2 (.reply .bindComplete)),
    .world (.relay 2 (.reply (.commandComplete "BEGIN"))),
    .world (.relay 2 (.reply (.commandComplete "SELECT 1"))),
    .world (.relay 2 (.reply (.readyForQuery 'T')))]

/-- Connections in the pool with an open transaction: in statement mode by design, and in
transaction mode after a deserted batch. -/
theorem open_transaction_is_pooled :
    let quiet : String → Bool := fun sql => sql != "begin"
    (∃ w, (Served.machine ⟨"", false, 0, 0, 0⟩ quiet .statement fun _ => []).Reachable w ∧
      w.place 7 = .pooled ∧ (w.res 7).server.reported = 'T') ∧
    ∃ w, (Served.machine ⟨"", false, 0, 0, 0⟩ quiet .transaction fun _ => []).Reachable w ∧
      w.place 7 = .pooled ∧ (w.res 7).server.reported = 'T' := by
  intro quiet
  have hrun₁ : ((Served.machine ⟨"", false, 0, 0, 0⟩ quiet .statement fun _ => []).run
      (Served.start .statement (fun _ => []) (fun _ => 0)) opened).map
        (fun w => (w.place 7, (w.res 7).server.reported)) = some (.pooled, 'T') := by decide
  have hrun₂ : ((Served.machine ⟨"", false, 0, 0, 0⟩ quiet .transaction fun _ => []).run
      (Served.start .transaction (fun _ => []) (fun _ => 1)) inherited).map
        (fun w => (w.place 7, (w.res 7).server.reported)) = some (.pooled, 'T') := by decide
  obtain ⟨w₁, hw₁, hview₁⟩ := Option.map_eq_some_iff.mp hrun₁
  obtain ⟨w₂, hw₂, hview₂⟩ := Option.map_eq_some_iff.mp hrun₂
  simp only [Prod.mk.injEq] at hview₁ hview₂
  exact ⟨⟨w₁, Machine.reach_of_run ⟨_, rfl⟩ hw₁, hview₁⟩, w₂, Machine.reach_of_run ⟨_, rfl⟩ hw₂,
    hview₂⟩

end Pgman
