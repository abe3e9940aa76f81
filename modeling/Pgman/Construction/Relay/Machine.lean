import Pgman.Construction.Pool.Model
import Pgman.Construction.Relay.PreparedStatements

/-!
# One client session (`relay.go`, `tracked_params.go`)

`relayImpl` as a machine.  A `PC` is a place where the goroutine blocks: reading from the
client or the backend, flushing to either, waiting in `Acquire`, setting a deadline.  The
environment resolves the blocking operation with an `Input`; `step` then runs the code up to
the next blocking operation and lists what it did as `Act`s, in order.  The backend variable
of the source is a field of the program point, so a point that uses a backend always has
one.

`relayCopyBoth` runs two pumps concurrently; its program point holds the state of both, and
the main goroutine's `first` and `forced`.

`fe.Send` only appends to the connection's write buffer, so a flush delivers everything
buffered since the last one, whoever buffered it.  The buffer lives in `BackendConn`, with
the origin of every message next to it.
-/

namespace Pgman

/-- The settings of `runtimeOpts` that the relay branches on. -/
structure RuntimeOpts where
  serverResetQuery : String
  resetSkipSameSession : Bool
  queryTimeout : ℤ
  clientIdleTimeout : ℤ
  idleTransactionTimeout : ℤ
  deriving DecidableEq, Repr

/-- On whose initiative a message is sent to a backend. -/
inductive Source
  /-- The client's own message, unchanged. -/
  | client
  /-- A `Parse` or `Close` prepended by the prepared-statement replay. -/
  | inject
  | reset
  | params
  | health
  /-- The end-of-copy message made up for a client that terminates during COPY. -/
  | synth
  deriving DecidableEq, Repr

/-- Which exchange with the backend an operation belongs to. -/
inductive Site
  | health
  | reset
  | params
  /-- A batch and its replies. -/
  | reply
  | copyIn
  | copyBoth
  deriving DecidableEq, Repr

/-- What became of a reply. -/
inductive Fate
  | forward
  | swallow
  | consume
  deriving DecidableEq, Repr

/-- `backendConn`: the state that travels with a connection. -/
structure BackendConn where
  preparedStmts : BackendPSCache
  /-- Id of the session whose state the connection carries; zero for nobody's. -/
  stateOwner : ℕ
  /-- The unflushed write buffer of the connection's `Frontend`. -/
  wbuf : List (Source × FrontendMsg)
  readDeadline : Bool
  writeDeadline : Bool

/-- What a session does, as far as the pool, its connections and its client can see. -/
inductive Act
  /-- `Acquire` pops an idle connection to check it. -/
  | take (c : Conn)
  /-- `Acquire` closes a connection that failed its check. -/
  | retire (c : Conn)
  /-- `Acquire` returns the connection. -/
  | acquire (c : Conn)
  | release (c : Conn)
  | discard (c : Conn)
  | issueID
  | setDeadline (c : Conn) (on : Bool)
  | setReadDeadline (c : Conn) (on : Bool)
  | send (c : Conn) (src : Source) (m : FrontendMsg)
  | flush (c : Conn) (site : Site) (delivered : List (Source × FrontendMsg))
  | flushErr (c : Conn) (site : Site)
  | recv (c : Conn) (site : Site) (r : BackendMsg) (fate : Fate)
  | recvErr (c : Conn) (site : Site)
  /-- `clearBackendPSCache` in `adoptBackend`. -/
  | clearStmts (c : Conn)
  | setStmts (c : Conn) (stmts : BackendPSCache)
  | setOwner (c : Conn) (id : ℕ)
  | adoptFail (c : Conn)
  /-- The `ReadyForQuery` that ends a batch has been acted on. -/
  | batchEnd (c : Conn) (txStatus : Char)
  | toClient (m : BackendMsg)
  | flushClient (ok : Bool)
  deriving DecidableEq

/-- How a blocking operation ends. -/
inductive Input
  | client (m : FrontendMsg)
  | clientErr
  /-- The client's idle deadline fired. -/
  | clientTimeout
  | draining (on : Bool)
  /-- `Acquire` popped an idle connection that wants a health check. -/
  | popped (c : Conn)
  | acquired (c : Conn)
  | acquireErr (err : Pool.AcquireErr) (text : String)
  /-- Result of `SetDeadline`. -/
  | armed (err : Option String)
  /-- Result of a backend `Flush`. -/
  | feFlush (err : Option String)
  | reply (r : BackendMsg)
  | replyErr (text : String)
  /-- The `query_timeout` deadline fired. -/
  | replyTimeout
  /-- Result of a client `Flush`. -/
  | flushClient (ok : Bool)
  /-- `copyBothDrainGrace` has passed. -/
  | grace
  deriving DecidableEq, Repr

/-- What the client pump of `relayCopyBoth` is about to flush. -/
inductive PumpFlush
  | more
  | endOfCopy
  | terminate
  deriving DecidableEq, Repr

inductive ClientPump
  | reading
  | flushing (what : PumpFlush)
  | ended
  deriving DecidableEq, Repr

inductive BackendPump
  | reading
  | flushing (r : BackendMsg)
  | ended
  deriving DecidableEq, Repr

/-- `relayCopyBoth`: its two pumps, the first result off `errCh`, and whether the read
deadlines have been tripped. -/
structure CopyBoth where
  clientPump : ClientPump
  backendPump : BackendPump
  first : Option Bool
  forced : Bool
  deriving DecidableEq, Repr

def CopyBoth.start : CopyBoth := ⟨.reading, .reading, none, false⟩

/-- Where the relay blocks. -/
inductive PC
  /-- The outer loop's `pg.Receive`. -/
  | outer (backend : Option Conn)
  | drainCheck (msg : FrontendMsg)
  | acquiring (msg : FrontendMsg)
  -- `healthCheckWithTimeout`, inside `Acquire`
  | checkArm (c : Conn) (msg : FrontendMsg)
  | checkFlush (c : Conn) (msg : FrontendMsg)
  | checkRecv (c : Conn) (msg : FrontendMsg)
  -- `adoptBackend`: `runResetQuery`, then `applyTrackedParams`
  | resetArm (c : Conn) (msg : FrontendMsg)
  | resetFlush (c : Conn) (msg : FrontendMsg)
  | resetRecv (c : Conn) (msg : FrontendMsg)
  | paramsFlush (c : Conn) (msg : FrontendMsg)
  | paramsRecv (c : Conn) (msg : FrontendMsg)
  -- `failQuery`
  | drain (code message : String)
  | failFlush
  -- the batch loop, the flush, the reply loop
  | batch (c : Conn)
  | feFlush (c : Conn)
  | replies (c : Conn)
  | clientFlush (c : Conn) (r : BackendMsg)
  -- `relayCopyIn`, `relayCopyBoth`
  | copyIn (c : Conn) (pending : ℕ)
  | copyInFlush (c : Conn) (next : Option ℕ)
  | copyBoth (c : Conn) (st : CopyBoth)
  | done
  deriving DecidableEq, Repr

/-- The session and the locals of `relayImpl`. -/
structure Local where
  sess : Session
  pc : PC
  lastTxStatus : Char
  /-- Bytes in the client write buffer. -/
  pending : ℕ
  swallow : PsSwallow

namespace Relay

/-! ## Tracked parameters -/

/-- Quoting shared by `quoteIdent` and `quoteLiteral`: wrap, and double the quote inside. -/
def quoteWith (q : Char) (s : String) : String :=
  String.ofList (q :: s.toList.flatMap (fun c => if c = q then [q, q] else [c]) ++ [q])

def quoteIdent (s : String) : String := quoteWith '"' s

def quoteLiteral (s : String) : String := quoteWith '\'' s

/-- The one `Query` that `applyTrackedParams` sends. -/
def setBatch (params : List TrackedParam) : String :=
  ";".intercalate (params.map fun p => "SET " ++ quoteIdent p.name ++ " = " ++ quoteLiteral p.value)

/-! ## Pieces of the loop -/

/-- `release`, for the backend in hand. -/
def release (l : Local) (c : Conn) (reusable : Bool) : List Act :=
  .setReadDeadline c false ::
    if reusable then [.setOwner c l.sess.id, .release c] else [.discard c]

/-- The expression `backend != nil && lastTxStatus == 'I'`, and the return after it. -/
def leave (l : Local) (backend : Option Conn) : Local × List Act :=
  ({ l with pc := .done },
    match backend with
    | none => []
    | some c => release l c (l.lastTxStatus == 'I'))

/-- `release(false)` and return. -/
def abandon (l : Local) (c : Conn) : Local × List Act :=
  ({ l with pc := .done }, release l c false)

/-- `failQuery` once the client's batch has been read to its end. -/
def reportFailure (l : Local) (code message : String) : Local × List Act :=
  ({ l with pc := .failFlush },
    [.toClient (.errorResponse "ERROR" code message), .toClient (.readyForQuery 'I')])

def failQuery (l : Local) (msg : FrontendMsg) (code message : String) : Local × List Act :=
  if isTerminalMessage msg then reportFailure l code message
  else ({ l with pc := .drain code message }, [])

/-- Run one client message through `processClientMsg` and onto the write buffer. -/
def forward (l : Local) (c : Conn) (stmts : BackendPSCache) (msg : FrontendMsg) :
    Except String (Local × List Act) :=
  match processClientMsg stmts l.sess msg with
  | .error err => .error err
  | .ok p =>
      .ok ({ l with
          sess := p.sess
          swallow := l.swallow.add p.swallow
          pc := if isTerminalMessage msg then .feFlush c else .batch c },
        p.injected.map (Act.send c .inject ·) ++ [Act.setStmts c p.stmts, .send c .client msg])

/-- The report of a session past its prepared-statement ceiling. -/
def ceilingReport (err : String) : Act := .toClient (.errorResponse "FATAL" "54000" err)

/-- The first message of a batch, on a backend that is ready for it. -/
def beginBatch (l : Local) (c : Conn) (stmts : BackendPSCache) (msg : FrontendMsg) :
    Local × List Act :=
  match forward { l with swallow := .zero } c stmts msg with
  | .ok r => r
  | .error err => ({ l with pc := .done }, ceilingReport err :: release l c (l.lastTxStatus == 'I'))

/-! ## `adoptBackend` -/

/-- The end of `adoptBackend`, and on to the message that asked for a backend. -/
def adopted (l : Local) (c : Conn) (msg : FrontendMsg) : Local × List Act :=
  let r := beginBatch l c ∅ msg
  (r.1, .setOwner c l.sess.id :: r.2)

/-- `adoptBackend` after the scrub: forget the backend's statements, replay the parameters. -/
def replayParams (l : Local) (c : Conn) (msg : FrontendMsg) : Local × List Act :=
  if l.sess.trackedParams.isEmpty then
    let r := adopted l c msg
    (r.1, .clearStmts c :: r.2)
  else
    ({ l with pc := .paramsFlush c msg },
      [.clearStmts c, .send c .params (.query (setBatch l.sess.trackedParams))])

/-- The lazy issue of a session id at the top of `adoptBackend`. -/
def ensureID (nextID : ℕ) (l : Local) : Local × List Act :=
  if l.sess.id = 0 then ({ l with sess := { l.sess with id := nextID + 1 } }, [.issueID])
  else (l, [])

/-- The rest of `adoptBackend`, up to its first blocking operation. -/
def adoptAs (opts : RuntimeOpts) (b : BackendConn) (l : Local) (c : Conn) (msg : FrontendMsg) :
    Local × List Act :=
  if opts.resetSkipSameSession = true ∧ b.stateOwner = l.sess.id then
    beginBatch l c b.preparedStmts msg
  else if b.stateOwner ≠ 0 ∧ opts.serverResetQuery ≠ "" then ({ l with pc := .resetArm c msg }, [])
  else replayParams l c msg

def adopt (opts : RuntimeOpts) (b : BackendConn) (nextID : ℕ) (l : Local) (c : Conn)
    (msg : FrontendMsg) : Local × List Act :=
  let e := ensureID nextID l
  let r := adoptAs opts b e.1 c msg
  (r.1, e.2 ++ r.2)

/-- The adoption failed: discard the connection and fail this one query. -/
def adoptFailed (l : Local) (c : Conn) (msg : FrontendMsg) (err : String) : Local × List Act :=
  let r := failQuery l msg "08006" ("backend could not be prepared for this session: " ++ err)
  (r.1, [Act.adoptFail c, .discard c] ++ r.2)

/-! ## The reply loop -/

/-- The two swallow checks: what is left to swallow if this reply is dropped. -/
def swallowReply (s : PsSwallow) : BackendMsg → Option PsSwallow
  | .parseComplete =>
      if 0 < s.parseComplete then some { s with parseComplete := s.parseComplete - 1 } else none
  | .closeComplete =>
      if 0 < s.closeComplete then some { s with closeComplete := s.closeComplete - 1 } else none
  | _ => none

/-- The replies that flush the client buffer whatever its size. -/
def forcesFlush : BackendMsg → Bool
  | .copyInResponse | .copyBothResponse | .readyForQuery _ => true
  | _ => false

/-- What is swallowed is an acknowledgement, so neither the end of a batch nor of a phase. -/
lemma plain_of_swallowReply {s s' : PsSwallow} {m : BackendMsg}
    (h : swallowReply s m = some s') : m.isReady = false ∧ m ≠ .copyInResponse := by
  cases m with
  | parseComplete | closeComplete => exact ⟨rfl, by simp⟩
  | _ => cases h

lemma plain_of_not_forcesFlush {m : BackendMsg} (h : forcesFlush m = false) :
    m.isReady = false ∧ m ≠ .copyInResponse := by
  cases m with
  | copyInResponse | copyBothResponse | readyForQuery => cases h
  | _ => exact ⟨rfl, by simp⟩

/-- The mode switch on the status of a `ReadyForQuery`. -/
def endBatch (l : Local) (c : Conn) (st : Char) : Local × List Act :=
  let l := { l with lastTxStatus := st }
  let mark := [.setReadDeadline c false, .batchEnd c st]
  let giveBack := fun reusable => ({ l with pc := .outer none }, mark ++ release l c reusable)
  let keep := ({ l with pc := .outer (some c) }, mark)
  match l.sess.poolMode with
  | .statement => giveBack (st != 'E')
  | .session => keep
  | .transaction => if st = 'I' then giveBack true else keep

/-- The reply loop after a reply has been forwarded and, where needed, flushed. -/
def afterReply (l : Local) (c : Conn) : BackendMsg → Local × List Act
  | .copyInResponse => ({ l with pc := .copyIn c 0 }, [.setReadDeadline c false])
  | .copyBothResponse => ({ l with pc := .copyBoth c CopyBoth.start }, [.setReadDeadline c false])
  | .readyForQuery st => endBatch l c st
  | _ => ({ l with pc := .replies c }, [])

/-- One reply in the reply loop.  The two flushes of the source never both write: the first
leaves nothing pending. -/
def onReply (l : Local) (c : Conn) (r : BackendMsg) : Local × List Act :=
  match swallowReply l.swallow r with
  | some s => ({ l with swallow := s, pc := .replies c }, [.recv c .reply r .swallow])
  | none =>
      let l := { l with pending := l.pending + replyEncodedSize r }
      ({ l with
          pc := if clientFlushThreshold ≤ l.pending || forcesFlush r then .clientFlush c r
            else .replies c },
        [.recv c .reply r .forward, .toClient r])

end Relay

/-! ## `relayCopyBoth` -/

namespace CopyBoth

/-- A pump sent its result on `errCh`. -/
def report (st : CopyBoth) (ok : Bool) : CopyBoth := { st with first := st.first <|> some ok }

/-- The client pump forwards a message. -/
def onClient (st : CopyBoth) (c : Conn) : FrontendMsg → CopyBoth × List Act
  | .terminate => ({ st with clientPump := .flushing .terminate }, [.send c .synth .copyDone])
  | .copyDone => ({ st with clientPump := .flushing .endOfCopy }, [.send c .client .copyDone])
  | .copyFail m => ({ st with clientPump := .flushing .endOfCopy }, [.send c .client (.copyFail m)])
  | m => ({ st with clientPump := .flushing .more }, [.send c .client m])

/-- The client pump's flush ended; a `Terminate`'s flush error is ignored. -/
def onFlush (st : CopyBoth) (what : PumpFlush) (ok : Bool) : CopyBoth :=
  match what, ok with
  | .more, true => { st with clientPump := .reading }
  | .terminate, _ => { st with clientPump := .ended }.report true
  | _, ok => { st with clientPump := .ended }.report ok

/-- The backend pump's flush to the client ended. -/
def onClientFlush (st : CopyBoth) (r : BackendMsg) (ok : Bool) : CopyBoth :=
  match r, ok with
  | .readyForQuery _, true => { st with backendPump := .ended }.report true
  | _, true => { st with backendPump := .reading }
  | _, false => { st with backendPump := .ended }.report false

/-- Both results are in once both pumps have ended; the main goroutine then returns the
first one. -/
def conclude (l : Local) (c : Conn) (st : CopyBoth) : Local × List Act :=
  match st.clientPump, st.backendPump with
  | .ended, .ended =>
      let clear := if st.forced then [Act.setReadDeadline c false] else []
      if st.first = some true then ({ l with pc := .replies c }, clear)
      else
        let r := Relay.abandon l c
        (r.1, clear ++ r.2)
  | _, _ => ({ l with pc := .copyBoth c st }, [])

end CopyBoth

namespace Relay

/-! ## The steps -/

/-- `armClientIdleDeadline`: the SQLSTATE and text of the idle timeout in force, if any. -/
def idleTimeout (opts : RuntimeOpts) (l : Local) (backend : Option Conn) :
    Option (String × String) :=
  if backend.isSome && (l.lastTxStatus == 'T' || l.lastTxStatus == 'E') then
    if opts.idleTransactionTimeout ≤ 0 then none
    else some ("25P03", "terminating connection due to idle-in-transaction timeout")
  else if opts.clientIdleTimeout ≤ 0 then none
  else some ("57P05", "terminating connection due to idle-session timeout")

/-- The report of a proxy that is shutting down. -/
def shutdownReport : Act :=
  .toClient (.errorResponse "FATAL" "57P01"
    "terminating connection due to administrator command (pgman is shutting down)")

section

variable (opts : RuntimeOpts) (conns : Conn → BackendConn) (nextID : ℕ) (l : Local)

/-- The outer loop's read. -/
def outerStep (backend : Option Conn) : Input → Option (Local × List Act)
  | .clientTimeout =>
      (idleTimeout opts l backend).map fun t =>
        let r := leave l backend
        (r.1, .toClient (.errorResponse "FATAL" t.1 t.2) :: r.2)
  | .clientErr => some (leave l backend)
  | .client .terminate => some (leave l backend)
  | .client msg =>
      match backend with
      | none => some ({ l with pc := .drainCheck msg }, [])
      | some c => some (beginBatch l c (conns c).preparedStmts msg)
  | _ => none

def drainCheckStep (msg : FrontendMsg) : Input → Option (Local × List Act)
  | .draining true => some ({ l with pc := .done }, [shutdownReport])
  | .draining false => some ({ l with pc := .acquiring msg }, [])
  | _ => none

/-- `Acquire`'s result, and what the client is told when there is no connection. -/
def acquireStep (msg : FrontendMsg) : Input → Option (Local × List Act)
  | .popped c => some ({ l with pc := .checkArm c msg }, [.take c])
  | .acquired c =>
      let r := adopt opts (conns c) nextID l c msg
      some (r.1, .acquire c :: r.2)
  | .acquireErr err text =>
      match err with
      | .poolClosed | .dial .poolClosed => some ({ l with pc := .done }, [shutdownReport])
      | .circuitOpen =>
          some (failQuery l msg "08006" "backend unavailable: circuit breaker open")
      | _ => some (failQuery l msg "53300" ("no backend connection available: " ++ text))
  | _ => none

/-- `healthCheckWithTimeout` on a popped connection. -/
def checkStep (c : Conn) (msg : FrontendMsg) : PC → Input → Option (Local × List Act)
  | .checkArm _ _, .armed none =>
      some ({ l with pc := .checkFlush c msg },
        [.setDeadline c true, .send c .health (.query "SELECT 1")])
  | .checkArm _ _, .armed (some _) => some ({ l with pc := .acquiring msg }, [.retire c])
  | .checkFlush _ _, .feFlush none =>
      some ({ l with pc := .checkRecv c msg }, [.flush c .health (conns c).wbuf])
  | .checkFlush _ _, .feFlush (some _) =>
      some ({ l with pc := .acquiring msg }, [.flushErr c .health, .setDeadline c false, .retire c])
  | .checkRecv _ _, .replyErr _ =>
      some ({ l with pc := .acquiring msg }, [.recvErr c .health, .setDeadline c false, .retire c])
  | .checkRecv _ _, .reply r =>
      match r with
      | .errorResponse _ _ _ =>
          some ({ l with pc := .acquiring msg },
            [.recv c .health r .consume, .setDeadline c false, .retire c])
      | .readyForQuery _ =>
          let a := adopt opts (conns c) nextID l c msg
          some (a.1, [Act.recv c .health r .consume, .setDeadline c false, .acquire c] ++ a.2)
      | _ => some ({ l with pc := .checkRecv c msg }, [.recv c .health r .consume])
  | _, _ => none

/-- `runResetQuery`. -/
def resetStep (c : Conn) (msg : FrontendMsg) : PC → Input → Option (Local × List Act)
  | .resetArm _ _, .armed none =>
      some ({ l with pc := .resetFlush c msg },
        [.setDeadline c true, .send c .reset (.query opts.serverResetQuery)])
  | .resetArm _ _, .armed (some err) =>
      some (adoptFailed l c msg ("server_reset_query: set deadline: " ++ err))
  | .resetFlush _ _, .feFlush none =>
      some ({ l with pc := .resetRecv c msg }, [.flush c .reset (conns c).wbuf])
  | .resetFlush _ _, .feFlush (some err) =>
      let r := adoptFailed l c msg ("server_reset_query: send: " ++ err)
      some (r.1, [Act.flushErr c .reset, .setDeadline c false] ++ r.2)
  | .resetRecv _ _, .replyErr err =>
      let r := adoptFailed l c msg ("server_reset_query: receive: " ++ err)
      some (r.1, [Act.recvErr c .reset, .setDeadline c false] ++ r.2)
  | .resetRecv _ _, .reply m =>
      match m with
      | .errorResponse _ _ message =>
          let r := adoptFailed l c msg ("server_reset_query: backend error: " ++ message)
          some (r.1, [Act.recv c .reset m .consume, .setDeadline c false] ++ r.2)
      | .readyForQuery _ =>
          let r := replayParams l c msg
          some (r.1, [Act.recv c .reset m .consume, .setDeadline c false] ++ r.2)
      | _ => some ({ l with pc := .resetRecv c msg }, [.recv c .reset m .consume])
  | _, _ => none

/-- `applyTrackedParams`. -/
def paramsStep (c : Conn) (msg : FrontendMsg) : PC → Input → Option (Local × List Act)
  | .paramsFlush _ _, .feFlush none =>
      some ({ l with pc := .paramsRecv c msg }, [.flush c .params (conns c).wbuf])
  | .paramsFlush _ _, .feFlush (some err) =>
      let r := adoptFailed l c msg ("apply tracked params: flush SET batch: " ++ err)
      some (r.1, .flushErr c .params :: r.2)
  | .paramsRecv _ _, .replyErr err =>
      let r := adoptFailed l c msg ("apply tracked params: receive SET reply: " ++ err)
      some (r.1, .recvErr c .params :: r.2)
  | .paramsRecv _ _, .reply m =>
      match m with
      | .errorResponse _ code message =>
          let r := adoptFailed l c msg ("apply tracked params: SET rejected by backend: " ++
            message ++ " (SQLSTATE " ++ code ++ ")")
          some (r.1, .recv c .params m .consume :: r.2)
      | .readyForQuery _ =>
          let r := adopted l c msg
          some (r.1, .recv c .params m .consume :: r.2)
      | _ => some ({ l with pc := .paramsRecv c msg }, [.recv c .params m .consume])
  | _, _ => none

/-- `failQuery`. -/
def failStep : PC → Input → Option (Local × List Act)
  | .drain _ _, .clientErr => some ({ l with pc := .done }, [])
  | .drain code message, .client msg =>
      if msg = .terminate then some ({ l with pc := .done }, [])
      else if isTerminalMessage msg then some (reportFailure l code message)
      else some ({ l with pc := .drain code message }, [])
  | .failFlush, .flushClient ok =>
      some ({ l with pc := if ok then .outer none else .done }, [.flushClient ok])
  | _, _ => none

/-- The batch loop and the flush that ends it. -/
def batchStep (c : Conn) : PC → Input → Option (Local × List Act)
  | .batch _, .clientErr => some (leave l (some c))
  | .batch _, .client msg =>
      if msg = .terminate then some (leave l (some c))
      else
        match forward l c (conns c).preparedStmts msg with
        | .ok r => some r
        | .error err => some ({ l with pc := .done }, ceilingReport err :: release l c false)
  | .feFlush _, .feFlush none =>
      some ({ l with pc := .replies c }, .flush c .reply (conns c).wbuf ::
        if 0 < opts.queryTimeout then [.setReadDeadline c true] else [])
  | .feFlush _, .feFlush (some _) =>
      let r := abandon l c
      some (r.1, .flushErr c .reply :: r.2)
  | _, _ => none

/-- The reply loop. -/
def replyStep (c : Conn) : PC → Input → Option (Local × List Act)
  | .replies _, .reply r => some (onReply l c r)
  | .replies _, .replyErr _ =>
      let r := abandon l c
      some (r.1, .recvErr c .reply :: r.2)
  | .replies _, .replyTimeout =>
      if 0 < opts.queryTimeout then
        let r := abandon l c
        some (r.1, .recvErr c .reply :: r.2 ++
          [.toClient (.errorResponse "FATAL" "57014" "canceling statement due to query_timeout")])
      else none
  | .clientFlush _ r, .flushClient true =>
      let a := afterReply { l with pending := 0 } c r
      some (a.1, .flushClient true :: a.2)
  | .clientFlush _ _, .flushClient false =>
      let r := abandon { l with pending := 0 } c
      some (r.1, .flushClient false :: r.2)
  | _, _ => none

/-- `relayCopyIn`. -/
def copyInStep (c : Conn) : PC → Input → Option (Local × List Act)
  | .copyIn _ _, .clientErr => some (abandon l c)
  | .copyIn _ pending, .client msg =>
      match msg with
      | .terminate =>
          some ({ l with pc := .copyInFlush c none },
            [.send c .synth (.copyFail "client terminated during COPY")])
      | .copyData _ =>
          some ({ l with
              pc := if 32 ≤ pending + 1 then .copyInFlush c (some 0) else .copyIn c (pending + 1) },
            [.send c .client msg])
      | .copyDone | .copyFail _ =>
          some ({ l with pc := .copyInFlush c none }, [.send c .client msg])
      | _ => some ({ l with pc := .copyInFlush c (some pending) }, [.send c .client msg])
  | .copyInFlush _ next, .feFlush none =>
      some ({ l with
          pc := match next with
            | none => .replies c
            | some pending => .copyIn c pending },
        [.flush c .copyIn (conns c).wbuf])
  | .copyInFlush _ _, .feFlush (some _) =>
      let r := abandon l c
      some (r.1, .flushErr c .copyIn :: r.2)
  | _, _ => none

/-- `relayCopyBoth`: a step of either pump, or the drain grace running out. -/
def copyBothStep (c : Conn) (st : CopyBoth) (i : Input) : Option (Local × List Act) :=
  match st.clientPump, st.backendPump, i with
  | .reading, _, .client msg =>
      let r := st.onClient c msg
      some ({ l with pc := .copyBoth c r.1 }, r.2)
  | .reading, _, .clientErr =>
      some (CopyBoth.conclude l c ({ st with clientPump := .ended }.report false))
  | .flushing what, _, .feFlush err =>
      let r := CopyBoth.conclude l c (st.onFlush what err.isNone)
      let done := if err.isNone then Act.flush c .copyBoth (conns c).wbuf else .flushErr c .copyBoth
      some (r.1, done :: r.2)
  | _, .reading, .reply r =>
      some ({ l with pc := .copyBoth c { st with backendPump := .flushing r } },
        [.recv c .copyBoth r .forward, .toClient r])
  | _, .reading, .replyErr _ =>
      let r := CopyBoth.conclude l c ({ st with backendPump := .ended }.report false)
      some (r.1, .recvErr c .copyBoth :: r.2)
  | _, .flushing r, .flushClient ok =>
      let a := CopyBoth.conclude l c (st.onClientFlush r ok)
      some (a.1, .flushClient ok :: a.2)
  | _, _, .grace =>
      if st.first.isSome && !st.forced then
        some ({ l with pc := .copyBoth c { st with forced := true } }, [.setReadDeadline c true])
      else none
  | _, _, _ => none

/-- One step of `relayImpl`, given the connections' state and the next session id. -/
def step (i : Input) : Option (Local × List Act) :=
  match l.pc with
  | .outer backend => outerStep opts conns l backend i
  | .drainCheck msg => drainCheckStep l msg i
  | .acquiring msg => acquireStep opts conns nextID l msg i
  | .checkArm c msg | .checkFlush c msg | .checkRecv c msg =>
      checkStep opts conns nextID l c msg l.pc i
  | .resetArm c msg | .resetFlush c msg | .resetRecv c msg => resetStep opts conns l c msg l.pc i
  | .paramsFlush c msg | .paramsRecv c msg => paramsStep conns l c msg l.pc i
  | .drain _ _ | .failFlush => failStep l l.pc i
  | .batch c | .feFlush c => batchStep opts conns l c l.pc i
  | .replies c | .clientFlush c _ => replyStep opts l c l.pc i
  | .copyIn c _ | .copyInFlush c _ => copyInStep conns l c l.pc i
  | .copyBoth c st => copyBothStep conns l c st i
  | .done => none

end

end Relay

end Pgman
