import Mathlib.Logic.Function.Basic
import Pgman.Construction.Relay.PreparedStatements

/-!
# The other end of the wire

A protocol-conforming backend, from the message-flow chapter of the protocol: it takes
messages off its inbox one at a time, in order, and puts replies on its outbox.  What a
statement does is up to it; each choice is a `Verdict` of the environment.  What the protocol
fixes is fixed here:

* a simple `Query`, a `Sync` and a `FunctionCall` end with one `ReadyForQuery` each;
* after an error in an extended-protocol message everything up to the next `Sync` is skipped;
* COPY IN and COPY BOTH suspend the statement until the client ends the copy or it fails;
* outside of COPY, copy messages are ignored; inside, `Flush` and `Sync` are.

A server may interrupt a COPY on its own, and may send asynchronous messages at any time.

`quiet` says which SQL texts open no transaction: they leave an idle connection
idle, and fail an open transaction only with an error.
-/

namespace Pgman

/-- What a server is in the middle of. -/
inductive Phase
  | ready
  /-- An extended-protocol message failed; waiting for `Sync`. -/
  | skipping
  | copyIn (simple : Bool)
  | copyBoth
  | dead
  deriving DecidableEq, Repr

structure Server where
  inbox : List FrontendMsg
  outbox : List BackendMsg
  phase : Phase
  /-- Transaction status. -/
  status : Char
  /-- The status in the last `ReadyForQuery` sent. -/
  reported : Char
  /-- Prepared statements, the unnamed one under the empty name. -/
  stmts : String → Option PrepStmtInfo

/-- How a message turns out. -/
inductive Verdict
  /-- Carried out: replies, transaction status after it, statements deallocated by the SQL. -/
  | done (out : List BackendMsg) (st : Char) (drops : List String)
  | fail (out : List BackendMsg) (code message : String) (st : Char)
  | copyIn (out : List BackendMsg)
  | copyBoth (out : List BackendMsg)
  | fatal (code message : String)
  deriving DecidableEq, Repr

/-- What a server can do. -/
inductive ServerMove
  | serve (v : Verdict)
  /-- End a COPY with an error. -/
  | interrupt (code message : String) (st : Char)
  | speak (m : BackendMsg)
  deriving DecidableEq, Repr

/-- The messages a statement's execution may consist of. -/
def BackendMsg.isBody : BackendMsg → Bool
  | .copyOutResponse | .copyData _ | .copyDone | .commandComplete _ | .dataRow _ | .notice _
  | .other _ => true
  | _ => false

def BackendMsg.isNotice : BackendMsg → Bool
  | .notice _ => true
  | _ => false

def FrontendMsg.isExecute : FrontendMsg → Bool
  | .execute _ => true
  | _ => false

namespace Server

/-- A connection that has just finished its startup handshake. -/
def fresh : Server := ⟨[], [], .ready, 'I', 'I', fun _ => none⟩

def emit (s : Server) (out : List BackendMsg) : Server := { s with outbox := s.outbox ++ out }

/-- The end of a cycle. -/
def finish (s : Server) (st : Char) : Server :=
  { s with
    outbox := s.outbox ++ [BackendMsg.readyForQuery st]
    phase := .ready
    status := st
    reported := st }

/-- The acknowledgement of an extended-protocol message. -/
def ack : FrontendMsg → List BackendMsg
  | .parse _ _ _ => [.parseComplete]
  | .bind _ _ => [.bindComplete]
  | .close _ _ => [.closeComplete]
  | _ => []

/-- What a message that succeeds does to the statements. -/
def record (stmts : String → Option PrepStmtInfo) : FrontendMsg → String → Option PrepStmtInfo
  | .parse name sql oids => Function.update stmts name (some ⟨sql, oids⟩)
  | .close objectType name => if objectType = 'S' then Function.update stmts name none else stmts
  | .query _ => Function.update stmts "" none
  | _ => stmts

def deallocate (drops : List String) (stmts : String → Option PrepStmtInfo) :
    String → Option PrepStmtInfo :=
  fun name => if name ∈ drops then none else stmts name

/-- The statement a message needs. -/
def needs : FrontendMsg → Option String
  | .bind _ stmt => some stmt
  | .describe objectType name => if objectType = 'S' then some name else none
  | _ => none

/-- Transaction status after a query: a quiet text leaves an idle connection idle, and an
open transaction unfailed unless it fails itself. -/
def statusAllowed (quiet : String → Bool) (s : Server) (sql : String) (failed : Bool) (st : Char) :
    Bool :=
  !quiet sql || ((s.status != 'I' || st == 'I') && (s.status == 'E' || failed || st != 'E'))

/-- A simple query. -/
def serveQuery (quiet : String → Bool) (s : Server) (sql : String) : Verdict → Option Server
  | .done out st drops =>
      if out.all BackendMsg.isBody && statusAllowed quiet s sql false st then
        let stmts := deallocate drops (record s.stmts (.query sql))
        some (({ s with stmts := stmts }.emit out).finish st)
      else none
  | .fail out code message st =>
      if out.all BackendMsg.isBody && statusAllowed quiet s sql true st then
        some (({ s with stmts := record s.stmts (.query sql) }.emit
          (out ++ [BackendMsg.errorResponse "ERROR" code message])).finish st)
      else none
  | .copyIn out =>
      if out.all BackendMsg.isBody then
        some { s.emit (out ++ [BackendMsg.copyInResponse]) with
          phase := .copyIn true, stmts := record s.stmts (.query sql) }
      else none
  | .copyBoth out =>
      if out.all BackendMsg.isBody then
        some { s.emit (out ++ [BackendMsg.copyBothResponse]) with
          phase := .copyBoth, stmts := record s.stmts (.query sql) }
      else none
  | .fatal _ _ => none

/-- `Sync`, or a function call: one cycle of its own. -/
def serveCycle (s : Server) : Verdict → Option Server
  | .done out st _ =>
      if out.all BackendMsg.isBody then some ((s.emit out).finish st) else none
  | .fail _ code message st =>
      some ((s.emit [.errorResponse "ERROR" code message]).finish st)
  | _ => none

/-- An extended-protocol message. -/
def serveExtended (s : Server) (m : FrontendMsg) : Verdict → Option Server
  | .done out st drops =>
      if out.all BackendMsg.isBody && (needs m).all fun name => (s.stmts name).isSome then
        some { s.emit (out ++ ack m) with
          status := st, stmts := deallocate drops (record s.stmts m) }
      else none
  | .fail out code message _ =>
      if out.all BackendMsg.isBody then
        some { s.emit (out ++ [BackendMsg.errorResponse "ERROR" code message]) with
        phase := .skipping }
      else none
  | .copyIn out =>
      if m.isExecute && out.all BackendMsg.isBody then
        some { s.emit (out ++ [BackendMsg.copyInResponse]) with phase := .copyIn false }
      else none
  | .fatal code message =>
      some { s.emit [.errorResponse "FATAL" code message] with phase := .dead }
  | .copyBoth _ => none

/-- A message outside of COPY. -/
def serveReady (quiet : String → Bool) (s : Server) (v : Verdict) : FrontendMsg → Option Server
  | .query sql => serveQuery quiet s sql v
  | .sync | .functionCall => serveCycle s v
  | .flush | .copyData _ | .copyDone | .copyFail _ => some s
  | .terminate => some { s with phase := .dead }
  | .password => some { s.emit [.errorResponse "FATAL" "08P01" "invalid frontend message type"] with
      phase := .dead }
  | m => serveExtended s m v

/-- A message while skipping to `Sync`. -/
def serveSkipping (s : Server) (v : Verdict) : FrontendMsg → Option Server
  | .sync => serveCycle s v
  | .terminate => some { s with phase := .dead }
  | _ => some s

/-- The statement that copies has failed. -/
def copyError (s : Server) (simple : Bool) (code message : String) (st : Char) : Server :=
  let s := s.emit [.errorResponse "ERROR" code message]
  if simple then s.finish st else { s with phase := .skipping }

/-- The client has ended a COPY IN. -/
def serveCopyDone (s : Server) (simple : Bool) : Verdict → Option Server
  | .done out st _ =>
      if out.all BackendMsg.isBody then
        if simple then some ((s.emit out).finish st)
        else some { s.emit out with phase := .ready, status := st }
      else none
  | .fail _ code message st => some (s.copyError simple code message st)
  | .copyIn out =>
      -- the next COPY of a multi-statement query
      if simple && out.all BackendMsg.isBody then
        some (s.emit (out ++ [BackendMsg.copyInResponse]))
      else none
  | _ => none

/-- A message that a COPY takes in, or fails on. -/
def serveCopyData (s : Server) (simple : Bool) : Verdict → Option Server
  | .done _ _ _ => some s
  | .fail _ code message st => some (s.copyError simple code message st)
  | _ => none

/-- A message that no COPY expects. -/
def serveUnexpected (s : Server) (simple : Bool) : Verdict → Option Server
  | .fail _ code message st => some (s.copyError simple code message st)
  | .fatal code message =>
      some { s.emit [.errorResponse "FATAL" code message] with phase := .dead }
  | _ => none

/-- A message during COPY IN. -/
def serveCopyIn (s : Server) (simple : Bool) (v : Verdict) : FrontendMsg → Option Server
  | .copyData _ => serveCopyData s simple v
  | .copyDone => serveCopyDone s simple v
  | .flush | .sync => some s
  | .terminate => some { s with phase := .dead }
  | _ => serveUnexpected s simple v

/-- A message during COPY BOTH. -/
def serveCopyBoth (s : Server) (v : Verdict) : FrontendMsg → Option Server
  | .copyData _ => serveCopyData s true v
  | .copyDone => serveCycle s v
  | .terminate => some { s with phase := .dead }
  | .flush | .sync => some s
  | _ => serveUnexpected s true v

/-- Take the next message off the inbox. -/
def serve (quiet : String → Bool) (s : Server) (v : Verdict) : Option Server :=
  match s.inbox with
  | [] => none
  | m :: rest =>
      let s' := { s with inbox := rest }
      match s.phase with
      | .ready => serveReady quiet s' v m
      | .skipping => serveSkipping s' v m
      | .copyIn simple => serveCopyIn s' simple v m
      | .copyBoth => serveCopyBoth s' v m
      | .dead => some s'

def move (quiet : String → Bool) (s : Server) : ServerMove → Option Server
  | .serve v => serve quiet s v
  | .interrupt code message st =>
      match s.phase with
      | .copyIn simple => some (s.copyError simple code message st)
      | .copyBoth => some (s.copyError true code message st)
      | _ => none
  | .speak m =>
      match s.phase, m with
      | .dead, _ => none
      | _, .notice _ => some (s.emit [m])
      | .copyBoth, .copyData _ | .copyBoth, .copyDone => some (s.emit [m])
      | _, _ => none

end Server

end Pgman
