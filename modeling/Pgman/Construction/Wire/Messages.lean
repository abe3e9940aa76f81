import Mathlib.Data.Nat.Notation

/-!
# Postgres wire messages (`pgproto3`)

The two message types the relay type-switches on.  Fields that the proxy copies through
without looking at them (bind parameters, result formats, column values apart from their
length) are left out; everything some branch of `relay.go`, `prepared_stmts.go` or
`session.go` reads is here.

Byte-valued protocol fields (`ObjectType`, `TxStatus`) are characters.
-/

namespace Pgman

/-- Messages a client may send after startup, as returned by `pgproto3.Backend.Receive`. -/
inductive FrontendMsg
  | query (sql : String)
  | parse (name sql : String) (parameterOIDs : List UInt32)
  | bind (portal stmt : String)
  | describe (objectType : Char) (name : String)
  | execute (portal : String)
  | close (objectType : Char) (name : String)
  | flush
  | sync
  | functionCall
  | copyData (data : String)
  | copyDone
  | copyFail (message : String)
  | password
  | terminate
  deriving DecidableEq, Repr

/-- Messages a backend may send after startup.  `notice` and `other` stand for every type that
no branch of the proxy distinguishes, numbered by an arbitrary tag: the asynchronous ones
(`NoticeResponse`, `ParameterStatus`, `NotificationResponse`), and the rest. -/
inductive BackendMsg
  | parseComplete
  | bindComplete
  | closeComplete
  | readyForQuery (txStatus : Char)
  | errorResponse (severity code message : String)
  | copyInResponse
  | copyOutResponse
  | copyBothResponse
  | copyData (data : String)
  | copyDone
  | commandComplete (tag : String)
  | dataRow (values : List String)
  | notice (tag : ℕ)
  | other (tag : ℕ)
  deriving DecidableEq, Repr

def BackendMsg.isError : BackendMsg → Bool
  | .errorResponse _ _ _ => true
  | _ => false

def BackendMsg.isReady : BackendMsg → Bool
  | .readyForQuery _ => true
  | _ => false

lemma BackendMsg.isError_eq_false {m : BackendMsg}
    (h : ∀ severity code message, m = .errorResponse severity code message → False) :
    m.isError = false := by
  unfold isError
  split
  · exact (h _ _ _ rfl).elim
  · rfl

lemma BackendMsg.isReady_eq_false {m : BackendMsg} (h : ∀ st, m = .readyForQuery st → False) :
    m.isReady = false := by
  unfold isReady
  split
  · exact (h _ rfl).elim
  · rfl

lemma BackendMsg.exists_of_isReady {m : BackendMsg} (h : m.isReady = true) :
    ∃ st, m = .readyForQuery st := by
  cases m with
  | readyForQuery st => exact ⟨st, rfl⟩
  | _ => cases h

/-- `isTerminalMessage`: the messages that end a batch. -/
def isTerminalMessage : FrontendMsg → Bool
  | .query _ | .sync => true
  | _ => false

/-- `clientFlushThreshold`: 64 KiB. -/
def clientFlushThreshold : ℕ := 65536

/-- `replyEncodedSize`. -/
def replyEncodedSize : BackendMsg → ℕ
  | .dataRow values => values.foldl (fun n v => n + (4 + v.utf8ByteSize)) 7
  | .copyData data => 5 + data.utf8ByteSize
  | _ => 128

end Pgman
