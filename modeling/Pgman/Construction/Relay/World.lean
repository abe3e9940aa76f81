import Pgman.Construction.Relay.Machine
import Pgman.Framework.Leased

/-!
# Sessions sharing a pool

The world of one pool: any number of sessions, each running `relayImpl`, and any number of
connections.  A step runs one session up to its next blocking operation, or is the pool's
own doing: dialing a connection, or closing one it keeps.

The pool appears through the abstract `Place` of each connection: an `Acquire` may return,
or pop for a health check, any connection in the pool's keeping.  The pool of `pool/pool.go`
itself is `Construction/Pool/Model.lean`; that each of its connections has one owner is
`Properties/PoolOwnership.lean`.

`log` is a history variable: every act of every session, in order.  No step reads it.
-/

namespace Pgman

/-- The connection an act is about. -/
def Act.on : Act → Option Conn
  | .take c | .retire c | .acquire c | .release c | .discard c | .setDeadline c _
  | .setReadDeadline c _ | .send c _ _ | .flush c _ _ | .flushErr c _ | .recv c _ _ _ | .recvErr c _
  | .clearStmts c | .setStmts c _ | .setOwner c _ | .adoptFail c | .batchEnd c _ => some c
  | .issueID | .toClient _ | .flushClient _ => none

/-- What an act does to the lease of its connection.  `Acquire` takes the lease when it pops
a connection to check it, and at the latest when it returns one. -/
def Act.lease : Act → Option LeaseOp
  | .take _ | .acquire _ => some .take
  | .release _ => some .giveBack
  | .retire _ | .discard _ => some .giveUp
  | _ => none

/-- The effect of an act on its connection. -/
def BackendConn.after (b : BackendConn) : Act → BackendConn
  | .setDeadline _ on => { b with readDeadline := on, writeDeadline := on }
  | .setReadDeadline _ on => { b with readDeadline := on }
  | .send _ src m => { b with wbuf := b.wbuf ++ [(src, m)] }
  | .flush _ _ _ | .flushErr _ _ => { b with wbuf := [] }
  | .clearStmts _ => { b with preparedStmts := ∅ }
  | .setStmts _ stmts => { b with preparedStmts := stmts }
  | .setOwner _ id => { b with stateOwner := id }
  | _ => b

/-- Ids issued by an act. -/
def issued (n : ℕ) : Act → ℕ
  | .issueID => n + 1
  | _ => n

/-- The meaning of a session's acts; the shared state is `nextSessionID`. -/
def relaySem : LeaseSem Conn BackendConn ℕ Act := ⟨Act.on, Act.lease, BackendConn.after, issued⟩

/-- The sessions and connections of one pool. -/
abbrev World := Leased Caller Conn Local BackendConn ℕ Act

/-- What can happen next. -/
inductive Happening
  | relay (k : Caller) (i : Input)
  /-- `registerSession` issues the session's id. -/
  | register (k : Caller)
  | dial (c : Conn)
  /-- The pool closes a connection it keeps. -/
  | retire (c : Conn)
  deriving DecidableEq, Repr

/-- The connection an input brings. -/
def Input.conn : Input → Option Conn
  | .popped c | .acquired c => some c
  | _ => none

namespace World

/-- The pool hands out or pops only what it keeps. -/
def Admits (w : World) (i : Input) : Prop := ∀ c, i.conn = some c → w.place c = .pooled

instance (w : World) (i : Input) : Decidable (w.Admits i) :=
  match h : i.conn with
  | none => .isTrue (fun _ h' => by simp [h] at h')
  | some c =>
    if hp : w.place c = .pooled then .isTrue (fun c' h' => by simp_all)
    else .isFalse (fun h' => hp (h' c h))

/-- `registerSession`. -/
def register (w : World) (k : Caller) : World :=
  { w with
    loc := Function.update w.loc k
      { w.loc k with sess := { (w.loc k).sess with id := w.shared + 1 } }
    shared := w.shared + 1 }

def step (opts : RuntimeOpts) (w : World) : Happening → Option World
  | .relay k i =>
      if w.Admits i then
        (Relay.step opts w.res w.shared (w.loc k) i).map fun r => w.perform relaySem k r.1 r.2
      else none
  | .register k => if (w.loc k).sess.id = 0 then some (w.register k) else none
  | .dial c =>
      if w.place c = .fresh then some { w with place := Function.update w.place c .pooled }
      else none
  | .retire c =>
      if w.place c = .pooled then some { w with place := Function.update w.place c .gone } else none

/-- A session about to enter `relayImpl`. -/
def newLocal (mode : PoolMode) (params : List TrackedParam) (psLimit : ℤ) : Local where
  sess := {
    id := 0
    poolMode := mode
    trackedParams := params
    psCache := ∅
    psLimit := psLimit
    psClock := 0
    psEvicted := false
    listenWarned := false }
  pc := .outer none
  lastTxStatus := Char.ofNat 0
  pending := 0
  swallow := .zero

/-- No connection dialed yet; sessions differ in their tracked parameters and statement
limits. -/
def start (mode : PoolMode) (params : Caller → List TrackedParam) (psLimit : Caller → ℤ) :
    World where
  loc k := newLocal mode (params k) (psLimit k)
  res _ := ⟨∅, 0, [], false, false⟩
  place _ := .fresh
  shared := 0
  log := []

/-- All sessions of a pool run in its mode; `params` are their tracked parameters. -/
def machine (opts : RuntimeOpts) (mode : PoolMode) (params : Caller → List TrackedParam) :
    Machine World Happening where
  init w := ∃ psLimit, w = start mode params psLimit
  step := step opts

end World

end Pgman
