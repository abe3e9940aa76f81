import Mathlib.Algebra.Group.Int.Defs
import Mathlib.Data.Int.Notation
import Mathlib.Data.Nat.Notation
import Mathlib.Logic.Function.Basic
import Pgman.Framework.Transition

/-!
# The backend connection pool (`pool/pool.go`)

`Pool` is a bounded LIFO pool: a semaphore channel `sem` of capacity `limit`, an idle slice
under the mutex `mu`, a side table `connMeta` and a handful of atomics.  The model runs any
number of `Acquire`, `Release`, `Discard`, `reapExpired`, `Reconnect`, `warmUp`, `Close`,
`Pause` and `Resume` calls concurrently, at the granularity of single atomic operations,
channel operations and critical sections.

A running call is an `Op`: a program point of the Go function together with the locals that
are live there.  `opStep` executes the one operation the program point is about to perform;
a `Choice` resolves what the code leaves open (which ready `select` case fires, whether the
dialer or the health check succeeds).  `Pool.step` starts a call, steps one running call, or
lets time pass, so a list of `Action`s is an interleaving.

Callers are well behaved: `Release` and `Discard` can only be started for a connection their
caller currently holds, and starting one takes it out of the caller's hands.  The dialer
returns connections it has not returned before (`dialOk c` requires `c ∉ dialed`).

`registry.go` passes `WithDialRetry` only for a positive count and leaves Go's zero value
otherwise, so `dialRetryMax` is a natural number and `dialWithRetry` makes at least one
attempt.  The counters read only by `Stats` are left out.

Go's `int` and its nanoseconds have 64 bits; here they are unbounded.  The model is the code's for
`dialRetryMax < 2 ^ 63 - 1` (`1 + dialRetryMax` wraps there) and as long as a time plus a
configured duration is before the year 2262.
-/

namespace Pgman

/-- Identity of a dialed `net.Conn`. -/
abbrev Conn := ℕ

/-- Identity of a goroutine calling into the pool. -/
abbrev Caller := ℕ

namespace Pool

/-- The tunables set by the `With*` options. -/
structure Options where
  idleTimeout : ℤ
  maxLifetime : ℤ
  healthCheckDelay : ℤ
  minIdle : ℤ
  dialRetryMax : ℕ
  dialRetryBackoff : ℤ
  cbThreshold : ℤ
  cbCooldown : ℤ
  /-- `healthCheck != nil`. -/
  healthCheck : Bool
  deriving DecidableEq, Repr

/-- The dial-time record kept for every live connection. -/
structure ConnMeta where
  gen : ℕ
  createdAt : ℤ
  deriving DecidableEq, Repr

/-- A pooled connection with the timestamps the reaper reads. -/
structure IdleConn where
  conn : Conn
  createdAt : ℤ
  releasedAt : ℤ
  deriving DecidableEq, Repr

/-- The kinds passed to `emit`. -/
inductive Event
  | reapLifetime | discard | dialError | reconnectDiscard | doubleRelease
  | foreignRelease | foreignDiscard | slotUnderflow | reapIdle
  | circuitOpen | circuitClose | pause | resume | reconnect
  deriving DecidableEq, Repr

/-- How `dialWithRetry` can fail: the dialer's own error, `ctx.Err()`, or `ErrPoolClosed`
while waiting to retry. -/
inductive DialErr
  | backend
  | ctx
  | poolClosed
  deriving DecidableEq, Repr

/-- How `Acquire` can fail. -/
inductive AcquireErr
  | poolClosed
  | ctx
  | circuitOpen
  /-- `fmt.Errorf("dial: %w", err)`. -/
  | dial (cause : DialErr)
  deriving DecidableEq, Repr

/-- Whose dial the circuit-breaker code is running for. -/
inductive Dialing
  | acquire (k : Caller)
  | warmUp (i : ℕ)
  deriving DecidableEq, Repr

/-- Whose loop over connections to retire is running. -/
inductive After
  | reapExpired
  | reconnect
  | close
  deriving DecidableEq, Repr

/-- What the loop emits for each connection. -/
def After.event : After → Option Event
  | .reapExpired => some .reapIdle
  | .reconnect | .close => none

/-- Why `Acquire` retires an idle connection it popped. -/
inductive Unfit
  | lifetime
  | health
  deriving DecidableEq, Repr

def Unfit.event : Unfit → Event
  | .lifetime => .reapLifetime
  | .health => .discard

/-- Why a returned connection is closed instead of parked. -/
inductive Drop
  | closed
  | stale
  | discard
  deriving DecidableEq, Repr

def Drop.event : Drop → Option Event
  | .closed => none
  | .stale => some .reconnectDiscard
  | .discard => some .discard

/-- Which call a foreign connection was handed to. -/
inductive Foreign
  | release
  | discard
  deriving DecidableEq, Repr

def Foreign.event : Foreign → Event
  | .release => .foreignRelease
  | .discard => .foreignDiscard

/-- Program points of the running calls, with their live locals. -/
inductive Op
  -- `Acquire`: `closed.Load`, `paused.Load`, the pause gate, the semaphore select
  | acquire (k : Caller)
  | acqPaused (k : Caller)
  | acqGate (k : Caller)
  | acqParked (k : Caller) (ch : ℕ)
  | acqWait (k : Caller)
  | acqRecheck (k : Caller)
  -- the scan of the idle stack
  | acqPop (k : Caller)
  | acqExamine (k : Caller) (ic : IdleConn)
  | acqCheck (k : Caller) (ic : IdleConn)
  | acqHealth (k : Caller) (ic : IdleConn)
  | acqRetire (k : Caller) (c : Conn) (why : Unfit)
  | acqRetireClose (k : Caller) (c : Conn) (why : Unfit)
  -- `dialWithRetry`, and the tagging of a fresh connection
  | acqDial (k : Caller) (i : ℕ)
  | acqBackoff (k : Caller) (i : ℕ) (deadline : ℤ)
  | acqTag (k : Caller) (c : Conn)
  | acqStore (k : Caller) (c : Conn) (m : ConnMeta)
  | acqFree (k : Caller) (err : AcquireErr)
  -- `circuitAllows`, `circuitRecordFailure`, `circuitRecordSuccess`
  | circuit (d : Dialing)
  | circuitNow (d : Dialing) (until' : ℤ)
  | circuitCas (d : Dialing) (until' now : ℤ)
  | dialFailed (d : Dialing) (err : DialErr)
  | failAdd (d : Dialing) (err : DialErr)
  | failNow (d : Dialing) (err : DialErr)
  | failSwap (d : Dialing) (err : DialErr) (now : ℤ)
  | okStore (d : Dialing) (c : Conn)
  | okSwap (d : Dialing) (c : Conn)
  -- `Release` and `Discard`
  | release (k : Caller) (c : Conn)
  | relClosed (k : Caller) (c : Conn) (m : ConnMeta)
  | relGen (k : Caller) (c : Conn) (m : ConnMeta)
  | relPark (k : Caller) (c : Conn) (m : ConnMeta) (now : ℤ)
  | relDelete (k : Caller) (c : Conn) (why : Drop)
  | relClose (k : Caller) (c : Conn) (why : Drop)
  | relFree (k : Caller) (why : Option Drop)
  | discard (k : Caller) (c : Conn)
  | rejectForeign (k : Caller) (c : Conn) (by' : Foreign)
  -- `reapExpired`, `Reconnect`, `Close`
  | reapExpired
  | reapSweep (now : ℤ)
  | reconnect
  | reconnectDrain
  | close
  | closeDrain
  | closeDone (cs : List Conn)
  | closePoll
  | closeWait
  | retire (cs : List Conn) (fin : After)
  | retireClose (c : Conn) (cs : List Conn) (fin : After)
  -- `warmUp`
  | warmUp (i : ℕ)
  | warmSem (i : ℕ)
  | warmDial (i : ℕ)
  | warmPark (i : ℕ) (c : Conn) (now : ℤ)
  | warmClose (c : Conn)
  | warmAbort
  | warmFree (i : ℕ)
  -- `Pause` and `Resume`
  | pause
  | resume
  | resumeClose (ch : ℕ)
  -- the call has returned; `Acquire` and `Close` with an error
  | failed (k : Caller) (err : AcquireErr)
  | closeErr (inFlight : ℕ)
  | returned
  deriving DecidableEq, Repr

/-- How the environment resolves a step. -/
inductive Choice
  /-- The step is determined by the shared state. -/
  | go
  /-- The `ctx.Done()` case fires. -/
  | ctxDone
  /-- The `p.done` case fires. -/
  | doneCh
  /-- The channel operation of the `select` proceeds. -/
  | ready
  | dialOk (c : Conn)
  /-- The dial failed; the flag is `ctx.Err() != nil`. -/
  | dialErr (ctxErr : Bool)
  | healthy
  | sick
  deriving DecidableEq, Repr

/-- The pool's shared memory, its callers' hands and its event log. -/
structure Shared where
  /-- `len(p.sem)`. -/
  sem : ℕ
  closed : Bool
  /-- `p.done` has been closed. -/
  done : Bool
  paused : Bool
  /-- The channel `resumeCh` currently refers to. -/
  resumeCh : ℕ
  chanClosed : ℕ → Bool
  nextChan : ℕ
  reconnectGen : ℕ
  connMeta : Conn → Option ConnMeta
  /-- `p.idle`, in slice order: the top of the stack is the last entry. -/
  idle : List IdleConn
  cbFailures : ℤ
  cbOpenUntil : ℤ
  clock : ℤ
  /-- Every connection a dialer has returned. -/
  dialed : List Conn
  /-- Who holds what, between `Acquire` returning and `Release` or `Discard` being called. -/
  held : List (Caller × Conn)
  /-- How often `Close` has been called on a connection. -/
  closes : Conn → ℕ
  events : List Event
  /-- A closed channel was closed again. -/
  panicked : Bool

namespace Shared

def emit (s : Shared) (e : Event) : Shared := { s with events := s.events ++ [e] }

def emit? (s : Shared) : Option Event → Shared
  | none => s
  | some e => s.emit e

/-- `releaseSlot`: give a slot back without being able to block. -/
def releaseSlot (s : Shared) : Shared :=
  if s.sem = 0 then s.emit .slotUnderflow else { s with sem := s.sem - 1 }

def deleteMeta (s : Shared) (c : Conn) : Shared :=
  { s with connMeta := Function.update s.connMeta c none }

def storeMeta (s : Shared) (c : Conn) (m : ConnMeta) : Shared :=
  { s with connMeta := Function.update s.connMeta c (some m) }

def closeConn (s : Shared) (c : Conn) : Shared :=
  { s with closes := Function.update s.closes c (s.closes c + 1) }

/-- `close(ch)` on a Go channel. -/
def closeChan (s : Shared) (ch : ℕ) : Shared :=
  if s.chanClosed ch then { s with panicked := true }
  else { s with chanClosed := Function.update s.chanClosed ch true }

/-- Flip `paused` and install a fresh `resumeCh`: open for `Pause`, closed for `Resume`. -/
def swapResumeCh (s : Shared) (paused : Bool) : Shared :=
  { s with
    paused := paused
    resumeCh := s.nextChan
    nextChan := s.nextChan + 1
    chanClosed := Function.update s.chanClosed s.nextChan (!paused) }

/-- `Acquire` returns `c` to its caller. -/
def handOut (s : Shared) (k : Caller) (c : Conn) : Shared :=
  { s with held := (k, c) :: s.held }

/-- The dialer returned `c`. -/
def dial (s : Shared) (c : Conn) : Shared := { s with dialed := c :: s.dialed }

end Shared

section

variable (o : Options) (limit : ℕ)

/-- The retry delay before attempt `i + 1` of `dialWithRetry`. -/
def backoff (i : ℕ) : ℤ :=
  (if o.dialRetryBackoff ≤ 0 then 100000000 else o.dialRetryBackoff) * 2 ^ i

/-- `reapExpired`'s test on one idle entry. -/
def expired (now : ℤ) (ic : IdleConn) : Bool :=
  (decide (0 < o.idleTimeout) && decide (o.idleTimeout < now - ic.releasedAt)) ||
    (decide (0 < o.maxLifetime) && decide (o.maxLifetime < now - ic.createdAt))

/-- `warmUp`'s target: `minIdle`, capped by the pool limit. -/
def warmTarget : ℤ := if (limit : ℤ) < o.minIdle then limit else o.minIdle

/-- Where `circuitAllows` returning `true` leads. -/
def allowed : Dialing → Op
  | .acquire k => .acqDial k 0
  | .warmUp i => .warmSem i

/-- Where `circuitAllows` returning `false` leads. -/
def denied : Dialing → Op
  | .acquire k => .acqFree k .circuitOpen
  | .warmUp _ => .returned

/-- Where `circuitRecordFailure` leads. -/
def afterFailure : Dialing → DialErr → Op
  | .acquire k, err => .failed k (.dial err)
  | .warmUp i, _ => .warmUp (i + 1)

/-- Where `circuitRecordSuccess` leads. -/
def afterSuccess (now : ℤ) : Dialing → Conn → Op
  | .acquire k, c => .acqTag k c
  | .warmUp i, c => .warmPark i c now

/-- `Acquire` and `dialWithRetry`. -/
def acquireStep (s : Shared) : Op → Choice → Option (Shared × Op)
  | .acquire k, .go => some (s, if s.closed then .failed k .poolClosed else .acqPaused k)
  | .acqPaused k, .go => some (s, if s.paused then .acqGate k else .acqWait k)
  | .acqGate k, .go => some (s, .acqParked k s.resumeCh)
  | .acqParked k ch, .ready => if s.chanClosed ch then some (s, .acqWait k) else none
  | .acqParked k _, .ctxDone => some (s, .failed k .ctx)
  | .acqParked k _, .doneCh => if s.done then some (s, .failed k .poolClosed) else none
  | .acqWait k, .ready =>
      if s.sem < limit then some ({ s with sem := s.sem + 1 }, .acqRecheck k) else none
  | .acqWait k, .doneCh => if s.done then some (s, .failed k .poolClosed) else none
  | .acqWait k, .ctxDone => some (s, .failed k .ctx)
  | .acqRecheck k, .go => some (s, if s.closed then .acqFree k .poolClosed else .acqPop k)
  | .acqPop k, .go =>
      match s.idle.getLast? with
      | none => some (s, .circuit (.acquire k))
      | some ic => some ({ s with idle := s.idle.dropLast }, .acqExamine k ic)
  | .acqExamine k ic, .go =>
      some (s, if 0 < o.maxLifetime ∧ o.maxLifetime < s.clock - ic.createdAt
        then .acqRetire k ic.conn .lifetime else .acqCheck k ic)
  | .acqCheck k ic, .go =>
      if o.healthCheck = false ∨
          (0 < o.healthCheckDelay ∧ s.clock - ic.releasedAt < o.healthCheckDelay) then
        some (s.handOut k ic.conn, .returned)
      else some (s, .acqHealth k ic)
  | .acqHealth k ic, .healthy => some (s.handOut k ic.conn, .returned)
  | .acqHealth k ic, .sick => some (s, .acqRetire k ic.conn .health)
  | .acqRetire k c why, .go => some (s.deleteMeta c, .acqRetireClose k c why)
  | .acqRetireClose k c why, .go => some ((s.closeConn c).emit why.event, .acqPop k)
  | .acqDial k _, .dialOk c =>
      if c ∈ s.dialed then none else some (s.dial c, .okStore (.acquire k) c)
  | .acqDial k i, .dialErr ctxErr =>
      some (s, if ctxErr then .dialFailed (.acquire k) .ctx
        else if i = o.dialRetryMax then .dialFailed (.acquire k) .backend
        else .acqBackoff k i (s.clock + backoff o i))
  | .acqBackoff k i deadline, .ready =>
      if deadline ≤ s.clock then some (s, .acqDial k (i + 1)) else none
  | .acqBackoff k _ _, .ctxDone => some (s, .dialFailed (.acquire k) .ctx)
  | .acqBackoff k _ _, .doneCh =>
      if s.done then some (s, .dialFailed (.acquire k) .poolClosed) else none
  | .acqTag k c, .go => some (s, .acqStore k c ⟨s.reconnectGen, s.clock⟩)
  | .acqStore k c m, .go => some ((s.storeMeta c m).handOut k c, .returned)
  | .acqFree k err, .go => some (s.releaseSlot, .failed k err)
  | _, _ => none

/-- `circuitAllows`, `circuitRecordFailure` and `circuitRecordSuccess`, for whoever dials. -/
def circuitStep (s : Shared) : Op → Choice → Option (Shared × Op)
  | .circuit d, .go =>
      some (s, if o.cbThreshold ≤ 0 ∨ s.cbOpenUntil = 0 then allowed d
        else .circuitNow d s.cbOpenUntil)
  | .circuitNow d until', .go =>
      some (s, if s.clock < until' then denied d else .circuitCas d until' s.clock)
  | .circuitCas d until' now, .go =>
      if s.cbOpenUntil = until' then
        some ({ s with cbOpenUntil := now + o.cbCooldown }, allowed d)
      else some (s, denied d)
  | .dialFailed d err, .go => some (s.releaseSlot.emit .dialError, .failAdd d err)
  | .failAdd d err, .go =>
      if o.cbThreshold ≤ 0 then some (s, afterFailure d err)
      else some ({ s with cbFailures := s.cbFailures + 1 },
        if s.cbFailures + 1 < o.cbThreshold then afterFailure d err else .failNow d err)
  | .failNow d err, .go => some (s, .failSwap d err s.clock)
  | .failSwap d err now, .go =>
      some (({ s with cbOpenUntil := now + o.cbCooldown } : Shared).emit?
        (if s.cbOpenUntil = 0 then some .circuitOpen else none), afterFailure d err)
  | .okStore d c, .go =>
      if o.cbThreshold ≤ 0 then some (s, afterSuccess s.clock d c)
      else some ({ s with cbFailures := 0 }, .okSwap d c)
  | .okSwap d c, .go =>
      some (({ s with cbOpenUntil := 0 } : Shared).emit?
        (if s.cbOpenUntil = 0 then none else some .circuitClose), afterSuccess s.clock d c)
  | _, _ => none

/-- `Release`, `Discard` and `rejectForeign`. -/
def returnStep (s : Shared) : Op → Choice → Option (Shared × Op)
  | .release k c, .go =>
      match s.connMeta c with
      | none => some (s, .rejectForeign k c .release)
      | some m => some (s, .relClosed k c m)
  | .relClosed k c m, .go => some (s, if s.closed then .relDelete k c .closed else .relGen k c m)
  | .relGen k c m, .go =>
      some (s, if m.gen < s.reconnectGen then .relDelete k c .stale
        else .relPark k c m s.clock)
  | .relPark k c m now, .go =>
      -- the critical section of `Release`: re-check `closed`, look for a double release, park
      if s.closed then some (s, .relDelete k c .closed)
      else if s.idle.any (fun ic => ic.conn == c) then some (s.emit .doubleRelease, .returned)
      else some ({ s with idle := s.idle ++ [⟨c, m.createdAt, now⟩] }, .relFree k none)
  | .relDelete k c why, .go => some (s.deleteMeta c, .relClose k c why)
  | .relClose k c why, .go => some (s.closeConn c, .relFree k (some why))
  | .relFree _ why, .go => some (s.releaseSlot.emit? (why.bind Drop.event), .returned)
  | .discard k c, .go =>
      match s.connMeta c with
      | none => some (s, .rejectForeign k c .discard)
      | some _ => some (s, .relDelete k c .discard)
  | .rejectForeign _ c by', .go => some ((s.closeConn c).emit by'.event, .returned)
  | _, _ => none

/-- `reapExpired`, `Reconnect` and `Close`. -/
def drainStep (s : Shared) : Op → Choice → Option (Shared × Op)
  | .reapExpired, .go => some (s, if s.closed then .returned else .reapSweep s.clock)
  | .reapSweep now, .go =>
      if s.closed then some (s, .returned)
      else some ({ s with idle := s.idle.filter (fun ic => !expired o now ic) },
        .retire ((s.idle.filter (expired o now)).map (·.conn)) .reapExpired)
  | .reconnect, .go => some ({ s with reconnectGen := s.reconnectGen + 1 }, .reconnectDrain)
  | .reconnectDrain, .go =>
      some ({ s with idle := [] }, .retire (s.idle.map (·.conn)) .reconnect)
  | .close, .go => if s.closed then some (s, .returned)
      else some ({ s with closed := true }, .closeDrain)
  | .closeDrain, .go => some ({ s with idle := [] }, .closeDone (s.idle.map (·.conn)))
  | .closeDone cs, .go =>
      some (if s.done then { s with panicked := true } else { s with done := true },
        .retire cs .close)
  | .closePoll, .go => some (s, if s.sem = 0 then .returned else .closeWait)
  | .closeWait, .ctxDone => some (s, .closeErr s.sem)
  | .retire [] .reapExpired, .go => some (s, .returned)
  | .retire [] .reconnect, .go => some (s.emit .reconnect, .returned)
  | .retire [] .close, .go => some (s, .closePoll)
  | .retire (c :: cs) fin, .go => some (s.deleteMeta c, .retireClose c cs fin)
  | .retireClose c cs fin, .go => some ((s.closeConn c).emit? fin.event, .retire cs fin)
  -- the ticker of `Close`
  | .closeWait, .go => some (s, .closePoll)
  | _, _ => none

/-- `warmUp`. -/
def warmUpStep (s : Shared) : Op → Choice → Option (Shared × Op)
  | .warmUp i, .go =>
      some (s, if warmTarget o limit ≤ i ∨ s.done then .returned else .circuit (.warmUp i))
  | .warmSem i, .ready =>
      if s.sem < limit then some ({ s with sem := s.sem + 1 }, .warmDial i) else none
  | .warmSem _, .doneCh => if s.done then some (s, .returned) else none
  | .warmDial i, .dialOk c =>
      if c ∈ s.dialed then none else some (s.dial c, .okStore (.warmUp i) c)
  | .warmDial i, .dialErr _ => some (s, .dialFailed (.warmUp i) .backend)
  | .warmPark i c now, .go =>
      if s.closed then some (s, .warmClose c)
      else some ({ s.storeMeta c ⟨s.reconnectGen, now⟩ with idle := s.idle ++ [⟨c, now, now⟩] },
        .warmFree i)
  | .warmClose c, .go => some (s.closeConn c, .warmAbort)
  | .warmAbort, .go => some (s.releaseSlot, .returned)
  | .warmFree i, .go => some (s.releaseSlot, .warmUp (i + 1))
  | _, _ => none

/-- `Pause` and `Resume`. -/
def pauseStep (s : Shared) : Op → Choice → Option (Shared × Op)
  | .pause, .go =>
      if s.paused then some (s, .returned)
      else some ((s.swapResumeCh true).emit .pause, .returned)
  | .resume, .go =>
      if s.paused then some (s.swapResumeCh false, .resumeClose s.resumeCh)
      else some (s, .returned)
  | .resumeClose ch, .go => some ((s.closeChan ch).emit .resume, .returned)
  | _, _ => none

/-- One atomic step of a running call. -/
def opStep (s : Shared) (op : Op) (ch : Choice) : Option (Shared × Op) :=
  acquireStep o limit s op ch <|> circuitStep o s op ch <|> returnStep s op ch <|>
    drainStep o s op ch <|> warmUpStep o limit s op ch <|> pauseStep s op ch

end

/-- What the environment may ask for. -/
inductive Action
  | acquire (k : Caller)
  | release (k : Caller) (c : Conn)
  | discard (k : Caller) (c : Conn)
  | reapExpired
  | reconnect
  | warmUp
  | close
  | pause
  | resume
  /-- Step the running call at a position of `ops`. -/
  | run (i : ℕ) (ch : Choice)
  /-- Time passes. -/
  | tick (d : ℕ)
  deriving DecidableEq, Repr

end Pool

/-- The pool with its running calls. -/
structure Pool where
  sh : Pool.Shared
  ops : List Pool.Op

namespace Pool

/-- The state `New` returns: `resumeCh` starts closed, everything else is empty. -/
def new : Pool where
  sh := {
    sem := 0
    closed := false
    done := false
    paused := false
    resumeCh := 0
    chanClosed := fun ch => ch == 0
    nextChan := 1
    reconnectGen := 0
    connMeta := fun _ => none
    idle := []
    cbFailures := 0
    cbOpenUntil := 0
    clock := 0
    dialed := []
    held := []
    closes := fun _ => 0
    events := []
    panicked := false }
  ops := []

def start (p : Pool) (op : Op) : Pool := { p with ops := p.ops ++ [op] }

/-- A caller gives a connection it holds back into a call. -/
def giveBack (p : Pool) (k : Caller) (c : Conn) (op : Op) : Option Pool :=
  if (k, c) ∈ p.sh.held then
    some { sh := { p.sh with held := p.sh.held.erase (k, c) }, ops := p.ops ++ [op] }
  else none

def step (o : Options) (limit : ℕ) (p : Pool) : Action → Option Pool
  | .acquire k => some (p.start (.acquire k))
  | .release k c => p.giveBack k c (.release k c)
  | .discard k c => p.giveBack k c (.discard k c)
  | .reapExpired => some (p.start .reapExpired)
  | .reconnect => some (p.start .reconnect)
  | .warmUp => some (p.start (.warmUp 0))
  | .close => some (p.start .close)
  | .pause => some (p.start .pause)
  | .resume => some (p.start .resume)
  | .run i ch =>
      match p.ops[i]? with
      | none => none
      | some op => (opStep o limit p.sh op ch).map fun r => ⟨r.1, p.ops.set i r.2⟩
  | .tick d => some { p with sh := { p.sh with clock := p.sh.clock + d } }

/-- The pool as a machine: an interleaving is a list of actions. -/
def machine (o : Options) (limit : ℕ) : Machine Pool Action where
  init p := p = new
  step := step o limit

end Pool

end Pgman
