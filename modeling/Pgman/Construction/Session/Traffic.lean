import Pgman.Construction.Backend.Changes

/-!
# Clients on their way to a pool, and the sweep

`handleConnWithOpts` routes a client, registers its session and records the name of its pool in
three steps with nothing held in between (`main.go`).  `reapPassthroughPools` asks the session
registry for the pool names that are recorded, one shard after the other, reads the clock, and then
takes out the pass-through entries that are idle (`passthrough_reaper.go`, `session.go`).
`Traffic.machine` interleaves these steps with the operator's changes.

Time passes in a step of its own.  A visit remembers when its `Resolve` was called (`asked`), a
sweep which visits had their pool name recorded when it began (`known`), and the machine which pool
objects sweeps have taken out (`closed`); the program does not.
-/

namespace Pgman

open Net (Text)

def sessionShardCount : ℕ := 32

/-- How far a client has come. -/
inductive Stage
  /-- `Resolve` has let go of the read lock. -/
  | asked (l : PoolRegistry.Lookup)
  | routed (x : PoolRegistry.Resolved)
  /-- The session is in the table and its `poolName` is empty. -/
  | registered (pid : ℕ) (x : PoolRegistry.Resolved)
  | named (pid : ℕ) (x : PoolRegistry.Resolved)
  deriving DecidableEq

/-- The pool that `Resolve` has returned. -/
def Stage.given : Stage → Option PoolRegistry.Resolved
  | .asked _ => none
  | .routed x | .registered _ x | .named _ x => some x

def Stage.pid : Stage → Option ℕ
  | .registered pid _ | .named pid _ => some pid
  | .asked _ | .routed _ => none

structure Visit where
  asked : ℤ
  database : Text
  stage : Stage
  deriving DecidableEq

/-- `sess.poolName`, as a walk over the session's shard finds it. -/
def Visit.poolName (v : Visit) : Text :=
  match v.stage with
  | .named _ x => if x.key = [] then v.database else x.key
  | .asked _ | .routed _ | .registered .. => []

/-- A sweep between its steps: `known` are the visits whose pool name was recorded at its start. -/
inductive Sweep
  /-- `listSessions` is to look into the shard `shard` next. -/
  | looking (shard : ℕ) (active : List Text) (known : List ℕ)
  /-- The clock has been read, the registry's lock not yet taken. -/
  | armed (cutoff : ℤ) (active : List Text) (known : List ℕ)
  deriving DecidableEq

structure Traffic where
  now : ℤ
  registry : PoolRegistry
  visits : Table ℕ Visit
  /-- The number of the next visit. -/
  next : ℕ
  sweep : Option Sweep
  closed : List ℕ

inductive TrafficEvent
  | tick (d : ℕ)
  | ask (held : Text → Bool) (database user : Text)
  /-- The rest of `Resolve`; a client that is given no pool leaves. -/
  | answer (i : ℕ)
  | register (i pid : ℕ)
  | name (i : ℕ)
  /-- The session ends, or the handshake is broken off. -/
  | leave (i : ℕ)
  | operate (call : OperatorCall)
  | beginSweep
  | look
  | aim
  /-- The critical section of `EvictIdlePassthrough`; `inUse` is what the pools report. -/
  | evict (inUse : ℕ → ℕ)

namespace Traffic

def setStage (w : Traffic) (i : ℕ) (v : Visit) (stage : Stage) : Traffic :=
  { w with visits := w.visits.set i { v with stage := stage } }

def dropVisit (w : Traffic) (i : ℕ) : Traffic :=
  { w with visits := w.visits.keep fun j _ => j ≠ i }

/-- The visits whose pool name is recorded. -/
def recorded (w : Traffic) : List ℕ :=
  (w.visits.pairs.filter fun p => p.2.poolName ≠ []).map Prod.fst

/-- The pool names that `listSessions` finds in a shard. -/
def shardKeys (w : Traffic) (shard : ℕ) : List Text :=
  (w.visits.pairs.filter fun p =>
    (p.2.stage.pid.map (· % sessionShardCount)) = some shard ∧ p.2.poolName ≠ []).map
      fun p => p.2.poolName

def answer (w : Traffic) (i : ℕ) (v : Visit) (l : PoolRegistry.Lookup) : Traffic :=
  let (x, r) := l.answer w.now w.registry
  match x with
  | some x => { w with registry := r }.setStage i v (.routed x)
  | none => { w with registry := r }.dropVisit i

def evict (w : Traffic) (cutoff : ℤ) (active : List Text) (inUse : ℕ → ℕ) : Traffic :=
  let (out, r) := w.registry.evictIdle cutoff (fun key => active.contains key) inUse
  { w with registry := r, sweep := none, closed := w.closed ++ out.map fun p => p.2.pool }

def step (idleFor : ℤ) (w : Traffic) : TrafficEvent → Option Traffic
  | .tick d => some { w with now := w.now + d }
  | .ask held database user =>
    some { w with
      visits := w.visits.set w.next
        ⟨w.now, database, .asked (w.registry.lookup held database user)⟩
      next := w.next + 1 }
  | .answer i =>
    match w.visits.get i with
    | some v =>
      match v.stage with
      | .asked l => some (w.answer i v l)
      | .routed _ | .registered .. | .named .. => none
    | none => none
  | .register i pid =>
    match w.visits.get i with
    | some v =>
      match v.stage with
      | .routed x =>
        -- `registerSession` draws until the number is new
        if pid = 0 ∨ ∃ p ∈ w.visits.pairs, p.2.stage.pid = some pid then none
        else some (w.setStage i v (.registered pid x))
      | .asked _ | .registered .. | .named .. => none
    | none => none
  | .name i =>
    match w.visits.get i with
    | some v =>
      match v.stage with
      | .registered pid x => some (w.setStage i v (.named pid x))
      | .asked _ | .routed _ | .named .. => none
    | none => none
  | .leave i => (w.visits.get i).map fun _ => w.dropVisit i
  | .operate call => (call.apply w.now w.registry).map fun r => { w with registry := r }
  | .beginSweep =>
    match w.sweep with
    -- without a positive `idleFor` no reaper is started
    | none => if 0 < idleFor then some { w with sweep := some (.looking 0 [] w.recorded) } else none
    | some _ => none
  | .look =>
    match w.sweep with
    | some (.looking shard active known) =>
      if shard < sessionShardCount then
        some { w with sweep := some (.looking (shard + 1) (active ++ w.shardKeys shard) known) }
      else none
    | some (.armed ..) | none => none
  | .aim =>
    match w.sweep with
    | some (.looking shard active known) =>
      if shard < sessionShardCount then none
      else some { w with sweep := some (.armed (w.now - idleFor) active known) }
    | some (.armed ..) | none => none
  | .evict inUse =>
    match w.sweep with
    | some (.armed cutoff active _) => some (w.evict cutoff active inUse)
    | some (.looking ..) | none => none

def machine (idleFor t₀ : ℤ) (start : PoolRegistry) : Machine Traffic TrafficEvent where
  init w := w = ⟨t₀, start, .empty, 0, none, []⟩
  step := step idleFor

end Traffic

end Pgman
