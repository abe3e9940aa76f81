import Pgman.Construction.Backend.Dialer

/-!
# The registry of pools

`registry.go`.  The registry keeps two maps: the entries, one for every identity of every pool, by
registry key, and the routes, from every name a client may ask for to the name of a pool.

A pool object is a number, given out in order; `stopped` records whose DNS watcher was stopped.
`Resolve` takes the lock twice: `lookup` is its first critical section, `createPassthroughEntry`
the second, and the stamp on an entry that was found (`stamp`) stands in neither.  `resolve` is a
call that runs through without interference.  Which clients' keys are held is a parameter, `held`;
so is the time, `now`, at which entries are stamped.

Where the source ranges over a map, the model goes by the order of the keys.
-/

namespace Pgman

open Net (Text)

def poolKey (name backendUser : Text) : Text :=
  if backendUser = [] then name else name ++ poolKeySeparator :: backendUser

structure RegistryEntry where
  poolName : Text
  backendUser : Text
  config : PoolConfig
  passthrough : Bool
  pool : ℕ
  lastRouted : ℤ
  deriving DecidableEq

structure PoolRegistry where
  entries : Table Text RegistryEntry
  byDatabase : Table Text Text
  pools : ℕ
  stopped : List ℕ
  deriving DecidableEq

inductive RegistryError
  | nameRequired
  | nameHasSeparator (name : Text)
  | backendRequired
  | limitNotPositive (limit : ℤ)
  | backendAddr (err : BackendAddrError)
  | alreadyExists (name : Text)
  | notFound (name : Text)
  deriving DecidableEq

def validatePoolConfig (name : Text) (cfg : PoolConfig) : Except RegistryError Unit :=
  if name = [] then .error .nameRequired
  else if poolKeySeparator ∈ name then .error (.nameHasSeparator name)
  else if cfg.backendDSN = [] ∨ cfg.backendAddr = [] then .error .backendRequired
  else if cfg.limit ≤ 0 then .error (.limitNotPositive cfg.limit)
  else (validateBackendAddr cfg.backendAddr).mapError .backendAddr

namespace PoolRegistry

def empty : PoolRegistry := ⟨.empty, .empty, 0, []⟩

/-! ## Adding and taking entries -/

/-- `newEntry`, put under its key. -/
def putEntry (now : ℤ) (name backendUser : Text) (cfg : PoolConfig) (passthrough : Bool)
    (r : PoolRegistry) : PoolRegistry :=
  { r with
    entries := r.entries.set (poolKey name backendUser)
      ⟨name, backendUser, cfg, passthrough, r.pools, now⟩
    pools := r.pools + 1 }

/-- The routes of a pool. -/
def route (name : Text) (cfg : PoolConfig) (routes : Table Text Text) : Table Text Text :=
  (cfg.claims name).foldl (fun routes db => routes.set db name) routes

def addEntries (now : ℤ) (name : Text) (cfg : PoolConfig) (r : PoolRegistry) : PoolRegistry :=
  let r := { r with byDatabase := route name cfg r.byDatabase }
  let r := r.putEntry now name [] cfg false
  cfg.users.pairs.foldl (fun r p => r.putEntry now name p.1 (cfg.withDSN p.2) false) r

/-- The entries of a pool. -/
def entriesOf (name : Text) (r : PoolRegistry) : List RegistryEntry :=
  (r.entries.pairs.map Prod.snd).filter fun e => e.poolName = name

/-- The registry that `takeEntries` leaves. -/
def takeEntries (name : Text) (r : PoolRegistry) : PoolRegistry :=
  if r.entriesOf name = [] then r
  else
    { r with
      entries := r.entries.keep fun _ e => e.poolName ≠ name
      byDatabase := r.byDatabase.keep fun _ target => target ≠ name }

/-- The watchers of displaced entries are stopped. -/
def stopWatchers (old : List RegistryEntry) (r : PoolRegistry) : PoolRegistry :=
  { r with stopped := r.stopped ++ old.map (·.pool) }

/-- `NewPoolRegistryWithDefaults`, with the configured pools in the order it meets them. -/
def new (now : ℤ) (initial : List (Text × PoolConfig)) : PoolRegistry :=
  initial.foldl (fun r p => r.addEntries now p.1 p.2) empty

/-! ## Changing the set of pools -/

def base (name : Text) (r : PoolRegistry) : Option RegistryEntry := r.entries.get (poolKey name [])

def add (now : ℤ) (name : Text) (cfg : PoolConfig) (r : PoolRegistry) :
    Except RegistryError PoolRegistry := do
  validatePoolConfig name cfg
  match r.base name with
  | some _ => .error (.alreadyExists name)
  | none => .ok (r.addEntries now name cfg)

/-- Replace every identity of a pool.  The pools to drain are `entriesOf`. -/
def replace (now : ℤ) (name : Text) (cfg : PoolConfig) (r : PoolRegistry) : PoolRegistry :=
  ((r.takeEntries name).stopWatchers (r.entriesOf name)).addEntries now name cfg

/-- The pools to drain, whether anything changed, and the registry. -/
def reconfigure (now : ℤ) (name : Text) (cfg : PoolConfig) (r : PoolRegistry) :
    Except RegistryError (List ℕ × Bool × PoolRegistry) := do
  validatePoolConfig name cfg
  match r.base name with
  | none => .error (.notFound name)
  | some e =>
    if poolConfigEqual e.config cfg then .ok ([], false, r)
    else .ok ((r.entriesOf name).map (·.pool), true, r.replace now name cfg)

def resize (now : ℤ) (name : Text) (newLimit : ℤ) (r : PoolRegistry) :
    Except RegistryError (List ℕ × PoolRegistry) :=
  if newLimit ≤ 0 then .error (.limitNotPositive newLimit)
  else match r.base name with
    | none => .error (.notFound name)
    | some e =>
      .ok ((r.entriesOf name).map (·.pool), r.replace now name { e.config with limit := newLimit })

def remove (name : Text) (r : PoolRegistry) : Except RegistryError (List ℕ × PoolRegistry) :=
  if r.entriesOf name = [] then .error (.notFound name)
  else .ok ((r.entriesOf name).map (·.pool),
    (r.takeEntries name).stopWatchers (r.entriesOf name))

/-- `PoolNames`: each name once, sorted. -/
def poolNames (r : PoolRegistry) : List Text :=
  (Table.ofList (r.entries.pairs.map fun p => (p.2.poolName, ()))).keys

/-! ## Routing -/

/-- `backendIdentityFor`: the role and whether it is reached by pass-through. -/
def backendIdentityFor (held : Text → Bool) (cfg : PoolConfig) (user : Text) : Text × Bool :=
  if user = [] then ([], false)
  else if (cfg.users.get user).isSome then (user, false)
  else if cfg.scramPassthrough && held user then (user, true)
  else ([], false)

/-- What `Resolve` knows when it has let go of the read lock. -/
inductive Lookup
  | missing
  | found (key : Text) (entry : RegistryEntry)
  | create (name user : Text) (cfg : PoolConfig)
  deriving DecidableEq

/-- The first critical section of `Resolve`. -/
def lookup (held : Text → Bool) (database user : Text) (r : PoolRegistry) : Lookup :=
  match r.byDatabase.get database with
  | none => .missing
  | some name =>
    match r.base name with
    | none => .missing
    | some b =>
      let (backendUser, passthrough) := backendIdentityFor held b.config user
      match r.entries.get (poolKey name backendUser) with
      | some e => .found (poolKey name backendUser) e
      | none => if passthrough then .create name user b.config else .missing

/-- The stamp on a pass-through entry: the entry is the one that was found, if it is still there. -/
def stamp (now : ℤ) (key : Text) (entry : RegistryEntry) (r : PoolRegistry) : PoolRegistry :=
  if entry.passthrough then
    match r.entries.get key with
    | none => r
    | some e =>
      if e.pool = entry.pool then
        { r with entries := r.entries.set key { e with lastRouted := now } }
      else r
  else r

/-- A pool as `Resolve` returns it. -/
structure Resolved where
  key : Text
  pool : ℕ
  config : PoolConfig
  deriving DecidableEq

def RegistryEntry.resolved (key : Text) (e : RegistryEntry) : Resolved := ⟨key, e.pool, e.config⟩

/-- The second critical section of `Resolve`. -/
def createPassthroughEntry (now : ℤ) (name user : Text) (cfg : PoolConfig) (r : PoolRegistry) :
    Option Resolved × PoolRegistry :=
  match r.entries.get (poolKey name user) with
  | some e => (some (RegistryEntry.resolved (poolKey name user) e), r)
  | none =>
    match r.base name with
    | none => (none, r)
    | some _ => (some ⟨poolKey name user, r.pools, cfg⟩, r.putEntry now name user cfg true)

/-- What `Resolve` returns when it has let go of the read lock, and the registry it leaves. -/
def Lookup.answer (now : ℤ) (r : PoolRegistry) : Lookup → Option Resolved × PoolRegistry
  | .missing => (none, r)
  | .found key e => (some (RegistryEntry.resolved key e), r.stamp now key e)
  | .create name user cfg => r.createPassthroughEntry now name user cfg

/-- A call of `Resolve` that nothing interferes with. -/
def resolve (now : ℤ) (held : Text → Bool) (database user : Text) (r : PoolRegistry) :
    Option Resolved × PoolRegistry :=
  (r.lookup held database user).answer now r

/-! ## Reclaiming pass-through pools -/

/-- An entry that a sweep takes: `inUse` is the number of connections its pool has out. -/
def idle (cutoff : ℤ) (active : Text → Bool) (inUse : ℕ → ℕ) (key : Text) (e : RegistryEntry) :
    Bool :=
  e.passthrough && !active key && e.lastRouted ≤ cutoff && inUse e.pool == 0

/-- The critical section of `EvictIdlePassthrough`: what it takes out, and the registry. -/
def evictIdle (cutoff : ℤ) (active : Text → Bool) (inUse : ℕ → ℕ) (r : PoolRegistry) :
    List (Text × RegistryEntry) × PoolRegistry :=
  let out := r.entries.pairs.filter fun p => idle cutoff active inUse p.1 p.2
  (out, ({ r with entries := r.entries.keep fun key e => !idle cutoff active inUse key e
           }).stopWatchers (out.map Prod.snd))

/-- `EvictIdlePassthrough`, called at `now` and not interfered with. -/
def evictIdlePassthrough (now idleFor : ℤ) (active : Text → Bool) (inUse : ℕ → ℕ)
    (r : PoolRegistry) : List (Text × RegistryEntry) × PoolRegistry :=
  if idleFor ≤ 0 then ([], r) else r.evictIdle (now - idleFor) active inUse

/-- `dialerFor`: what a connection of the entry's pool is dialed with. -/
def dialerFor (U : CaseTables) (P : ParseConfig) (held : Text → Bool) (requireTLS : Bool)
    (e : RegistryEntry) : Except DialError (List ConnectTarget) :=
  if e.passthrough then
    newPassthroughDialer U P e.config.backendDSN e.backendUser held requireTLS
  else newDialBackend U P e.config.backendDSN requireTLS

end PoolRegistry

end Pgman
