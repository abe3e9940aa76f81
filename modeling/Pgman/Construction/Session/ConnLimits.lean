import Pgman.Construction.Backend.Registry
import Pgman.Framework.Transition

/-!
# Caps on client connections

`conn_limits.go`, and what `handleConnWithOpts` does with it.  A client that is authenticated is
routed, reserves a slot for its user and for the database it asked for, is relayed, and releases
the slot when the handler returns, on whichever path it returns.

`doorway` runs any number of clients against a limiter and a registry whose pools are only changed
by `Resolve` itself.  Clients are told apart by what they asked for, where they were routed and how
far they have come; which of two clients that agree in all this moves first makes no difference.
Clients that the handler turns away before routing, and those of the admin console, never reach
the limiter and are left out.
-/

namespace Pgman

open Net (Text)

structure ConnLimiter where
  maxPerDB : ℤ
  maxPerUser : ℤ
  perDB : Table Text ℕ
  perUser : Table Text ℕ
  deriving DecidableEq

inductive LimitError
  | maxDBConnections (cap : ℤ) (database : Text)
  | maxUserConnections (cap : ℤ) (user : Text)
  deriving DecidableEq

namespace ConnLimiter

def new (maxPerDB maxPerUser : ℤ) : ConnLimiter := ⟨maxPerDB, maxPerUser, .empty, .empty⟩

/-- The value of a counter; a missing one reads as zero. -/
def count (t : Table Text ℕ) (k : Text) : ℕ := (t.get k).getD 0

def increment (t : Table Text ℕ) (k : Text) : Table Text ℕ := t.set k (count t k + 1)

/-- A counter at one is deleted, and one at zero is left alone. -/
def decrement (t : Table Text ℕ) (k : Text) : Table Text ℕ :=
  if 0 < count t k then
    if count t k = 1 then t.keep fun k' _ => k' ≠ k else t.set k (count t k - 1)
  else t

def reserve (user database : Text) (c : ConnLimiter) : Except LimitError ConnLimiter :=
  if 0 < c.maxPerDB ∧ c.maxPerDB ≤ count c.perDB database then
    .error (.maxDBConnections c.maxPerDB database)
  else if 0 < c.maxPerUser ∧ c.maxPerUser ≤ count c.perUser user then
    .error (.maxUserConnections c.maxPerUser user)
  else .ok { c with perDB := increment c.perDB database, perUser := increment c.perUser user }

def release (user database : Text) (c : ConnLimiter) : ConnLimiter :=
  { c with perDB := decrement c.perDB database, perUser := decrement c.perUser user }

end ConnLimiter

/-! ## The clients -/

/-- A client that `Route` let through: what it asked for, and the configured pool it got. -/
structure Routed where
  user : Text
  database : Text
  pool : Text
  deriving DecidableEq

/-- How far the handler has come with a client. -/
inductive Progress
  | routed
  | admitted
  | relayed
  /-- The handler is returning and its deferred calls are due. -/
  | returning
  deriving DecidableEq

/-- Between `Reserve` and `Release`. -/
def Progress.holdsSlot : Progress → Bool
  | .routed => false
  | _ => true

structure Doorway where
  limiter : ConnLimiter
  registry : PoolRegistry
  /-- Whose keys the key store holds. -/
  keys : List Text
  clients : List (Routed × Progress)

inductive DoorEvent
  /-- A login leaves a key in the store. -/
  | remember (user : Text)
  | route (now : ℤ) (user database : Text)
  | reserve (c : Routed)
  | relay (c : Routed)
  /-- `fakeAuth` fails. -/
  | abort (c : Routed)
  /-- `relay` returns. -/
  | finish (c : Routed)
  | release (c : Routed)

namespace Doorway

def advance (w : Doorway) (c : Routed) (p q : Progress) : Option Doorway :=
  if (c, p) ∈ w.clients then some { w with clients := (c, q) :: w.clients.erase (c, p) } else none

def route (w : Doorway) (now : ℤ) (user database : Text) : Doorway :=
  match w.registry.byDatabase.get database,
      w.registry.resolve now (fun u => u ∈ w.keys) database user with
  | some pool, (some _, registry) =>
    { w with registry, clients := (⟨user, database, pool⟩, .routed) :: w.clients }
  | _, (_, registry) => { w with registry }

/-- A client that is refused is told so and leaves. -/
def reserve (w : Doorway) (c : Routed) : Option Doorway :=
  if (c, .routed) ∈ w.clients then
    match w.limiter.reserve c.user c.database with
    | .error _ => some { w with clients := w.clients.erase (c, .routed) }
    | .ok limiter =>
      some { w with limiter, clients := (c, .admitted) :: w.clients.erase (c, .routed) }
  else none

def release (w : Doorway) (c : Routed) : Option Doorway :=
  if (c, .returning) ∈ w.clients then
    some { w with
      limiter := w.limiter.release c.user c.database
      clients := w.clients.erase (c, .returning) }
  else none

end Doorway

def doorway (r : PoolRegistry) (maxPerDB maxPerUser : ℤ) : Machine Doorway DoorEvent where
  init w := w = ⟨.new maxPerDB maxPerUser, r, [], []⟩
  step w
    | .remember user => some { w with keys := user :: w.keys }
    | .route now user database => some (w.route now user database)
    | .reserve c => w.reserve c
    | .relay c => w.advance c .admitted .relayed
    | .abort c => w.advance c .admitted .returning
    | .finish c => w.advance c .relayed .returning
    | .release c => w.release c

end Pgman
