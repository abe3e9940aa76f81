import Mathlib.Data.Char
import Mathlib.Data.List.Lex
import Pgman.Construction.Net.Address
import Pgman.Framework.Table

/-!
# The limiter of failed logins

`ratelimit.go`: failures are counted per remote address, and from the fifth on an address is locked
out, for twice as long each time.  The addresses are in a map and in a list with the one touched
last in front; both are kept below a capacity.

A list element is known by the address of its entry.  Instants are in nanoseconds; a `lockedUntil`
that was never set is the zero time, before any instant.
-/

namespace Pgman

open Net (Text)

def authLockThreshold : ℕ := 5

/-- Five seconds. -/
def authLockBase : ℤ := 5000000000

/-- Five minutes. -/
def authLockMax : ℤ := 300000000000

def authLimiterCap : ℤ := 100000

structure LimiterEntry where
  failures : ℕ
  lockedUntil : Option ℤ
  deriving DecidableEq

structure AuthLimiter where
  state : Table Text LimiterEntry
  /-- The front is the address touched last. -/
  lru : List Text
  capacity : ℤ

/-- The loop of `RecordFailure` that doubles the lockout. -/
def doubleBackoff : (shift : ℕ) → (backoff : ℤ) → ℤ
  | 0, backoff => backoff
  | shift + 1, backoff =>
    if backoff < authLockMax then doubleBackoff shift (backoff * 2) else backoff

/-- How long the address is locked out after so many failures. -/
def lockoutFor (failures : ℕ) : ℤ :=
  let backoff := doubleBackoff (failures - authLockThreshold) authLockBase
  if authLockMax < backoff then authLockMax else backoff

namespace AuthLimiter

/-- `newAuthLimiterWithCapacity`. -/
def new (capacity : ℤ) : AuthLimiter :=
  ⟨.empty, [], if capacity ≤ 0 then authLimiterCap else capacity⟩

/-- `MoveToFront`. -/
def moveToFront (addr : Text) (l : AuthLimiter) : AuthLimiter :=
  { l with lru := addr :: l.lru.erase addr }

/-- Take an address out of the list and the map. -/
def drop (addr : Text) (l : AuthLimiter) : AuthLimiter :=
  { l with lru := l.lru.erase addr, state := l.state.keep fun a _ => a ≠ addr }

/-- The loop of `evictIfNeeded`; an entry goes in each round, so there are at most as many. -/
def evict : (rounds : ℕ) → AuthLimiter → AuthLimiter
  | 0, l => l
  | rounds + 1, l =>
    if l.capacity < l.state.pairs.length then
      match l.lru.getLast? with
      | none => l
      | some oldest => evict rounds (l.drop oldest)
    else l

def evictIfNeeded (l : AuthLimiter) : AuthLimiter := evict l.state.pairs.length l

def allowed (now : ℤ) (addr : Text) (l : AuthLimiter) : Bool × AuthLimiter :=
  match l.state.get addr with
  | none => (true, l)
  | some e => (e.lockedUntil.all (· < now), l.moveToFront addr)

/-- One more failure of an entry. -/
def LimiterEntry.fail (now : ℤ) (e : LimiterEntry) : LimiterEntry :=
  if authLockThreshold ≤ e.failures + 1 then
    ⟨e.failures + 1, some (now + lockoutFor (e.failures + 1))⟩
  else { e with failures := e.failures + 1 }

/-- The entry is found or made, at the front of the list. -/
def touch (addr : Text) (l : AuthLimiter) : AuthLimiter :=
  match l.state.get addr with
  | some _ => l.moveToFront addr
  | none => evictIfNeeded
      { l with lru := addr :: l.lru, state := l.state.set addr ⟨0, none⟩ }

/-- The entry is counted up through its pointer, which is the map's as long as it is in there. -/
def recordFailure (now : ℤ) (addr : Text) (l : AuthLimiter) : AuthLimiter :=
  let l := l.touch addr
  match l.state.get addr with
  | none => l
  | some e => { l with state := l.state.set addr (LimiterEntry.fail now e) }

def recordSuccess (addr : Text) (l : AuthLimiter) : AuthLimiter :=
  match l.state.get addr with
  | none => l
  | some _ => l.drop addr

end AuthLimiter

end Pgman
