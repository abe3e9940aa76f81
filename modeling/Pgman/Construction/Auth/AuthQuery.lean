import Mathlib.Data.Char
import Mathlib.Data.List.Lex
import Pgman.Construction.Auth.Verifier
import Pgman.Framework.Table
import Pgman.Framework.Transition

/-!
# The cache of verifiers

`auth_query.go`: a verifier that is not in the configuration is read from the database and kept for
a while.  `Lookup` takes the lock twice, once to look into the cache and once to put what it has
read, and asks the database in between with nothing held; any number of calls run at the same time.

What the query returns for a user, at every instant, is a parameter, `rows`; none is no row.  The
time at which a verifier was read and the log of what calls have returned are not in the program.
-/

namespace Pgman.AuthQuery

open Net (Text)
open Scram (Bytes StoredCredentials VerifierError parseSCRAMVerifier)

/-- Sixty seconds. -/
def defaultTtl : ℤ := 60000000000

/-- The time to live that `NewAuthQueryProvider` settles on. -/
def effectiveTtl (ttl : ℤ) : ℤ := if ttl = 0 then defaultTtl else ttl

inductive LookupError
  | connect
  | query
  | noSuchUser
  | noPassword (user : Text)
  | unusable (err : VerifierError)

structure CacheEntry where
  creds : StoredCredentials
  expiresAt : ℤ
  readAt : ℤ

/-- A call of `Lookup` that has missed. -/
inductive Fetch
  | asking (user : Text)
  | fetched (user : Text) (creds : StoredCredentials) (readAt : ℤ)

structure Answer where
  user : Text
  time : ℤ
  result : Except LookupError StoredCredentials

structure Provider where
  now : ℤ
  cache : Table Text CacheEntry
  fetches : Table ℕ Fetch
  answers : List Answer

/-- What becomes of the query. -/
inductive Outcome
  | connectFails
  | queryFails
  | answers

inductive ProviderEvent
  | tick (d : ℕ)
  /-- A call of `Lookup`, up to the end of its first critical section. -/
  | lookup (i : ℕ) (user : Text)
  /-- The query of a call that has missed, and the reading of its result. -/
  | select (i : ℕ) (outcome : Outcome)
  /-- The second critical section. -/
  | store (i : ℕ)
  | invalidate (user : Text)

namespace Provider

-- `ttl` is the time to live as it is configured
variable (B : Base64.Codec) (ttl : ℤ) (rows : ℤ → Text → Option Bytes)

/-- What a row comes to. -/
def usable (user : Text) : Option Bytes → Except LookupError StoredCredentials
  | none => .error .noSuchUser
  | some passwd =>
    if passwd = [] then .error (.noPassword user)
    else (parseSCRAMVerifier B passwd).mapError .unusable

def fetch (now : ℤ) (user : Text) : Outcome → Except LookupError StoredCredentials
  | .connectFails => .error .connect
  | .queryFails => .error .query
  | .answers => usable B user (rows now user)

def reply (w : Provider) (user : Text) (result : Except LookupError StoredCredentials) : Provider :=
  { w with answers := w.answers ++ [⟨user, w.now, result⟩] }

def finish (w : Provider) (i : ℕ) : Provider :=
  { w with fetches := w.fetches.keep fun j _ => j ≠ i }

/-- The entry of a user, as long as it is fresh. -/
def cached (w : Provider) (user : Text) : Option CacheEntry :=
  (w.cache.get user).filter fun e => w.now < e.expiresAt

def step (w : Provider) : ProviderEvent → Option Provider
  | .tick d => some { w with now := w.now + d }
  | .lookup i user =>
    match w.fetches.get i with
    | some _ => none
    | none =>
      match w.cached user with
      | some e => some (w.reply user (.ok e.creds))
      | none => some { w with fetches := w.fetches.set i (.asking user) }
  | .select i outcome =>
    match w.fetches.get i with
    | some (.asking user) =>
      match fetch B rows w.now user outcome with
      | .error err => some ((w.finish i).reply user (.error err))
      | .ok creds => some { w with fetches := w.fetches.set i (.fetched user creds w.now) }
    | some (.fetched ..) | none => none
  | .store i =>
    match w.fetches.get i with
    | some (.fetched user creds readAt) =>
      let e : CacheEntry := ⟨creds, w.now + effectiveTtl ttl, readAt⟩
      some (({ w with cache := w.cache.set user e }.finish i).reply user (.ok creds))
    | some (.asking _) | none => none
  | .invalidate user => some { w with cache := w.cache.keep fun u _ => u ≠ user }

def machine : Machine Provider ProviderEvent where
  init w := ∃ t, w = ⟨t, .empty, .empty, []⟩
  step := step B ttl rows

end Provider

end Pgman.AuthQuery
