import Mathlib.Algebra.GroupWithZero.Nat
import Mathlib.Data.Int.Notation
import Mathlib.Data.List.AList
import Pgman.Construction.Wire.Messages

/-!
# Prepared-statement replay (`prepared_stmts.go`)

The proxy keeps two caches: `psCache`, per session, maps a client-chosen statement name to
the SQL and parameter types needed to replay its `Parse`; `preparedStmts`, per backend, maps
the names that backend has been shown to the tick of their last use.  `processClientMsg`
looks at every client message before it is forwarded, keeps both caches up to date, and may
put messages of its own in front: a `Parse` the backend has not seen, and a `Close` for each
statement evicted to make room.

A `nil` map and an empty one behave alike in every branch of the source, so both are the
empty `AList`.  The session's log-once flags are kept, the log lines are not.

`psLimit` is an `int` of 64 bits in the source and unbounded here.  The two agree below `2 ^ 61`:
from there on the ceiling `limit * 4` wraps.
-/

namespace Pgman

/-- When `relayImpl` hands the backend back; every unrecognised name means `transaction`. -/
inductive PoolMode
  | transaction
  | session
  | statement
  deriving DecidableEq, Repr

/-- `prepStmtInfo`: what a replay needs. -/
structure PrepStmtInfo where
  SQL : String
  parameterOIDs : List UInt32
  deriving DecidableEq, Repr

/-- `psCache`: the session's registry, the only copy of the SQL. -/
abbrev PsCache := AList (fun _ : String => PrepStmtInfo)

/-- `backendPSCache`: names a backend has seen a `Parse` for, with the tick of last use. -/
abbrev BackendPSCache := AList (fun _ : String => ℕ)

/-- `psSwallow`: acknowledgements the client must not see. -/
structure PsSwallow where
  parseComplete : ℕ
  closeComplete : ℕ
  deriving DecidableEq, Repr

namespace PsSwallow

def zero : PsSwallow := ⟨0, 0⟩

def add (s other : PsSwallow) : PsSwallow :=
  ⟨s.parseComplete + other.parseComplete, s.closeComplete + other.closeComplete⟩

end PsSwallow

/-- `trackedParam`. -/
structure TrackedParam where
  name : String
  value : String
  deriving DecidableEq, Repr

/-- The part of `session` that the relay reads or writes. -/
structure Session where
  /-- Zero until issued. -/
  id : ℕ
  poolMode : PoolMode
  trackedParams : List TrackedParam
  psCache : PsCache
  psLimit : ℤ
  psClock : ℕ
  psEvicted : Bool
  listenWarned : Bool

/-! ## SQL text checks -/

/-- Length in bytes, Go's `len` of a string. -/
def byteLen (s : List Char) : ℕ := (s.map Char.utf8Size).sum

def trimLeft (cutset s : List Char) : List Char := s.dropWhile (fun c => cutset.contains c)

def isAsciiLetter (c : Char) : Bool :=
  (decide ('A' ≤ c) && decide (c ≤ 'Z')) || (decide ('a' ≤ c) && decide (c ≤ 'z'))

/-- `isDDL`'s loop over leading `--` comments; `none` when the last one has no newline.
Every round drops at least the two dashes, so the text's length bounds the rounds. -/
def skipComments : ℕ → List Char → Option (List Char)
  | 0, s => some s
  | fuel + 1, s =>
      if ['-', '-'].isPrefixOf s then
        match s.dropWhile (fun c => c != '\n') with
        | [] => none
        | _ :: rest => skipComments fuel (trimLeft [' ', '\t', '\r', '\n'] rest)
      else some s

/-- The first keywords `isDDL` recognises. -/
def ddlKeywords : List String :=
  ["CREATE", "ALTER", "DROP", "TRUNCATE", "GRANT", "REVOKE", "COMMENT", "REINDEX", "REFRESH",
    "CLUSTER", "SECURITY", "VACUUM"]

def isDDL (sql : String) : Bool :=
  match skipComments sql.length (trimLeft [' ', '\t', '\r', '\n'] sql.toList) with
  | none => false
  | some s =>
      if byteLen s < 5 then false
      else (ddlKeywords.map String.toList).contains ((s.takeWhile isAsciiLetter).map Char.toUpper)

/-- `checkListenWarn`, reduced to the flag it trips. -/
def checkListenWarn (sess : Session) (sql : String) : Session :=
  let trimmed := trimLeft [' ', '\t', '\r', '\n', '('] sql.toList
  let head := (trimmed.take 6).map Char.toUpper
  if sess.poolMode = .session then sess
  else if byteLen trimmed < 6 then sess
  else if head != "LISTEN".toList && head != "UNLIST".toList then sess
  else { sess with listenWarned := true }

/-- `checkSQLSideEffects` with `invalidatePSCachesOnDDL`: a DDL text drops both caches. -/
def checkSQLSideEffects (stmts : BackendPSCache) (sess : Session) (sql : String) :
    Session × BackendPSCache :=
  if sql = "" then (sess, stmts)
  else
    let sess := if sess.listenWarned then sess else checkListenWarn sess sql
    if isDDL sql then ({ sess with psCache := ∅ }, ∅) else (sess, stmts)

/-! ## The backend's LRU cache -/

/-- `lruStmt`: the least recently used entry. -/
def lruStmt (cache : BackendPSCache) : Option String :=
  let oldest := cache.entries.foldl
    (fun o e => if o.1 = "" ∨ e.2 < o.2 then (e.1, e.2) else o) ("", 0)
  if oldest.1 = "" then none else some oldest.1

/-- The eviction loop of `markBackendHasStmt`: the shrunk cache and the victims in order.
Every round deletes an entry, so the cache's size bounds the rounds. -/
def evict (limit : ℤ) : ℕ → BackendPSCache → BackendPSCache × List String
  | 0, cache => (cache, [])
  | fuel + 1, cache =>
      if (cache.keys.length : ℤ) < limit then (cache, [])
      else
        match lruStmt cache with
        | none => (cache, [])
        | some victim =>
            let r := evict limit fuel (cache.erase victim)
            (r.1, victim :: r.2)

/-- What `markBackendHasStmt`, `ensureBackendHasStmt` and `processClientMsg` leave behind:
the caches, the messages put on the wire in front of the client's, and the acknowledgements
to swallow. -/
structure Processed where
  sess : Session
  stmts : BackendPSCache
  injected : List FrontendMsg
  swallow : PsSwallow

/-- `markBackendHasStmt`. -/
def markBackendHasStmt (stmts : BackendPSCache) (sess : Session) (stmtName : String) : Processed :=
  let evicted :=
    if 0 < sess.psLimit ∧ stmtName ∉ stmts then evict sess.psLimit stmts.keys.length stmts
    else (stmts, [])
  { sess := { sess with
      psEvicted := sess.psEvicted || !evicted.2.isEmpty
      psClock := sess.psClock + 1 }
    stmts := evicted.1.insert stmtName (sess.psClock + 1)
    injected := evicted.2.map (.close 'S' ·)
    swallow := ⟨0, evicted.2.length⟩ }

/-- `sessionPSCeiling`; zero means uncapped. -/
def sessionPSCeiling (limit : ℤ) : ℤ := if limit ≤ 0 then 0 else limit * 4

/-- The error `trackClientParse` reports at the ceiling. -/
def ceilingError (open' : ℕ) (limit : ℤ) : String :=
  "session has " ++ toString open' ++
    " named prepared statements open, the ceiling for max_prepared_statements=" ++
    toString limit ++
    "; raise max_prepared_statements, or have the client close statements it no longer uses"

/-- `trackClientParse`: nothing is recorded when the session is at its ceiling. -/
def trackClientParse (stmts : BackendPSCache) (sess : Session) (name sql : String)
    (oids : List UInt32) : Except String Processed :=
  if name ∉ sess.psCache ∧ 0 < sessionPSCeiling sess.psLimit ∧
      sessionPSCeiling sess.psLimit ≤ sess.psCache.keys.length then
    .error (ceilingError sess.psCache.keys.length sess.psLimit)
  else
    .ok (markBackendHasStmt stmts
      { sess with psCache := sess.psCache.insert name ⟨sql, oids⟩ } name)

/-- `ensureBackendHasStmt`: prepend the `Parse` of a statement the backend has not seen. -/
def ensureBackendHasStmt (stmts : BackendPSCache) (sess : Session) (stmtName : String) :
    Processed :=
  if stmtName = "" then ⟨sess, stmts, [], .zero⟩
  else
    match sess.psCache.lookup stmtName with
    | none => ⟨sess, stmts, [], .zero⟩
    | some info =>
        if stmtName ∈ stmts then
          ⟨{ sess with psClock := sess.psClock + 1 }, stmts.insert stmtName (sess.psClock + 1),
            [], .zero⟩
        else
          let r := markBackendHasStmt stmts sess stmtName
          { r with
            injected := r.injected ++ [FrontendMsg.parse stmtName info.SQL info.parameterOIDs]
            swallow := ⟨r.swallow.parseComplete + 1, r.swallow.closeComplete⟩ }

/-- `processClientMsg`: everything the proxy does with a message before forwarding it. -/
def processClientMsg (stmts : BackendPSCache) (sess : Session) :
    FrontendMsg → Except String Processed
  | .parse name sql oids =>
      if name = "" then
        let r := checkSQLSideEffects stmts sess sql
        .ok ⟨r.1, r.2, [], .zero⟩
      else
        match trackClientParse stmts sess name sql oids with
        | .error err => .error err
        | .ok p =>
            let r := checkSQLSideEffects p.stmts p.sess sql
            .ok { p with sess := r.1, stmts := r.2 }
  | .bind _ stmt => .ok (ensureBackendHasStmt stmts sess stmt)
  | .describe objectType name =>
      if objectType = 'S' then .ok (ensureBackendHasStmt stmts sess name)
      else .ok ⟨sess, stmts, [], .zero⟩
  | .close objectType name =>
      if objectType = 'S' ∧ name ≠ "" then
        .ok ⟨{ sess with psCache := sess.psCache.erase name }, stmts.erase name, [], .zero⟩
      else .ok ⟨sess, stmts, [], .zero⟩
  | .query sql =>
      let r := checkSQLSideEffects stmts sess sql
      .ok ⟨r.1, r.2, [], .zero⟩
  | _ => .ok ⟨sess, stmts, [], .zero⟩

end Pgman
