import Pgman.Construction.Auth.Hba
import Pgman.Construction.Backend.Registry

/-!
# The admin console

`admin_sql.go`.  A client of the console database sends commands as simple queries, and
`handleAdminQuery` answers one.  What a command does to pools is the list of calls it makes, in
order; the tables that the `SHOW` commands send are not modelled, only which of them is sent.

A name is looked for by `strings.EqualFold` among the registry's keys, after the whole command has
been through `strings.ToUpper`.  Upper case is a table of its own: `ı` has the upper case `I` and
is not equal to `i` under folding.
-/

namespace Pgman

open Net (Text)

/-- Unicode's upper case beside its other case mappings. -/
structure CaseMaps extends CaseTables where
  toUpper : Char → Char
  toUpper_ascii : ∀ c, c.toNat < 128 → toUpper c = c.toUpper
  /-- White space has no case. -/
  isSpace_toUpper : ∀ c, isSpace (toUpper c) = isSpace c

/-- `strings.ToUpper`. -/
def upperCase (U : CaseMaps) (s : Text) : Text := s.map U.toUpper

/-- `strings.TrimRight`. -/
def trimRight (cutset s : Text) : Text := s.rdropWhile (· ∈ cutset)

namespace PoolRegistry

/-- `Get`: the pool under a registry key, or the base pool that a database name leads to. -/
def get (key : Text) (r : PoolRegistry) : Option ℕ :=
  match r.entries.get key with
  | some e => some e.pool
  | none => (r.byDatabase.get key).bind fun name => (r.base name).map (·.pool)

/-- `Names`. -/
def names (r : PoolRegistry) : List Text := r.entries.keys

end PoolRegistry

/-- The commands that act on pools. -/
inductive AdminOp
  | pause
  | resume
  | reconnect
  deriving DecidableEq, Repr

def AdminOp.word : AdminOp → Text
  | .pause => "PAUSE".toList
  | .resume => "RESUME".toList
  | .reconnect => "RECONNECT".toList

inductive ShowCommand
  | pools
  | stats
  | clients
  | servers
  | databases
  | version
  | lists
  deriving DecidableEq, Repr

def ShowCommand.text : ShowCommand → Text
  | .pools => "SHOW POOLS".toList
  | .stats => "SHOW STATS".toList
  | .clients => "SHOW CLIENTS".toList
  | .servers => "SHOW SERVERS".toList
  | .databases => "SHOW DATABASES".toList
  | .version => "SHOW VERSION".toList
  | .lists => "SHOW LISTS".toList

/-- What is sent before `ReadyForQuery`. -/
inductive AdminReply
  | table (s : ShowCommand)
  | commandComplete (op : AdminOp)
  /-- `3D000`, `pool %q not found` -/
  | poolNotFound (name : Text)
  /-- `42601`, `pgman admin: unsupported command %q` -/
  | unsupported (cmd : Text)
  /-- a method called on the nil pool -/
  | panics
  deriving DecidableEq, Repr

structure AdminOutcome where
  calls : List (AdminOp × ℕ)
  reply : AdminReply
  deriving DecidableEq, Repr

/-- `findPoolName`: the first key, in order, that differs in case only. -/
def findPoolName (U : CaseMaps) (r : PoolRegistry) (wanted : Text) : Text :=
  (r.names.find? fun n => equalFold U.toCaseTables n wanted).getD []

/-- The command for the pool of a name, or for all pools. -/
def applyOp (U : CaseMaps) (r : PoolRegistry) (op : AdminOp) (name : Text) : AdminOutcome :=
  if name = [] then ⟨r.entries.pairs.map fun p => (op, p.2.pool), .commandComplete op⟩
  else
    let realName := findPoolName U r name
    if realName = [] then ⟨[], .poolNotFound name⟩
    else
      match r.get realName with
      | some p => ⟨[(op, p)], .commandComplete op⟩
      | none => ⟨[], .panics⟩

/-- What the three handlers have in common. -/
def handleCmd (U : CaseMaps) (r : PoolRegistry) (op : AdminOp) (cmd : Text) : AdminOutcome :=
  let upper := upperCase U cmd
  applyOp U r op
    (trimSpace (if op.word.isPrefixOf upper then upper.drop op.word.length else upper))

def handlePauseCmd (U : CaseMaps) (r : PoolRegistry) (cmd : Text) : AdminOutcome :=
  handleCmd U r .pause cmd

def handleResumeCmd (U : CaseMaps) (r : PoolRegistry) (cmd : Text) : AdminOutcome :=
  handleCmd U r .resume cmd

def handleReconnectCmd (U : CaseMaps) (r : PoolRegistry) (cmd : Text) : AdminOutcome :=
  handleCmd U r .reconnect cmd

/-- What `handleAdminQuery` cuts off at the end of a command. -/
def adminCutset : Text := "; \t\r\n".toList

def handleAdminQuery (U : CaseMaps) (r : PoolRegistry) (sql : Text) : AdminOutcome :=
  let trimmed := trimRight adminCutset (trimSpace sql)
  let upper := upperCase U trimmed
  let shows := [.pools, .stats, .clients, .servers, .databases, .version, .lists]
  match shows.find? fun s => upper = ShowCommand.text s with
  | some s => ⟨[], .table s⟩
  | none =>
    if AdminOp.pause.word.isPrefixOf upper then handlePauseCmd U r trimmed
    else if AdminOp.resume.word.isPrefixOf upper then handleResumeCmd U r trimmed
    else if AdminOp.reconnect.word.isPrefixOf upper then handleReconnectCmd U r trimmed
    else ⟨[], .unsupported trimmed⟩

end Pgman
