import Mathlib.Data.Char
import Mathlib.Data.List.Lex
import Pgman.Construction.Net.Address
import Pgman.Framework.Table

/-!
# The configuration file

`config.go`: the configuration of a pool and what `loadConfig` asks of a file.

`yaml.Unmarshal` is a parameter.  Of `Config` the model has the fields that `loadConfig` tests and
the pools; `applyDefaults` sets none of them, and the warnings `loadConfig` logs have no effect on
its result.  A slice or a map that the file leaves out is nil, and `reflect.DeepEqual` tells a nil
one from an empty one, so the two are optional here.

The pools of a file are tested in the order of their names.  The source ranges over a map, in any
order; only which of several errors is reported depends on it.
-/

namespace Pgman

open Net (Text)

/-- The configuration of a pool. -/
structure PoolConfig where
  backendDSN : Text
  backendAddr : Text
  limit : ℤ
  backendUsers : Option (Table Text Text)
  scramPassthrough : Bool
  aliases : Option (List Text)
  poolMode : Text
  minIdle : ℤ
  idleTimeout : ℤ
  maxLifetime : ℤ
  healthCheckDelay : ℤ
  loginRetry : ℤ
  loginBackoff : ℤ
  deriving DecidableEq

namespace PoolConfig

/-- The clients with credentials of their own. -/
def users (cfg : PoolConfig) : Table Text Text := cfg.backendUsers.getD .empty

def aliasNames (cfg : PoolConfig) : List Text := cfg.aliases.getD []

/-- The names a pool claims: its own and its aliases. -/
def claims (name : Text) (cfg : PoolConfig) : List Text := name :: cfg.aliasNames

/-- The configuration of the pool for one of `backend_users`. -/
def withDSN (cfg : PoolConfig) (dsn : Text) : PoolConfig := { cfg with backendDSN := dsn }

@[simp] lemma withDSN_self (cfg : PoolConfig) : cfg.withDSN cfg.backendDSN = cfg := rfl

end PoolConfig

/-- `reflect.DeepEqual`. -/
def poolConfigEqual (a b : PoolConfig) : Bool := a = b

structure Config where
  tlsCertFile : Text
  tlsKeyFile : Text
  authUsers : Table Text Text
  allowInsecureTrustAuth : Bool
  adminBasicAuthUser : Text
  adminBasicAuthPasswordHash : Text
  adminTLSCertFile : Text
  adminTLSKeyFile : Text
  adminTLSClientCAFile : Text
  adminOIDCIssuerURL : Text
  adminOIDCClientID : Text
  adminOIDCAllowedEmails : List Text
  adminOIDCAllowedSubjects : List Text
  requireBackendTLS : Bool
  pools : Table Text PoolConfig

/-- What `loadConfig` finds wrong with a pool. -/
inductive PoolConfigError
  | noBackendDSN
  | noBackendAddr
  | limitNotPositive (limit : ℤ)
  | nameHasSeparator
  | emptyBackendUser
  | backendUserHasSeparator (user : Text)
  | emptyUserDSN (user : Text)

inductive ConfigError
  | read (path : Text)
  | parse (path : Text)
  | tlsPair (path : Text)
  | noAuthUsers (path : Text)
  | adminBasicAuthPair (path : Text)
  | adminTLSPair (path : Text)
  | clientCAWithoutCert (path : Text)
  | oidcNoClientID (path : Text)
  | oidcNoAllowlist (path : Text)
  | notBcrypt (path : Text)
  | noPools (path : Text)
  | pool (path name : Text) (err : PoolConfigError)

/-- `poolKeySeparator`. -/
def poolKeySeparator : Char := '/'

/-- The tests of one of `backend_users`. -/
def checkBackendUser (user dsn : Text) : Except PoolConfigError Unit :=
  if user = [] then .error .emptyBackendUser
  else if poolKeySeparator ∈ user then .error (.backendUserHasSeparator user)
  else if dsn = [] then .error (.emptyUserDSN user)
  else .ok ()

/-- The tests of one pool in `loadConfig`. -/
def checkPool (name : Text) (pc : PoolConfig) : Except PoolConfigError Unit :=
  if pc.backendDSN = [] then .error .noBackendDSN
  else if pc.backendAddr = [] then .error .noBackendAddr
  else if pc.limit ≤ 0 then .error (.limitNotPositive pc.limit)
  else if poolKeySeparator ∈ name then .error .nameHasSeparator
  else pc.users.pairs.forM fun p => checkBackendUser p.1 p.2

/-- The loop over the pools. -/
def checkPools (path : Text) (pools : List (Text × PoolConfig)) : Except ConfigError Unit :=
  pools.forM fun p => (checkPool p.1 p.2).mapError (.pool path p.1)

/-- The tests before the loop. -/
def checkConfig (path : Text) (cfg : Config) : Except ConfigError Unit :=
  if (cfg.tlsCertFile == []) != (cfg.tlsKeyFile == []) then .error (.tlsPair path)
  else if cfg.authUsers.pairs == [] && !cfg.allowInsecureTrustAuth then .error (.noAuthUsers path)
  else if (cfg.adminBasicAuthUser == []) != (cfg.adminBasicAuthPasswordHash == []) then
    .error (.adminBasicAuthPair path)
  else if (cfg.adminTLSCertFile == []) != (cfg.adminTLSKeyFile == []) then
    .error (.adminTLSPair path)
  else if cfg.adminTLSClientCAFile != [] && cfg.adminTLSCertFile == [] then
    .error (.clientCAWithoutCert path)
  else if cfg.adminOIDCIssuerURL != [] && cfg.adminOIDCClientID == [] then
    .error (.oidcNoClientID path)
  else if cfg.adminOIDCIssuerURL != [] && cfg.adminOIDCAllowedEmails == [] &&
      cfg.adminOIDCAllowedSubjects == [] then
    .error (.oidcNoAllowlist path)
  else if cfg.adminBasicAuthPasswordHash != [] &&
      !("$2".toList.isPrefixOf cfg.adminBasicAuthPasswordHash) then
    .error (.notBcrypt path)
  else if cfg.pools.pairs == [] then .error (.noPools path)
  else .ok ()

/-- The files, and what YAML makes of their texts. -/
structure Files where
  read : Text → Option Text
  unmarshal : Text → Option Config

def loadConfig (files : Files) (path : Text) : Except ConfigError Config :=
  match files.read path with
  | none => .error (.read path)
  | some data =>
    match files.unmarshal data with
    | none => .error (.parse path)
    | some cfg => do
      checkConfig path cfg
      checkPools path cfg.pools.pairs
      return cfg

/-! ## What an accepted file is like -/

/-- What `loadConfig` makes sure of for each pool. -/
structure PoolConfig.Accepted (name : Text) (pc : PoolConfig) : Prop where
  dsn : pc.backendDSN ≠ []
  addr : pc.backendAddr ≠ []
  limit : 0 < pc.limit
  name : poolKeySeparator ∉ name
  users : ∀ user dsn, pc.users.get user = some dsn →
    user ≠ [] ∧ poolKeySeparator ∉ user ∧ dsn ≠ []

/-- A loop that stops at the first error is through when every round is. -/
lemma forM_eq_ok {ε α : Type} {f : α → Except ε Unit} :
    ∀ {l : List α}, l.forM f = .ok () ↔ ∀ a ∈ l, f a = .ok ()
  | [] => ⟨fun _ => nofun, fun _ => rfl⟩
  | a :: l => by
    rw [List.forall_mem_cons, ← forM_eq_ok]
    change (f a >>= fun _ => l.forM f) = _ ↔ _
    cases hf : f a with
    | error e => simp [bind, Except.bind]
    | ok u => simp [bind, Except.bind]

lemma checkBackendUser_eq_ok {user dsn : Text} :
    checkBackendUser user dsn = .ok () ↔ user ≠ [] ∧ poolKeySeparator ∉ user ∧ dsn ≠ [] := by
  unfold checkBackendUser
  split_ifs <;> simp_all

lemma checkPool_eq_ok {name : Text} {pc : PoolConfig} :
    checkPool name pc = .ok () ↔ pc.Accepted name := by
  have husers : (pc.users.pairs.forM fun p => checkBackendUser p.1 p.2) = .ok () ↔
      ∀ user dsn, pc.users.get user = some dsn →
        user ≠ [] ∧ poolKeySeparator ∉ user ∧ dsn ≠ [] := by
    rw [forM_eq_ok]
    constructor
    · intro h user dsn hget
      exact checkBackendUser_eq_ok.mp (h (user, dsn) (Table.mem_pairs.mpr hget))
    · rintro h ⟨user, dsn⟩ hmem
      exact checkBackendUser_eq_ok.mpr (h user dsn (Table.mem_pairs.mp hmem))
  unfold checkPool
  split_ifs with hdsn haddr hlimit hname
  · exact ⟨nofun, fun h => (h.dsn hdsn).elim⟩
  · exact ⟨nofun, fun h => (h.addr haddr).elim⟩
  · exact ⟨nofun, fun h => (h.limit.not_ge hlimit).elim⟩
  · exact ⟨nofun, fun h => (h.name hname).elim⟩
  · rw [husers]
    exact ⟨fun h => ⟨hdsn, haddr, not_le.mp hlimit, hname, h⟩, fun h => h.users⟩

/-- The pools of a file that `loadConfig` accepts. -/
lemma accepted_of_loadConfig {files : Files} {path name : Text} {cfg : Config} {pc : PoolConfig}
    (h : loadConfig files path = .ok cfg) (hpc : cfg.pools.get name = some pc) :
    pc.Accepted name := by
  unfold loadConfig at h
  split at h
  · cases h
  · split at h
    · cases h
    · next raw hraw =>
      cases hcheck : checkConfig path raw with
      | error e => rw [hcheck] at h; cases h
      | ok u =>
        rw [hcheck] at h
        cases hpools : checkPools path raw.pools.pairs with
        | error e => simp [bind, Except.bind, hpools] at h
        | ok u =>
          simp only [bind, Except.bind, hpools, pure, Except.pure, Except.ok.injEq] at h
          subst h
          have hone := forM_eq_ok.mp hpools (name, pc) (Table.mem_pairs.mpr hpc)
          refine checkPool_eq_ok.mp ?_
          cases hp : checkPool name pc with
          | error e => simp [hp, Except.mapError] at hone
          | ok u => rfl

/-! ## A small file -/

/-- A pool with nothing but a backend. -/
def PoolConfig.plain : PoolConfig where
  backendDSN := "host=h".toList
  backendAddr := "h:5432".toList
  limit := 5
  backendUsers := none
  scramPassthrough := false
  aliases := none
  poolMode := []
  minIdle := 0
  idleTimeout := 0
  maxLifetime := 0
  healthCheckDelay := 0
  loginRetry := 0
  loginBackoff := 0

/-- A file with pools and nothing else, that asks nobody for a password. -/
def Config.ofPools (pools : Table Text PoolConfig) : Config where
  tlsCertFile := []
  tlsKeyFile := []
  authUsers := .empty
  allowInsecureTrustAuth := true
  adminBasicAuthUser := []
  adminBasicAuthPasswordHash := []
  adminTLSCertFile := []
  adminTLSKeyFile := []
  adminTLSClientCAFile := []
  adminOIDCIssuerURL := []
  adminOIDCClientID := []
  adminOIDCAllowedEmails := []
  adminOIDCAllowedSubjects := []
  requireBackendTLS := false
  pools := pools

/-- A disk whose files all hold the same configuration. -/
def Files.all (cfg : Config) : Files := ⟨fun _ => some [], fun _ => some cfg⟩

end Pgman
