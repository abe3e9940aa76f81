import Mathlib.Data.List.Pairwise
import Pgman.Construction.Backend.Changes

/-!
# Whose login decides on the backend role

With `scram_passthrough` a client reaches Postgres as itself, by a key recovered from its own SCRAM
exchange, and clients that authenticate in another way "keep sharing the BackendDSN role".  Whether
there is a key is asked of the key store, which knows users and not sessions: a key that any
session of the user has left there is as good as one of one's own.

`Proxy` is what logins leave behind, the registry and the key store.  `Past` is what may have
happened before a login: other logins, accepted or not, and sweeps of the pass-through pools.
`role_depends_on_own_login_iff` says for which logins the role does not depend on it: for those that
leave a key themselves, and those to whom keys make no difference.
-/

namespace Pgman

open Net (Text)

/-! ## Logins -/

/-- How a client has authenticated; the proof of a SCRAM exchange may or may not give up its key. -/
inductive Authentication
  | trust
  | peer
  | cert
  | scram (keyRecovered : Bool)
  deriving DecidableEq

/-- `captureClientKey` finds a key to remember. -/
def Authentication.leavesKey : Authentication → Bool
  | .scram keyRecovered => keyRecovered
  | _ => false

def Authentication.isScram : Authentication → Bool
  | .scram _ => true
  | _ => false

structure Login where
  database : Text
  user : Text
  auth : Authentication
  deriving DecidableEq

/-- As whom a session reaches Postgres. -/
inductive BackendRole
  /-- The identity of the pool's own DSN. -/
  | own
  /-- One of `backend_users`. -/
  | configured (user : Text)
  | passthrough (user : Text)
  deriving DecidableEq

def RegistryEntry.role (e : RegistryEntry) : BackendRole :=
  if e.passthrough then .passthrough e.backendUser
  else if e.backendUser = [] then .own
  else .configured e.backendUser

/-- The registry, and the users in the key store if there is one. -/
structure Proxy where
  registry : PoolRegistry
  keys : Option (List Text)

/-- What may happen before a login. -/
inductive Past
  /-- Another login, which may fail after its exchange is through. -/
  | login (now : ℤ) (l : Login) (routed : Bool)
  | sweep (now idleFor : ℤ) (active : Text → Bool) (inUse : ℕ → ℕ)

namespace Proxy

local instance lawfulText : LawfulBEq Text := inferInstance

/-- `clientKeyStore.has`. -/
def has (p : Proxy) (user : Text) : Bool := p.keys.any fun users => user ∈ users

/-- `clientKeyStore.remember`. -/
def remember (p : Proxy) (user : Text) : Proxy := { p with keys := p.keys.map (user :: ·) }

def authenticate (l : Login) (p : Proxy) : Proxy :=
  if l.auth.leavesKey then p.remember l.user else p

/-- `Resolve` for a client that has authenticated. -/
def resolve (now : ℤ) (l : Login) (p : Proxy) : Option PoolRegistry.Resolved × PoolRegistry :=
  p.registry.resolve now p.has l.database l.user

def happen (p : Proxy) : Past → Proxy
  | .login now l routed =>
    let p := p.authenticate l
    if routed then { p with registry := (p.resolve now l).2 } else p
  | .sweep now idleFor active inUse =>
    { p with registry := (p.registry.evictIdlePassthrough now idleFor active inUse).2 }

def after (p : Proxy) (past : List Past) : Proxy := past.foldl happen p

/-- The proxy at startup, with the pools added in the order given: there is a key store if some
pool wants one. -/
def start (now : ℤ) (pools : List (Text × PoolConfig)) : Proxy :=
  ⟨.new now pools, if pools.any (·.2.scramPassthrough) then some [] else none⟩

/-- The role a login gets, if its database is served. -/
def roleOf (now : ℤ) (l : Login) (p : Proxy) : Option BackendRole :=
  let r := (p.authenticate l).resolve now l
  r.1.bind fun res => (r.2.entries.get res.key).map RegistryEntry.role

end Proxy

/-! ## The registry between logins -/

/-- A registry that differs from `r₀` in pass-through pools alone. -/
structure Kin (r₀ r : PoolRegistry) : Prop where
  routes : r.byDatabase = r₀.byDatabase
  stays : ∀ k e, r₀.entries.get k = some e → r.entries.get k = some e
  extra : ∀ k e, r.entries.get k = some e → r₀.entries.get k = some e ∨
    e.passthrough = true ∧ k = poolKey e.poolName e.backendUser ∧ poolKeySeparator ∉ e.poolName

lemma kin_refl (r : PoolRegistry) : Kin r r := ⟨rfl, fun _ _ h => h, fun _ _ h => .inl h⟩

/-- The role of a client whose key is, or is not, in the store. -/
def roleFor (cfg : PoolConfig) (user : Text) (held : Bool) : BackendRole :=
  if user = [] then .own
  else if (cfg.users.get user).isSome then .configured user
  else if cfg.scramPassthrough && held then .passthrough user
  else .own

section Startup

variable {pools : List (Text × PoolConfig)} {t₀ now : ℤ} {r : PoolRegistry} {p : Proxy} {n : Text}
  {cfg : PoolConfig} {l : Login} {past : List Past} {held : Text → Bool} {db user : Text}

/-- The pools of a file, each of them once. -/
structure AcceptedPools (pools : List (Text × PoolConfig)) : Prop
    extends PoolRegistry.Names pools where
  accepted : ∀ {name pc}, (name, pc) ∈ pools → pc.Accepted name

lemma AcceptedPools.unique (h : AcceptedPools pools) {cfg' : PoolConfig} (hmem : (n, cfg) ∈ pools)
    (hmem' : (n, cfg') ∈ pools) : cfg = cfg' := by
  by_contra hne
  have hsymm : Std.Symm fun p q : Text × PoolConfig => p.1 ≠ q.1 := ⟨fun _ _ hpq => hpq.symm⟩
  exact h.distinct.forall hmem hmem' (fun heq => hne (congrArg Prod.snd heq)) rfl

lemma pool_of_route (h : (PoolRegistry.new t₀ pools).byDatabase.get db = some n) :
    ∃ cfg, (n, cfg) ∈ pools := by
  rcases PoolRegistry.byDatabase_addAll_cases h with ⟨cfg, hmem, -⟩ | hempty
  · exact ⟨cfg, hmem⟩
  · cases hempty

lemma entry_of_startup {k : Text} {e : RegistryEntry}
    (h : (PoolRegistry.new t₀ pools).entries.get k = some e) :
    ∃ n cfg u c p, (n, cfg) ∈ pools ∧ cfg.identity u = some c ∧ k = poolKey n u ∧
      e = ⟨n, u, c, false, p, t₀⟩ := by
  rcases PoolRegistry.get_addAll_cases h with ⟨n, cfg, u, c, p, hmem, hrest⟩ | hempty
  · exact ⟨n, cfg, u, c, p, hmem, hrest⟩
  · cases hempty

lemma Kin.entry (hacc : AcceptedPools pools) (h : Kin (.new t₀ pools) r)
    (hpool : (n, cfg) ∈ pools) {c : PoolConfig} (hid : cfg.identity user = some c) :
    ∃ p, r.entries.get (poolKey n user) = some ⟨n, user, c, false, p, t₀⟩ := by
  obtain ⟨p, hp⟩ : ∃ p, (PoolRegistry.new t₀ pools).entries.get (poolKey n user) =
      some ⟨n, user, c, false, p, t₀⟩ := PoolRegistry.get_addAll_of_mem
    hacc.toNames hpool hid
  exact ⟨p, h.stays _ _ hp⟩

/-- Under the key of a user without an identity there is at most a pass-through pool. -/
lemma Kin.passthrough (hacc : AcceptedPools pools) (h : Kin (.new t₀ pools) r)
    (hpool : (n, cfg) ∈ pools) (huser : user ≠ []) (hnone : cfg.users.get user = none) :
    (PoolRegistry.new t₀ pools).entries.get (poolKey n user) = none ∧
      ∀ e, r.entries.get (poolKey n user) = some e →
        e.passthrough = true ∧ e.poolName = n ∧ e.backendUser = user := by
  have hsep := (hacc.accepted hpool).name
  have hnew : (PoolRegistry.new t₀ pools).entries.get (poolKey n user) = none := by
    by_contra hsome
    obtain ⟨e, he⟩ := Option.ne_none_iff_exists'.mp hsome
    obtain ⟨n', cfg', u, c, p, hpool', hid, hkey, -⟩ := entry_of_startup he
    obtain ⟨rfl, rfl⟩ := poolKey_inj hsep (hacc.accepted hpool').name hkey
    obtain rfl := hacc.unique hpool hpool'
    simp [PoolConfig.identity, hnone, huser] at hid
  refine ⟨hnew, fun e he => ?_⟩
  rcases h.extra _ e he with hold | ⟨hpass, hkey, hsep'⟩
  · rw [hnew] at hold
    cases hold
  · obtain ⟨hname, huser'⟩ := poolKey_inj hsep hsep' hkey
    exact ⟨hpass, hname.symm, huser'.symm⟩

/-- A new pass-through pool, or a new stamp on one. -/
lemma Kin.set (h : Kin (.new t₀ pools) r) {k : Text} {e : RegistryEntry} {r' : PoolRegistry}
    (hnone : (PoolRegistry.new t₀ pools).entries.get k = none)
    (hpass : e.passthrough = true) (hkey : k = poolKey e.poolName e.backendUser)
    (hsep : poolKeySeparator ∉ e.poolName) (hroutes : r'.byDatabase = r.byDatabase)
    (hget : ∀ k', r'.entries.get k' = if k' = k then some e else r.entries.get k') :
    Kin (.new t₀ pools) r' where
  routes := hroutes.trans h.routes
  stays k' e' he' := by
    rw [hget]
    split_ifs with hk
    · rw [hk, hnone] at he'
      cases he'
    · exact h.stays k' e' he'
  extra k' e' he' := by
    rw [hget] at he'
    split_ifs at he' with hk
    · cases he'
      exact .inr ⟨hpass, hk.trans hkey, hsep⟩
    · exact h.extra k' e' he'

/-- `Resolve` has found or made an entry of the given role, and nothing but a pass-through pool. -/
def Serves (r₀ : PoolRegistry) (role : BackendRole)
    (res : Option PoolRegistry.Resolved × PoolRegistry) : Prop :=
  (res.1.bind fun x => (res.2.entries.get x.key).map RegistryEntry.role) = some role ∧ Kin r₀ res.2

/-- A configured entry is found, and left as it is. -/
lemma Kin.serves_found {r₀ : PoolRegistry} (h : Kin r₀ r) {k : Text} {e : RegistryEntry}
    (hlook : r.lookup held db user = .found k e) (he : r.entries.get k = some e)
    (hshared : e.passthrough = false) : Serves r₀ e.role (r.resolve now held db user) := by
  have hres : r.resolve now held db user = (some (PoolRegistry.RegistryEntry.resolved k e), r) := by
    simp only [PoolRegistry.resolve, hlook, PoolRegistry.Lookup.answer, PoolRegistry.stamp, hshared]
    rfl
  rw [hres]
  exact ⟨by simp [PoolRegistry.RegistryEntry.resolved, he], h⟩

/-- A pass-through pool is found and stamped, or made. -/
lemma Kin.serves_passthrough (h : Kin (.new t₀ pools) r)
    (hsep : poolKeySeparator ∉ n)
    (hnew : (PoolRegistry.new t₀ pools).entries.get (poolKey n user) = none)
    (hpass : ∀ e, r.entries.get (poolKey n user) = some e →
      e.passthrough = true ∧ e.poolName = n ∧ e.backendUser = user)
    (hbase : ∃ b, r.base n = some b)
    (hlook : r.lookup held db user = match r.entries.get (poolKey n user) with
      | some e => .found (poolKey n user) e
      | none => .create n user cfg) :
    Serves (.new t₀ pools) (.passthrough user) (r.resolve now held db user) := by
  cases he : r.entries.get (poolKey n user) with
  | some e =>
    obtain ⟨hp, hname, hu⟩ := hpass e he
    rw [he] at hlook
    have hres : r.resolve now held db user =
        (some (PoolRegistry.RegistryEntry.resolved (poolKey n user) e),
          { r with entries := r.entries.set (poolKey n user) { e with lastRouted := now } }) := by
      simp [PoolRegistry.resolve, hlook, PoolRegistry.Lookup.answer, PoolRegistry.stamp, hp, he]
    rw [hres]
    refine ⟨?_, h.set hnew (e := { e with lastRouted := now }) hp ?_ ?_ rfl fun _ => Table.get_set⟩
    · simp [PoolRegistry.RegistryEntry.resolved, RegistryEntry.role, Table.get_set, hp, hu]
    · rw [hname, hu]
    · rw [hname]
      exact hsep
  | none =>
    rw [he] at hlook
    obtain ⟨b, hb⟩ := hbase
    have hres : r.resolve now held db user =
        (some ⟨poolKey n user, r.pools, cfg⟩, r.putEntry now n user cfg true) := by
      simp only [PoolRegistry.resolve, hlook, PoolRegistry.Lookup.answer,
        PoolRegistry.createPassthroughEntry, he, hb]
    rw [hres]
    refine ⟨?_, h.set hnew (e := ⟨n, user, cfg, true, r.pools, now⟩) rfl rfl hsep rfl
      fun _ => PoolRegistry.get_putEntry⟩
    simp [PoolRegistry.get_putEntry, RegistryEntry.role]

/-- What `Resolve` does for a database that is served. -/
lemma Kin.serves (hacc : AcceptedPools pools) (h : Kin (.new t₀ pools) r)
    (hdb : r.byDatabase.get db = some n) (hpool : (n, cfg) ∈ pools) :
    Serves (.new t₀ pools) (roleFor cfg user (held user)) (r.resolve now held db user) := by
  have hown := identity_nil_of_users (users_nil_of_accepted (hacc.accepted hpool))
  obtain ⟨b, hb⟩ := h.entry hacc hpool hown
  have hbase : r.base n = some ⟨n, [], cfg, false, b, t₀⟩ := hb
  have hlook : ∀ bu pt, PoolRegistry.backendIdentityFor held cfg user = (bu, pt) →
      r.lookup held db user = match r.entries.get (poolKey n bu) with
        | some e => .found (poolKey n bu) e
        | none => if pt then .create n user cfg else .missing := by
    intro bu pt hid
    cases hget : r.entries.get (poolKey n bu) with
    | none => simp only [PoolRegistry.lookup, hdb, hbase, hid, hget]
    | some e => simp only [PoolRegistry.lookup, hdb, hbase, hid, hget]
  have hown : PoolRegistry.backendIdentityFor held cfg user = ([], false) →
      Serves (.new t₀ pools) .own (r.resolve now held db user) := by
    intro hid
    have hfound := hlook [] false hid
    rw [hb] at hfound
    exact h.serves_found hfound hb rfl
  -- along `backendIdentityFor`
  by_cases huser : user = []
  · rw [roleFor, if_pos huser]
    exact hown (if_pos huser)
  rw [roleFor, if_neg huser]
  cases hcfg : cfg.users.get user with
  | some dsn =>
    obtain ⟨q, hq⟩ := h.entry hacc hpool (show cfg.identity user = some (cfg.withDSN dsn) by
      rw [PoolConfig.identity, hcfg])
    have hfound := hlook user false (by simp [PoolRegistry.backendIdentityFor, huser, hcfg])
    rw [hq] at hfound
    have hserves : Serves _ _ (r.resolve now held db user) := h.serves_found hfound hq rfl
    simpa [RegistryEntry.role, huser] using hserves
  | none =>
    cases hkey : cfg.scramPassthrough && held user with
    | false => exact hown (by simp [PoolRegistry.backendIdentityFor, huser, hcfg, hkey])
    | true =>
      obtain ⟨hnew, hpass⟩ := h.passthrough hacc hpool huser hcfg
      exact h.serves_passthrough (hacc.accepted hpool).name hnew hpass ⟨_, hbase⟩
        (hlook user true (by simp [PoolRegistry.backendIdentityFor, huser, hcfg, hkey]))

/-! ## The past -/

lemma Kin.resolve_registry (hacc : AcceptedPools pools) (h : Kin (.new t₀ pools) r) :
    Kin (.new t₀ pools) (r.resolve now held db user).2 := by
  cases hdb : r.byDatabase.get db with
  | none =>
    have hmissing : r.lookup held db user = .missing := by simp only [PoolRegistry.lookup, hdb]
    simpa only [PoolRegistry.resolve, hmissing, PoolRegistry.Lookup.answer] using h
  | some n =>
    obtain ⟨cfg, hpool⟩ := pool_of_route (h.routes ▸ hdb)
    exact (h.serves hacc hdb hpool).2

lemma registry_authenticate (l : Login) : (p.authenticate l).registry = p.registry := by
  unfold Proxy.authenticate
  split <;> rfl

/-- A sweep takes pass-through pools only. -/
lemma Kin.evictIdle (h : Kin (.new t₀ pools) r) {cutoff : ℤ} {active : Text → Bool}
    {inUse : ℕ → ℕ} : Kin (.new t₀ pools) (r.evictIdle cutoff active inUse).2 := by
  have hget : ∀ k, (r.evictIdle cutoff active inUse).2.entries.get k =
      (r.entries.get k).filter fun e => !PoolRegistry.idle cutoff active inUse k e :=
    fun k => Table.get_keep
  refine ⟨h.routes, fun k e he => ?_, fun k e he => ?_⟩
  · obtain ⟨n, cfg, u, c, q, -, -, -, rfl⟩ := entry_of_startup he
    rw [hget, h.stays _ _ he]
    rfl
  · rw [hget] at he
    exact h.extra k e (Option.eq_some_of_filter_eq_some he)

lemma Kin.happen (hacc : AcceptedPools pools) (h : Kin (.new t₀ pools) p.registry)
    (event : Past) : Kin (.new t₀ pools) (p.happen event).registry := by
  cases event with
  | login now l routed =>
    have hkin : Kin (.new t₀ pools) (p.authenticate l).registry :=
      (registry_authenticate l).symm ▸ h
    cases routed with
    | true => exact Kin.resolve_registry hacc hkin
    | false => exact hkin
  | sweep now idleFor active inUse =>
    exact PoolRegistry.evictIdlePassthrough_rule (Q := Kin (.new t₀ pools)) h fun _ => h.evictIdle

lemma kin_after (hacc : AcceptedPools pools) (past : List Past) :
    Kin (.new t₀ pools) ((Proxy.start t₀ pools).after past).registry := by
  have hrun : ∀ (past : List Past) (p : Proxy), Kin (.new t₀ pools) p.registry →
      Kin (.new t₀ pools) (p.after past).registry := by
    intro past
    induction past with
    | nil => exact fun p hp => hp
    | cons event past ih => exact fun p hp => ih _ (hp.happen hacc event)
  exact hrun past _ (kin_refl _)

/-- The key store is made once and never given up. -/
lemma isSome_keys_after (past : List Past) (p : Proxy) :
    (p.after past).keys.isSome = p.keys.isSome := by
  induction past generalizing p with
  | nil => rfl
  | cons event past ih =>
    rw [Proxy.after, List.foldl_cons, ← Proxy.after, ih]
    cases event with
    | login now l routed =>
      have hkeys : (p.authenticate l).keys.isSome = p.keys.isSome := by
        unfold Proxy.authenticate
        split
        · exact Option.isSome_map ..
        · rfl
      cases routed with
      | true => exact hkeys
      | false => exact hkeys
    | sweep => rfl

/-- The role of a login, from the file and the key store. -/
lemma roleOf_after (hacc : AcceptedPools pools)
    (hdb : (PoolRegistry.new t₀ pools).byDatabase.get l.database = some n)
    (hpool : (n, cfg) ∈ pools) (past : List Past) :
    ((Proxy.start t₀ pools).after past).roleOf now l = some (roleFor cfg l.user
      ((((Proxy.start t₀ pools).after past).authenticate l).has l.user)) := by
  have hkin : Kin (.new t₀ pools) ((Proxy.start t₀ pools).after past).registry :=
    kin_after hacc past
  rw [← registry_authenticate l] at hkin
  exact (hkin.serves hacc (by rw [hkin.routes]; exact hdb) hpool).1

/-- A database that is not served has no role for anyone. -/
lemma roleOf_missing (hacc : AcceptedPools pools)
    (hdb : (PoolRegistry.new t₀ pools).byDatabase.get l.database = none) (past : List Past) :
    ((Proxy.start t₀ pools).after past).roleOf now l = none := by
  have hkin : Kin (.new t₀ pools) ((Proxy.start t₀ pools).after past).registry :=
    kin_after hacc past
  rw [← registry_authenticate l] at hkin
  rw [← hkin.routes] at hdb
  simp only [Proxy.roleOf, Proxy.resolve, PoolRegistry.resolve, PoolRegistry.lookup, hdb]
  rfl

end Startup

/-! ## The main result -/

/-- The role of a login is the same whatever happened before, and a login without a SCRAM exchange
of its own is never passed through. -/
structure OwnLoginOnly (t₀ : ℤ) (pools : List (Text × PoolConfig)) (l : Login) : Prop where
  same : ∀ (past past' : List Past) (now now' : ℤ),
    ((Proxy.start t₀ pools).after past).roleOf now l =
      ((Proxy.start t₀ pools).after past').roleOf now' l
  never : l.auth.isScram = false → ∀ (past : List Past) (now : ℤ) (user : Text),
    ((Proxy.start t₀ pools).after past).roleOf now l ≠ some (.passthrough user)

/-- A user who may be passed through leaves a key with this login. -/
def BringsKey (t₀ : ℤ) (pools : List (Text × PoolConfig)) (l : Login) : Prop :=
  ∀ n cfg, (PoolRegistry.new t₀ pools).byDatabase.get l.database = some n →
    (n, cfg) ∈ pools → cfg.scramPassthrough = true → l.user ≠ [] →
    cfg.users.get l.user = none → l.auth.leavesKey = true

section Main

variable {pools : List (Text × PoolConfig)} {t₀ : ℤ} {l : Login} {p : Proxy}

/-- A login that leaves a key finds it, if there is a store to leave it in. -/
lemma has_of_leavesKey (hkeys : p.keys.isSome = true) (hl : l.auth.leavesKey = true) :
    (p.authenticate l).has l.user = true := by
  obtain ⟨users, husers⟩ := Option.isSome_iff_exists.mp hkeys
  simp [Proxy.authenticate, hl, Proxy.remember, Proxy.has, husers]

lemma roleFor_eq_own_or {cfg : PoolConfig} {user : Text}
    (h : cfg.scramPassthrough = true → user ≠ [] → cfg.users.get user = none → False)
    (held held' : Bool) : roleFor cfg user held = roleFor cfg user held' ∧
      ∀ u, roleFor cfg user held ≠ .passthrough u := by
  unfold roleFor
  by_cases huser : user = []
  · simp [huser]
  · cases hcfg : cfg.users.get user with
    | some dsn => simp [huser]
    | none =>
      cases hpass : cfg.scramPassthrough with
      | false => simp [huser]
      | true => exact (h hpass huser hcfg).elim

/-- There is a store where some pool wants one. -/
lemma isSome_keys_of_passthrough {n : Text} {cfg : PoolConfig} (hpool : (n, cfg) ∈ pools)
    (hpass : cfg.scramPassthrough = true) (past : List Past) :
    ((Proxy.start t₀ pools).after past).keys.isSome = true := by
  have hany : pools.any (·.2.scramPassthrough) = true :=
    List.any_eq_true.mpr ⟨(n, cfg), hpool, hpass⟩
  rw [isSome_keys_after, Proxy.start, if_pos hany]
  rfl

lemma ownLoginOnly_of_bringsKey (hacc : AcceptedPools pools) (h : BringsKey t₀ pools l) :
    OwnLoginOnly t₀ pools l := by
  cases hdb : (PoolRegistry.new t₀ pools).byDatabase.get l.database with
  | none =>
    refine ⟨fun past past' now now' => ?_, fun _ past now user => ?_⟩
    · rw [roleOf_missing hacc hdb, roleOf_missing hacc hdb]
    · rw [roleOf_missing hacc hdb]
      exact nofun
  | some n =>
    obtain ⟨cfg, hpool⟩ := pool_of_route hdb
    by_cases hkey : l.auth.leavesKey = true ∧ cfg.scramPassthrough = true
    · -- the key is there whatever happened before
      have hhas : ∀ past, (((Proxy.start t₀ pools).after past).authenticate l).has l.user = true :=
        fun past => has_of_leavesKey (isSome_keys_of_passthrough hpool hkey.2 past) hkey.1
      refine ⟨fun past past' now now' => ?_, fun hscram => ?_⟩
      · rw [roleOf_after hacc hdb hpool, roleOf_after hacc hdb hpool, hhas, hhas]
      · cases hauth : l.auth with
        | scram keyRecovered => rw [hauth] at hscram; cases hscram
        | _ => rw [hauth] at hkey; cases hkey.1
    · -- keys make no difference
      have hnone : cfg.scramPassthrough = true → l.user ≠ [] → cfg.users.get l.user = none →
          False := fun hpass huser hcfg => hkey ⟨h n cfg hdb hpool hpass huser hcfg, hpass⟩
      refine ⟨fun past past' now now' => ?_, fun _ past now user => ?_⟩
      · rw [roleOf_after hacc hdb hpool, roleOf_after hacc hdb hpool,
          (roleFor_eq_own_or hnone _ _).1]
      · rw [roleOf_after hacc hdb hpool]
        intro hrole
        exact (roleFor_eq_own_or hnone _ true).2 user (Option.some.inj hrole)

/-- Without a key of its own, the login gets the role that an earlier one has left it. -/
lemma bringsKey_of_ownLoginOnly (hacc : AcceptedPools pools) (h : OwnLoginOnly t₀ pools l) :
    BringsKey t₀ pools l := by
  intro n cfg hdb hpool hpass huser hcfg
  by_contra hno
  have hl : l.auth.leavesKey = false := by simpa using hno
  have hauth : ∀ p : Proxy, p.authenticate l = p := by
    intro p
    simp [Proxy.authenticate, hl]
  have hsame := h.same [] [.login 0 { l with auth := .scram true } false] 0 0
  rw [roleOf_after hacc hdb hpool, roleOf_after hacc hdb hpool, hauth, hauth] at hsame
  have hany : pools.any (·.2.scramPassthrough) = true :=
    List.any_eq_true.mpr ⟨(n, cfg), hpool, hpass⟩
  have hkeys : (Proxy.start t₀ pools).keys = some [] := if_pos hany
  have hbefore : ((Proxy.start t₀ pools).after []).has l.user = false := by
    simp [Proxy.after, Proxy.has, hkeys]
  have hafter : ((Proxy.start t₀ pools).after
      [.login 0 { l with auth := .scram true } false]).has l.user = true := by
    simp [Proxy.after, Proxy.happen, Proxy.authenticate, Authentication.leavesKey, Proxy.remember,
      Proxy.has, hkeys]
  rw [hbefore, hafter] at hsame
  simp [roleFor, huser, hcfg, hpass] at hsame

end Main

/-- **The role of a session depends only on its own login** exactly if the login leaves a key, or is
one to which keys make no difference, in whatever order the pools of the file were added. -/
theorem role_depends_on_own_login_iff {files : Files} {path : Text} {cfg : Config}
    (hload : loadConfig files path = .ok cfg) {pools : List (Text × PoolConfig)}
    (hpools : pools.Perm cfg.pools.pairs) (t₀ : ℤ) (l : Login) :
    OwnLoginOnly t₀ pools l ↔ BringsKey t₀ pools l := by
  have hacc : AcceptedPools pools := by
    refine ⟨PoolRegistry.names_of_perm hload hpools, fun hmem => ?_⟩
    exact accepted_of_loadConfig hload (Table.mem_pairs.mp (hpools.mem_iff.mp hmem))
  exact ⟨bringsKey_of_ownLoginOnly hacc, ownLoginOnly_of_bringsKey hacc⟩

/-- A file with one pool that passes its clients through. -/
def openConfig : Config :=
  { Config.ofPools ⟨[("db".toList, { PoolConfig.plain with scramPassthrough := true })],
      by simp⟩ with
    authUsers := ⟨[("alice".toList, "SCRAM-SHA-256$".toList)], by simp⟩
    allowInsecureTrustAuth := false }

theorem role_depends_on_own_login_scram : OwnLoginOnly 0 openConfig.pools.pairs
    ⟨"db".toList, "alice".toList, .scram true⟩ := by
  have hload : loadConfig (.all openConfig) [] = .ok openConfig := by rfl
  exact (role_depends_on_own_login_iff hload (List.Perm.refl _) 0 _).mpr fun _ _ _ _ _ _ _ => rfl

/-- Someone who is let in as `alice` without a proof is passed through with the key of a login
before. -/
theorem key_left_by_another :
    let p := Proxy.start 0 openConfig.pools.pairs
    p.roleOf 1 ⟨"db".toList, "alice".toList, .trust⟩ = some .own ∧
      (p.after [.login 0 ⟨"db".toList, "alice".toList, .scram true⟩ true]).roleOf 1
        ⟨"db".toList, "alice".toList, .trust⟩ = some (.passthrough "alice".toList) := by
  decide

end Pgman
