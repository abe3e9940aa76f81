import Pgman.Construction.Backend.Entries
import Pgman.Framework.Transition

/-!
# The registry over time

The operator adds, removes, resizes and reconfigures pools while clients are routed.  `Registrar`
is the registry with the calls of `Resolve` that stand between their two critical sections, and
`Registrar.machine` interleaves all of this.  A call that fails changes nothing and is no step.

Two invariants say what the two maps mean.  `Keyed` is about the entries: every entry stands under
its key, every pool has an entry for each identity of its configuration, and all others are
pass-through entries.  `Routed` is about the routes: they lead to live pools that claim the name,
and every name a live pool claims has a route.  Both come down to what `addEntries` does to a
registry without the pool and what `takeEntries` does.
-/

namespace Pgman

open Net (Text)

variable {name n m user u k db : Text} {cfg c : PoolConfig} {r r' : PoolRegistry}
  {e b : RegistryEntry} {now : ℤ}

/-- The entry of the pool's own identity knows the same users and aliases as its configuration. -/
lemma identity_of_base (h : cfg.identity [] = some c) (u : Text) :
    c.identity u = cfg.identity u := by
  unfold PoolConfig.identity at h
  split at h
  · next dsn hdsn =>
    obtain rfl := Option.some.inj h
    have husers : (cfg.withDSN dsn).users = cfg.users := rfl
    unfold PoolConfig.identity
    rw [husers]
    cases hu : cfg.users.get u with
    | some d => rfl
    | none =>
      have hne : u ≠ [] := by
        rintro rfl
        rw [hdsn] at hu
        cases hu
      simp only [if_neg hne]
  · rw [if_pos rfl] at h
    obtain rfl := Option.some.inj h
    rfl

lemma claims_of_base (h : cfg.identity [] = some c) : c.claims n = cfg.claims n := by
  unfold PoolConfig.identity at h
  split at h
  · obtain rfl := Option.some.inj h
    rfl
  · rw [if_pos rfl] at h
    obtain rfl := Option.some.inj h
    rfl

namespace PoolRegistry

/-! ## The entries -/

/-- The entries are what their keys say, and every pool has those its configuration asks for. -/
structure Keyed (r : PoolRegistry) : Prop where
  key : ∀ {k e}, r.entries.get k = some e → k = poolKey e.poolName e.backendUser
  plain : ∀ {k e}, r.entries.get k = some e → poolKeySeparator ∉ e.poolName
  base : ∀ {k e}, r.entries.get k = some e → ∃ b, r.base e.poolName = some b
  identity : ∀ {n b}, r.base n = some b → poolKeySeparator ∉ n → ∀ {u c},
    b.config.identity u = some c →
    ∃ p t, r.entries.get (poolKey n u) = some ⟨n, u, c, false, p, t⟩
  other : ∀ {n b}, r.base n = some b → poolKeySeparator ∉ n → ∀ {u e},
    b.config.identity u = none → r.entries.get (poolKey n u) = some e → e.passthrough = true
  target : ∀ {db n}, r.byDatabase.get db = some n → poolKeySeparator ∉ n

lemma keyed_empty : Keyed empty where
  key := nofun
  plain := nofun
  base := nofun
  identity := nofun
  other := nofun
  target := nofun

/-- The base entry of a pool belongs to it. -/
lemma Keyed.base_eq (h : Keyed r) (hn : poolKeySeparator ∉ n) (hb : r.base n = some b) :
    ∃ c p t, b = ⟨n, [], c, false, p, t⟩ := by
  obtain ⟨c, hc⟩ := identity_nil b.config
  obtain ⟨p, t, hget⟩ := h.identity hb hn hc
  exact ⟨c, p, t, Option.some.inj (hb.symm.trans hget)⟩

lemma Keyed.name_of_base (h : Keyed r) (hn : poolKeySeparator ∉ n) (hb : r.base n = some b) :
    b.poolName = n := by
  obtain ⟨c, p, t, rfl⟩ := h.base_eq hn hb
  rfl

/-- A pool is in the registry if it has a base entry. -/
lemma Keyed.entriesOf_eq_nil_iff (h : Keyed r) (hn : poolKeySeparator ∉ n) :
    r.entriesOf n = [] ↔ r.base n = none := by
  rw [entriesOf_eq_nil]
  constructor
  · intro hnone
    by_contra hsome
    obtain ⟨b, hb⟩ := Option.ne_none_iff_exists'.mp hsome
    exact hnone _ b hb (h.name_of_base hn hb)
  · intro hnone k e hget hname
    obtain ⟨b, hb⟩ := h.base hget
    rw [hname, hnone] at hb
    cases hb

lemma base_addEntries_self : ∃ c p, cfg.identity [] = some c ∧
    (r.addEntries now name cfg).base name = some ⟨name, [], c, false, p, now⟩ := by
  obtain ⟨c, hc⟩ := identity_nil cfg
  obtain ⟨p, hp⟩ : ∃ p, (r.addEntries now name cfg).entries.get (poolKey name []) =
    some ⟨name, [], c, false, p, now⟩ := get_addEntries_of_identity hc
  exact ⟨c, p, hc, hp⟩

/-- The entries of the other pools stay. -/
lemma get_addEntries_other (hname : poolKeySeparator ∉ name) (hn : poolKeySeparator ∉ n)
    (hne : n ≠ name) :
    (r.addEntries now name cfg).entries.get (poolKey n u) = r.entries.get (poolKey n u) :=
  get_addEntries_of_ne fun _ _ _ heq => hne (poolKey_inj hn hname heq).1

lemma base_addEntries_of_ne (hname : poolKeySeparator ∉ name) (hn : poolKeySeparator ∉ n)
    (hne : n ≠ name) : (r.addEntries now name cfg).base n = r.base n :=
  get_addEntries_other hname hn hne

/-- Adding a pool that is not there. -/
lemma Keyed.addEntries (h : Keyed r) (hname : poolKeySeparator ∉ name)
    (hnew : r.entriesOf name = []) : Keyed (r.addEntries now name cfg) := by
  have hold : ∀ {k e}, r.entries.get k = some e → e.poolName ≠ name :=
    fun {k e} hget => entriesOf_eq_nil.mp hnew k e hget
  obtain ⟨c₀, p₀, hc₀, hbase⟩ : ∃ c p, cfg.identity [] = some c ∧
    (r.addEntries now name cfg).base name = some ⟨name, [], c, false, p, now⟩ :=
      base_addEntries_self
  refine ⟨?_, ?_, ?_, ?_, ?_, ?_⟩
  · intro k e hget
    rcases get_addEntries_cases hget with ⟨u, c, p, -, rfl, rfl⟩ | ⟨hget, -⟩
    · rfl
    · exact h.key hget
  · intro k e hget
    rcases get_addEntries_cases hget with ⟨u, c, p, -, rfl, rfl⟩ | ⟨hget, -⟩
    · exact hname
    · exact h.plain hget
  · intro k e hget
    rcases get_addEntries_cases hget with ⟨u, c, p, -, rfl, rfl⟩ | ⟨hget, -⟩
    · exact ⟨_, hbase⟩
    · rw [base_addEntries_of_ne hname (h.plain hget) (hold hget)]
      exact h.base hget
  · intro n b hb hn u c hid
    by_cases hne : n = name
    · subst hne
      obtain rfl := Option.some.inj (hbase.symm.trans hb)
      rw [identity_of_base hc₀] at hid
      obtain ⟨p, hp⟩ : ∃ p, (r.addEntries now n cfg).entries.get (poolKey n u) =
        some ⟨n, u, c, false, p, now⟩ := get_addEntries_of_identity hid
      exact ⟨p, now, hp⟩
    · rw [base_addEntries_of_ne hname hn hne] at hb
      rw [get_addEntries_other hname hn hne]
      exact h.identity hb hn hid
  · intro n b hb hn u e hid hget
    by_cases hne : n = name
    · subst hne
      obtain rfl := Option.some.inj (hbase.symm.trans hb)
      rw [identity_of_base hc₀] at hid
      rcases get_addEntries_cases hget with ⟨u', c, p, hid', hkey, -⟩ | ⟨hget, -⟩
      · rw [poolKey_inj_right hkey, hid'] at hid
        cases hid
      · -- the entry was there before, so it is one of another pool
        exact absurd (poolKey_inj hn (h.plain hget) (h.key hget)).1.symm (hold hget)
    · rw [base_addEntries_of_ne hname hn hne] at hb
      rw [get_addEntries_other hname hn hne] at hget
      exact h.other hb hn hid hget
  · intro db n hdb
    rw [byDatabase_addEntries, get_route] at hdb
    split_ifs at hdb
    · exact Option.some.inj hdb ▸ hname
    · exact h.target hdb

lemma get_takeEntries_some : (r.takeEntries name).entries.get k = some e ↔
    r.entries.get k = some e ∧ e.poolName ≠ name := by
  rw [get_takeEntries, Option.filter_eq_some_iff, decide_eq_true_iff]

lemma Keyed.get_takeEntries_of_ne (h : Keyed r) (hn : poolKeySeparator ∉ n) (hne : n ≠ name) :
    (r.takeEntries name).entries.get (poolKey n u) = r.entries.get (poolKey n u) := by
  cases hget : r.entries.get (poolKey n u) with
  | none => rw [get_takeEntries, hget, Option.filter_none]
  | some e =>
    have hpool : n = e.poolName := (poolKey_inj hn (h.plain hget) (h.key hget)).1
    exact get_takeEntries_some.mpr ⟨hget, fun heq => hne (hpool.trans heq)⟩

lemma Keyed.base_takeEntries_of_ne (h : Keyed r) (hn : poolKeySeparator ∉ n) (hne : n ≠ name) :
    (r.takeEntries name).base n = r.base n :=
  h.get_takeEntries_of_ne hn hne

lemma Keyed.base_takeEntries_self (h : Keyed r) (hname : poolKeySeparator ∉ name) :
    (r.takeEntries name).base name = none := by
  by_contra hsome
  obtain ⟨b, hb⟩ := Option.ne_none_iff_exists'.mp hsome
  obtain ⟨hget, hne⟩ := get_takeEntries_some.mp hb
  exact hne (h.name_of_base hname hget)

lemma byDatabase_takeEntries_some (h : (r.takeEntries name).byDatabase.get db = some n) :
    r.byDatabase.get db = some n := by
  unfold takeEntries at h
  split_ifs at h
  · exact h
  · change (r.byDatabase.keep _).get db = some n at h
    rw [Table.get_keep, Option.filter_eq_some_iff] at h
    exact h.1

/-- Taking a pool out. -/
lemma Keyed.takeEntries (h : Keyed r) : Keyed (r.takeEntries name) := by
  have hne : ∀ {n b}, (r.takeEntries name).base n = some b → poolKeySeparator ∉ n → n ≠ name := by
    intro n b hb hn heq
    subst heq
    rw [h.base_takeEntries_self hn] at hb
    cases hb
  refine ⟨?_, ?_, ?_, ?_, ?_, ?_⟩
  · intro k e hget
    exact h.key (get_takeEntries_some.mp hget).1
  · intro k e hget
    exact h.plain (get_takeEntries_some.mp hget).1
  · intro k e hget
    obtain ⟨hget, hpool⟩ := get_takeEntries_some.mp hget
    rw [h.base_takeEntries_of_ne (h.plain hget) hpool]
    exact h.base hget
  · intro n b hb hn u c hid
    have hpool := hne hb hn
    rw [h.base_takeEntries_of_ne hn hpool] at hb
    rw [h.get_takeEntries_of_ne hn hpool]
    exact h.identity hb hn hid
  · intro n b hb hn u e hid hget
    have hpool := hne hb hn
    rw [h.base_takeEntries_of_ne hn hpool] at hb
    rw [h.get_takeEntries_of_ne hn hpool] at hget
    exact h.other hb hn hid hget
  · intro db n hdb
    exact h.target (byDatabase_takeEntries_some hdb)

lemma Keyed.stopWatchers (h : Keyed r) {old : List RegistryEntry} : Keyed (r.stopWatchers old) :=
  ⟨h.key, h.plain, h.base, h.identity, h.other, h.target⟩

lemma Keyed.entriesOf_takeEntries (h : Keyed r) (hname : poolKeySeparator ∉ name) :
    (r.takeEntries name).entriesOf name = [] :=
  (h.takeEntries.entriesOf_eq_nil_iff hname).mpr (h.base_takeEntries_self hname)

lemma Keyed.replace (h : Keyed r) (hname : poolKeySeparator ∉ name) :
    Keyed (r.replace now name cfg) :=
  h.takeEntries.stopWatchers.addEntries hname (h.entriesOf_takeEntries hname)

/-! ## The routes -/

/-- Routes lead to pools that claim the name, and every claimed name has one; it may be another
pool's only where that pool is one of `D`. -/
structure Routed (D : Text → Prop) (r : PoolRegistry) : Prop where
  routed : ∀ {n b}, r.base n = some b → poolKeySeparator ∉ n → ∀ {db}, db ∈ b.config.claims n →
    ∃ m, r.byDatabase.get db = some m ∧ (m = n ∨ D m)
  claimed : ∀ {db n}, r.byDatabase.get db = some n → ∃ b, r.base n = some b ∧
    db ∈ b.config.claims n

lemma routed_empty {D : Text → Prop} : Routed D empty := ⟨nofun, nofun⟩

/-- No pool that is left had its routes at the pool that goes. -/
lemma Routed.takeEntries {D : Text → Prop} (hr : Routed D r) (h : Keyed r)
    (hname : poolKeySeparator ∉ name) (hD : ¬D name) : Routed D (r.takeEntries name) := by
  by_cases hnil : r.entriesOf name = []
  · rw [PoolRegistry.takeEntries, if_pos hnil]
    exact hr
  constructor
  · intro n b hb hn db hdb
    have hne : n ≠ name := by
      rintro rfl
      rw [h.base_takeEntries_self hn] at hb
      cases hb
    rw [h.base_takeEntries_of_ne hn hne] at hb
    obtain ⟨m, hm, hor⟩ := hr.routed hb hn hdb
    have hmne : m ≠ name := by
      rintro rfl
      exact hor.elim (fun heq => hne heq.symm) hD
    refine ⟨m, ?_, hor⟩
    rw [byDatabase_takeEntries hnil, hm, Option.filter_some, if_pos (decide_eq_true hmne)]
  · intro db n hdb
    rw [byDatabase_takeEntries hnil, Option.filter_eq_some_iff, decide_eq_true_iff] at hdb
    obtain ⟨hdb, hne⟩ := hdb
    rw [h.base_takeEntries_of_ne (h.target hdb) hne]
    exact hr.claimed hdb

lemma Routed.stopWatchers {D : Text → Prop} (hr : Routed D r) {old : List RegistryEntry} :
    Routed D (r.stopWatchers old) :=
  ⟨hr.routed, hr.claimed⟩

/-- A new pool may take routes from others if it is one of `D'`. -/
lemma Routed.addEntries {D D' : Text → Prop} (hr : Routed D r) (h : Keyed r)
    (hname : poolKeySeparator ∉ name) (hnew : r.entriesOf name = []) (hD : ∀ n, D n → D' n)
    (hclaims : ∀ n b, r.base n = some b → poolKeySeparator ∉ n → n ≠ name →
      ∀ db ∈ b.config.claims n, db ∈ cfg.claims name → D' name) :
    Routed D' (r.addEntries now name cfg) := by
  obtain ⟨c₀, p₀, hc₀, hbase⟩ : ∃ c p, cfg.identity [] = some c ∧
    (r.addEntries now name cfg).base name = some ⟨name, [], c, false, p, now⟩ :=
      base_addEntries_self
  constructor
  · intro n b hb hn db hdb
    rw [byDatabase_addEntries, get_route]
    by_cases hclaim : db ∈ cfg.claims name
    · rw [if_pos hclaim]
      by_cases hne : n = name
      · exact ⟨name, rfl, .inl hne.symm⟩
      · rw [base_addEntries_of_ne hname hn hne] at hb
        exact ⟨name, rfl, .inr (hclaims n b hb hn hne db hdb hclaim)⟩
    · rw [if_neg hclaim]
      have hne : n ≠ name := by
        rintro rfl
        obtain rfl := Option.some.inj (hbase.symm.trans hb)
        exact hclaim (claims_of_base hc₀ ▸ hdb)
      rw [base_addEntries_of_ne hname hn hne] at hb
      obtain ⟨m, hm, hor⟩ := hr.routed hb hn hdb
      exact ⟨m, hm, hor.imp_right (hD m)⟩
  · intro db n hdb
    rw [byDatabase_addEntries, get_route] at hdb
    split_ifs at hdb with hclaim
    · obtain rfl := Option.some.inj hdb
      exact ⟨_, hbase, by rw [claims_of_base hc₀]; exact hclaim⟩
    · obtain ⟨b, hb, hmem⟩ := hr.claimed hdb
      have hne : n ≠ name := by
        rintro rfl
        rw [(h.entriesOf_eq_nil_iff hname).mp hnew] at hb
        cases hb
      rw [base_addEntries_of_ne hname (h.target hdb) hne]
      exact ⟨b, hb, hmem⟩

/-! ## Pass-through entries -/

/-- What a client may do to the entries: pass-through entries come and go and are stamped. -/
structure Served (r r' : PoolRegistry) : Prop where
  routes : r'.byDatabase = r.byDatabase
  entry : ∀ {k e}, r'.entries.get k = some e →
    (∃ t, r.entries.get k = some { e with lastRouted := t }) ∨
      r.entries.get k = none ∧ e.passthrough = true ∧ k = poolKey e.poolName e.backendUser ∧
        poolKeySeparator ∉ e.poolName ∧ ∃ b, r.base e.poolName = some b
  stays : ∀ {k e}, r.entries.get k = some e → e.passthrough = false →
    ∃ t, r'.entries.get k = some { e with lastRouted := t }

/-- What `Keyed` and `Routed` know of a base entry. -/
lemma Served.base (hs : Served r r') (h : Keyed r) (hn : poolKeySeparator ∉ n)
    (hb : r.base n = some b) : ∃ t, r'.base n = some { b with lastRouted := t } := by
  obtain ⟨c, p, t, rfl⟩ := h.base_eq hn hb
  exact hs.stays hb rfl

lemma Served.base_inv (hs : Served r r') (hn : poolKeySeparator ∉ n)
    (hb : r'.base n = some b) : ∃ t, r.base n = some { b with lastRouted := t } := by
  rcases hs.entry hb with hold | ⟨hnone, -, hkey, hplain, b', hb'⟩
  · exact hold
  · -- a new entry stands under the key of a user
    rw [poolKey_nil] at hkey hnone
    obtain ⟨hpool, -⟩ := poolKey_inj hn hplain ((poolKey_nil n).trans hkey)
    rw [← hpool, PoolRegistry.base, poolKey_nil, hnone] at hb'
    cases hb'

lemma Keyed.served (h : Keyed r) (hs : Served r r') : Keyed r' := by
  refine ⟨?_, ?_, ?_, ?_, ?_, ?_⟩
  · intro k e hget
    rcases hs.entry hget with ⟨t, hold⟩ | ⟨-, -, hkey, -⟩
    · exact (h.key hold :)
    · exact hkey
  · intro k e hget
    rcases hs.entry hget with ⟨t, hold⟩ | ⟨-, -, -, hplain, -⟩
    · exact (h.plain hold :)
    · exact hplain
  · intro k e hget
    rcases hs.entry hget with ⟨t, hold⟩ | ⟨-, -, -, hplain, b, hb⟩
    · obtain ⟨b, hb⟩ := h.base hold
      obtain ⟨t', hb'⟩ := hs.base h (h.plain hold) hb
      exact ⟨_, hb'⟩
    · obtain ⟨t', hb'⟩ := hs.base h hplain hb
      exact ⟨_, hb'⟩
  · intro n b hb hn u c hid
    obtain ⟨t, hb⟩ := hs.base_inv hn hb
    obtain ⟨p, t', hget⟩ := h.identity hb hn hid
    obtain ⟨t'', hget'⟩ := hs.stays hget rfl
    exact ⟨p, t'', hget'⟩
  · intro n b hb hn u e hid hget
    obtain ⟨t, hb⟩ := hs.base_inv hn hb
    rcases hs.entry hget with ⟨t', hold⟩ | ⟨-, hpass, -⟩
    · exact (h.other hb hn hid hold :)
    · exact hpass
  · intro db n hdb
    rw [hs.routes] at hdb
    exact h.target hdb

lemma Routed.served {D : Text → Prop} (hr : Routed D r) (h : Keyed r) (hs : Served r r') :
    Routed D r' := by
  constructor
  · intro n b hb hn db hdb
    obtain ⟨t, hb⟩ := hs.base_inv hn hb
    rw [hs.routes]
    exact hr.routed hb hn hdb
  · intro db n hdb
    rw [hs.routes] at hdb
    obtain ⟨b, hb, hmem⟩ := hr.claimed hdb
    obtain ⟨t, hb'⟩ := hs.base h (h.target hdb) hb
    exact ⟨_, hb', hmem⟩

lemma served_refl (r : PoolRegistry) : Served r r :=
  ⟨rfl, fun hget => .inl ⟨_, hget⟩, fun hget _ => ⟨_, hget⟩⟩

lemma served_stamp : Served r (r.stamp now k e) := by
  unfold stamp
  split_ifs with hpass
  · cases hget : r.entries.get k with
    | none => exact served_refl r
    | some e' =>
      simp only
      split_ifs with hpool
      · refine ⟨rfl, ?_, ?_⟩
        · intro j e'' hj
          change (r.entries.set k _).get j = _ at hj
          rw [Table.get_set] at hj
          split_ifs at hj with hjk
          · obtain rfl := Option.some.inj hj
            exact .inl ⟨_, by rw [hjk]; exact hget⟩
          · exact .inl ⟨_, hj⟩
        · intro j e'' hj _
          by_cases hjk : j = k
          · rw [hjk, hget] at hj
            obtain rfl := Option.some.inj hj
            exact ⟨now, by rw [hjk]; exact Table.get_set_self⟩
          · exact ⟨_, (Table.get_set_of_ne hjk).trans hj⟩
      · exact served_refl r
  · exact served_refl r

lemma served_create (hn : poolKeySeparator ∉ n) :
    Served r (r.createPassthroughEntry now n user cfg).2 := by
  unfold createPassthroughEntry
  cases hget : r.entries.get (poolKey n user) with
  | some e => exact served_refl r
  | none =>
    cases hb : r.base n with
    | none => exact served_refl r
    | some b =>
      refine ⟨rfl, ?_, ?_⟩
      · intro k e hk
        rw [get_putEntry] at hk
        split_ifs at hk with hkey
        · obtain rfl := Option.some.inj hk
          exact .inr ⟨hkey ▸ hget, rfl, hkey, hn, b, hb⟩
        · exact .inl ⟨_, hk⟩
      · intro k e hk _
        have hne : k ≠ poolKey n user := by
          rintro rfl
          rw [hget] at hk
          cases hk
        exact ⟨e.lastRouted, by rw [get_putEntry, if_neg hne]; exact hk⟩

lemma served_evictIdle {cutoff : ℤ} {active : Text → Bool} {inUse : ℕ → ℕ} :
    Served r (r.evictIdle cutoff active inUse).2 := by
  refine ⟨rfl, ?_, ?_⟩
  · intro k e hk
    change (r.entries.keep _).get k = some e at hk
    rw [Table.get_keep, Option.filter_eq_some_iff] at hk
    exact .inl ⟨_, hk.1⟩
  · intro k e hk hpass
    refine ⟨e.lastRouted, ?_⟩
    change (r.entries.keep _).get k = some e
    rw [Table.get_keep, hk, Option.filter_some, if_pos]
    simp [idle, hpass]

lemma served_evictIdlePassthrough {idleFor : ℤ} {active : Text → Bool} {inUse : ℕ → ℕ} :
    Served r (r.evictIdlePassthrough now idleFor active inUse).2 :=
  evictIdlePassthrough_rule (Q := Served r) (served_refl r) fun _ => served_evictIdle

/-! ## What a client finds -/

/-- `lookup` reads the two maps. -/
lemma lookup_congr (he : r'.entries = r.entries) (hd : r'.byDatabase = r.byDatabase)
    (held : Text → Bool) (db user : Text) : r'.lookup held db user = r.lookup held db user := by
  unfold lookup PoolRegistry.base
  rw [he, hd]

/-- The first critical section of `Resolve`, for a name that has a route. -/
lemma Keyed.lookup_cases (h : Keyed r) (hdb : r.byDatabase.get db = some n) (hb : r.base n = some b)
    (held : Text → Bool) (user : Text) :
    (∃ u c p t, backendIdentityFor held b.config user = (u, false) ∧
      b.config.identity u = some c ∧
      r.entries.get (poolKey n u) = some ⟨n, u, c, false, p, t⟩ ∧
      r.lookup held db user = .found (poolKey n u) ⟨n, u, c, false, p, t⟩) ∨
    backendIdentityFor held b.config user = (user, true) ∧
      ((∃ e, r.entries.get (poolKey n user) = some e ∧ e.passthrough = true ∧ e.poolName = n ∧
          r.lookup held db user = .found (poolKey n user) e) ∨
        r.entries.get (poolKey n user) = none ∧
          r.lookup held db user = .create n user b.config) := by
  have hn := h.target hdb
  -- an identity of the configuration has its entry
  have hconfigured : ∀ u c, backendIdentityFor held b.config user = (u, false) →
      b.config.identity u = some c → ∃ p t,
        r.entries.get (poolKey n u) = some ⟨n, u, c, false, p, t⟩ ∧
        r.lookup held db user = .found (poolKey n u) ⟨n, u, c, false, p, t⟩ := by
    intro u c hid hc
    obtain ⟨p, t, hget⟩ := h.identity hb hn hc
    exact ⟨p, t, hget, by simp only [lookup, hdb, hb, hid, hget]⟩
  by_cases huser : user = []
  · obtain ⟨c, hc⟩ := identity_nil b.config
    have hid : backendIdentityFor held b.config user = ([], false) := if_pos huser
    obtain ⟨p, t, hget, hlook⟩ := hconfigured [] c hid hc
    exact .inl ⟨[], c, p, t, hid, hc, hget, hlook⟩
  cases hdsn : b.config.users.get user with
  | some dsn =>
    have hid : backendIdentityFor held b.config user = (user, false) := by
      simp [backendIdentityFor, huser, hdsn]
    have hc : b.config.identity user = some (b.config.withDSN dsn) := by
      rw [PoolConfig.identity, hdsn]
    obtain ⟨p, t, hget, hlook⟩ := hconfigured user _ hid hc
    exact .inl ⟨user, _, p, t, hid, hc, hget, hlook⟩
  | none =>
    cases hkey : b.config.scramPassthrough && held user with
    | false =>
      obtain ⟨c, hc⟩ := identity_nil b.config
      have hid : backendIdentityFor held b.config user = ([], false) := by
        simp [backendIdentityFor, huser, hdsn, hkey]
      obtain ⟨p, t, hget, hlook⟩ := hconfigured [] c hid hc
      exact .inl ⟨[], c, p, t, hid, hc, hget, hlook⟩
    | true =>
      have hid : backendIdentityFor held b.config user = (user, true) := by
        simp [backendIdentityFor, huser, hdsn, hkey]
      have hnone : b.config.identity user = none := by
        rw [PoolConfig.identity, hdsn, if_neg huser]
      refine .inr ⟨hid, ?_⟩
      cases hget : r.entries.get (poolKey n user) with
      | none => exact .inr ⟨rfl, by simp only [lookup, hdb, hb, hid, hget, if_true]⟩
      | some e =>
        refine .inl ⟨e, rfl, h.other hb hn hnone hget, ?_, ?_⟩
        · exact (poolKey_inj hn (h.plain hget) (h.key hget)).1.symm
        · simp only [lookup, hdb, hb, hid, hget]

/-- Whoever asks for `db` is given a pool of `n`. -/
def ResolvesTo (r : PoolRegistry) (db n : Text) : Prop :=
  ∀ now held user, ∃ res e, (r.resolve now held db user).1 = some res ∧
    (r.resolve now held db user).2.entries.get res.key = some e ∧ e.poolName = n ∧ e.pool = res.pool

lemma Keyed.resolvesTo (h : Keyed r) (hdb : r.byDatabase.get db = some n)
    (hb : r.base n = some b) : r.ResolvesTo db n := by
  intro now held user
  rcases h.lookup_cases hdb hb held user with ⟨u, c, p, t, -, -, hget, hlook⟩ |
    ⟨-, ⟨e, hget, hpass, hpool, hlook⟩ | ⟨hget, hlook⟩⟩
  · rw [resolve, hlook, Lookup.answer]
    exact ⟨_, _, rfl, hget, rfl, rfl⟩
  · rw [resolve, hlook, Lookup.answer]
    refine ⟨_, { e with lastRouted := now }, rfl, ?_, hpool, rfl⟩
    simp [stamp, hpass, hget, RegistryEntry.resolved]
  · rw [resolve, hlook, Lookup.answer]
    simp only [createPassthroughEntry, hget, hb]
    exact ⟨_, _, rfl, by rw [get_putEntry, if_pos rfl], rfl, rfl⟩

/-! ## At startup -/

lemma mem_poolNames : n ∈ r.poolNames ↔ r.entriesOf n ≠ [] := by
  have hnames : n ∈ r.poolNames ↔ ∃ k e, r.entries.get k = some e ∧ e.poolName = n := by
    rw [poolNames, Table.mem_keys_ofList, List.map_map, List.mem_map]
    constructor
    · rintro ⟨⟨k, e⟩, hmem, rfl⟩
      exact ⟨k, e, Table.mem_pairs.mp hmem, rfl⟩
    · rintro ⟨k, e, hget, rfl⟩
      exact ⟨(k, e), Table.mem_pairs.mpr hget, rfl⟩
  rw [hnames, ne_eq, entriesOf_eq_nil]
  push Not
  rfl

lemma Keyed.plain_of_mem (h : Keyed r) (hn : n ∈ r.poolNames) : poolKeySeparator ∉ n := by
  obtain ⟨e, he⟩ := List.exists_mem_of_ne_nil _ (mem_poolNames.mp hn)
  obtain ⟨hpool, k, hget⟩ := mem_entriesOf.mp he
  exact hpool ▸ h.plain hget

/-- The pools in the registry are those with a base entry. -/
lemma Keyed.exists_base (h : Keyed r) (hn : n ∈ r.poolNames) : ∃ b, r.base n = some b := by
  have hplain := h.plain_of_mem hn
  rw [mem_poolNames, ne_eq, h.entriesOf_eq_nil_iff hplain] at hn
  exact Option.ne_none_iff_exists'.mp hn

lemma Keyed.mem_poolNames_of_base (h : Keyed r) (hn : poolKeySeparator ∉ n)
    (hb : r.base n = some b) : n ∈ r.poolNames := by
  rw [mem_poolNames, ne_eq, h.entriesOf_eq_nil_iff hn, hb]
  exact Option.some_ne_none b

/-- No other pool in the registry claims a name that the configuration claims. -/
def Unclaimed (r : PoolRegistry) (name : Text) (cfg : PoolConfig) : Prop :=
  ∀ n ∈ r.poolNames, n ≠ name → ∀ b ∈ r.base n, ∀ db ∈ b.config.claims n, db ∉ cfg.claims name

instance : Decidable (r.Unclaimed name cfg) :=
  inferInstanceAs (Decidable (∀ n ∈ r.poolNames, _))

lemma Routed.addEntries_unclaimed {D : Text → Prop} (hr : Routed D r) (h : Keyed r)
    (hname : poolKeySeparator ∉ name) (hnew : r.entriesOf name = [])
    (hclaims : r.Unclaimed name cfg) : Routed D (r.addEntries now name cfg) := by
  refine hr.addEntries h hname hnew (fun _ hn => hn) fun n b hb hn hne db hdb hclaim => ?_
  exact absurd hclaim (hclaims n (h.mem_poolNames_of_base hn hb) hne b hb db hdb)

/-- No two pools of a configuration claim the same name. -/
def ClaimsDisjoint (l : List (Text × PoolConfig)) : Prop :=
  l.Pairwise fun p q => ∀ db ∈ p.2.claims p.1, db ∉ q.2.claims q.1

instance (l : List (Text × PoolConfig)) : Decidable (ClaimsDisjoint l) :=
  inferInstanceAs (Decidable (l.Pairwise _))

section Startup

variable {l : List (Text × PoolConfig)} {p : Text × PoolConfig} {t₀ : ℤ}

/-- The pools of an accepted file, in any order. -/
lemma names_of_perm {files : Files} {path : Text} {cfg : Config}
    (hload : loadConfig files path = .ok cfg) (hl : l.Perm cfg.pools.pairs) : Names l := by
  have hnames : Names cfg.pools.pairs :=
    names_of_accepted fun name pc hpc => accepted_of_loadConfig hload hpc
  constructor
  · intro p hp
    exact hnames.plain p (hl.mem_iff.mp hp)
  · exact (hl.pairwise_iff fun {_ _} hne => hne.symm).mpr hnames.distinct

lemma new_concat : new t₀ (l ++ [p]) = (new t₀ l).addEntries t₀ p.1 p.2 := by
  rw [new_eq_addAll, new_eq_addAll, addAll, List.foldl_append]
  rfl

lemma Names.concat (h : Names (l ++ [p])) :
    Names l ∧ poolKeySeparator ∉ p.1 ∧ ∀ q ∈ l, q.1 ≠ p.1 := by
  obtain ⟨hl, -, hne⟩ := List.pairwise_append.mp h.distinct
  refine ⟨⟨fun q hq => h.plain q (List.mem_append_left _ hq), hl⟩, ?_, ?_⟩
  · exact h.plain p (List.mem_append_right _ (List.mem_singleton_self p))
  · exact fun q hq => hne q hq p (List.mem_singleton_self p)

/-- The pools at startup are those of the configuration. -/
lemma base_new_cases (hl : Names l) (hn : poolKeySeparator ∉ n) (hb : (new t₀ l).base n = some b) :
    ∃ cfg, (n, cfg) ∈ l ∧ cfg.identity [] = some b.config := by
  rcases get_addAll_cases hb with ⟨n', cfg, u, c, p, hmem, hid, hkey, rfl⟩ | hempty
  · obtain ⟨rfl, rfl⟩ := poolKey_inj hn (hl.plain _ hmem) hkey
    exact ⟨cfg, hmem, hid⟩
  · cases hempty

lemma entriesOf_new_eq_nil (hnew : ∀ q ∈ l, q.1 ≠ n) : (new t₀ l).entriesOf n = [] := by
  refine entriesOf_eq_nil.mpr fun k e hget => ?_
  rcases get_addAll_cases hget with ⟨n', cfg, u, c, p, hmem, -, -, rfl⟩ | hempty
  · exact hnew _ hmem
  · cases hempty

lemma keyed_new (hl : Names l) : Keyed (new t₀ l) := by
  induction l using List.reverseRecOn with
  | nil => exact keyed_empty
  | append_singleton l p ih =>
    obtain ⟨hl, hplain, hne⟩ := hl.concat
    rw [new_concat]
    exact (ih hl).addEntries hplain (entriesOf_new_eq_nil hne)

lemma routed_new (hl : Names l) (hclaims : ClaimsDisjoint l) :
    Routed (fun _ => False) (new t₀ l) := by
  induction l using List.reverseRecOn with
  | nil => exact routed_empty
  | append_singleton l p ih =>
    obtain ⟨hl, hplain, hne⟩ := hl.concat
    obtain ⟨hclaims, -, hp⟩ := List.pairwise_append.mp hclaims
    rw [new_concat]
    refine (ih hl hclaims).addEntries_unclaimed (keyed_new hl) hplain (entriesOf_new_eq_nil hne) ?_
    intro n hn hpn b hb db hdb
    obtain ⟨cfg, hmem, hid⟩ := base_new_cases hl ((keyed_new hl).plain_of_mem hn) hb
    rw [claims_of_base hid] at hdb
    exact hp _ hmem p (List.mem_singleton_self p) db hdb

end Startup

end PoolRegistry

/-! ## The operator and the clients -/

/-- The calls that change pools. -/
inductive OperatorCall
  | add (name : Text) (cfg : PoolConfig)
  | reconfigure (name : Text) (cfg : PoolConfig)
  | resize (name : Text) (newLimit : ℤ)
  | remove (name : Text)

/-- The registry after a call that succeeds. -/
def OperatorCall.apply (now : ℤ) (r : PoolRegistry) : OperatorCall → Option PoolRegistry
  | .add name cfg => (r.add now name cfg).toOption
  | .reconfigure name cfg => (r.reconfigure now name cfg).toOption.map fun x => x.2.2
  | .resize name newLimit => (r.resize now name newLimit).toOption.map Prod.snd
  | .remove name => (r.remove name).toOption.map Prod.snd

/-- The registry, and what the calls of `Resolve` know that have let go of the read lock. -/
structure Registrar where
  registry : PoolRegistry
  asked : List PoolRegistry.Lookup

inductive RegistrarEvent
  | operate (now : ℤ) (call : OperatorCall)
  /-- The first critical section of a `Resolve`. -/
  | ask (held : Text → Bool) (database user : Text)
  /-- The rest of one of them. -/
  | answer (now : ℤ) (i : ℕ)
  | sweep (now idleFor : ℤ) (active : Text → Bool) (inUse : ℕ → ℕ)

namespace Registrar

variable {w w' : Registrar} {ev : RegistrarEvent}

def step (w : Registrar) : RegistrarEvent → Option Registrar
  | .operate now call => (call.apply now w.registry).map fun r => { w with registry := r }
  | .ask held database user =>
    some { w with asked := w.asked ++ [w.registry.lookup held database user] }
  | .answer now i =>
    w.asked[i]?.map fun l => ⟨(l.answer now w.registry).2, w.asked.eraseIdx i⟩
  | .sweep now idleFor active inUse =>
    some { w with registry := (w.registry.evictIdlePassthrough now idleFor active inUse).2 }

def machine (start : PoolRegistry) : Machine Registrar RegistrarEvent where
  init w := w = ⟨start, []⟩
  step := step

/-- The registry means what it says, and only its pools are to get pass-through entries. -/
structure Sound (w : Registrar) : Prop where
  keyed : w.registry.Keyed
  asked : ∀ {n u c}, .create n u c ∈ w.asked → poolKeySeparator ∉ n

/-- A `Resize` that is given the name of a pool and not the key of one of its identities. -/
def ResizesPool (r : PoolRegistry) : RegistrarEvent → Prop
  | .operate _ (.resize name _) => name ∈ r.poolNames
  | _ => True

instance (ev : RegistrarEvent) : Decidable (ResizesPool r ev) :=
  match ev with
  | .operate _ (.resize name _) => inferInstanceAs (Decidable (name ∈ r.poolNames))
  | .operate _ (.add ..) | .operate _ (.reconfigure ..) | .operate _ (.remove ..) | .ask ..
  | .answer .. | .sweep .. => .isTrue trivial

/-- An event that leaves every name with at most one pool to claim it. -/
def ClaimsOnce (r : PoolRegistry) : RegistrarEvent → Prop
  | .operate _ (.add name cfg) | .operate _ (.reconfigure name cfg) => r.Unclaimed name cfg
  | _ => True

instance (ev : RegistrarEvent) : Decidable (ClaimsOnce r ev) :=
  match ev with
  | .operate _ (.add name cfg) | .operate _ (.reconfigure name cfg) =>
    inferInstanceAs (Decidable (r.Unclaimed name cfg))
  | .operate _ (.resize ..) | .operate _ (.remove ..) | .ask .. | .answer .. | .sweep .. =>
    .isTrue trivial

end Registrar

lemma plain_of_validatePoolConfig (h : validatePoolConfig name cfg = .ok ()) :
    poolKeySeparator ∉ name := by
  unfold validatePoolConfig at h
  split_ifs at h with _ hsep
  all_goals first | cases h | exact hsep

namespace PoolRegistry

lemma add_eq_ok : r.add now name cfg = .ok r' ↔
    validatePoolConfig name cfg = .ok () ∧ r.base name = none ∧ r.addEntries now name cfg = r' := by
  unfold add
  cases hvalid : validatePoolConfig name cfg with
  | error err => simp [bind, Except.bind]
  | ok u =>
    cases hb : r.base name with
    | some b => simp [bind, Except.bind]
    | none => simp [bind, Except.bind]

lemma reconfigure_eq_ok {x : List ℕ × Bool × PoolRegistry} :
    r.reconfigure now name cfg = .ok x ↔
      validatePoolConfig name cfg = .ok () ∧ ∃ b, r.base name = some b ∧
        (b.config = cfg ∧ x = ([], false, r) ∨
          b.config ≠ cfg ∧
            x = ((r.entriesOf name).map (·.pool), true, r.replace now name cfg)) := by
  unfold reconfigure
  cases hvalid : validatePoolConfig name cfg with
  | error err => simp [bind, Except.bind]
  | ok u =>
    cases hb : r.base name with
    | none => simp [bind, Except.bind]
    | some b =>
      by_cases heq : b.config = cfg
      · simp [bind, Except.bind, poolConfigEqual, heq, eq_comm]
      · simp [bind, Except.bind, poolConfigEqual, heq, Ne.symm heq, eq_comm]

lemma resize_eq_ok {newLimit : ℤ} {x : List ℕ × PoolRegistry} :
    r.resize now name newLimit = .ok x ↔ 0 < newLimit ∧ ∃ b, r.base name = some b ∧
      x = ((r.entriesOf name).map (·.pool),
        r.replace now name { b.config with limit := newLimit }) := by
  unfold resize
  by_cases hlimit : newLimit ≤ 0
  · simp [hlimit]
  · cases hb : r.base name with
    | none => simp [hlimit]
    | some b => simp [hlimit, not_le.mp hlimit, eq_comm]

lemma remove_eq_ok {x : List ℕ × PoolRegistry} :
    r.remove name = .ok x ↔ r.entriesOf name ≠ [] ∧
      x = ((r.entriesOf name).map (·.pool),
        (r.takeEntries name).stopWatchers (r.entriesOf name)) := by
  unfold remove
  by_cases hnil : r.entriesOf name = []
  · simp [hnil]
  · simp [hnil, eq_comm]

end PoolRegistry

lemma toOption_eq_some {ε α : Type} {x : Except ε α} {a : α} :
    x.toOption = some a ↔ x = .ok a := by
  cases x with
  | error err => simp [Except.toOption]
  | ok a' => simp [Except.toOption]

namespace OperatorCall

variable {call : OperatorCall}

/-- What a call that succeeds has found, and what it does to the registry. -/
inductive Effect (now : ℤ) (r : PoolRegistry) : OperatorCall → PoolRegistry → Prop
  | added {name : Text} {cfg : PoolConfig} (hvalid : validatePoolConfig name cfg = .ok ())
      (hnone : r.base name = none) : Effect now r (.add name cfg) (r.addEntries now name cfg)
  | same {name : Text} {cfg : PoolConfig} : Effect now r (.reconfigure name cfg) r
  | replaced {name : Text} {cfg : PoolConfig} (hvalid : validatePoolConfig name cfg = .ok ()) :
      Effect now r (.reconfigure name cfg) (r.replace now name cfg)
  | resized {name : Text} {newLimit : ℤ} {b : RegistryEntry} (hb : r.base name = some b) :
      Effect now r (.resize name newLimit)
        (r.replace now name { b.config with limit := newLimit })
  | removed {name : Text} (hsome : r.entriesOf name ≠ []) :
      Effect now r (.remove name) ((r.takeEntries name).stopWatchers (r.entriesOf name))

lemma effect_of_apply (h : call.apply now r = some r') : call.Effect now r r' := by
  cases call with
  | add name cfg =>
    obtain ⟨hvalid, hnone, rfl⟩ := PoolRegistry.add_eq_ok.mp (toOption_eq_some.mp h)
    exact .added hvalid hnone
  | reconfigure name cfg =>
    obtain ⟨x, hx, rfl⟩ := Option.map_eq_some_iff.mp h
    obtain ⟨hvalid, b, -, ⟨-, rfl⟩ | ⟨-, rfl⟩⟩ :=
      PoolRegistry.reconfigure_eq_ok.mp (toOption_eq_some.mp hx)
    · exact .same
    · exact .replaced hvalid
  | resize name newLimit =>
    obtain ⟨x, hx, rfl⟩ := Option.map_eq_some_iff.mp h
    obtain ⟨-, b, hb, rfl⟩ := PoolRegistry.resize_eq_ok.mp (toOption_eq_some.mp hx)
    exact .resized hb
  | remove name =>
    obtain ⟨x, hx, rfl⟩ := Option.map_eq_some_iff.mp h
    obtain ⟨hsome, rfl⟩ := PoolRegistry.remove_eq_ok.mp (toOption_eq_some.mp hx)
    exact .removed hsome

lemma Effect.keyed (he : call.Effect now r r') (h : r.Keyed)
    (hresize : Registrar.ResizesPool r (.operate now call)) : r'.Keyed := by
  cases he with
  | added hvalid hnone =>
    have hname := plain_of_validatePoolConfig hvalid
    exact h.addEntries hname ((h.entriesOf_eq_nil_iff hname).mpr hnone)
  | same => exact h
  | replaced hvalid => exact h.replace (plain_of_validatePoolConfig hvalid)
  | resized hb => exact h.replace (h.plain_of_mem hresize)
  | removed hsome => exact h.takeEntries.stopWatchers

end OperatorCall

namespace Registrar

variable {w w' : Registrar} {ev : RegistrarEvent}

lemma served_answer {l : PoolRegistry.Lookup}
    (hl : ∀ {n u c}, l = .create n u c → poolKeySeparator ∉ n) : r.Served (l.answer now r).2 := by
  cases l with
  | missing => exact PoolRegistry.served_refl r
  | found key e => exact PoolRegistry.served_stamp
  | create n u c => exact PoolRegistry.served_create (hl rfl)

/-- What an event does to the registry. -/
inductive Change (r : PoolRegistry) : RegistrarEvent → PoolRegistry → Prop
  | operated {now : ℤ} {call : OperatorCall} {r' : PoolRegistry} (he : call.Effect now r r') :
      Change r (.operate now call) r'
  | served {ev : RegistrarEvent} {r' : PoolRegistry} (hs : r.Served r') : Change r ev r'

/-- **One step of the registrar.** -/
lemma change_of_step (h : Sound w) (hs : step w ev = some w') :
    Change w.registry ev w'.registry := by
  cases ev with
  | operate now call =>
    obtain ⟨r, hr, rfl⟩ := Option.map_eq_some_iff.mp hs
    exact .operated (OperatorCall.effect_of_apply hr)
  | ask held database user =>
    obtain rfl := Option.some.inj hs
    exact .served (PoolRegistry.served_refl _)
  | answer now i =>
    obtain ⟨l, hl, rfl⟩ := Option.map_eq_some_iff.mp hs
    refine .served (served_answer fun {n u c} hcreate => ?_)
    exact h.asked (hcreate ▸ List.mem_of_getElem? hl)
  | sweep now idleFor active inUse =>
    obtain rfl := Option.some.inj hs
    exact .served PoolRegistry.served_evictIdlePassthrough

lemma Change.keyed (hc : Change r ev r') (h : r.Keyed) (hev : ResizesPool r ev) : r'.Keyed := by
  cases hc with
  | operated he => exact he.keyed h hev
  | served hs => exact h.served hs

/-- A lookup asks for a pass-through entry of a pool only. -/
lemma plain_of_lookup {held : Text → Bool} (h : r.Keyed)
    (hl : r.lookup held db user = .create n u c) : poolKeySeparator ∉ n := by
  unfold PoolRegistry.lookup at hl
  split at hl
  · cases hl
  · next name hdb =>
    split at hl
    · cases hl
    · simp only at hl
      split at hl
      · cases hl
      · split_ifs at hl
        · cases hl
          exact h.target hdb

/-- A call that is still between its critical sections was there before, or has just begun. -/
lemma mem_asked_of_step (hs : step w ev = some w') {l : PoolRegistry.Lookup}
    (hmem : l ∈ w'.asked) : l ∈ w.asked ∨ ∃ held db user, w.registry.lookup held db user = l := by
  cases ev with
  | operate now call =>
    obtain ⟨r, -, rfl⟩ := Option.map_eq_some_iff.mp hs
    exact .inl hmem
  | ask held database user =>
    obtain rfl := Option.some.inj hs
    rcases List.mem_append.mp hmem with hold | hnew
    · exact .inl hold
    · exact .inr ⟨held, database, user, (List.mem_singleton.mp hnew).symm⟩
  | answer now i =>
    obtain ⟨l', -, rfl⟩ := Option.map_eq_some_iff.mp hs
    exact .inl (List.mem_of_mem_eraseIdx hmem)
  | sweep now idleFor active inUse =>
    obtain rfl := Option.some.inj hs
    exact .inl hmem

lemma Sound.step (h : Sound w) (hev : ResizesPool w.registry ev) (hs : step w ev = some w') :
    Sound w' := by
  refine ⟨(change_of_step h hs).keyed h.keyed hev, fun {n u c} hmem => ?_⟩
  rcases mem_asked_of_step hs hmem with hold | ⟨held, db, user, hl⟩
  · exact h.asked hold
  · exact plain_of_lookup h.keyed hl

lemma routed_replace (hr : r.Routed fun _ => False) (h : r.Keyed)
    (hname : poolKeySeparator ∉ name) (hclaims : r.Unclaimed name cfg) :
    (r.replace now name cfg).Routed fun _ => False := by
  have htake : (r.takeEntries name).Routed fun _ => False := hr.takeEntries h hname id
  refine htake.stopWatchers.addEntries_unclaimed h.takeEntries.stopWatchers hname
    (h.entriesOf_takeEntries hname) ?_
  intro n hn hne b hb
  have hplain := h.takeEntries.stopWatchers.plain_of_mem hn
  have hb' : r.base n = some b := (h.base_takeEntries_of_ne hplain hne).symm.trans hb
  exact hclaims n (h.mem_poolNames_of_base hplain hb') hne b hb'

/-- Where every pool has its routes, nobody else claims a pool's names. -/
lemma unclaimed_of_routed (hr : r.Routed fun _ => False) (h : r.Keyed)
    (hname : poolKeySeparator ∉ name) (hb : r.base name = some b)
    (hcfg : cfg.claims name = b.config.claims name) : r.Unclaimed name cfg := by
  intro n hn hne b' hb' db hdb hclaim
  rw [hcfg] at hclaim
  obtain ⟨m, hm, rfl | hno⟩ := hr.routed hb' (h.plain_of_mem hn) hdb
  · obtain ⟨m', hm', rfl | hno⟩ := hr.routed hb hname hclaim
    · exact hne (Option.some.inj (hm.symm.trans hm'))
    · exact hno
  · exact hno

lemma Change.routed (hc : Change r ev r') (h : r.Keyed) (hr : r.Routed fun _ => False)
    (hclaims : ClaimsOnce r ev) (hresize : ResizesPool r ev) : r'.Routed fun _ => False := by
  cases hc with
  | operated he =>
    cases he with
    | added hvalid hnone =>
      have hname := plain_of_validatePoolConfig hvalid
      exact hr.addEntries_unclaimed h hname ((h.entriesOf_eq_nil_iff hname).mpr hnone) hclaims
    | same => exact hr
    | replaced hvalid => exact routed_replace hr h (plain_of_validatePoolConfig hvalid) hclaims
    | resized hb =>
      have hname := h.plain_of_mem hresize
      exact routed_replace hr h hname (unclaimed_of_routed hr h hname hb rfl)
    | removed hsome =>
      have hname := h.plain_of_mem (PoolRegistry.mem_poolNames.mpr hsome)
      exact (hr.takeEntries h hname id).stopWatchers
  | served hs => exact hr.served h hs

/-! ## Orderly runs -/

/-- No name is claimed twice, and pools are resized by name. -/
def Orderly (w : Registrar) (ev : RegistrarEvent) : Prop :=
  ClaimsOnce w.registry ev ∧ ResizesPool w.registry ev

instance (w : Registrar) (ev : RegistrarEvent) : Decidable (Orderly w ev) :=
  inferInstanceAs (Decidable (_ ∧ _))

/-- Every name leads to the pool that claims it. -/
structure Settled (w : Registrar) : Prop extends Sound w where
  routed : w.registry.Routed fun _ => False

lemma Settled.step (h : Settled w) (hev : Orderly w ev) (hs : step w ev = some w') : Settled w' :=
  ⟨h.toSound.step hev.2 hs,
    (change_of_step h.toSound hs).routed h.keyed h.routed hev.1 hev.2⟩

/-- The pools of an accepted file, in whatever order, if they claim no name twice. -/
lemma settled_start {files : Files} {path : Text} {cfg : Config}
    (hload : loadConfig files path = .ok cfg) {l : List (Text × PoolConfig)}
    (hl : l.Perm cfg.pools.pairs) (hclaims : PoolRegistry.ClaimsDisjoint l) (t₀ : ℤ) :
    Settled ⟨.new t₀ l, []⟩ := by
  have hnames := PoolRegistry.names_of_perm hload hl
  exact ⟨⟨PoolRegistry.keyed_new hnames, nofun⟩, PoolRegistry.routed_new hnames hclaims⟩

lemma settled_of_reach {start : PoolRegistry} (h0 : Settled ⟨start, []⟩)
    (hw : (machine start).Reach Orderly w) : Settled w := by
  induction hw with
  | init hi =>
    obtain rfl : _ = _ := hi
    exact h0
  | step _ hev hs ih => exact ih.step hev hs

end Registrar

end Pgman
