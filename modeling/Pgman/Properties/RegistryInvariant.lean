import Pgman.Construction.Backend.Changes

/-!
# What the registry's maps and watchers stand for

Every entry stands under the key of its pool and its identity, every pool and every route has a base
entry, every configured identity has its own, and whatever has left the map has had its DNS watcher
stopped, once.  A user may call themselves `a/b`: that does no harm, since a key says where the
pool's name ends as long as no pool's name contains the separator (`poolKey_inj`).

Names with a separator are refused by `loadConfig`, `Add` and `Reconfigure`.  `Resize` does not
look.  It finds its pool by registry key, and given the key of one user's identity it builds a pool
of that name over the user's entry, whose watcher keeps running (`resized_identity_is_overwritten`).

The keys and the routes are the business of `Keyed`.  What is added here is `Watched`: the numbers
of pool objects are given out in order (`Numbered`), so a pool object that is not in the map and
whose number has been given out is one that was removed.
-/

namespace Pgman

open Net (Text)

variable {name n user u k db : Text} {cfg c : PoolConfig} {r r' : PoolRegistry}
  {e b : RegistryEntry} {now : ℤ}

namespace PoolRegistry

/-- The pool object is in the map. -/
def Live (r : PoolRegistry) (p : ℕ) : Prop := ∃ k e, r.entries.get k = some e ∧ e.pool = p

/-- The entry of the pool's own identity is where it belongs. -/
def HasBase (r : PoolRegistry) (n : Text) : Prop :=
  ∃ b, r.entries.get (poolKey n []) = some b ∧ b.poolName = n ∧ b.backendUser = []

/-- The representation invariant. -/
structure Represented (r : PoolRegistry) : Prop where
  key : ∀ k e, r.entries.get k = some e → k = poolKey e.poolName e.backendUser
  /-- A key belongs to one pool and one user, whatever users call themselves. -/
  keyOnce : ∀ n ∈ r.poolNames, ∀ n' ∈ r.poolNames, ∀ u u', poolKey n u = poolKey n' u' →
    n = n' ∧ u = u'
  base : ∀ k e, r.entries.get k = some e → r.HasBase e.poolName
  target : ∀ db n, r.byDatabase.get db = some n → r.HasBase n
  users : ∀ k e, r.entries.get k = some e → e.backendUser = [] →
    ∀ u dsn, e.config.users.get u = some dsn → ∃ e',
      r.entries.get (poolKey e.poolName u) = some e' ∧ e'.poolName = e.poolName ∧
        e'.backendUser = u ∧ e'.passthrough = false
  /-- What has left the map has had its watcher stopped, once. -/
  watchers : ∀ p < r.pools, ¬r.Live p → r.stopped.count p = 1

/-! ## Watchers -/

/-- Pool objects are numbered in order, and of those given out the ones not in the map are those
whose watcher was stopped. -/
structure Watched (r : PoolRegistry) : Prop extends Numbered r where
  running : ∀ {p}, r.Live p → p ∉ r.stopped
  stopped : ∀ {p}, p < r.pools → ¬r.Live p → r.stopped.count p = 1
  past : ∀ {p}, p ∈ r.stopped → p < r.pools

lemma watched_empty : Watched empty := by
  have hdead : ∀ p, ¬Live empty p := by
    rintro p ⟨k, e, hk, -⟩
    cases hk
  refine ⟨numbered_empty, ?_, ?_, ?_⟩
  · intro p hp
    exact absurd hp (hdead p)
  · intro p hlt
    exact absurd hlt (Nat.not_lt_zero p)
  · intro p hp
    cases hp

/-- Only the pool objects count. -/
lemma Watched.congr (h : Watched r) (hpools : r'.pools = r.pools)
    (hstopped : r'.stopped = r.stopped)
    (hpool : ∀ k, (r'.entries.get k).map (·.pool) = (r.entries.get k).map (·.pool)) :
    Watched r' := by
  have hget : ∀ {k e'}, r'.entries.get k = some e' →
      ∃ e, r.entries.get k = some e ∧ e'.pool = e.pool := by
    intro k e' hk
    have hsome := hpool k
    rw [hk, Option.map_some] at hsome
    obtain ⟨e, he, hp⟩ := Option.map_eq_some_iff.mp hsome.symm
    exact ⟨e, he, hp.symm⟩
  have hlive : ∀ {p}, r'.Live p ↔ r.Live p := by
    intro p
    constructor
    · rintro ⟨k, e', hk, rfl⟩
      obtain ⟨e, he, hp⟩ := hget hk
      exact ⟨k, e, he, hp.symm⟩
    · rintro ⟨k, e, hk, rfl⟩
      have hsome := hpool k
      rw [hk, Option.map_some] at hsome
      obtain ⟨e', he', hp⟩ := Option.map_eq_some_iff.mp hsome
      exact ⟨k, e', he', hp⟩
  refine ⟨h.toNumbered.of_get hpools hget, ?_, ?_, ?_⟩
  · intro p hp
    rw [hstopped]
    exact h.running (hlive.mp hp)
  · intro p hlt hdead
    rw [hstopped]
    exact h.stopped (hpools ▸ hlt) fun hp => hdead (hlive.mpr hp)
  · intro p hp
    rw [hpools]
    exact h.past (hstopped ▸ hp)

/-- A new entry in a place that is free. -/
lemma Watched.putEntry {pt : Bool} (h : Watched r)
    (hfree : r.entries.get (poolKey name user) = none) :
    Watched (r.putEntry now name user c pt) := by
  have hlive : ∀ {p}, (r.putEntry now name user c pt).Live p ↔ p = r.pools ∨ r.Live p := by
    intro p
    constructor
    · rintro ⟨k, e, hk, rfl⟩
      rw [get_putEntry] at hk
      split_ifs at hk with hkey
      · obtain rfl := Option.some.inj hk
        exact .inl rfl
      · exact .inr ⟨k, e, hk, rfl⟩
    · rintro (rfl | ⟨k, e, hk, rfl⟩)
      · exact ⟨_, _, (get_putEntry (k := poolKey name user)).trans (if_pos rfl), rfl⟩
      · have hne : k ≠ poolKey name user := by
          rintro rfl
          rw [hfree] at hk
          cases hk
        exact ⟨k, e, get_putEntry.trans ((if_neg hne).trans hk), rfl⟩
  have hpools : (r.putEntry now name user c pt).pools = r.pools + 1 := rfl
  have hstopped : (r.putEntry now name user c pt).stopped = r.stopped := rfl
  refine ⟨h.toNumbered.put, ?_, ?_, ?_⟩
  · intro p hp hmem
    rcases hlive.mp hp with rfl | hold
    · exact absurd (h.past hmem) (Nat.lt_irrefl _)
    · exact h.running hold hmem
  · intro p hlt hdead
    have hne : p ≠ r.pools := fun heq => hdead (hlive.mpr (.inl heq))
    refine h.stopped ?_ fun hp => hdead (hlive.mpr (.inr hp))
    rw [hpools] at hlt
    omega
  · intro p hp
    exact Nat.lt_succ_of_lt (h.past hp)

/-- The entries of `backend_users`, all in places that are free. -/
lemma Watched.putUsers : ∀ {l : List (Text × Text)} {r : PoolRegistry}, Watched r →
    l.Pairwise (fun p q => p.1 < q.1) →
    (∀ p ∈ l, r.entries.get (poolKey name p.1) = none) → Watched (putUsers now name cfg l r)
  | [], _, h, _, _ => h
  | p :: l, r, h, hs, hfree => by
    obtain ⟨hp, hl⟩ := List.pairwise_cons.mp hs
    have hput : Watched (r.putEntry now name p.1 (cfg.withDSN p.2) false) :=
      h.putEntry (hfree p List.mem_cons_self)
    refine Watched.putUsers (r := r.putEntry now name p.1 (cfg.withDSN p.2) false) hput hl
      fun q hq => ?_
    have hne : poolKey name q.1 ≠ poolKey name p.1 := fun heq =>
      (hp q hq).ne (poolKey_inj_right heq).symm
    rw [get_putEntry, if_neg hne]
    exact hfree q (List.mem_cons_of_mem p hq)

/-- A pool that is not there yet, with nobody of no name among its users. -/
lemma Watched.addEntries (h : Watched r) (hkeyed : Keyed r) (hname : poolKeySeparator ∉ name)
    (hnew : r.entriesOf name = []) (husers : cfg.users.get [] = none) :
    Watched (r.addEntries now name cfg) := by
  have hfree : ∀ u, r.entries.get (poolKey name u) = none := by
    intro u
    by_contra hsome
    obtain ⟨e, he⟩ := Option.ne_none_iff_exists'.mp hsome
    have hpool := (poolKey_inj hname (hkeyed.plain he) (hkeyed.key he)).1
    exact entriesOf_eq_nil.mp hnew _ e he hpool.symm
  have hroutes : Watched { r with byDatabase := route name cfg r.byDatabase } :=
    h.congr rfl rfl fun _ => rfl
  rw [addEntries_eq]
  refine Watched.putUsers (hroutes.putEntry (hfree [])) cfg.users.sorted ?_
  rintro ⟨u, dsn⟩ hmem
  have hne : poolKey name u ≠ poolKey name [] := by
    intro heq
    obtain rfl := poolKey_inj_right heq
    rw [Table.mem_pairs.mp hmem] at husers
    cases husers
  rw [get_putEntry, if_neg hne]
  exact hfree u

/-- The pool objects under the pairs that a test picks. -/
def picked (r : PoolRegistry) (out : Text → RegistryEntry → Bool) : List ℕ :=
  (r.entries.pairs.filter fun q => out q.1 q.2).map fun q => q.2.pool

lemma mem_picked {out : Text → RegistryEntry → Bool} {p : ℕ} :
    p ∈ r.picked out ↔ ∃ k e, r.entries.get k = some e ∧ out k e = true ∧ e.pool = p := by
  rw [picked, List.mem_map]
  constructor
  · rintro ⟨⟨k, e⟩, hmem, rfl⟩
    obtain ⟨hpair, hout⟩ := List.mem_filter.mp hmem
    exact ⟨k, e, Table.mem_pairs.mp hpair, hout, rfl⟩
  · rintro ⟨k, e, hget, hout, rfl⟩
    exact ⟨(k, e), List.mem_filter.mpr ⟨Table.mem_pairs.mpr hget, hout⟩, rfl⟩

/-- No pool object is under two pairs. -/
lemma Watched.nodup_picked (h : Watched r) (out : Text → RegistryEntry → Bool) :
    (r.picked out).Nodup := by
  refine List.Pairwise.map _ (fun _ _ hne => hne) (r.entries.sorted.imp_of_mem ?_ |>.filter _)
  rintro ⟨k, e⟩ ⟨k', e'⟩ hk hk' hlt heq
  exact hlt.ne (h.distinct (Table.mem_pairs.mp hk) (Table.mem_pairs.mp hk') heq)

/-- Entries leave the map, and their watchers are stopped. -/
lemma Watched.drop (h : Watched r) (out : Text → RegistryEntry → Bool)
    (hentries : r'.entries = r.entries.keep fun k e => !out k e) (hpools : r'.pools = r.pools)
    (hstopped : r'.stopped = r.stopped ++ r.picked out) : Watched r' := by
  have hget : ∀ {k e}, r'.entries.get k = some e ↔
      r.entries.get k = some e ∧ out k e = false := by
    intro k e
    rw [hentries, Table.get_keep, Option.filter_eq_some_iff, Bool.not_eq_true']
  have hpicked : ∀ {k e}, r.entries.get k = some e → (e.pool ∈ r.picked out ↔ out k e = true) := by
    intro k e hk
    rw [mem_picked]
    constructor
    · rintro ⟨k', e', hk', hout, hp⟩
      obtain rfl := h.distinct hk' hk hp
      rwa [Option.some.inj (hk.symm.trans hk')]
    · intro hout
      exact ⟨k, e, hk, hout, rfl⟩
  refine ⟨h.toNumbered.of_get hpools fun {k e} hk => ⟨e, (hget.mp hk).1, rfl⟩, ?_, ?_, ?_⟩
  · rintro p ⟨k, e, hk, rfl⟩
    obtain ⟨hold, hout⟩ := hget.mp hk
    rw [hstopped, List.mem_append, hpicked hold, hout]
    rintro (hmem | hfalse)
    · exact h.running ⟨k, e, hold, rfl⟩ hmem
    · cases hfalse
  · intro p hlt hdead
    rw [hstopped, List.count_append]
    by_cases hlive : r.Live p
    · -- it has just left
      obtain ⟨k, e, hk, rfl⟩ := hlive
      have hout : out k e = true := by
        by_contra hstays
        exact hdead ⟨k, e, hget.mpr ⟨hk, by simpa using hstays⟩, rfl⟩
      rw [List.count_eq_zero_of_not_mem (h.running ⟨k, e, hk, rfl⟩),
        List.count_eq_one_of_mem (h.nodup_picked out) ((hpicked hk).mpr hout)]
    · have hnot : p ∉ r.picked out := by
        intro hmem
        obtain ⟨k, e, hk, -, hp⟩ := mem_picked.mp hmem
        exact hlive ⟨k, e, hk, hp⟩
      rw [h.stopped (hpools ▸ hlt) hlive, List.count_eq_zero_of_not_mem hnot]
  · intro p hp
    rw [hstopped, List.mem_append] at hp
    rw [hpools]
    rcases hp with hold | hnew
    · exact h.past hold
    · obtain ⟨k, e, hk, -, rfl⟩ := mem_picked.mp hnew
      exact h.given hk

lemma picked_entriesOf :
    r.picked (fun _ e => e.poolName = name) = (r.entriesOf name).map (·.pool) := by
  rw [picked, entriesOf, List.filter_map, List.map_map]
  rfl

lemma Watched.takeEntries (h : Watched r) :
    Watched ((r.takeEntries name).stopWatchers (r.entriesOf name)) := by
  by_cases hnil : r.entriesOf name = []
  · rw [PoolRegistry.takeEntries, if_pos hnil, hnil]
    exact h.congr rfl (List.append_nil _) fun _ => rfl
  · refine h.drop (fun _ e => e.poolName = name) ?_ ?_ ?_
    · rw [entries_stopWatchers, PoolRegistry.takeEntries, if_neg hnil]
      simp
    · rw [PoolRegistry.takeEntries, if_neg hnil]
      rfl
    · rw [picked_entriesOf, PoolRegistry.takeEntries, if_neg hnil]
      rfl

lemma Watched.stamp (h : Watched r) : Watched (r.stamp now k e) := by
  unfold PoolRegistry.stamp
  split_ifs
  · cases hk : r.entries.get k with
    | none => exact h
    | some e' =>
      simp only
      split_ifs
      · refine h.congr rfl rfl fun j => ?_
        change ((r.entries.set k _).get j).map _ = _
        rw [Table.get_set]
        split_ifs with hj
        · rw [hj, hk]
          rfl
        · rfl
      · exact h
  · exact h

lemma Watched.create (h : Watched r) : Watched (r.createPassthroughEntry now n user cfg).2 := by
  unfold createPassthroughEntry
  cases hk : r.entries.get (poolKey n user) with
  | some e => exact h
  | none =>
    cases r.base n with
    | none => exact h
    | some b => exact h.putEntry hk

lemma Watched.evictIdle {cutoff : ℤ} {active : Text → Bool} {inUse : ℕ → ℕ} (h : Watched r) :
    Watched (r.evictIdle cutoff active inUse).2 := by
  refine h.drop (idle cutoff active inUse) rfl rfl ?_
  change r.stopped ++ ((r.entries.pairs.filter _).map Prod.snd).map _ = _
  rw [picked, List.map_map]
  rfl

/-! ## Routes -/

/-- Every route leads to a pool that is there. -/
def Targeted (r : PoolRegistry) : Prop :=
  ∀ db n, r.byDatabase.get db = some n → ∃ b, r.base n = some b

lemma Targeted.addEntries (h : Targeted r) (hkeyed : Keyed r) (hname : poolKeySeparator ∉ name) :
    Targeted (r.addEntries now name cfg) := by
  intro db n hdb
  by_cases hne : n = name
  · subst hne
    obtain ⟨c, p, -, hb⟩ : ∃ c p, cfg.identity [] = some c ∧
      (r.addEntries now n cfg).base n = some ⟨n, [], c, false, p, now⟩ := base_addEntries_self
    exact ⟨_, hb⟩
  · rw [byDatabase_addEntries, get_route] at hdb
    split_ifs at hdb
    · exact absurd (Option.some.inj hdb).symm hne
    · rw [base_addEntries_of_ne hname (hkeyed.target hdb) hne]
      exact h db n hdb

lemma Targeted.takeEntries (h : Targeted r) (hkeyed : Keyed r) : Targeted (r.takeEntries name) := by
  intro db n hdb
  by_cases hnil : r.entriesOf name = []
  · rw [PoolRegistry.takeEntries, if_pos hnil] at hdb ⊢
    exact h db n hdb
  · rw [byDatabase_takeEntries hnil, Option.filter_eq_some_iff, decide_eq_true_iff] at hdb
    rw [hkeyed.base_takeEntries_of_ne (hkeyed.target hdb.1) hdb.2]
    exact h db n hdb.1

lemma Targeted.served (h : Targeted r) (hkeyed : Keyed r) (hs : Served r r') : Targeted r' := by
  intro db n hdb
  rw [hs.routes] at hdb
  obtain ⟨b, hb⟩ := h db n hdb
  obtain ⟨t, hb'⟩ := hs.base hkeyed (hkeyed.target hdb) hb
  exact ⟨_, hb'⟩

/-! ## Users without a name -/

/-- No configured entry has a user without a name among its `backend_users`; that user's entry
would stand in the place of the base entry. -/
def NamedUsers (r : PoolRegistry) : Prop :=
  ∀ k e, r.entries.get k = some e → e.passthrough = false → e.config.users.get [] = none

lemma users_of_identity (h : cfg.identity u = some c) : c.users = cfg.users := by
  unfold PoolConfig.identity at h
  split at h
  · obtain rfl := Option.some.inj h
    rfl
  · split_ifs at h
    obtain rfl := Option.some.inj h
    rfl

lemma NamedUsers.addEntries (h : NamedUsers r) (husers : cfg.users.get [] = none) :
    NamedUsers (r.addEntries now name cfg) := by
  intro k e hget hconfigured
  rcases get_addEntries_cases hget with ⟨u, c, p, hid, rfl, rfl⟩ | ⟨hold, -⟩
  · change c.users.get [] = none
    rw [users_of_identity hid]
    exact husers
  · exact h k e hold hconfigured

lemma NamedUsers.takeEntries (h : NamedUsers r) : NamedUsers (r.takeEntries name) :=
  fun k e hget => h k e (get_takeEntries_some.mp hget).1

lemma NamedUsers.served (h : NamedUsers r) (hs : Served r r') : NamedUsers r' := by
  intro k e hget hconfigured
  rcases hs.entry hget with ⟨t, hold⟩ | ⟨-, hpass, -⟩
  · exact (h k _ hold hconfigured :)
  · rw [hconfigured] at hpass
    cases hpass

/-! ## All of it together -/

/-- The invariant that the operations keep. -/
structure Intact (r : PoolRegistry) : Prop where
  keyed : Keyed r
  watched : Watched r
  targeted : Targeted r
  named : NamedUsers r

lemma intact_empty : Intact empty := by
  refine ⟨keyed_empty, watched_empty, ?_, ?_⟩
  · intro db n hdb
    cases hdb
  · intro k e hk
    cases hk

lemma Intact.addEntries (h : Intact r) (hname : poolKeySeparator ∉ name)
    (hnew : r.entriesOf name = []) (husers : cfg.users.get [] = none) :
    Intact (r.addEntries now name cfg) where
  keyed := h.keyed.addEntries hname hnew
  watched := h.watched.addEntries h.keyed hname hnew husers
  targeted := h.targeted.addEntries h.keyed hname
  named := h.named.addEntries husers

/-- A pool goes, and its watchers with it. -/
lemma Intact.takeEntries (h : Intact r) :
    Intact ((r.takeEntries name).stopWatchers (r.entriesOf name)) where
  keyed := h.keyed.takeEntries.stopWatchers
  watched := h.watched.takeEntries
  targeted := h.targeted.takeEntries h.keyed
  named := h.named.takeEntries

lemma Intact.replace (h : Intact r) (hname : poolKeySeparator ∉ name)
    (husers : cfg.users.get [] = none) : Intact (r.replace now name cfg) :=
  h.takeEntries.addEntries hname (h.keyed.entriesOf_takeEntries hname) husers

/-- What a client does, as long as it is done to the watchers as well. -/
lemma Intact.served (h : Intact r) (hs : Served r r') (hwatched : Watched r') : Intact r' :=
  ⟨h.keyed.served hs, hwatched, h.targeted.served h.keyed hs, h.named.served hs⟩

lemma intact_new {l : List (Text × PoolConfig)} {t₀ : ℤ} (hl : Names l)
    (husers : ∀ p ∈ l, p.2.users.get [] = none) : Intact (new t₀ l) := by
  induction l using List.reverseRecOn with
  | nil => exact intact_empty
  | append_singleton l p ih =>
    obtain ⟨hinit, hplain, hne⟩ := hl.concat
    rw [new_concat]
    refine (ih hinit fun q hq => husers q (List.mem_append_left _ hq)).addEntries hplain
      (entriesOf_new_eq_nil hne) ?_
    exact husers p (List.mem_append_right _ (List.mem_singleton_self p))

lemma Keyed.hasBase (h : Keyed r) (hn : poolKeySeparator ∉ n) (hb : r.base n = some b) :
    r.HasBase n := by
  obtain ⟨c, p, t, rfl⟩ := h.base_eq hn hb
  exact ⟨_, hb, rfl, rfl⟩

lemma Intact.represented (h : Intact r) : Represented r where
  key _ _ hget := h.keyed.key hget
  keyOnce n hn n' hn' u u' heq :=
    poolKey_inj (h.keyed.plain_of_mem hn) (h.keyed.plain_of_mem hn') heq
  base k e hget := by
    obtain ⟨b, hb⟩ := h.keyed.base hget
    exact h.keyed.hasBase (h.keyed.plain hget) hb
  target db n hdb := by
    obtain ⟨b, hb⟩ := h.targeted db n hdb
    exact h.keyed.hasBase (h.keyed.target hdb) hb
  users k e hget hnil u dsn hdsn := by
    have hbase : r.base e.poolName = some e := by
      rw [PoolRegistry.base, ← hnil, ← h.keyed.key hget]
      exact hget
    have hid : e.config.identity u = some (e.config.withDSN dsn) := by
      rw [PoolConfig.identity, hdsn]
    obtain ⟨p, t, hentry⟩ := h.keyed.identity hbase (h.keyed.plain hget) hid
    exact ⟨_, hentry, rfl, rfl, rfl⟩
  watchers p hlt hdead := h.watched.stopped hlt hdead

end PoolRegistry

/-! ## Over time -/

/-- The form for a new pool has three fields for its configuration. -/
def PoolConfig.ofForm (dsn addr : Text) (limit : ℤ) : PoolConfig :=
  { PoolConfig.plain with backendDSN := dsn, backendAddr := addr, limit := limit }

namespace Registrar

variable {w w' : Registrar} {ev : RegistrarEvent}

/-- The configuration is one that a file gives the pool. -/
def FromFile (name : Text) (cfg : PoolConfig) : Prop :=
  ∃ files path file, loadConfig files path = .ok file ∧ file.pools.get name = some cfg

/-- Pools are configured by files and by the form for a new pool. -/
def Supplied : RegistrarEvent → Prop
  | .operate _ (.add name cfg) => FromFile name cfg ∨ ∃ dsn addr limit, cfg = .ofForm dsn addr limit
  | .operate _ (.reconfigure name cfg) => FromFile name cfg
  | _ => True

/-- Whoever resolves is given their own entry or the pool's. -/
structure ServesOwn (w : Registrar) : Prop where
  found : ∀ held db user key e, w.registry.lookup held db user = .found key e →
    w.registry.entries.get key = some e ∧ w.registry.byDatabase.get db = some e.poolName ∧
      (e.backendUser = user ∨ e.backendUser = [])
  create : ∀ held db user n u c, w.registry.lookup held db user = .create n u c →
    u = user ∧ w.registry.byDatabase.get db = some n
  created : ∀ now n u c res r', .create n u c ∈ w.asked →
    w.registry.createPassthroughEntry now n u c = (some res, r') →
    ∃ e, r'.entries.get res.key = some e ∧ e.pool = res.pool ∧ e.poolName = n ∧ e.backendUser = u

lemma users_nil_of_fromFile (h : FromFile name cfg) : cfg.users.get [] = none := by
  obtain ⟨files, path, file, hload, hget⟩ := h
  exact users_nil_of_accepted (accepted_of_loadConfig hload hget)

lemma intact_operate {call : OperatorCall} (h : r.Intact)
    (hsupplied : Supplied (.operate now call)) (hresize : ResizesPool r (.operate now call))
    (he : call.Effect now r r') : r'.Intact := by
  cases he with
  | @added name cfg hvalid hnone =>
    have hname := plain_of_validatePoolConfig hvalid
    refine h.addEntries hname ((h.keyed.entriesOf_eq_nil_iff hname).mpr hnone) ?_
    rcases hsupplied with hfile | ⟨dsn, addr, limit, rfl⟩
    · exact users_nil_of_fromFile hfile
    · rfl
  | same => exact h
  | replaced hvalid =>
    exact h.replace (plain_of_validatePoolConfig hvalid) (users_nil_of_fromFile hsupplied)
  | @resized name newLimit b hb =>
    have hname := h.keyed.plain_of_mem hresize
    -- the base entry is a configured one, so its configuration has no user without a name
    have hconfigured : b.passthrough = false := by
      obtain ⟨c, p, t, rfl⟩ := h.keyed.base_eq hname hb
      rfl
    exact h.replace hname (h.named _ b hb hconfigured)
  | removed hsome => exact h.takeEntries

/-- **One step of the registrar**, with pools resized by their names. -/
lemma intact_step (h : w.registry.Intact) (hsound : Sound w) (hsupplied : Supplied ev)
    (hresize : ResizesPool w.registry ev) (hs : step w ev = some w') : w'.registry.Intact := by
  cases ev with
  | operate now call =>
    obtain ⟨r, hr, rfl⟩ := Option.map_eq_some_iff.mp hs
    exact intact_operate h hsupplied hresize (OperatorCall.effect_of_apply hr)
  | ask held database user =>
    obtain rfl := Option.some.inj hs
    exact h
  | answer now i =>
    obtain ⟨l, hl, rfl⟩ := Option.map_eq_some_iff.mp hs
    refine h.served (served_answer fun {n u c} hcreate => ?_) ?_
    · exact hsound.asked (hcreate ▸ List.mem_of_getElem? hl)
    · cases l with
      | missing => exact h.watched
      | found key e => exact h.watched.stamp
      | create n u c => exact h.watched.create
  | sweep now idleFor active inUse =>
    obtain rfl := Option.some.inj hs
    exact h.served PoolRegistry.served_evictIdlePassthrough
      (PoolRegistry.evictIdlePassthrough_rule h.watched fun _ => h.watched.evictIdle)

/-- What `Resolve` may find. -/
lemma lookup_own (h : r.Intact) (hdb : r.byDatabase.get db = some n) (held : Text → Bool)
    (user : Text) :
    (∃ key e, r.lookup held db user = .found key e ∧ r.entries.get key = some e ∧
        e.poolName = n ∧ (e.backendUser = user ∨ e.backendUser = [])) ∨
      ∃ c, r.lookup held db user = .create n user c := by
  obtain ⟨b, hb⟩ := h.targeted db n hdb
  rcases h.keyed.lookup_cases hdb hb held user with ⟨u, c, p, t, hid, -, hget, hlook⟩ |
    ⟨-, ⟨e, hget, -, hpool, hlook⟩ | ⟨-, hlook⟩⟩
  · refine .inl ⟨_, _, hlook, hget, rfl, ?_⟩
    have hu : (PoolRegistry.backendIdentityFor held b.config user).1 = user ∨
        (PoolRegistry.backendIdentityFor held b.config user).1 = [] := by
      unfold PoolRegistry.backendIdentityFor
      split_ifs <;> simp
    rw [hid] at hu
    exact hu
  · refine .inl ⟨_, e, hlook, hget, hpool, .inl ?_⟩
    have hkey := h.keyed.key hget
    rw [hpool] at hkey
    exact (poolKey_inj_right hkey).symm
  · exact .inr ⟨b.config, hlook⟩

lemma route_of_lookup {held : Text → Bool} (h : r.lookup held db user ≠ .missing) :
    ∃ n, r.byDatabase.get db = some n := by
  cases hdb : r.byDatabase.get db with
  | some n => exact ⟨n, rfl⟩
  | none =>
    rw [PoolRegistry.lookup, hdb] at h
    exact absurd rfl h

lemma servesOwn_of_intact (h : w.registry.Intact) (hsound : Sound w) : ServesOwn w := by
  refine ⟨?_, ?_, ?_⟩
  · intro held db user key e hlook
    obtain ⟨n, hdb⟩ := route_of_lookup (by rw [hlook]; exact PoolRegistry.Lookup.noConfusion)
    rcases lookup_own h hdb held user with
      ⟨key', e', hlook', hget, hpool, huser⟩ | ⟨c, hlook'⟩
    · rw [hlook] at hlook'
      cases hlook'
      exact ⟨hget, hpool ▸ hdb, huser⟩
    · rw [hlook] at hlook'
      cases hlook'
  · intro held db user n u c hlook
    obtain ⟨n', hdb⟩ := route_of_lookup (by rw [hlook]; exact PoolRegistry.Lookup.noConfusion)
    rcases lookup_own h hdb held user with ⟨key', e', hlook', -⟩ | ⟨c', hlook'⟩
    · rw [hlook] at hlook'
      cases hlook'
    · rw [hlook] at hlook'
      cases hlook'
      exact ⟨rfl, hdb⟩
  · intro now n u c res r' hasked hcreate
    have hn := hsound.asked hasked
    unfold PoolRegistry.createPassthroughEntry at hcreate
    cases hget : w.registry.entries.get (poolKey n u) with
    | some e =>
      rw [hget] at hcreate
      cases hcreate
      obtain ⟨hpool, huser⟩ := poolKey_inj hn (h.keyed.plain hget) (h.keyed.key hget)
      exact ⟨e, hget, rfl, hpool.symm, huser.symm⟩
    | none =>
      rw [hget] at hcreate
      cases hb : w.registry.base n with
      | none =>
        rw [hb] at hcreate
        cases hcreate
      | some b =>
        rw [hb] at hcreate
        cases hcreate
        exact ⟨_, PoolRegistry.get_putEntry.trans (if_pos rfl), rfl, rfl, rfl⟩

lemma intact_of_reach {start : PoolRegistry} (h0 : start.Intact)
    (hw : (machine start).Reach
      (fun w ev => Supplied ev ∧ ResizesPool w.registry ev) w) :
    w.registry.Intact ∧ Sound w := by
  induction hw with
  | init hi =>
    obtain rfl : _ = _ := hi
    exact ⟨h0, h0.keyed, nofun⟩
  | step _ hev hs ih =>
    exact ⟨intact_step ih.1 ih.2 hev.1 hev.2 hs, ih.2.step hev.2 hs⟩

end Registrar

/-- **The representation invariant**, in every run in which pools are resized by their names, and
what `Resolve` returns in each of its states. -/
theorem registry_represented {files : Files} {path : Text} {cfg : Config}
    (hload : loadConfig files path = .ok cfg) {l : List (Text × PoolConfig)}
    (hl : l.Perm cfg.pools.pairs) (t₀ : ℤ) {w : Registrar}
    (hw : (Registrar.machine (.new t₀ l)).Reach
      (fun w ev => Registrar.Supplied ev ∧ Registrar.ResizesPool w.registry ev) w) :
    w.registry.Represented ∧ w.ServesOwn := by
  have hnames := PoolRegistry.names_of_perm hload hl
  have hstart : (PoolRegistry.new t₀ l).Intact := by
    refine PoolRegistry.intact_new hnames fun p hp => ?_
    exact users_nil_of_accepted
      (accepted_of_loadConfig hload (Table.mem_pairs.mp (hl.mem_iff.mp hp)))
  obtain ⟨hintact, hsound⟩ := Registrar.intact_of_reach hstart hw
  exact ⟨hintact.represented, Registrar.servesOwn_of_intact hintact hsound⟩

/-- A file with one pool, which one client has credentials of their own for. -/
def splitPool : Config :=
  .ofPools ⟨[("shop".toList, { PoolConfig.plain with
    scramPassthrough := true
    backendUsers := some ⟨[("alice".toList, "host=h".toList)], List.pairwise_singleton _ _⟩ })],
    List.pairwise_singleton _ _⟩

/-- A client whose name has a separator gets a pass-through pool, the pool is resized, and the
pass-through pool of the old size is gone with its watcher. -/
theorem registry_represented_resized : ∃ w : Registrar,
    w.registry.poolNames = ["shop".toList] ∧ w.registry.pools = 5 ∧
      w.registry.stopped = [0, 2, 1] ∧
      w.registry.Represented ∧ w.ServesOwn := by
  have hload : loadConfig (.all splitPool) [] = .ok splitPool := by rfl
  have h0 : (Registrar.machine (.new 0 splitPool.pools.pairs)).init
      ⟨.new 0 splitPool.pools.pairs, []⟩ := rfl
  have hview : ((Registrar.machine (.new 0 splitPool.pools.pairs)).run
      ⟨.new 0 splitPool.pools.pairs, []⟩ [.ask (fun _ => true) "shop".toList "a/b".toList,
        .answer 1 0]).bind (fun w => (w.step (.operate 2 (.resize "shop".toList 3))).map fun w' =>
          (w.registry.poolNames, w'.registry.poolNames, w'.registry.pools, w'.registry.stopped)) =
      some (["shop".toList], ["shop".toList], 5, [0, 2, 1]) := by decide
  obtain ⟨w, hrun, hview⟩ := Option.bind_eq_some_iff.mp hview
  obtain ⟨w', hstep, hw⟩ := Option.map_eq_some_iff.mp hview
  simp only [Prod.mk.injEq] at hw
  obtain ⟨hbefore, hnames, hpools, hstopped⟩ := hw
  have hreach : (Registrar.machine (.new 0 splitPool.pools.pairs)).Reach
      (fun w ev => Registrar.Supplied ev ∧ Registrar.ResizesPool w.registry ev) w := by
    refine (Machine.Reach.init h0).run hrun fun w ev hev => ?_
    rcases List.mem_pair.mp hev with rfl | rfl
    · exact ⟨trivial, trivial⟩
    · exact ⟨trivial, trivial⟩
  have hmem : "shop".toList ∈ w.registry.poolNames := by
    rw [hbefore]
    exact List.mem_singleton_self _
  have hguard : Registrar.Supplied (.operate 2 (.resize "shop".toList 3)) ∧
      Registrar.ResizesPool w.registry (.operate 2 (.resize "shop".toList 3)) := ⟨trivial, hmem⟩
  exact ⟨w', hnames, hpools, hstopped, registry_represented hload (List.Perm.refl _) 0
    (hreach.step hguard hstep)⟩

/-- `Resize` with the key of a user's identity: the entry under that key belongs to a pool of that
name now, the user has none, and the watcher of the old one is not stopped. -/
theorem resized_identity_is_overwritten :
    let r := PoolRegistry.new 0 splitPool.pools.pairs
    ∃ x, r.resize 1 "shop/alice".toList 3 = .ok x ∧ ¬x.2.Represented ∧
      x.2.poolNames = ["shop".toList, "shop/alice".toList] ∧ x.2.stopped = [] ∧
      (x.2.entries.get "shop/alice".toList).map (fun e => (e.poolName, e.backendUser, e.pool)) =
        some ("shop/alice".toList, [], 2) := by
  intro r
  have hview : (r.resize 1 "shop/alice".toList 3).toOption.map (fun x =>
      decide (x.2.poolNames = ["shop".toList, "shop/alice".toList] ∧ x.2.stopped = [] ∧
        (x.2.entries.get "shop/alice".toList).map (fun e => (e.poolName, e.backendUser, e.pool)) =
          some ("shop/alice".toList, [], 2))) = some true := by decide
  obtain ⟨x, hx, hdec⟩ := Option.map_eq_some_iff.mp hview
  obtain ⟨hnames, hstopped, hentry⟩ := of_decide_eq_true hdec
  refine ⟨x, toOption_eq_some.mp hx, fun h => ?_, hnames, hstopped, hentry⟩
  -- two pools of the registry, with one user of the first and none of the second, have one key
  have hsame := h.keyOnce "shop".toList (by simp [hnames]) "shop/alice".toList (by simp [hnames])
    "alice".toList [] (by decide)
  exact absurd hsame.2 (by decide)

end Pgman
