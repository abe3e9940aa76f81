import Pgman.Construction.Backend.Registry

/-!
# What the registry's operations leave

One lemma per operation and map: what `addEntries`, `takeEntries`, `stamp`, `evictIdle` and the
creation of a pass-through entry leave under a key and under a database name.  The rest of the
development sees the operations through these.

A key says which pool and which identity it belongs to (`poolKey_inj`) as long as no pool's name
contains the separator.  Fresh pools have fresh numbers.
-/

namespace Pgman

open Net (Text)

variable {name n user u k db : Text} {cfg : PoolConfig} {r r' : PoolRegistry} {e : RegistryEntry}
  {now : ℤ}

/-! ## Keys -/

@[simp] lemma poolKey_nil (name : Text) : poolKey name [] = name := if_pos rfl

lemma poolKey_of_ne (h : user ≠ []) : poolKey name user = name ++ poolKeySeparator :: user :=
  if_neg h

lemma poolKey_inj_right (h : poolKey name user = poolKey name u) : user = u := by
  by_cases huser : user = [] <;> by_cases hu : u = []
  · rw [huser, hu]
  · rw [huser, poolKey_nil, poolKey_of_ne hu] at h
    simp at h
  · rw [hu, poolKey_nil, poolKey_of_ne huser] at h
    simp at h
  · rw [poolKey_of_ne huser, poolKey_of_ne hu] at h
    simpa using h

/-- A name without separators ends at the first one. -/
lemma takeWhile_poolKey (h : poolKeySeparator ∉ name) :
    (poolKey name user).takeWhile (· ≠ poolKeySeparator) = name := by
  have hall : ∀ c ∈ name, decide (c ≠ poolKeySeparator) = true := by
    intro c hc
    exact decide_eq_true fun hsep => h (hsep ▸ hc)
  by_cases huser : user = []
  · rw [huser, poolKey_nil]
    exact List.takeWhile_eq_self_iff.mpr hall
  · rw [poolKey_of_ne huser, List.takeWhile_append_of_pos hall]
    simp

lemma poolKey_inj (hname : poolKeySeparator ∉ name) (hn : poolKeySeparator ∉ n)
    (h : poolKey name user = poolKey n u) : name = n ∧ user = u := by
  obtain rfl : name = n := by rw [← takeWhile_poolKey hname, h, takeWhile_poolKey hn]
  exact ⟨rfl, poolKey_inj_right h⟩

/-- The configuration under which `addEntries` makes the entry of an identity, if it makes one. -/
def PoolConfig.identity (cfg : PoolConfig) (user : Text) : Option PoolConfig :=
  match cfg.users.get user with
  | some dsn => some (cfg.withDSN dsn)
  | none => if user = [] then some cfg else none

lemma identity_nil (cfg : PoolConfig) : ∃ c, cfg.identity [] = some c := by
  unfold PoolConfig.identity
  split
  · exact ⟨_, rfl⟩
  · exact ⟨_, rfl⟩

lemma identity_nil_of_users {cfg : PoolConfig} (h : cfg.users.get [] = none) :
    cfg.identity [] = some cfg := by
  rw [PoolConfig.identity, h]
  rfl

/-- The users of a pool in an accepted file have names. -/
lemma users_nil_of_accepted {cfg : PoolConfig} {name : Text} (h : cfg.Accepted name) :
    cfg.users.get [] = none := by
  by_contra hsome
  obtain ⟨dsn, hdsn⟩ := Option.ne_none_iff_exists'.mp hsome
  exact (h.users [] dsn hdsn).1 rfl

namespace PoolRegistry

/-! ## Adding a pool -/

lemma get_foldl_set {names : List Text} : ∀ {t : Table Text Text},
    (names.foldl (fun t db => t.set db n) t).get db = if db ∈ names then some n else t.get db := by
  induction names with
  | nil => intro t; rfl
  | cons a names ih =>
    intro t
    rw [List.foldl_cons, ih, Table.get_set]
    by_cases hmem : db ∈ names
    · rw [if_pos hmem, if_pos (List.mem_cons_of_mem _ hmem)]
    · rw [if_neg hmem]
      by_cases ha : db = a
      · rw [if_pos ha, if_pos (ha ▸ List.mem_cons_self)]
      · rw [if_neg ha, if_neg fun h => (List.mem_cons.mp h).elim ha hmem]

lemma get_route {t : Table Text Text} :
    (route name cfg t).get db = if db ∈ cfg.claims name then some name else t.get db :=
  get_foldl_set

/-- The entries of `backend_users`, put one by one. -/
def putUsers (now : ℤ) (name : Text) (cfg : PoolConfig) (l : List (Text × Text))
    (r : PoolRegistry) : PoolRegistry :=
  l.foldl (fun r p => r.putEntry now name p.1 (cfg.withDSN p.2) false) r

lemma addEntries_eq (now : ℤ) (name : Text) (cfg : PoolConfig) (r : PoolRegistry) :
    r.addEntries now name cfg =
      putUsers now name cfg cfg.users.pairs
        (putEntry now name [] cfg false { r with byDatabase := route name cfg r.byDatabase }) := rfl

/-- What every `putEntry` of a new pool keeps is kept by `addEntries`. -/
lemma addEntries_rule {Q : PoolRegistry → Prop}
    (h0 : Q { r with byDatabase := route name cfg r.byDatabase })
    (hput : ∀ r user c, Q r → Q (putEntry now name user c false r)) :
    Q (r.addEntries now name cfg) := by
  rw [addEntries_eq]
  have hbase := hput _ [] cfg h0
  generalize putEntry now name [] cfg false
    { r with byDatabase := route name cfg r.byDatabase } = r' at hbase
  generalize cfg.users.pairs = l
  induction l generalizing r' with
  | nil => exact hbase
  | cons p l ih => exact ih _ (hput r' _ _ hbase)

lemma byDatabase_putUsers : ∀ {l : List (Text × Text)} {r : PoolRegistry},
    (putUsers now name cfg l r).byDatabase = r.byDatabase
  | [], _ => rfl
  | _ :: l, _ => byDatabase_putUsers (l := l)

@[simp] lemma byDatabase_addEntries :
    (r.addEntries now name cfg).byDatabase = route name cfg r.byDatabase := by
  rw [addEntries_eq, byDatabase_putUsers]
  rfl

lemma get_putEntry {c : PoolConfig} {pt : Bool} :
    (r.putEntry now name user c pt).entries.get k =
      if k = poolKey name user then some ⟨name, user, c, pt, r.pools, now⟩
      else r.entries.get k :=
  Table.get_set

lemma get_putUsers_of_ne : ∀ {l : List (Text × Text)} {r : PoolRegistry},
    (∀ p ∈ l, k ≠ poolKey name p.1) →
      (putUsers now name cfg l r).entries.get k = r.entries.get k
  | [], _, _ => rfl
  | p :: l, r, h => by
    have hrest : (putUsers now name cfg (p :: l) r).entries.get k =
        (r.putEntry now name p.1 (cfg.withDSN p.2) false).entries.get k :=
      get_putUsers_of_ne fun q hq => h q (List.mem_cons_of_mem _ hq)
    rw [hrest, get_putEntry, if_neg (h p List.mem_cons_self)]

lemma get_putUsers_of_mem {dsn : Text} : ∀ {l : List (Text × Text)} {r : PoolRegistry},
    l.Pairwise (fun p q => p.1 < q.1) → (user, dsn) ∈ l →
      ∃ p, (putUsers now name cfg l r).entries.get (poolKey name user) =
        some ⟨name, user, cfg.withDSN dsn, false, p, now⟩
  | q :: l, r, hs, hmem => by
    obtain ⟨hq, hl⟩ := List.pairwise_cons.mp hs
    rcases List.mem_cons.mp hmem with rfl | hmem
    · -- no later user has this name
      have hne : ∀ p ∈ l, poolKey name user ≠ poolKey name p.1 :=
        fun p hp heq => (hq p hp).ne (poolKey_inj_right heq)
      have hrest : (putUsers now name cfg ((user, dsn) :: l) r).entries.get (poolKey name user) =
          (r.putEntry now name user (cfg.withDSN dsn) false).entries.get (poolKey name user) :=
        get_putUsers_of_ne hne
      rw [hrest, get_putEntry, if_pos rfl]
      exact ⟨_, rfl⟩
    · have hrest := get_putUsers_of_mem (r := r.putEntry now name q.1 (cfg.withDSN q.2) false)
        hl hmem
      exact hrest

/-- Each identity of the configuration gets an entry. -/
lemma get_addEntries_of_identity {c : PoolConfig} (h : cfg.identity user = some c) :
    ∃ p, (r.addEntries now name cfg).entries.get (poolKey name user) =
      some ⟨name, user, c, false, p, now⟩ := by
  rw [addEntries_eq]
  unfold PoolConfig.identity at h
  split at h
  · next dsn hdsn =>
    cases h
    exact get_putUsers_of_mem cfg.users.sorted (Table.mem_pairs.mpr hdsn)
  · next hnone =>
    split at h
    · next huser =>
      subst huser
      cases h
      -- nobody's name is empty, so the base entry stays
      have hne : ∀ p ∈ cfg.users.pairs, poolKey name [] ≠ poolKey name p.1 := by
        rintro ⟨u, dsn⟩ hp heq
        obtain rfl := poolKey_inj_right heq
        rw [Table.mem_pairs.mp hp] at hnone
        cases hnone
      rw [get_putUsers_of_ne hne, get_putEntry, if_pos rfl]
      exact ⟨_, rfl⟩
    · cases h

/-- No other key is touched. -/
lemma get_addEntries_of_ne (h : ∀ u c, cfg.identity u = some c → k ≠ poolKey name u) :
    (r.addEntries now name cfg).entries.get k = r.entries.get k := by
  have hbase : k ≠ poolKey name [] := by
    cases hu : cfg.users.get [] with
    | none => exact h [] cfg (by rw [PoolConfig.identity, hu]; rfl)
    | some dsn => exact h [] _ (by rw [PoolConfig.identity, hu])
  have husers : ∀ p ∈ cfg.users.pairs, k ≠ poolKey name p.1 := by
    rintro ⟨u, dsn⟩ hp
    exact h u (cfg.withDSN dsn) (by rw [PoolConfig.identity, Table.mem_pairs.mp hp])
  rw [addEntries_eq, get_putUsers_of_ne husers, get_putEntry, if_neg hbase]

/-- What stands under a key after a pool was added. -/
lemma get_addEntries_cases (h : (r.addEntries now name cfg).entries.get k = some e) :
    (∃ u c p, cfg.identity u = some c ∧ k = poolKey name u ∧
        e = ⟨name, u, c, false, p, now⟩) ∨
      r.entries.get k = some e ∧ ∀ u c, cfg.identity u = some c → k ≠ poolKey name u := by
  by_cases hk : ∀ u c, cfg.identity u = some c → k ≠ poolKey name u
  · rw [get_addEntries_of_ne hk] at h
    exact .inr ⟨h, hk⟩
  · push Not at hk
    obtain ⟨u, c, hid, rfl⟩ := hk
    obtain ⟨p, hp⟩ : ∃ p, (r.addEntries now name cfg).entries.get (poolKey name u) =
        some ⟨name, u, c, false, p, now⟩ := get_addEntries_of_identity hid
    rw [hp] at h
    cases h
    exact .inl ⟨u, c, p, hid, rfl, rfl⟩

/-! ## Taking a pool out -/

lemma mem_entriesOf : e ∈ r.entriesOf name ↔ e.poolName = name ∧ ∃ k, r.entries.get k = some e := by
  unfold entriesOf
  rw [List.mem_filter, List.mem_map, decide_eq_true_iff, and_comm]
  refine and_congr_right fun _ => ?_
  constructor
  · rintro ⟨⟨k, e'⟩, hmem, rfl⟩
    exact ⟨k, Table.mem_pairs.mp hmem⟩
  · rintro ⟨k, hk⟩
    exact ⟨(k, e), Table.mem_pairs.mpr hk, rfl⟩

lemma entriesOf_eq_nil : r.entriesOf name = [] ↔ ∀ k e, r.entries.get k = some e →
    e.poolName ≠ name := by
  rw [List.eq_nil_iff_forall_not_mem]
  constructor
  · intro h k e hk hname
    exact h e (mem_entriesOf.mpr ⟨hname, k, hk⟩)
  · intro h e he
    obtain ⟨hname, k, hk⟩ := mem_entriesOf.mp he
    exact h k e hk hname

lemma get_takeEntries : (r.takeEntries name).entries.get k =
    (r.entries.get k).filter fun e => e.poolName ≠ name := by
  unfold takeEntries
  split_ifs with hnil
  · cases hk : r.entries.get k with
    | none => rfl
    | some e =>
      rw [Option.filter_some, if_pos (decide_eq_true (entriesOf_eq_nil.mp hnil k e hk))]
  · exact Table.get_keep

lemma byDatabase_takeEntries (h : r.entriesOf name ≠ []) :
    (r.takeEntries name).byDatabase.get db =
      (r.byDatabase.get db).filter fun target => target ≠ name := by
  rw [takeEntries, if_neg h]
  exact Table.get_keep

@[simp] lemma entries_stopWatchers {old : List RegistryEntry} :
    (r.stopWatchers old).entries = r.entries := rfl

@[simp] lemma byDatabase_stopWatchers {old : List RegistryEntry} :
    (r.stopWatchers old).byDatabase = r.byDatabase := rfl

/-- `EvictIdlePassthrough` does nothing, or evicts. -/
lemma evictIdlePassthrough_rule {Q : PoolRegistry → Prop} {idleFor : ℤ} {active : Text → Bool}
    {inUse : ℕ → ℕ} (hsame : Q r) (hevict : ∀ cutoff, Q (r.evictIdle cutoff active inUse).2) :
    Q (r.evictIdlePassthrough now idleFor active inUse).2 := by
  unfold evictIdlePassthrough
  split_ifs
  · exact hsame
  · exact hevict _

/-! ## A registry built at startup -/

/-- The pools of a list, added one after the other. -/
def addAll (now : ℤ) (l : List (Text × PoolConfig)) (r : PoolRegistry) : PoolRegistry :=
  l.foldl (fun r p => r.addEntries now p.1 p.2) r

lemma new_eq_addAll (now : ℤ) (l : List (Text × PoolConfig)) : new now l = addAll now l empty := rfl

lemma addAll_cons (now : ℤ) (p : Text × PoolConfig) (l : List (Text × PoolConfig))
    (r : PoolRegistry) : addAll now (p :: l) r = addAll now l (r.addEntries now p.1 p.2) := rfl

/-- The names in a configuration: no separators, and each name once. -/
structure Names (l : List (Text × PoolConfig)) : Prop where
  plain : ∀ p ∈ l, poolKeySeparator ∉ p.1
  distinct : l.Pairwise fun p q => p.1 ≠ q.1

lemma Names.tail {p : Text × PoolConfig} {l : List (Text × PoolConfig)} (h : Names (p :: l)) :
    Names l :=
  ⟨fun q hq => h.plain q (.tail _ hq), (List.pairwise_cons.mp h.distinct).2⟩

lemma get_addAll_of_ne {l : List (Text × PoolConfig)} {r : PoolRegistry}
    (h : ∀ p ∈ l, ∀ u, k ≠ poolKey p.1 u) : (addAll now l r).entries.get k = r.entries.get k := by
  induction l generalizing r with
  | nil => rfl
  | cons p l ih =>
    rw [addAll_cons, ih fun q hq => h q (.tail _ hq), get_addEntries_of_ne fun u c _ =>
      h p (.head _) u]

/-- Every identity of every configured pool has its entry. -/
lemma get_addAll_of_mem {l : List (Text × PoolConfig)} {r : PoolRegistry} {c : PoolConfig}
    (hl : Names l) (hmem : (name, cfg) ∈ l) (hid : cfg.identity user = some c) :
    ∃ p, (addAll now l r).entries.get (poolKey name user) =
      some ⟨name, user, c, false, p, now⟩ := by
  induction l generalizing r with
  | nil => cases hmem
  | cons q l ih =>
    rcases List.mem_cons.mp hmem with rfl | hmem
    · -- no later pool has this name
      obtain ⟨hne, -⟩ := List.pairwise_cons.mp hl.distinct
      have hkey : ∀ q ∈ l, ∀ u, poolKey name user ≠ poolKey q.1 u := fun q hq u heq =>
        hne q hq (poolKey_inj (hl.plain _ (.head _)) (hl.plain _ (.tail _ hq)) heq).1
      rw [addAll_cons, get_addAll_of_ne hkey]
      exact get_addEntries_of_identity hid
    · exact ih hl.tail hmem

/-- Every entry is one of an identity of a configured pool, or was there before. -/
lemma get_addAll_cases {l : List (Text × PoolConfig)} {r : PoolRegistry}
    (h : (addAll now l r).entries.get k = some e) :
    (∃ n cfg u c p, (n, cfg) ∈ l ∧ cfg.identity u = some c ∧ k = poolKey n u ∧
        e = ⟨n, u, c, false, p, now⟩) ∨ r.entries.get k = some e := by
  induction l generalizing r with
  | nil => exact .inr h
  | cons q l ih =>
    rcases ih h with ⟨n, cfg, u, c, p, hmem, hrest⟩ | hold
    · exact .inl ⟨n, cfg, u, c, p, .tail _ hmem, hrest⟩
    · rcases get_addEntries_cases hold with ⟨u, c, p, hid, hk, he⟩ | ⟨hold, -⟩
      · exact .inl ⟨q.1, q.2, u, c, p, .head _, hid, hk, he⟩
      · exact .inr hold

/-- Every route leads to a configured pool, or was there before. -/
lemma byDatabase_addAll_cases {l : List (Text × PoolConfig)} {r : PoolRegistry}
    (h : (addAll now l r).byDatabase.get db = some n) :
    (∃ cfg, (n, cfg) ∈ l ∧ db ∈ cfg.claims n) ∨ r.byDatabase.get db = some n := by
  induction l generalizing r with
  | nil => exact .inr h
  | cons q l ih =>
    rcases ih h with ⟨cfg, hmem, hdb⟩ | hold
    · exact .inl ⟨cfg, .tail _ hmem, hdb⟩
    · rw [byDatabase_addEntries, get_route] at hold
      split_ifs at hold with hclaim
      · cases hold
        exact .inl ⟨q.2, .head _, hclaim⟩
      · exact .inr hold

/-- The pools of a file that `loadConfig` accepts. -/
lemma names_of_accepted {pools : Table Text PoolConfig}
    (h : ∀ name pc, pools.get name = some pc → pc.Accepted name) : Names pools.pairs where
  plain p hp := (h p.1 p.2 (Table.mem_pairs.mp hp)).name
  distinct := pools.sorted.imp fun hlt => hlt.ne

/-! ## Pool objects -/

/-- Every entry has a pool object of its own, given out before. -/
structure Numbered (r : PoolRegistry) : Prop where
  given : ∀ {k e}, r.entries.get k = some e → e.pool < r.pools
  distinct : ∀ {k k' e e'}, r.entries.get k = some e → r.entries.get k' = some e' →
    e.pool = e'.pool → k = k'

lemma numbered_empty : Numbered empty := by
  refine ⟨?_, ?_⟩
  · intro k e hk
    cases hk
  · intro k k' e e' hk
    cases hk

/-- No entry is new or has another pool object. -/
lemma Numbered.of_get (h : Numbered r) (hpools : r'.pools = r.pools)
    (hget : ∀ {k e'}, r'.entries.get k = some e' →
      ∃ e, r.entries.get k = some e ∧ e'.pool = e.pool) : Numbered r' := by
  refine ⟨?_, ?_⟩
  · intro k e' hk
    obtain ⟨e, he, hpool⟩ := hget hk
    rw [hpools, hpool]
    exact h.given he
  · intro k k' e₁ e₂ h₁ h₂ heq
    obtain ⟨f₁, hf₁, hp₁⟩ := hget h₁
    obtain ⟨f₂, hf₂, hp₂⟩ := hget h₂
    exact h.distinct hf₁ hf₂ (hp₁.symm.trans (heq.trans hp₂))

/-- An entry is put in a place, free or not. -/
lemma Numbered.put {c : PoolConfig} {pt : Bool} (h : Numbered r) :
    Numbered (r.putEntry now name user c pt) := by
  refine ⟨?_, ?_⟩
  · intro k e hk
    rw [get_putEntry] at hk
    split_ifs at hk
    · obtain rfl := Option.some.inj hk
      exact Nat.lt_succ_self _
    · exact Nat.lt_succ_of_lt (h.given hk)
  · intro k k' e e' hk hk' heq
    rw [get_putEntry] at hk hk'
    split_ifs at hk hk' with hnew hnew' hnew'
    · exact hnew.trans hnew'.symm
    · obtain rfl := Option.some.inj hk
      exact absurd (h.given hk') (heq ▸ Nat.lt_irrefl _)
    · obtain rfl := Option.some.inj hk'
      exact absurd (h.given hk) (heq ▸ Nat.lt_irrefl _)
    · exact h.distinct hk hk' heq

end PoolRegistry

end Pgman
