import Mathlib.Data.List.Pairwise
import Pgman.Construction.Backend.Reconcile
import Pgman.Properties.CurrentConfig
import Pgman.Properties.RegistryInvariant

/-!
# What a reload comes to

A reload takes aliases from one pool to another while both are in the registry, so between its
critical sections a name may lead to a pool that has it from the new file while another pool still
claims it from the old one.  `Routed` has room for that: `D` are the pools that are through.  When
all are through and the surplus ones are gone, the claims of the file decide (`Underway.inOrder`),
and two registries with the same base configurations resolve alike (`resolve_congr`).

Where the registry was not in order before, a reload need not repair it: a pool whose configuration
is that of the file is left alone, with whatever pass-through entries it has
(`reload_keeps_old_entry`), and a pool under the name of an entry goes with the entry of that name
(`reload_removes_resized_entry`).

A reload of the running file leaves everything alone, as far as `Reconfigure` accepts what
`loadConfig` has accepted; it refuses the empty name and some addresses
(`reload_refuses_running_file`).
-/

namespace Pgman

open Net (Text)

variable {name n user u k db : Text} {cfg c : PoolConfig} {r r' : PoolRegistry}
  {e b : RegistryEntry} {now : ℤ} {pools : Table Text PoolConfig}

namespace PoolRegistry

/-! ## Two registries that resolve alike -/

/-- What a client sees of the pool it is given. -/
def Resolved.seen (x : Resolved) : Text × PoolConfig := (x.key, x.config)

/-- Everything leads where it should, and pass-through entries are those of their pools. -/
structure InOrder (r : PoolRegistry) : Prop where
  keyed : Keyed r
  routed : Routed (fun _ => False) r
  current : Current r

lemma InOrder.byDatabase_le (h : InOrder r) (h' : InOrder r')
    (hbase : ∀ n, poolKeySeparator ∉ n →
      (r.base n).map (·.config) = (r'.base n).map (·.config))
    (hdb : r.byDatabase.get db = some n) : r'.byDatabase.get db = some n := by
  obtain ⟨b, hb, hmem⟩ := h.routed.claimed hdb
  have hn := h.keyed.target hdb
  have hsame := hbase n hn
  rw [hb, Option.map_some] at hsame
  obtain ⟨b', hb', hconfig⟩ := Option.map_eq_some_iff.mp hsame.symm
  obtain ⟨m, hm, rfl | hno⟩ := h'.routed.routed hb' hn (hconfig ▸ hmem)
  · exact hm
  · exact hno.elim

/-- What a client sees is decided by the configuration of the pool. -/
lemma InOrder.seen (h : InOrder r) (hdb : r.byDatabase.get db = some n) (hb : r.base n = some b)
    (t : ℤ) (held : Text → Bool) (user : Text) :
    (r.resolve t held db user).1.map Resolved.seen =
      some (if (backendIdentityFor held b.config user).2 then (poolKey n user, b.config)
        else (poolKey n (backendIdentityFor held b.config user).1,
          (b.config.identity (backendIdentityFor held b.config user).1).getD b.config)) := by
  rcases h.keyed.lookup_cases hdb hb held user with ⟨u, c, p, s, hid, hc, hget, hlook⟩ |
    ⟨hid, ⟨e, hget, hpass, hpool, hlook⟩ | ⟨hget, hlook⟩⟩
  · rw [resolve, hlook, Lookup.answer, hid, hc]
    rfl
  · rw [resolve, hlook, Lookup.answer, hid]
    have hconfig := (h.current.config hget hpass (hpool ▸ hb)).1
    simp [RegistryEntry.resolved, Resolved.seen, hconfig]
  · rw [resolve, hlook, Lookup.answer, hid]
    simp [createPassthroughEntry, hget, hb, Resolved.seen]

/-- **Registries with the same base configurations resolve alike.** -/
theorem resolve_congr (h : InOrder r) (h' : InOrder r')
    (hbase : ∀ n, poolKeySeparator ∉ n →
      (r.base n).map (·.config) = (r'.base n).map (·.config))
    (t : ℤ) (held : Text → Bool) (db user : Text) :
    (r.resolve t held db user).1.map Resolved.seen =
      (r'.resolve t held db user).1.map Resolved.seen := by
  cases hdb : r.byDatabase.get db with
  | none =>
    have hdb' : r'.byDatabase.get db = none := by
      by_contra hsome
      obtain ⟨m, hm⟩ := Option.ne_none_iff_exists'.mp hsome
      have hback := h'.byDatabase_le h (fun n hn => (hbase n hn).symm) hm
      rw [hdb] at hback
      cases hback
    simp [resolve, Lookup.answer, lookup, hdb, hdb']
  | some n =>
    have hdb' := h.byDatabase_le h' hbase hdb
    obtain ⟨b, hb, -⟩ := h.routed.claimed hdb
    obtain ⟨b', hb', -⟩ := h'.routed.claimed hdb'
    have hconfig : b.config = b'.config := by
      have hsame := hbase n (h.keyed.target hdb)
      rw [hb, hb'] at hsame
      exact Option.some.inj hsame
    rw [h.seen hdb hb, h'.seen hdb' hb', hconfig]

/-! ## A registry in between -/

/-- Pass-through entries are current, and a name that two pools claim leads to one of `D`. -/
structure Underway (D : Text → Prop) (r : PoolRegistry) : Prop where
  current : Current r
  routed : Routed D r

lemma Underway.mono {D D' : Text → Prop} (h : Underway D r) (hD : ∀ n, D n → D' n) :
    Underway D' r :=
  ⟨h.current, fun hb hn _ hdb =>
    (h.routed.routed hb hn hdb).imp fun _ hm => ⟨hm.1, hm.2.imp_right (hD _)⟩, h.routed.claimed⟩

/-- A pool is put in, and may take names from others. -/
lemma Underway.put {D D' : Text → Prop} (h : Underway D r) (hkeyed : Keyed r)
    (hn : poolKeySeparator ∉ n) (hfree : r.entriesOf n = []) (hD : ∀ m, D m → D' m) (hself : D' n) :
    Underway D' (r.addEntries now n cfg) :=
  ⟨h.current.addEntries hkeyed hn hfree,
    h.routed.addEntries hkeyed hn hfree hD fun _ _ _ _ _ _ _ _ => hself⟩

lemma Underway.take {D : Text → Prop} (h : Underway D r) (hkeyed : Keyed r)
    (hn : poolKeySeparator ∉ n) (hD : ¬D n) {old : List RegistryEntry} :
    Underway D ((r.takeEntries n).stopWatchers old) :=
  ⟨(h.current.takeEntries hkeyed).stopWatchers, (h.routed.takeEntries hkeyed hn hD).stopWatchers⟩

/-- When the pools are those of a file that claims no name twice, every name leads to the pool that
claims it. -/
lemma Underway.inOrder {D : Text → Prop} (h : Underway D r) (hkeyed : Keyed r)
    (hbase : ∀ n, poolKeySeparator ∉ n → (r.base n).map (·.config) = pools.get n)
    (hclaims : ClaimsDisjoint pools.pairs) : InOrder r := by
  refine ⟨hkeyed, ⟨?_, h.routed.claimed⟩, h.current⟩
  intro n b hb hn db hdb
  obtain ⟨m, hm, hor⟩ := h.routed.routed hb hn hdb
  refine ⟨m, hm, .inl ?_⟩
  rcases hor with rfl | -
  · rfl
  -- the route is another pool's, which claims the name as well
  obtain ⟨b', hb', hdb'⟩ := h.routed.claimed hm
  have hpool := hbase n hn
  have hpool' := hbase m (hkeyed.target hm)
  rw [hb, Option.map_some] at hpool
  rw [hb', Option.map_some] at hpool'
  by_contra hne
  have hsymm : Std.Symm fun p q : Text × PoolConfig =>
      ∀ db ∈ p.2.claims p.1, db ∉ q.2.claims q.1 := ⟨fun p q hpq db hq hp => hpq db hp hq⟩
  exact hclaims.forall (Table.mem_pairs.mpr hpool'.symm) (Table.mem_pairs.mpr hpool.symm)
    (fun heq => hne (congrArg Prod.fst heq)) db hdb' hdb

/-- The registry of a file, in whatever order its pools were added. -/
lemma base_new {l : List (Text × PoolConfig)} (hl : l.Perm pools.pairs)
    (haccepted : ∀ n cfg, pools.get n = some cfg → cfg.Accepted n) (t₀ : ℤ)
    (hn : poolKeySeparator ∉ n) : ((new t₀ l).base n).map (·.config) = pools.get n := by
  have hnames : Names l := by
    have hfile := names_of_accepted haccepted
    exact ⟨fun p hp => hfile.plain p (hl.mem_iff.mp hp),
      (hl.pairwise_iff fun {_ _} hne => hne.symm).mpr hfile.distinct⟩
  cases hpool : pools.get n with
  | some cfg =>
    have hid := identity_nil_of_users (users_nil_of_accepted (haccepted n cfg hpool))
    have hmem : (n, cfg) ∈ l := hl.mem_iff.mpr (Table.mem_pairs.mpr hpool)
    obtain ⟨p, hp⟩ : ∃ p, (addAll t₀ l empty).entries.get (poolKey n []) =
      some ⟨n, [], cfg, false, p, t₀⟩ := get_addAll_of_mem hnames hmem hid
    rw [new_eq_addAll, PoolRegistry.base, hp]
    rfl
  | none =>
    rw [Option.map_eq_none_iff]
    by_contra hsome
    obtain ⟨b, hb⟩ := Option.ne_none_iff_exists'.mp hsome
    obtain ⟨cfg, hmem, -⟩ := base_new_cases hnames hn hb
    rw [Table.mem_pairs.mp (hl.mem_iff.mp hmem)] at hpool
    cases hpool

end PoolRegistry

open PoolRegistry

namespace Reload

variable {s : Reload} {r₀ : PoolRegistry} {p : Text × PoolConfig}
  {done : List (Text × PoolConfig)}

/-! ## A reload without errors -/

lemma underway_applyPool (h : Underway (· ∈ done.map Prod.fst) s.registry)
    (hprogress : Progress r₀ done s) (hp : Turn r₀ done p) :
    Underway (· ∈ (done ++ [p]).map Prod.fst) (applyPool now r₀.poolNames s p).registry := by
  have hn := hp.accepted.name
  have hkeyed := hprogress.keyed
  have hmore : ∀ m, m ∈ done.map Prod.fst → m ∈ (done ++ [p]).map Prod.fst := fun m hm => by
    rw [List.map_append]
    exact List.mem_append_left _ hm
  have hself : p.1 ∈ (done ++ [p]).map Prod.fst :=
    List.mem_map_of_mem (List.mem_append_right _ (List.mem_singleton_self p))
  rw [applyPool_eq hp.known (hprogress.waiting p.1 hn hp.fresh [])]
  cases hfate : fate r₀ p with
  | refused err => exact h.mono hmore
  | unchanged => exact h.mono hmore
  | added => exact h.put hkeyed hn (hprogress.free hp hfate) hmore hself
  | reconfigured =>
    exact (h.take hkeyed hn hp.fresh).put hkeyed.takeEntries.stopWatchers hn
      (hkeyed.entriesOf_takeEntries hn) hmore hself

lemma underway_retirePool {D : Text → Prop} (h : Underway D s.registry)
    (hkeyed : s.registry.Keyed) (hn : poolKeySeparator ∉ name)
    (hD : pools.get name = none → ¬D name)
    (hthere : pools.get name = none → s.registry.entriesOf name ≠ []) :
    Underway D (retirePool pools s name).registry := by
  rw [retirePool_eq hthere]
  cases hpool : pools.get name with
  | some c => exact h
  | none => exact h.take hkeyed hn (hD hpool)

/-- A reload without errors ends with the registry of the file. -/
lemma run_inOrder (haccepted : ∀ n cfg, pools.get n = some cfg → cfg.Accepted n)
    (hclaims : ClaimsDisjoint pools.pairs) (h : InOrder r₀) (herrs : (run now pools r₀).errs = []) :
    InOrder (run now pools r₀).registry ∧ ∀ n, poolKeySeparator ∉ n →
      ((run now pools r₀).registry.base n).map (·.config) = pools.get n := by
  have hstart : Underway (fun _ => False) (start r₀).registry := ⟨h.current, h.routed⟩
  have hfile : Underway (· ∈ pools.pairs.map Prod.fst) (applied now pools r₀).registry :=
    (applyPools_rule h.keyed haccepted
      (P := fun done s => Underway (· ∈ done.map Prod.fst) s.registry)
      (hstart.mono fun _ => False.elim)
      fun hp hprogress hunder => underway_applyPool hunder hprogress hp).2
  obtain ⟨hretiring, hunder⟩ := retirePools_rule h.keyed haccepted
    (P := fun _ s => Underway (· ∈ pools.pairs.map Prod.fst) s.registry) hfile
    fun hretiring hname _ hthere hunder => underway_retirePool hunder hretiring.keyed
      (h.keyed.plain_of_mem hname) Table.not_mem_keys hthere
  have hbase : ∀ n, poolKeySeparator ∉ n →
      ((run now pools r₀).registry.base n).map (·.config) = pools.get n := fun n hn =>
    (reconciled_run h.keyed haccepted).base_of_errs herrs hn
  exact ⟨hunder.inOrder hretiring.keyed hbase hclaims, hbase⟩

end Reload

namespace Registrar

variable {w w' : Registrar} {ev : RegistrarEvent}

lemma inOrder_of_reach {start : PoolRegistry} (h0 : InOrder start)
    (hw : (machine start).Reach (fun w ev => Orderly w ev ∧ CreatesCurrent w ev) w) :
    InOrder w.registry := by
  have hkeyed : Sound ⟨start, []⟩ := ⟨h0.keyed, nofun⟩
  have hsettled := settled_of_reach ⟨hkeyed, h0.routed⟩ (hw.mono fun _ _ h => h.1)
  have hcurrent := upToDate_of_reach ⟨hkeyed, h0.current, nofun⟩
    (hw.mono fun _ _ h => ⟨h.1.2, h.2⟩)
  exact ⟨hsettled.keyed, hsettled.routed, hcurrent.current⟩

end Registrar

lemma inOrder_new {files : Files} {path : Text} {cfg : Config}
    (hload : loadConfig files path = .ok cfg) {l : List (Text × PoolConfig)}
    (hl : l.Perm cfg.pools.pairs) (hclaims : ClaimsDisjoint cfg.pools.pairs) (t₀ : ℤ) :
    InOrder (.new t₀ l) := by
  have hnames := names_of_perm hload hl
  have hdisjoint : ClaimsDisjoint l :=
    (hl.pairwise_iff fun {_ _} hpq db hq hp => hpq db hp hq).mpr hclaims
  exact ⟨keyed_new hnames, routed_new hnames hdisjoint, Registrar.current_new hnames⟩

/-- **Reloads converge.**  From every registry that is reached from a file's by steps that claim no
name twice, resize pools by name and make pass-through entries from what is current, a reload of a
file that claims no name twice ends, if it returns no error, with a registry that resolves like a
fresh one of that file. -/
theorem reload_converges {files₀ : Files} {path₀ : Text} {cfg₀ : Config}
    (hload₀ : loadConfig files₀ path₀ = .ok cfg₀) {l₀ : List (Text × PoolConfig)}
    (hl₀ : l₀.Perm cfg₀.pools.pairs) (hclaims₀ : ClaimsDisjoint cfg₀.pools.pairs) (t₀ : ℤ)
    {w : Registrar} (hw : (Registrar.machine (.new t₀ l₀)).Reach
      (fun w ev => Registrar.Orderly w ev ∧ Registrar.CreatesCurrent w ev) w)
    {files : Files} {path : Text} {cfg : Config} (hload : loadConfig files path = .ok cfg)
    (hclaims : ClaimsDisjoint cfg.pools.pairs) {s : Reload}
    (hs : applyConfigReload files path now w.registry = .ok s) (herrs : s.errs = [])
    {l : List (Text × PoolConfig)} (hl : l.Perm cfg.pools.pairs) (t₁ t : ℤ) (held : Text → Bool)
    (db user : Text) :
    (s.registry.resolve t held db user).1.map Resolved.seen =
      ((new t₁ l).resolve t held db user).1.map Resolved.seen := by
  have haccepted : ∀ n c, cfg.pools.get n = some c → c.Accepted n := fun _ _ =>
    accepted_of_loadConfig hload
  rw [applyConfigReload, hload] at hs
  obtain rfl : Reload.run now cfg.pools w.registry = s := Except.ok.inj hs
  have hstart := Registrar.inOrder_of_reach (inOrder_new hload₀ hl₀ hclaims₀ t₀) hw
  obtain ⟨horder, hbase⟩ := Reload.run_inOrder haccepted hclaims hstart herrs
  exact resolve_congr horder (inOrder_new hload hl hclaims t₁)
    (fun n hn => (hbase n hn).trans (base_new hl haccepted t₁ hn).symm) t held db user

/-- The files of the pools `a` and `b`. -/
def twoPoolFile (a b : PoolConfig) : Config :=
  .ofPools (.ofList [("a".toList, a), ("b".toList, b)])

/-- An alias goes from one pool to the other. -/
theorem reload_converges_alias :
    let cfg₀ := twoPoolFile { PoolConfig.plain with aliases := some ["x".toList] } .plain
    let cfg := twoPoolFile .plain { PoolConfig.plain with aliases := some ["x".toList] }
    ∃ s, applyConfigReload (.all cfg) [] 1 (new 0 cfg₀.pools.pairs) = .ok s ∧ s.errs = [] ∧
      s.registry.byDatabase.get "x".toList = some "b".toList ∧
      ∀ t held db user, (s.registry.resolve t held db user).1.map Resolved.seen =
        ((new 0 cfg.pools.pairs).resolve t held db user).1.map Resolved.seen := by
  intro cfg₀ cfg
  have hload₀ : loadConfig (.all cfg₀) [] = .ok cfg₀ := by rfl
  have hload : loadConfig (.all cfg) [] = .ok cfg := by rfl
  have hreload : applyConfigReload (.all cfg) [] 1 (new 0 cfg₀.pools.pairs) =
      .ok (Reload.run 1 cfg.pools (new 0 cfg₀.pools.pairs)) := by
    rw [applyConfigReload, hload]
    rfl
  have hview : (Reload.run 1 cfg.pools (new 0 cfg₀.pools.pairs)).errs = [] ∧
      (Reload.run 1 cfg.pools (new 0 cfg₀.pools.pairs)).registry.byDatabase.get "x".toList =
        some "b".toList := by decide
  refine ⟨_, hreload, hview.1, hview.2, fun t held db user => ?_⟩
  exact reload_converges (w := ⟨new 0 cfg₀.pools.pairs, []⟩) hload₀ (List.Perm.refl _) (by decide) 0
    (.init rfl) hload (by decide) hreload hview.1 (List.Perm.refl _) 0 t held db user

/-- A pool is resized between the two critical sections of a `Resolve`; a reload of a file with the
new limit finds the pool unchanged, and the client's entry keeps the old one. -/
theorem reload_keeps_old_entry :
    let cfg := Config.ofPools (.ofList [("a".toList,
      { PoolConfig.plain with limit := 5, scramPassthrough := true })])
    ∃ w, (Registrar.machine (passthroughStart none)).Reach Registrar.Orderly w ∧
      (Reload.run 3 cfg.pools w.registry).errs = [] ∧
      (((Reload.run 3 cfg.pools w.registry).registry.resolve 4 (fun _ => true) "a".toList
        "alice".toList).1.map fun x => x.config.limit) = some 1 ∧
      (((new 0 cfg.pools.pairs).resolve 4 (fun _ => true) "a".toList
        "alice".toList).1.map fun x => x.config.limit) = some 5 := by
  intro cfg
  have h0 : (Registrar.machine (passthroughStart none)).init ⟨passthroughStart none, []⟩ := rfl
  have hrun : (((Registrar.machine (passthroughStart none)).guarded Registrar.Orderly).run
      ⟨passthroughStart none, []⟩
      [.ask (fun _ => true) "a".toList "alice".toList, .operate 1 (.resize "a".toList 5),
        .answer 2 0]).map (fun w => decide
      ((Reload.run 3 cfg.pools w.registry).errs = [] ∧
      (((Reload.run 3 cfg.pools w.registry).registry.resolve 4 (fun _ => true) "a".toList
        "alice".toList).1.map fun x => x.config.limit) = some 1 ∧
      (((new 0 cfg.pools.pairs).resolve 4 (fun _ => true) "a".toList
        "alice".toList).1.map fun x => x.config.limit) = some 5)) = some true := by decide
  obtain ⟨w, hw, hview⟩ := Option.map_eq_some_iff.mp hrun
  exact ⟨w, Machine.reach_of_guarded_run h0 hw, of_decide_eq_true hview⟩

/-- An entry is resized by its key, which leaves a pool of that name; a reload of the running file
removes it, and with it the entry of the client. -/
theorem reload_removes_resized_entry :
    let cfg := passthroughPool (some (.ofList [("alice".toList, "d".toList)]))
    ∃ w, (Registrar.machine (new 0 cfg.pools.pairs)).Reachable w ∧
      (Reload.run 3 cfg.pools w.registry).errs = [] ∧
      ((Reload.run 3 cfg.pools w.registry).registry.resolve 4 (fun _ => true) "a".toList
        "alice".toList).1.isNone = true ∧
      ((new 0 cfg.pools.pairs).resolve 4 (fun _ => true) "a".toList
        "alice".toList).1.isSome = true := by
  intro cfg
  have h0 : (Registrar.machine (new 0 cfg.pools.pairs)).init ⟨new 0 cfg.pools.pairs, []⟩ := rfl
  have hrun : ((Registrar.machine (new 0 cfg.pools.pairs)).run ⟨new 0 cfg.pools.pairs, []⟩
      [.operate 1 (.resize "a/alice".toList 1)]).map (fun w => decide
      ((Reload.run 3 cfg.pools w.registry).errs = [] ∧
      ((Reload.run 3 cfg.pools w.registry).registry.resolve 4 (fun _ => true) "a".toList
        "alice".toList).1.isNone = true ∧
      ((new 0 cfg.pools.pairs).resolve 4 (fun _ => true) "a".toList
        "alice".toList).1.isSome = true)) = some true := by decide
  obtain ⟨w, hw, hview⟩ := Option.map_eq_some_iff.mp hrun
  exact ⟨w, Machine.reach_of_run h0 hw, of_decide_eq_true hview⟩

/-! ## The running file -/

/-- Clients do not change what pools are configured as. -/
lemma PoolRegistry.Served.config_base (hs : Served r r') (h : Keyed r)
    (hn : poolKeySeparator ∉ n) : (r'.base n).map (·.config) = (r.base n).map (·.config) := by
  cases hb : r.base n with
  | some b =>
    obtain ⟨t, hb'⟩ := hs.base h hn hb
    rw [hb']
    rfl
  | none =>
    rw [Option.map_none, Option.map_eq_none_iff]
    by_contra hsome
    obtain ⟨b, hb'⟩ := Option.ne_none_iff_exists'.mp hsome
    obtain ⟨t, hback⟩ := hs.base_inv hn hb'
    rw [hb] at hback
    cases hback

namespace Registrar

variable {w w' : Registrar} {ev : RegistrarEvent}

/-- What clients and the sweep do: they bring pass-through entries and take them. -/
def ByClients : RegistrarEvent → Bool
  | .ask .. | .answer .. | .sweep .. => true
  | _ => false

lemma served_of_byClients (h : Sound w) (hev : ByClients ev = true) (hs : step w ev = some w') :
    w.registry.Served w'.registry := by
  cases ev with
  | ask =>
    obtain rfl := Option.some.inj hs
    exact served_refl _
  | answer now i =>
    obtain ⟨l, hl, rfl⟩ := Option.map_eq_some_iff.mp hs
    exact served_answer fun hcreate => h.asked (hcreate ▸ List.mem_of_getElem? hl)
  | sweep =>
    obtain rfl := Option.some.inj hs
    exact served_evictIdlePassthrough
  | _ => cases hev

lemma resizesPool_of_byClients (hev : ByClients ev = true) : ResizesPool r ev := by
  cases ev with
  | operate => cases hev
  | _ => trivial

/-- The registry is in the hands of clients, its pools are those of the file. -/
structure Running (pools : Table Text PoolConfig) (w : Registrar) : Prop extends Sound w where
  base : ∀ n, poolKeySeparator ∉ n → (w.registry.base n).map (·.config) = pools.get n

lemma Running.step (h : Running pools w) (hev : ByClients ev = true) (hs : step w ev = some w') :
    Running pools w' :=
  ⟨h.toSound.step (resizesPool_of_byClients hev) hs, fun n hn =>
    ((served_of_byClients h.toSound hev hs).config_base h.keyed hn).trans (h.base n hn)⟩

end Registrar

/-- What `Reconfigure` asks of a pool beyond what `loadConfig` does. -/
lemma validatePoolConfig_of_accepted (h : cfg.Accepted name) :
    validatePoolConfig name cfg = .ok () ↔
      name ≠ [] ∧ validateBackendAddr cfg.backendAddr = .ok () := by
  unfold validatePoolConfig
  by_cases hname : name = []
  · simp [hname]
  · rw [if_neg hname, if_neg h.name, if_neg (not_or.mpr ⟨h.dsn, h.addr⟩),
      if_neg (not_le.mpr h.limit)]
    cases validateBackendAddr cfg.backendAddr with
    | error err => simp [Except.mapError]
    | ok x => simp [Except.mapError, hname]

namespace Reload

variable {current : List Text}

/-- Pools that have their configuration already. -/
lemma foldl_unchanged : ∀ {l : List (Text × PoolConfig)} {s : Reload},
    (∀ p ∈ l, p.1 ∈ current ∧ s.registry.reconfigure now p.1 p.2 = .ok ([], false, s.registry)) →
    l.foldl (applyPool now current) s =
      { s with result := { s.result with unchanged := s.result.unchanged ++ l.map Prod.fst } }
  | [], s, _ => by simp
  | p :: l, s, h => by
    obtain ⟨hmem, hrec⟩ := h p List.mem_cons_self
    have hstep : applyPool now current s p =
        { s with result := { s.result with unchanged := s.result.unchanged ++ [p.1] } } := by
      rw [applyPool, if_pos (List.contains_iff_mem.mpr hmem), hrec]
    have hregistry : (applyPool now current s p).registry = s.registry := by rw [hstep]
    have htail := foldl_unchanged (s := applyPool now current s p) (l := l) fun q hq => by
      rw [hregistry]
      exact h q (List.mem_cons_of_mem _ hq)
    rw [List.foldl_cons, htail, hstep]
    simp

lemma foldl_retire_of_mem : ∀ {l : List Text} {s : Reload},
    (∀ n ∈ l, (pools.get n).isSome = true) → l.foldl (retirePool pools) s = s
  | [], _, _ => rfl
  | n :: l, s, h => by
    rw [List.foldl_cons, retirePool, if_pos (h n List.mem_cons_self)]
    exact foldl_retire_of_mem fun m hm => h m (List.mem_cons_of_mem _ hm)

end Reload

/-- **Reloading the running file changes nothing** exactly if every pool of the file has a name and
an address that `validateBackendAddr` accepts: then no error is returned, every pool is reported
unchanged, nothing is drained and the registry is the one that was there. -/
theorem reload_running_file_iff {files : Files} {path : Text} {cfg : Config}
    (hload : loadConfig files path = .ok cfg) {l : List (Text × PoolConfig)}
    (hl : l.Perm cfg.pools.pairs) (t₀ : ℤ) {w : Registrar}
    (hw : (Registrar.machine (.new t₀ l)).Reach
      (fun _ ev => Registrar.ByClients ev = true) w) (now : ℤ) :
    (∃ s, applyConfigReload files path now w.registry = .ok s ∧ s.errs = [] ∧
      s.result = ⟨[], [], [], cfg.pools.keys⟩ ∧ s.drained = [] ∧ s.registry = w.registry) ↔
    ∀ n c, cfg.pools.get n = some c →
      n ≠ [] ∧ validateBackendAddr c.backendAddr = .ok () := by
  have haccepted : ∀ n c, cfg.pools.get n = some c → c.Accepted n := fun _ _ =>
    accepted_of_loadConfig hload
  have hrunning : Registrar.Running cfg.pools w := by
    induction hw with
    | init hi =>
      obtain rfl : _ = _ := hi
      exact ⟨⟨keyed_new (names_of_perm hload hl), nofun⟩, fun n hn => base_new hl haccepted t₀ hn⟩
    | step _ hev hs ih => exact ih.step hev hs
  have hreload : applyConfigReload files path now w.registry =
      .ok (Reload.run now cfg.pools w.registry) := by
    rw [applyConfigReload, hload]
    rfl
  constructor
  · rintro ⟨s, hs, herrs, -⟩ n c hc
    obtain rfl : Reload.run now cfg.pools w.registry = s := Except.ok.inj (hreload.symm.trans hs)
    have hreconciled : Reload.Reconciled cfg.pools w.registry (.run now cfg.pools w.registry) :=
      Reload.reconciled_run hrunning.keyed haccepted
    have hvalid := Reload.refusal_eq_none.mp (hreconciled.refusal herrs hc)
    exact (validatePoolConfig_of_accepted (haccepted n c hc)).mp hvalid
  · intro hvalid
    have hsame : ∀ p ∈ cfg.pools.pairs, p.1 ∈ w.registry.poolNames ∧
        w.registry.reconfigure now p.1 p.2 = .ok ([], false, w.registry) := by
      rintro ⟨n, c⟩ hp
      have hc := Table.mem_pairs.mp hp
      have hn := (haccepted n c hc).name
      have hbase := hrunning.base n hn
      rw [hc] at hbase
      obtain ⟨b, hb, hconfig⟩ := Option.map_eq_some_iff.mp hbase
      refine ⟨hrunning.keyed.mem_poolNames_of_base hn hb, reconfigure_eq_ok.mpr ⟨?_, b, hb, ?_⟩⟩
      · exact (validatePoolConfig_of_accepted (haccepted n c hc)).mpr (hvalid n c hc)
      · exact .inl ⟨hconfig, rfl⟩
    have hmem : ∀ n ∈ w.registry.poolNames, (cfg.pools.get n).isSome = true := by
      intro n hn
      obtain ⟨b, hb⟩ := hrunning.keyed.exists_base hn
      rw [← hrunning.base n (hrunning.keyed.plain_of_mem hn), hb]
      rfl
    refine ⟨_, hreload, ?_⟩
    rw [Reload.run, Reload.foldl_unchanged hsame, Reload.foldl_retire_of_mem hmem]
    exact ⟨rfl, rfl, rfl, rfl⟩

/-- A client has come in as itself since the start. -/
theorem reload_running_file_passthrough : ∃ w s,
    (Registrar.machine (passthroughStart none)).Reach
      (fun _ ev => Registrar.ByClients ev = true) w ∧
    (w.registry.entries.get "a/alice".toList).isSome = true ∧
    applyConfigReload (.all (passthroughPool none)) [] 3 w.registry = .ok s ∧ s.errs = [] ∧
    s.registry = w.registry := by
  have hload : loadConfig (.all (passthroughPool none)) [] = .ok (passthroughPool none) := by rfl
  have hrun : (((Registrar.machine (passthroughStart none)).guarded
      fun _ ev => Registrar.ByClients ev = true).run ⟨passthroughStart none, []⟩
      [.ask (fun _ => true) "a".toList "alice".toList, .answer 1 0]).map
      (fun w => (w.registry.entries.get "a/alice".toList).isSome) = some true := by decide
  obtain ⟨w, hrun, hsome⟩ := Option.map_eq_some_iff.mp hrun
  have hw := Machine.reach_of_guarded_run (M := Registrar.machine (passthroughStart none)) rfl hrun
  have hvalid : ∀ n c, (passthroughPool none).pools.get n = some c →
      n ≠ [] ∧ validateBackendAddr c.backendAddr = .ok () := by
    intro n c hc
    obtain ⟨rfl, rfl⟩ := Prod.mk.inj (List.mem_singleton.mp (Table.mem_pairs.mpr hc))
    exact ⟨by decide, by decide⟩
  obtain ⟨s, hs, herrs, -, -, hsame⟩ :=
    (reload_running_file_iff hload (List.Perm.refl _) 0 hw 3).mpr hvalid
  exact ⟨w, s, hw, hsome, hs, herrs, hsame⟩

/-- The proxy starts with the file and then refuses to reload it. -/
def RefusesRunning (cfg : Config) : Prop :=
  loadConfig (.all cfg) [] = .ok cfg ∧ ∃ s,
    applyConfigReload (.all cfg) [] 1 (new 0 cfg.pools.pairs) = .ok s ∧ s.errs ≠ []

lemma refusesRunning_of_errs {cfg : Config} (hload : loadConfig (.all cfg) [] = .ok cfg)
    (herrs : (Reload.run 1 cfg.pools (new 0 cfg.pools.pairs)).errs ≠ []) : RefusesRunning cfg := by
  refine ⟨hload, Reload.run 1 cfg.pools (new 0 cfg.pools.pairs), ?_, herrs⟩
  rw [applyConfigReload, hload]
  rfl

/-- Files that the proxy starts with and refuses to reload: one with a pool whose name is empty, and
one whose backend is at a link-local address. -/
theorem reload_refuses_running_file :
    RefusesRunning (.ofPools (.ofList [([], .plain)])) ∧
      RefusesRunning (.ofPools (.ofList [("a".toList,
        { PoolConfig.plain with backendAddr := "169.254.169.254:80".toList })])) :=
  ⟨refusesRunning_of_errs rfl (by decide), refusesRunning_of_errs rfl (by decide)⟩

end Pgman
