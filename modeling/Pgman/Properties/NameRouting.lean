import Pgman.Construction.Backend.Changes

/-!
# Names and the pools they lead to

Pool names and aliases share one map, which a new pool overwrites and a removal prunes by target.
So a name that two pools claim leads to the one that came last, and to nothing once that one goes,
whether or not it is the other pool's own name.  `Resize` finds its pool by registry key, and the
key of a user's identity is as good to it as a pool's name: it then makes a pool of that name.

Without the two every name stays with its pool: `names_route_home`, for every order in which the
pools of a file are added and every interleaving of the operator's calls with those of `Resolve` and
the sweeps of pass-through pools.
-/

namespace Pgman

open Net (Text)

/-- Every pool is reached by its name, and by each alias that is not the name of another. -/
structure RoutesHome (r : PoolRegistry) : Prop where
  own : ∀ n ∈ r.poolNames, r.ResolvesTo n n
  aliases : ∀ n ∈ r.poolNames, ∀ b ∈ r.base n, ∀ a ∈ b.config.aliasNames,
    (a ∈ r.poolNames → a = n) → r.ResolvesTo a n ∨
      ∃ m ∈ r.poolNames, ∃ b' ∈ r.base m, a ∈ b'.config.aliasNames ∧ r.ResolvesTo a m

/-- The pool is added and taken out again, by two calls that meet `C`, and every name leads where it
led before. -/
def ComesAndGoes (C : Registrar → RegistrarEvent → Prop) (w : Registrar) : Prop :=
  ∀ now now' name cfg w₁ w₂, C w (.operate now (.add name cfg)) →
    w.step (.operate now (.add name cfg)) = some w₁ → C w₁ (.operate now' (.remove name)) →
    w₁.step (.operate now' (.remove name)) = some w₂ →
    ∀ held db user, w₂.registry.lookup held db user = w.registry.lookup held db user

namespace PoolRegistry

variable {r : PoolRegistry} {name n : Text} {cfg : PoolConfig} {now : ℤ}
  {old : List RegistryEntry}

lemma routesHome_of_routed (h : Keyed r) (hr : Routed (fun _ => False) r) : RoutesHome r := by
  -- a claimed name leads to the pool that claims it
  have hclaim : ∀ {n b}, n ∈ r.poolNames → r.base n = some b → ∀ {db}, db ∈ b.config.claims n →
      r.ResolvesTo db n := by
    intro n b hn hb db hdb
    obtain ⟨m, hm, rfl | hno⟩ := hr.routed hb (h.plain_of_mem hn) hdb
    · exact h.resolvesTo hm hb
    · exact hno.elim
  constructor
  · intro n hn
    obtain ⟨b, hb⟩ := h.exists_base hn
    exact hclaim hn hb List.mem_cons_self
  · intro n hn b hb a ha _
    exact .inl (hclaim hn hb (List.mem_cons_of_mem _ ha))

/-- What a pool brought along goes with it. -/
lemma entries_takeEntries_addEntries (h : Keyed r) (hname : poolKeySeparator ∉ name)
    (hnew : r.entriesOf name = []) :
    ((r.addEntries now name cfg).takeEntries name).entries = r.entries := by
  have hold : ∀ {k e}, r.entries.get k = some e → e.poolName ≠ name :=
    fun {k e} hget => entriesOf_eq_nil.mp hnew k e hget
  refine Table.ext_get fun k => ?_
  cases hget : r.entries.get k with
  | some e =>
    have hkey : ∀ u c, cfg.identity u = some c → k ≠ poolKey name u := by
      rintro u c - rfl
      exact hold hget (poolKey_inj hname (h.plain hget) (h.key hget)).1.symm
    exact get_takeEntries_some.mpr ⟨(get_addEntries_of_ne hkey).trans hget, hold hget⟩
  | none =>
    by_contra hsome
    obtain ⟨e, he⟩ := Option.ne_none_iff_exists'.mp hsome
    obtain ⟨hadd, hne⟩ := get_takeEntries_some.mp he
    rcases get_addEntries_cases hadd with ⟨u, c, p, -, -, rfl⟩ | ⟨hold, -⟩
    · exact hne rfl
    · rw [hget] at hold
      cases hold

lemma byDatabase_takeEntries_addEntries (h : Keyed r) (hr : Routed (fun _ => False) r)
    (hname : poolKeySeparator ∉ name) (hnew : r.entriesOf name = [])
    (hclaims : r.Unclaimed name cfg) :
    ((r.addEntries now name cfg).takeEntries name).byDatabase = r.byDatabase := by
  have hnone : r.base name = none := (h.entriesOf_eq_nil_iff hname).mp hnew
  have hsome : (r.addEntries now name cfg).entriesOf name ≠ [] := by
    obtain ⟨c, p, -, hbase⟩ : ∃ c p, cfg.identity [] = some c ∧
      (r.addEntries now name cfg).base name = some ⟨name, [], c, false, p, now⟩ :=
        base_addEntries_self
    rw [ne_eq, (h.addEntries hname hnew).entriesOf_eq_nil_iff hname, hbase]
    exact Option.some_ne_none _
  refine Table.ext_get fun db => ?_
  rw [byDatabase_takeEntries hsome, byDatabase_addEntries, get_route]
  cases hdb : r.byDatabase.get db with
  | none =>
    split_ifs
    · rw [Option.filter_some, if_neg (by simp)]
    · rw [Option.filter_none]
  | some n =>
    obtain ⟨b, hb, hmem⟩ := hr.claimed hdb
    have hne : n ≠ name := by
      rintro rfl
      rw [hnone] at hb
      cases hb
    have hn : n ∈ r.poolNames := h.mem_poolNames_of_base (h.target hdb) hb
    rw [if_neg (hclaims n hn hne b hb db hmem), Option.filter_some, if_pos (decide_eq_true hne)]

end PoolRegistry

/-- **Names lead to their pools**, after any calls that leave no name claimed twice and resize pools
by their names, in whatever order the pools of the file were added. -/
theorem names_route_home {files : Files} {path : Text} {cfg : Config}
    (hload : loadConfig files path = .ok cfg) {l : List (Text × PoolConfig)}
    (hl : l.Perm cfg.pools.pairs) (hclaims : PoolRegistry.ClaimsDisjoint l) (t₀ : ℤ) {w : Registrar}
    (hw : (Registrar.machine (.new t₀ l)).Reach Registrar.Orderly w) :
    RoutesHome w.registry ∧ ComesAndGoes Registrar.Orderly w := by
  have hw := Registrar.settled_of_reach (Registrar.settled_start hload hl hclaims t₀) hw
  refine ⟨PoolRegistry.routesHome_of_routed hw.keyed hw.routed, ?_⟩
  intro now now' name cfg w₁ w₂ hC h₁ _ h₂ held db user
  obtain ⟨r, hadd, rfl⟩ := Option.map_eq_some_iff.mp h₁
  obtain ⟨r', hremove, rfl⟩ := Option.map_eq_some_iff.mp h₂
  cases OperatorCall.effect_of_apply hadd with | added hvalid hnone =>
  cases OperatorCall.effect_of_apply hremove with | removed hsome =>
  have hname := plain_of_validatePoolConfig hvalid
  have hnew := (hw.keyed.entriesOf_eq_nil_iff hname).mpr hnone
  exact PoolRegistry.lookup_congr
    (PoolRegistry.entries_takeEntries_addEntries hw.keyed hname hnew)
    (PoolRegistry.byDatabase_takeEntries_addEntries hw.keyed hw.routed hname hnew hC.1) held db user

/-- A file with the pools `a`, which has another name, and `b`. -/
def twoPools (other : Text) : Config :=
  .ofPools ⟨[("a".toList, { PoolConfig.plain with aliases := some [other] }),
    ("b".toList, .plain)], by simp; decide⟩

theorem names_route_home_changes : ∃ w, (Registrar.machine (.new 0
      (twoPools "x".toList).pools.pairs.reverse)).Reach Registrar.Orderly w ∧
    RoutesHome w.registry ∧ ComesAndGoes Registrar.Orderly w := by
  have hload : loadConfig (.all (twoPools "x".toList)) [] = .ok (twoPools "x".toList) := by rfl
  have h0 : (Registrar.machine (.new 0 (twoPools "x".toList).pools.pairs.reverse)).init
      ⟨.new 0 (twoPools "x".toList).pools.pairs.reverse, []⟩ := rfl
  obtain ⟨w, hrun, -⟩ := Option.map_eq_some_iff.mp
    (show ((((Registrar.machine (.new 0 (twoPools "x".toList).pools.pairs.reverse)).guarded
        Registrar.Orderly).run ⟨.new 0 (twoPools "x".toList).pools.pairs.reverse, []⟩
      [.operate 1 (.add "c".toList .plain), .operate 2 (.resize "a".toList 3),
        .operate 3 (.reconfigure "b".toList
          { PoolConfig.plain with aliases := some ["y".toList] }),
        .operate 4 (.remove "c".toList)]).map fun w => w.registry.poolNames) =
      some ["a".toList, "b".toList] by decide)
  have hw := Machine.reach_of_guarded_run h0 hrun
  exact ⟨w, hw, names_route_home hload (List.reverse_perm _) (by decide) 0 hw⟩

/-- `a` is also called `b`: the other pool's name leads to `a`, and nowhere once `a` is gone. -/
theorem alias_takes_a_name :
    let r := PoolRegistry.new 0 (twoPools "b".toList).pools.pairs.reverse
    "b".toList ∈ r.poolNames ∧
      (r.resolve 1 (fun _ => false) "b".toList []).1.map (·.key) = some "a".toList ∧
      ((r.remove "a".toList).toOption.map fun x => (x.2.poolNames,
        (x.2.resolve 1 (fun _ => false) "b".toList []).1)) = some (["b".toList], none) := by
  decide

end Pgman
