import Pgman.Properties.ConfigReload

/-!
# What reloads and sweeps do to the registry

A reload goes on when a pool of the file is refused: in every registry that operators and clients
have left, it comes to what the fates of the pools say (`reload_reconciles`).

The pools that a reload hands over for draining are those it has taken out of the registry, all of
them and no others (`reload_drains_displaced`).

A sweep takes pass-through entries out, and the next `Resolve` puts them back.  A client is given
the same key and the same configuration whatever other clients and sweeps have done before it
(`clients_leave_routing`).
-/

namespace Pgman

open Net (Text)

open PoolRegistry

variable {name n user u k db : Text} {cfg c : PoolConfig} {r r' : PoolRegistry}
  {e b : RegistryEntry} {now : ℤ} {pools : Table Text PoolConfig}

namespace Registrar

variable {w : Registrar}

lemma orderly_of_byClients {ev : RegistrarEvent} (h : ByClients ev = true) : Orderly w ev := by
  cases ev with
  | ask => exact ⟨trivial, trivial⟩
  | answer => exact ⟨trivial, trivial⟩
  | sweep => exact ⟨trivial, trivial⟩
  | _ => cases h

lemma sound_of_reach {start : PoolRegistry} (h0 : start.Keyed)
    (hw : (machine start).Reach (fun w ev => ResizesPool w.registry ev) w) : Sound w := by
  induction hw with
  | init hi =>
    obtain rfl : _ = _ := hi
    exact ⟨h0, fun hmem => absurd hmem List.not_mem_nil⟩
  | step _ hev hs ih => exact ih.step hev hs

end Registrar

/-- **A reload does what can be done.**  Whatever errors it returns, every pool of the file that
passes the checks has the configuration of the file in the end, those that do not pass are as they
were, and the others are gone; the report and the errors say which are which. -/
theorem reload_reconciles {files₀ : Files} {path₀ : Text} {cfg₀ : Config}
    (hload₀ : loadConfig files₀ path₀ = .ok cfg₀) {l₀ : List (Text × PoolConfig)}
    (hl₀ : l₀.Perm cfg₀.pools.pairs) (t₀ : ℤ) {w : Registrar}
    (hw : (Registrar.machine (.new t₀ l₀)).Reach
      (fun w ev => Registrar.ResizesPool w.registry ev) w)
    {files : Files} {path : Text} {cfg : Config} (hload : loadConfig files path = .ok cfg)
    (now : ℤ) : ∃ s, applyConfigReload files path now w.registry = .ok s ∧
      Reload.Reconciled cfg.pools w.registry s := by
  have hsound := Registrar.sound_of_reach (keyed_new (names_of_perm hload₀ hl₀)) hw
  refine ⟨Reload.run now cfg.pools w.registry, ?_, ?_⟩
  · rw [applyConfigReload, hload]
    rfl
  · exact Reload.reconciled_run hsound.keyed fun _ _ => accepted_of_loadConfig hload

/-- A file with a pool that has no name, one that is changed and one that is new. -/
def mixedFile : Config :=
  .ofPools (.ofList [([], .plain), ("a".toList, { PoolConfig.plain with limit := 7 }),
    ("c".toList, .plain)])

/-- Over the pools `a` and `b`: one error, and everything else is done. -/
theorem reload_reconciles_mixed :
    ∃ s, applyConfigReload (.all mixedFile) [] 1 (new 0 (twoPoolFile .plain .plain).pools.pairs) =
        .ok s ∧
      Reload.Reconciled mixedFile.pools (new 0 (twoPoolFile .plain .plain).pools.pairs) s ∧
      (Reload.run 1 mixedFile.pools (new 0 (twoPoolFile .plain .plain).pools.pairs)).errs =
        [.add [] .nameRequired] ∧
      (Reload.run 1 mixedFile.pools (new 0 (twoPoolFile .plain .plain).pools.pairs)).result =
        ⟨["c".toList], ["b".toList], ["a".toList], []⟩ := by
  have hload₀ : loadConfig (.all (twoPoolFile .plain .plain)) [] =
      .ok (twoPoolFile .plain .plain) := by rfl
  have hload : loadConfig (.all mixedFile) [] = .ok mixedFile := by rfl
  obtain ⟨s, hs, hreconciled⟩ := reload_reconciles hload₀ (List.Perm.refl _) 0
    (w := ⟨new 0 (twoPoolFile .plain .plain).pools.pairs, []⟩) (.init rfl) hload 1
  exact ⟨s, hs, hreconciled, by decide, by decide⟩

/-! ## Draining -/

namespace Reload

variable {s : Reload} {r₀ : PoolRegistry} {touched : List Text} {p : Text × PoolConfig}
  {done : List (Text × PoolConfig)}

/-- The pools that are handed over for draining. -/
def displaced (s : Reload) : List ℕ := s.drained.flatMap Prod.snd

/-- The pools `touched` may have changed; what was taken out was drained, and its watchers were
stopped. -/
structure Drains (r₀ : PoolRegistry) (touched : List Text) (s : Reload) : Prop where
  intact : s.registry.Intact
  entries : ∀ k e, e.poolName ∉ touched →
    (s.registry.entries.get k = some e ↔ r₀.entries.get k = some e)
  pools : r₀.pools ≤ s.registry.pools
  stopped : s.registry.stopped = r₀.stopped ++ s.displaced
  live : ∀ i ∈ s.displaced, r₀.Live i

lemma stopped_addEntries : (r.addEntries now name cfg).stopped = r.stopped :=
  addEntries_rule (Q := fun r' => r'.stopped = r.stopped) rfl fun _ _ _ h => h

lemma pools_addEntries : r.pools ≤ (r.addEntries now name cfg).pools :=
  addEntries_rule (Q := fun r' => r.pools ≤ r'.pools) le_rfl fun _ _ _ h => h.trans (Nat.le_succ _)

lemma pools_takeEntries {old : List RegistryEntry} :
    ((r.takeEntries name).stopWatchers old).pools = r.pools := by
  unfold PoolRegistry.takeEntries stopWatchers
  split_ifs
  · rfl
  · rfl

lemma stopped_takeEntries : ((r.takeEntries name).stopWatchers (r.entriesOf name)).stopped =
    r.stopped ++ (r.entriesOf name).map (·.pool) := by
  unfold PoolRegistry.takeEntries stopWatchers
  split_ifs
  · rfl
  · rfl

/-- Adding a pool leaves the entries of the others. -/
lemma get_addEntries_iff (h : r.Keyed) (hname : poolKeySeparator ∉ name) (hne : e.poolName ≠ name) :
    (r.addEntries now name cfg).entries.get k = some e ↔ r.entries.get k = some e := by
  constructor
  · intro hk
    rcases get_addEntries_cases hk with ⟨u, c, i, -, -, rfl⟩ | ⟨hold, -⟩
    · exact absurd rfl hne
    · exact hold
  · intro hk
    have hkey := h.key hk
    rw [hkey] at hk ⊢
    rwa [get_addEntries_other hname (h.plain (hkey ▸ hk)) hne]

/-- A pool is taken out, and drained. -/
lemma Drains.take (h : Drains r₀ touched s) (hnew : name ∉ touched) {s' : Reload}
    (hintact : s'.registry.Intact)
    (hentries : ∀ k e, e.poolName ≠ name →
      (s'.registry.entries.get k = some e ↔ s.registry.entries.get k = some e))
    (hpools : s.registry.pools ≤ s'.registry.pools)
    (hstopped : s'.registry.stopped =
      s.registry.stopped ++ (s.registry.entriesOf name).map (·.pool))
    (hdrained : s'.drained = s.drained ++ [(name, (s.registry.entriesOf name).map (·.pool))]) :
    Drains r₀ (touched ++ [name]) s' := by
  have hdisplaced : s'.displaced = s.displaced ++ (s.registry.entriesOf name).map (·.pool) := by
    simp [displaced, hdrained]
  refine ⟨hintact, fun k e he => ?_, h.pools.trans hpools, ?_, fun i hi => ?_⟩
  · rw [List.mem_append, not_or, List.mem_singleton] at he
    exact (hentries k e he.2).trans (h.entries k e he.1)
  · rw [hstopped, h.stopped, hdisplaced, List.append_assoc]
  · rw [hdisplaced, List.mem_append] at hi
    rcases hi with hi | hi
    · exact h.live i hi
    · obtain ⟨e, he, rfl⟩ := List.mem_map.mp hi
      obtain ⟨hpool, k, hk⟩ := mem_entriesOf.mp he
      exact ⟨k, e, (h.entries k e (hpool ▸ hnew)).mp hk, rfl⟩

/-- Nothing is taken out. -/
lemma Drains.keep (h : Drains r₀ touched s) {s' : Reload} (hintact : s'.registry.Intact)
    (hentries : ∀ k e, e.poolName ≠ name →
      (s'.registry.entries.get k = some e ↔ s.registry.entries.get k = some e))
    (hpools : s.registry.pools ≤ s'.registry.pools)
    (hstopped : s'.registry.stopped = s.registry.stopped) (hdrained : s'.drained = s.drained) :
    Drains r₀ (touched ++ [name]) s' := by
  have hdisplaced : s'.displaced = s.displaced := by rw [displaced, hdrained, displaced]
  refine ⟨hintact, fun k e he => ?_, h.pools.trans hpools, ?_, fun i hi => ?_⟩
  · rw [List.mem_append, not_or, List.mem_singleton] at he
    exact (hentries k e he.2).trans (h.entries k e he.1)
  · rw [hstopped, h.stopped, hdisplaced]
  · exact h.live i (hdisplaced ▸ hi)

lemma Drains.applyPool (h : Drains r₀ (done.map Prod.fst) s) (hprogress : Progress r₀ done s)
    (hp : Turn r₀ done p) :
    Drains r₀ ((done ++ [p]).map Prod.fst) (applyPool now r₀.poolNames s p) := by
  have hn := hp.accepted.name
  have husers := users_nil_of_accepted hp.accepted
  have hkeyed := h.intact.keyed
  rw [applyPool_eq hp.known (hprogress.waiting p.1 hn hp.fresh []), List.map_append,
    List.map_singleton]
  cases hfate : fate r₀ p with
  | refused err => exact h.keep h.intact (fun _ _ _ => Iff.rfl) le_rfl rfl rfl
  | unchanged => exact h.keep h.intact (fun _ _ _ => Iff.rfl) le_rfl rfl rfl
  | added =>
    exact h.keep (h.intact.addEntries hn (hprogress.free hp hfate) husers)
      (fun _ _ => get_addEntries_iff hkeyed hn) pools_addEntries stopped_addEntries rfl
  | reconfigured =>
    refine h.take hp.fresh (h.intact.replace hn husers) (fun k e hne => ?_)
      (pools_takeEntries.ge.trans pools_addEntries) ?_ rfl
    · refine (get_addEntries_iff hkeyed.takeEntries.stopWatchers hn hne).trans ?_
      exact get_takeEntries_some.trans (and_iff_left hne)
    · exact stopped_addEntries.trans stopped_takeEntries

lemma Drains.retirePool (h : Drains r₀ touched s) (hnew : pools.get name = none → name ∉ touched)
    (hthere : pools.get name = none → s.registry.entriesOf name ≠ []) :
    Drains r₀ (touched ++ [name]) (retirePool pools s name) := by
  rw [retirePool_eq hthere]
  cases hpool : pools.get name with
  | some cfg => exact h.keep h.intact (fun _ _ _ => Iff.rfl) le_rfl rfl rfl
  | none =>
    exact h.take (hnew hpool) h.intact.takeEntries
      (fun k e hne => get_takeEntries_some.trans (and_iff_left hne)) pools_takeEntries.ge
      stopped_takeEntries rfl

lemma drains_run (h : r₀.Intact) (haccepted : ∀ n c, pools.get n = some c → c.Accepted n) :
    Drains r₀ (pools.pairs.map Prod.fst ++ r₀.poolNames) (run now pools r₀) := by
  have hstart : Drains r₀ [] (start r₀) :=
    ⟨h, fun _ _ _ => Iff.rfl, le_rfl, (List.append_nil _).symm, List.forall_mem_nil _⟩
  have happlied : Drains r₀ (pools.pairs.map Prod.fst) (applied now pools r₀) :=
    (applyPools_rule h.keyed haccepted (P := fun done s => Drains r₀ (done.map Prod.fst) s) hstart
      fun hp hprogress hdrains => hdrains.applyPool hprogress hp).2
  have hstart' : Drains r₀ (pools.pairs.map Prod.fst ++ []) (applied now pools r₀) := by
    rwa [List.append_nil]
  refine (retirePools_rule h.keyed haccepted
    (P := fun gone s => Drains r₀ (pools.pairs.map Prod.fst ++ gone) s) hstart' ?_).2
  intro gone name s _ _ hgone hthere hdrains
  rw [← List.append_assoc]
  refine hdrains.retirePool (fun hnone hin => ?_) hthere
  rcases List.mem_append.mp hin with hin | hin
  · exact Table.not_mem_keys hnone hin
  · exact hgone hin

/-- What was drained is what has left the registry. -/
lemma Drains.mem_displaced (h : Drains r₀ touched s) (h₀ : r₀.Watched) {i : ℕ} :
    i ∈ s.displaced ↔ r₀.Live i ∧ ¬s.registry.Live i := by
  constructor
  · intro hi
    refine ⟨h.live i hi, fun hlive => h.intact.watched.running hlive ?_⟩
    rw [h.stopped]
    exact List.mem_append_right _ hi
  · rintro ⟨hlive, hdead⟩
    obtain ⟨k, e, hk, rfl⟩ := hlive
    have hstopped : e.pool ∈ s.registry.stopped := by
      refine List.count_pos_iff.mp ?_
      rw [h.intact.watched.stopped ((h₀.given hk).trans_le h.pools) hdead]
      exact Nat.one_pos
    rw [h.stopped, List.mem_append] at hstopped
    exact hstopped.resolve_left (h₀.running ⟨k, e, hk, rfl⟩)

lemma Drains.nodup_displaced (h : Drains r₀ touched s) (h₀ : r₀.Watched) : s.displaced.Nodup := by
  refine List.nodup_iff_count_le_one.mpr fun i => ?_
  by_cases hi : i ∈ s.displaced
  · obtain ⟨⟨k, e, hk, rfl⟩, hdead⟩ := (h.mem_displaced h₀).mp hi
    have hcount := h.intact.watched.stopped ((h₀.given hk).trans_le h.pools) hdead
    rw [h.stopped, List.count_append] at hcount
    omega
  · rw [List.count_eq_zero_of_not_mem hi]
    exact Nat.zero_le 1

end Reload

/-- **A reload drains what it displaces**: the pools handed over for draining are those that were in
the registry and are not any more, each of them once, and the watchers stopped are theirs. -/
theorem reload_drains_displaced {files₀ : Files} {path₀ : Text} {cfg₀ : Config}
    (hload₀ : loadConfig files₀ path₀ = .ok cfg₀) {l₀ : List (Text × PoolConfig)}
    (hl₀ : l₀.Perm cfg₀.pools.pairs) (t₀ : ℤ) {w : Registrar}
    (hw : (Registrar.machine (.new t₀ l₀)).Reach
      (fun w ev => Registrar.Supplied ev ∧ Registrar.ResizesPool w.registry ev) w)
    {files : Files} {path : Text} {cfg : Config} (hload : loadConfig files path = .ok cfg)
    (now : ℤ) : ∃ s, applyConfigReload files path now w.registry = .ok s ∧ s.displaced.Nodup ∧
      (∀ i, i ∈ s.displaced ↔ w.registry.Live i ∧ ¬s.registry.Live i) ∧
      s.registry.stopped = w.registry.stopped ++ s.displaced := by
  have hstart : (PoolRegistry.new t₀ l₀).Intact := by
    refine intact_new (names_of_perm hload₀ hl₀) fun p hp => ?_
    exact users_nil_of_accepted
      (accepted_of_loadConfig hload₀ (Table.mem_pairs.mp (hl₀.mem_iff.mp hp)))
  obtain ⟨hintact, -⟩ := Registrar.intact_of_reach hstart hw
  have hdrains : Reload.Drains w.registry (cfg.pools.pairs.map Prod.fst ++ w.registry.poolNames)
      (Reload.run now cfg.pools w.registry) :=
    Reload.drains_run hintact fun _ _ => accepted_of_loadConfig hload
  refine ⟨Reload.run now cfg.pools w.registry, ?_, hdrains.nodup_displaced hintact.watched,
    fun i => hdrains.mem_displaced hintact.watched, hdrains.stopped⟩
  rw [applyConfigReload, hload]
  rfl

/-- The pools `a`, changed, and `b`, removed, of two. -/
theorem reload_drains_displaced_mixed :
    ∃ s, applyConfigReload (.all mixedFile) [] 1 (new 0 (twoPoolFile .plain .plain).pools.pairs) =
        .ok s ∧ s.displaced.Nodup ∧
      (∀ i, i ∈ s.displaced ↔
        (new 0 (twoPoolFile .plain .plain).pools.pairs).Live i ∧ ¬s.registry.Live i) ∧
      (Reload.run 1 mixedFile.pools
        (new 0 (twoPoolFile .plain .plain).pools.pairs)).displaced = [0, 1] := by
  have hload₀ : loadConfig (.all (twoPoolFile .plain .plain)) [] =
      .ok (twoPoolFile .plain .plain) := by rfl
  have hload : loadConfig (.all mixedFile) [] = .ok mixedFile := by rfl
  obtain ⟨s, hs, hnodup, hdisplaced, -⟩ := reload_drains_displaced hload₀ (List.Perm.refl _) 0
    (w := ⟨new 0 (twoPoolFile .plain .plain).pools.pairs, []⟩) (.init rfl) hload 1
  exact ⟨s, hs, hnodup, hdisplaced, by decide⟩

/-! ## Clients and sweeps -/

/-- **Clients and sweeps do not show.**  Whatever clients come in, get pass-through entries and
lose them to sweeps, every client is given the key and the configuration that it would have been
given before, as long as entries are made from what is current. -/
theorem clients_leave_routing {files : Files} {path : Text} {cfg : Config}
    (hload : loadConfig files path = .ok cfg) {l : List (Text × PoolConfig)}
    (hl : l.Perm cfg.pools.pairs) (hclaims : ClaimsDisjoint cfg.pools.pairs) (t₀ : ℤ)
    {w w' : Registrar} (hw : (Registrar.machine (.new t₀ l)).Reach
      (fun w ev => Registrar.Orderly w ev ∧ Registrar.CreatesCurrent w ev) w)
    (hw' : ((Registrar.machine (.new t₀ l)).startingAt w).Reach
      (fun w ev => Registrar.ByClients ev = true ∧ Registrar.CreatesCurrent w ev) w')
    (t : ℤ) (held : Text → Bool) (db user : Text) :
    (w'.registry.resolve t held db user).1.map Resolved.seen =
      (w.registry.resolve t held db user).1.map Resolved.seen := by
  have hstart := inOrder_new hload hl hclaims t₀
  have horder := Registrar.inOrder_of_reach hstart hw
  have hall := hw.trans hw' fun _ _ h => ⟨Registrar.orderly_of_byClients h.1, h.2⟩
  refine resolve_congr (Registrar.inOrder_of_reach hstart hall) horder (fun n hn => ?_) t held db
    user
  -- step by step, each from a registry that is keyed
  clear hall
  induction hw' with
  | init hi =>
    obtain rfl : _ = w := hi
    rfl
  | step hpast hev hs ih =>
    have hbefore := hw.trans hpast fun _ _ h => ⟨Registrar.orderly_of_byClients h.1, h.2⟩
    have hsound := Registrar.sound_of_reach hstart.keyed (hbefore.mono fun _ _ h => h.1.2)
    exact ((Registrar.served_of_byClients hsound hev.1 hs).config_base hsound.keyed hn).trans ih

/-- Alice has come in under their own name, and a sweep has taken the entry. -/
theorem clients_leave_routing_swept : ∃ w,
    (((Registrar.machine (passthroughStart none)).startingAt ⟨passthroughStart none, []⟩).Reach
      (fun w ev => Registrar.ByClients ev = true ∧ Registrar.CreatesCurrent w ev) w) ∧
    w.registry.pools = 2 ∧ w.registry.entries.get "a/alice".toList = none ∧
    ∀ t held db user, (w.registry.resolve t held db user).1.map Resolved.seen =
      ((passthroughStart none).resolve t held db user).1.map Resolved.seen := by
  have hload : loadConfig (.all (passthroughPool none)) [] = .ok (passthroughPool none) := by rfl
  have hrun : ((((Registrar.machine (passthroughStart none)).startingAt
      ⟨passthroughStart none, []⟩).guarded
      fun w ev => Registrar.ByClients ev = true ∧ Registrar.CreatesCurrent w ev).run
      ⟨passthroughStart none, []⟩
      [RegistrarEvent.ask (fun _ => true) "a".toList "alice".toList, .answer 1 0,
        .sweep 15 10 (fun _ => false) fun _ => 0]).map (fun w => decide
        (w.registry.pools = 2 ∧ w.registry.entries.get "a/alice".toList = none)) = some true := by
    decide
  obtain ⟨w, hrun, hview⟩ := Option.map_eq_some_iff.mp hrun
  obtain ⟨hpools, hgone⟩ := of_decide_eq_true hview
  have hw := Machine.reach_of_guarded_run
    (M := (Registrar.machine (passthroughStart none)).startingAt ⟨passthroughStart none, []⟩)
    rfl hrun
  exact ⟨w, hw, hpools, hgone, clients_leave_routing hload (List.Perm.refl _) (by decide) 0
    (.init rfl) hw⟩

end Pgman
