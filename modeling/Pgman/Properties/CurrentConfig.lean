import Pgman.Construction.Backend.Changes

/-!
# Entries and the configuration of their pool

All identities of a pool are built from one configuration.  Those of `backend_users` are built with
the pool, and `Keyed` says so.  A pass-through entry is built later, by the second critical section
of `Resolve`, from the configuration that the first one has read.  The second looks whether the
pool is still there, but not whether it is still the same: a change that lands in between leaves an
entry with the old configuration, and nothing repairs it before the next change.

`entries_follow_base` is about all other runs: whenever a pass-through entry is created, the pool
has the configuration that `Resolve` read.
-/

namespace Pgman

open Net (Text)

variable {name n user u k : Text} {cfg c : PoolConfig} {r r' : PoolRegistry}
  {e b : RegistryEntry} {now : ℤ}

/-- The DSN of an identity: its own under `backend_users`, or else the pool's. -/
def PoolConfig.ownDSN (cfg : PoolConfig) (u : Text) : Text :=
  (cfg.users.get u).getD cfg.backendDSN

/-- Every entry has the configuration of its pool's base entry, but for the DSN, and pass-through
entries belong to pools that have it enabled. -/
def FollowsBase (r : PoolRegistry) : Prop :=
  ∀ k e, r.entries.get k = some e → ∃ b, r.base e.poolName = some b ∧
    e.config = b.config.withDSN (b.config.ownDSN e.backendUser) ∧
    (e.passthrough = true → b.config.scramPassthrough = true)

lemma eq_withDSN_of_identity (h : cfg.identity u = some c) : c = cfg.withDSN (cfg.ownDSN u) := by
  unfold PoolConfig.identity at h
  unfold PoolConfig.ownDSN
  cases hu : cfg.users.get u with
  | some dsn =>
    rw [hu] at h
    exact (Option.some.inj h).symm
  | none =>
    rw [hu] at h
    by_cases hnil : u = []
    · rw [if_pos hnil] at h
      exact (Option.some.inj h).symm
    · rw [if_neg hnil] at h
      cases h

lemma ownDSN_of_identity_none (h : cfg.identity u = none) : cfg.ownDSN u = cfg.backendDSN := by
  unfold PoolConfig.identity at h
  unfold PoolConfig.ownDSN
  cases hu : cfg.users.get u with
  | some dsn =>
    rw [hu] at h
    cases h
  | none => rfl

namespace PoolRegistry

/-- Pass-through entries have the configuration of their pool, which enables them. -/
structure Current (r : PoolRegistry) : Prop where
  config : ∀ {k e b}, r.entries.get k = some e → e.passthrough = true →
    r.base e.poolName = some b → e.config = b.config ∧ b.config.scramPassthrough = true

lemma followsBase_of_current (h : Keyed r) (hc : Current r) : FollowsBase r := by
  intro k e hget
  obtain ⟨b, hb⟩ := h.base hget
  refine ⟨b, hb, ?_, fun hpass => (hc.config hget hpass hb).2⟩
  have hplain := h.plain hget
  have hkey := h.key hget
  cases hid : b.config.identity e.backendUser with
  | some c =>
    obtain ⟨p, t, hown⟩ := h.identity hb hplain hid
    rw [← hkey, hget] at hown
    have hconfig : e.config = c := congrArg RegistryEntry.config (Option.some.inj hown)
    rw [hconfig]
    exact eq_withDSN_of_identity hid
  | none =>
    have hpass := h.other hb hplain hid (hkey ▸ hget)
    rw [ownDSN_of_identity_none hid, (hc.config hget hpass hb).1]
    rfl

/-! ## The changes -/

lemma current_empty : Current empty := ⟨nofun⟩

/-- What a pool brings along is no pass-through entry. -/
lemma Current.addEntries (hc : Current r) (h : Keyed r) (hname : poolKeySeparator ∉ name)
    (hnew : r.entriesOf name = []) : Current (r.addEntries now name cfg) := by
  refine ⟨fun {k e b} hget hpass hb => ?_⟩
  rcases get_addEntries_cases hget with ⟨u, c, p, -, -, rfl⟩ | ⟨hold, -⟩
  · cases hpass
  · have hne : e.poolName ≠ name := entriesOf_eq_nil.mp hnew k e hold
    rw [base_addEntries_of_ne hname (h.plain hold) hne] at hb
    exact hc.config hold hpass hb

lemma Current.takeEntries (hc : Current r) (h : Keyed r) : Current (r.takeEntries name) := by
  refine ⟨fun {k e b} hget hpass hb => ?_⟩
  obtain ⟨hold, hne⟩ := get_takeEntries_some.mp hget
  rw [h.base_takeEntries_of_ne (h.plain hold) hne] at hb
  exact hc.config hold hpass hb

lemma Current.stopWatchers (hc : Current r) {old : List RegistryEntry} :
    Current (r.stopWatchers old) := ⟨hc.config⟩

lemma Current.replace (hc : Current r) (h : Keyed r) (hname : poolKeySeparator ∉ name) :
    Current (r.replace now name cfg) :=
  (hc.takeEntries h).stopWatchers.addEntries h.takeEntries.stopWatchers hname
    (h.entriesOf_takeEntries hname)

/-- An entry that a client makes has to have the configuration of its pool. -/
lemma Current.served (hc : Current r) (h : Keyed r) (hs : Served r r')
    (hnew : ∀ {k e}, r'.entries.get k = some e → r.entries.get k = none →
      ∀ {b}, r.base e.poolName = some b →
        e.config = b.config ∧ b.config.scramPassthrough = true) : Current r' := by
  refine ⟨fun {k e b} hget hpass hb => ?_⟩
  have hkeyed := h.served hs
  obtain ⟨t, hbase⟩ := hs.base_inv (hkeyed.plain hget) hb
  rcases hs.entry hget with ⟨t', hold⟩ | ⟨hnone, -⟩
  · exact (hc.config hold hpass hbase :)
  · exact (hnew hget hnone hbase :)

/-- A stamp makes no entry. -/
lemma get_stamp_of_none (h : r.entries.get k = none) {j : Text} :
    (r.stamp now j e).entries.get k = none := by
  unfold stamp
  split_ifs
  · cases hget : r.entries.get j with
    | none => exact h
    | some e' =>
      have hne : k ≠ j := by
        rintro rfl
        rw [h] at hget
        cases hget
      dsimp only
      split_ifs
      · exact (Table.get_set_of_ne hne).trans h
      · exact h
  · exact h

lemma get_evictIdlePassthrough_of_none {idleFor : ℤ} {active : Text → Bool} {inUse : ℕ → ℕ}
    (h : r.entries.get k = none) :
    (r.evictIdlePassthrough now idleFor active inUse).2.entries.get k = none := by
  refine evictIdlePassthrough_rule (Q := fun r => r.entries.get k = none) h fun cutoff => ?_
  change (r.entries.keep _).get k = none
  rw [Table.get_keep, h, Option.filter_none]

/-- The one entry that the second critical section of `Resolve` makes. -/
lemma eq_of_get_create (hget : (r.createPassthroughEntry now n u c).2.entries.get k = some e)
    (hnone : r.entries.get k = none) :
    r.entries.get (poolKey n u) = none ∧ e.poolName = n ∧ e.config = c := by
  unfold createPassthroughEntry at hget
  cases hold : r.entries.get (poolKey n u) with
  | some e' =>
    rw [hold] at hget
    rw [hnone] at hget
    cases hget
  | none =>
    rw [hold] at hget
    cases hb : r.base n with
    | none =>
      rw [hb] at hget
      rw [hnone] at hget
      cases hget
    | some b =>
      rw [hb] at hget
      change (r.putEntry now n u c true).entries.get k = some e at hget
      rw [get_putEntry] at hget
      split_ifs at hget
      · obtain rfl := Option.some.inj hget
        exact ⟨rfl, rfl, rfl⟩
      · rw [hnone] at hget
        cases hget

/-- A lookup asks for a pass-through entry where the configuration enables them. -/
lemma passthrough_of_lookup {held : Text → Bool} {db : Text}
    (hl : r.lookup held db user = .create n u c) : c.scramPassthrough = true := by
  unfold lookup at hl
  split at hl
  · cases hl
  split at hl
  · cases hl
  next b _ =>
  dsimp only at hl
  split at hl
  · cases hl
  split at hl
  next hpass =>
    obtain ⟨-, -, rfl⟩ := Lookup.create.inj hl
    unfold backendIdentityFor at hpass
    split_ifs at hpass with _ _ hboth
    · exact (Bool.and_eq_true_iff.mp hboth).1
  next => cases hl

end PoolRegistry

namespace Registrar

open PoolRegistry

variable {w w' : Registrar} {ev : RegistrarEvent}

/-- Where `Resolve` is about to make an entry, the pool has the configuration that it read. -/
def CreatesCurrent (w : Registrar) : RegistrarEvent → Prop
  | .answer _ i =>
    match w.asked[i]? with
    | some (.create n u c) =>
      w.registry.entries.get (poolKey n u) = none → ∀ b ∈ w.registry.base n, b.config = c
    | _ => True
  | _ => True

instance (w : Registrar) (ev : RegistrarEvent) : Decidable (CreatesCurrent w ev) := by
  unfold CreatesCurrent
  split
  · split
    · infer_instance
    · infer_instance
  · infer_instance

/-- Pools are resized by name, and pass-through entries are made from what is current. -/
def Careful (w : Registrar) (ev : RegistrarEvent) : Prop :=
  ResizesPool w.registry ev ∧ CreatesCurrent w ev

instance (w : Registrar) (ev : RegistrarEvent) : Decidable (Careful w ev) :=
  inferInstanceAs (Decidable (_ ∧ _))

/-- The entries are current, and whoever is about to make one has read that this is enabled. -/
structure UpToDate (w : Registrar) : Prop extends Sound w where
  current : w.registry.Current
  enabled : ∀ {n u c}, .create n u c ∈ w.asked → c.scramPassthrough = true

lemma UpToDate.answer (h : UpToDate w) {i : ℕ} {l : PoolRegistry.Lookup}
    (hl : w.asked[i]? = some l) (hev : CreatesCurrent w (.answer now i)) :
    (l.answer now w.registry).2.Current := by
  have hmem := List.mem_of_getElem? hl
  have hs : w.registry.Served (l.answer now w.registry).2 :=
    served_answer fun {n u c} hcreate => h.asked (hcreate ▸ hmem)
  refine h.current.served h.keyed hs ?_
  intro k e hget hnone b hb
  cases l with
  | missing =>
    rw [PoolRegistry.Lookup.answer, hnone] at hget
    cases hget
  | found key e' =>
    rw [PoolRegistry.Lookup.answer, get_stamp_of_none hnone] at hget
    cases hget
  | create n u c =>
    obtain ⟨habsent, rfl, rfl⟩ := eq_of_get_create hget hnone
    simp only [CreatesCurrent, hl] at hev
    have hsame : b.config = e.config := hev habsent b hb
    rw [hsame]
    exact ⟨rfl, h.enabled hmem⟩

/-- What the operator does leaves the entries current. -/
lemma UpToDate.operate {call : OperatorCall} (h : UpToDate w)
    (hresize : ResizesPool w.registry (.operate now call))
    (he : call.Effect now w.registry r') : r'.Current := by
  cases he with
  | added hvalid hnone =>
    have hname := plain_of_validatePoolConfig hvalid
    exact h.current.addEntries h.keyed hname ((h.keyed.entriesOf_eq_nil_iff hname).mpr hnone)
  | same => exact h.current
  | replaced hvalid => exact h.current.replace h.keyed (plain_of_validatePoolConfig hvalid)
  | resized hb => exact h.current.replace h.keyed (h.keyed.plain_of_mem hresize)
  | removed hsome => exact (h.current.takeEntries h.keyed).stopWatchers

lemma UpToDate.current_step (h : UpToDate w) (hev : Careful w ev) (hs : step w ev = some w') :
    w'.registry.Current := by
  cases ev with
  | operate now call =>
    obtain ⟨r, hr, rfl⟩ := Option.map_eq_some_iff.mp hs
    exact h.operate hev.1 (OperatorCall.effect_of_apply hr)
  | ask held database user =>
    obtain rfl := Option.some.inj hs
    exact h.current
  | answer now i =>
    obtain ⟨l, hl, rfl⟩ := Option.map_eq_some_iff.mp hs
    exact h.answer hl hev.2
  | sweep now idleFor active inUse =>
    obtain rfl := Option.some.inj hs
    refine h.current.served h.keyed served_evictIdlePassthrough ?_
    intro k e hget hnone
    rw [get_evictIdlePassthrough_of_none hnone] at hget
    cases hget

lemma UpToDate.step (h : UpToDate w) (hev : Careful w ev) (hs : step w ev = some w') :
    UpToDate w' := by
  refine ⟨h.toSound.step hev.1 hs, h.current_step hev hs, ?_⟩
  intro n u c hmem
  rcases mem_asked_of_step hs hmem with hold | ⟨held, db, user, hl⟩
  · exact h.enabled hold
  · exact passthrough_of_lookup hl

lemma current_new {l : List (Text × PoolConfig)} {t₀ : ℤ} (hl : Names l) : (new t₀ l).Current := by
  induction l using List.reverseRecOn with
  | nil => exact current_empty
  | append_singleton l p ih =>
    obtain ⟨hinit, hplain, hnew⟩ := hl.concat
    rw [new_concat]
    exact (ih hinit).addEntries (keyed_new hinit) hplain (entriesOf_new_eq_nil hnew)

lemma upToDate_of_reach {start : PoolRegistry} (h0 : UpToDate ⟨start, []⟩)
    (hw : (machine start).Reach Careful w) : UpToDate w := by
  induction hw with
  | init hi =>
    obtain rfl : _ = _ := hi
    exact h0
  | step _ hev hs ih => exact ih.step hev hs

end Registrar

/-- **Entries follow their pool**, in every run in which pools are resized by name and no
pass-through entry is made from a configuration that the pool no longer has. -/
theorem entries_follow_base {files : Files} {path : Text} {cfg : Config}
    (hload : loadConfig files path = .ok cfg) {l : List (Text × PoolConfig)}
    (hl : l.Perm cfg.pools.pairs) (t₀ : ℤ) {w : Registrar}
    (hw : (Registrar.machine (.new t₀ l)).Reach Registrar.Careful w) :
    FollowsBase w.registry := by
  have hnames := PoolRegistry.names_of_perm hload hl
  have h0 : Registrar.UpToDate ⟨.new t₀ l, []⟩ :=
    ⟨⟨PoolRegistry.keyed_new hnames, nofun⟩, Registrar.current_new hnames, nofun⟩
  have hend := Registrar.upToDate_of_reach h0 hw
  exact PoolRegistry.followsBase_of_current hend.keyed hend.current

/-- A file with one pool, `a`, which lets clients in as themselves and knows the users given. -/
def passthroughPool (users : Option (Table Text Text)) : Config :=
  .ofPools ⟨[("a".toList,
    { PoolConfig.plain with limit := 1, scramPassthrough := true, backendUsers := users })],
    by simp⟩

/-- The registry of that file. -/
def passthroughStart (users : Option (Table Text Text)) : PoolRegistry :=
  .new 0 (passthroughPool users).pools.pairs

/-- A role gets its pool, the pool is changed and resized, and the role gets one again. -/
theorem entries_follow_base_changes : ∃ w,
    (Registrar.machine (passthroughStart none)).Reach Registrar.Careful w ∧
      FollowsBase w.registry ∧ (w.registry.entries.get "a/alice".toList).isSome := by
  have hload : loadConfig (.all (passthroughPool none)) [] = .ok (passthroughPool none) := by rfl
  have h0 : (Registrar.machine (passthroughStart none)).init ⟨passthroughStart none, []⟩ := rfl
  obtain ⟨w, hrun, hsome⟩ := Option.map_eq_some_iff.mp
    (show ((((Registrar.machine (passthroughStart none)).guarded Registrar.Careful).run
      ⟨passthroughStart none, []⟩
      [.ask (fun _ => true) "a".toList "alice".toList, .answer 1 0,
        .operate 2 (.resize "a".toList 5), .ask (fun _ => true) "a".toList "alice".toList,
        .answer 3 0]).map fun w =>
      (w.registry.entries.get "a/alice".toList).isSome) = some true by decide)
  have hw := Machine.reach_of_guarded_run h0 hrun
  exact ⟨w, hw, entries_follow_base hload (List.Perm.refl _) 0 hw, hsome⟩

lemma not_followsBase (hget : (r.entries.get k).map (fun e => (e.poolName, e.config.limit)) =
      some (n, 1)) (hb : (r.base n).map (fun b => b.config.limit) = some 5) : ¬ FollowsBase r := by
  intro h
  obtain ⟨e, he, heq⟩ := Option.map_eq_some_iff.mp hget
  obtain ⟨hpool, hlimit⟩ := Prod.mk.inj heq
  obtain ⟨b, hbase, hconfig, -⟩ := h k e he
  rw [hpool] at hbase
  rw [hbase] at hb
  have hsame : e.config.limit = b.config.limit := by rw [hconfig]; rfl
  have hfive : b.config.limit = 5 := Option.some.inj hb
  rw [hlimit, hfive] at hsame
  exact absurd hsame (by decide)

/-- The pool is resized between the two critical sections of a `Resolve`, and the entry that it
makes has the old limit; and so has the entry that a `Resize` by the key of a role leaves behind. -/
theorem entry_from_old_configuration :
    (∃ w, (Registrar.machine (passthroughStart none)).Reachable w ∧ ¬ FollowsBase w.registry) ∧
      ∃ w, (Registrar.machine
          (passthroughStart (some (.ofList [("alice".toList, "d".toList)])))).Reachable w ∧
        ¬ FollowsBase w.registry := by
  constructor
  · have h0 : (Registrar.machine (passthroughStart none)).init ⟨passthroughStart none, []⟩ := rfl
    obtain ⟨w, hrun, heq⟩ := Option.map_eq_some_iff.mp
      (show (((Registrar.machine (passthroughStart none)).run ⟨passthroughStart none, []⟩
        [.ask (fun _ => true) "a".toList "alice".toList, .operate 1 (.resize "a".toList 5),
          .answer 2 0]).map fun w =>
        ((w.registry.entries.get "a/alice".toList).map fun e => (e.poolName, e.config.limit),
          (w.registry.base "a".toList).map fun b => b.config.limit)) =
        some (some ("a".toList, 1), some 5) by decide)
    obtain ⟨hentry, hbase⟩ := Prod.mk.inj heq
    exact ⟨w, Machine.reach_of_run h0 hrun, not_followsBase hentry hbase⟩
  · have h0 : (Registrar.machine (passthroughStart (some (.ofList
      [("alice".toList, "d".toList)])))).init ⟨passthroughStart _, []⟩ := rfl
    obtain ⟨w, hrun, heq⟩ := Option.map_eq_some_iff.mp
      (show (((Registrar.machine (passthroughStart (some (.ofList
          [("alice".toList, "d".toList)])))).run ⟨passthroughStart (some (.ofList
          [("alice".toList, "d".toList)])), []⟩
        [.operate 1 (.resize "a/alice".toList 1), .operate 2 (.resize "a".toList 5)]).map fun w =>
        ((w.registry.entries.get "a/alice/alice".toList).map fun e =>
          (e.poolName, e.config.limit),
          (w.registry.base "a/alice".toList).map fun b => b.config.limit)) =
        some (some ("a/alice".toList, 1), some 5) by decide)
    obtain ⟨hentry, hbase⟩ := Prod.mk.inj heq
    exact ⟨w, Machine.reach_of_run h0 hrun, not_followsBase hentry hbase⟩

end Pgman
