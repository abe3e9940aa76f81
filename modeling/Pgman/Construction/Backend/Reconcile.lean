import Pgman.Construction.Backend.Changes
import Pgman.Construction.Backend.Reload

/-!
# What a reload does with each pool

A reload goes on when a pool of the file is refused.  What it does is then still decided by the file
and the registry it found: `Reload.fate` says for each pool of the file what becomes of it, and
`Reconciled` that the registry, the report and the errors are what the fates say, pool by pool.  A
pool that is refused keeps the configuration it had.

`Progress` and `Retiring` say what the two loops have come to after some rounds, so that every round
finds its pool as it was and does what `applyPool_eq` and `retirePool_eq` say.  Whatever else holds
when a reload is through follows from these by `applyPools_rule` and `retirePools_rule`.
-/

namespace Pgman

open Net (Text)

open PoolRegistry

variable {name n user u k db : Text} {cfg c : PoolConfig} {r r' : PoolRegistry}
  {e b : RegistryEntry} {now : ℤ} {pools : Table Text PoolConfig}

namespace Reload

variable {s s₁ : Reload} {r₀ : PoolRegistry} {gone : List Text} {p : Text × PoolConfig}
  {done rest : List (Text × PoolConfig)}

/-! ## The fate of a pool -/

/-- What becomes of a pool of the file. -/
inductive Fate
  | refused (err : RegistryError)
  | added
  | reconfigured
  | unchanged
  deriving DecidableEq

/-- The fate of a pool in a reload that finds `r₀`. -/
def fate (r₀ : PoolRegistry) (p : Text × PoolConfig) : Fate :=
  match validatePoolConfig p.1 p.2 with
  | .error err => .refused err
  | .ok () =>
    match r₀.base p.1 with
    | none => .added
    | some b => if b.config = p.2 then .unchanged else .reconfigured

lemma base_of_added (h : fate r₀ p = .added) : r₀.base p.1 = none := by
  unfold fate at h
  split at h
  · cases h
  · split at h
    next hnone => exact hnone
    next => split_ifs at h

lemma base_of_unchanged (h : fate r₀ p = .unchanged) :
    ∃ b, r₀.base p.1 = some b ∧ b.config = p.2 := by
  unfold fate at h
  split at h
  · cases h
  · split at h
    · cases h
    next b hb =>
      split_ifs at h with hconfig
      exact ⟨b, hb, hconfig⟩

/-- The configuration that a pool of the file has in the end. -/
def settled (r₀ : PoolRegistry) (p : Text × PoolConfig) : Option PoolConfig :=
  match fate r₀ p with
  | .refused _ => (r₀.base p.1).map (·.config)
  | .added | .reconfigured | .unchanged => some p.2

def refusal (r₀ : PoolRegistry) (p : Text × PoolConfig) : Option ReloadError :=
  match fate r₀ p with
  | .refused err => some (if (r₀.base p.1).isSome then .reconfigure p.1 err else .add p.1 err)
  | .added | .reconfigured | .unchanged => none

lemma refusal_eq_none : refusal r₀ p = none ↔ validatePoolConfig p.1 p.2 = .ok () := by
  unfold refusal fate
  cases validatePoolConfig p.1 p.2 with
  | error err => simp
  | ok x =>
    cases r₀.base p.1 with
    | none => simp
    | some b => by_cases hconfig : b.config = p.2 <;> simp [hconfig]

lemma settled_of_passes (h : ∀ err, fate r₀ p ≠ .refused err) : settled r₀ p = some p.2 := by
  unfold settled
  cases hf : fate r₀ p with
  | refused err => exact absurd hf (h err)
  | _ => rfl

lemma settled_of_refusal (h : refusal r₀ p = none) : settled r₀ p = some p.2 := by
  refine settled_of_passes fun err hf => ?_
  rw [refusal, hf] at h
  cases h

/-- The entries of a pool of the file in the end: those it had, or those that its configuration asks
for and no others. -/
def Settles (r₀ : PoolRegistry) (p : Text × PoolConfig) (r : PoolRegistry) : Prop :=
  match fate r₀ p with
  | .refused _ | .unchanged =>
    ∀ u, r.entries.get (poolKey p.1 u) = r₀.entries.get (poolKey p.1 u)
  | .added | .reconfigured =>
    ∀ u, (r.entries.get (poolKey p.1 u)).map (fun e => (e.config, e.passthrough)) =
      (p.2.identity u).map fun c => (c, false)

/-- The names of the pools that meet a fate. -/
def namesOf (r₀ : PoolRegistry) (f : Fate) (l : List (Text × PoolConfig)) : List Text :=
  (l.filter fun p => fate r₀ p = f).map Prod.fst

/-- The reload of `pools` over `r₀` has come to what the fates say. -/
structure Reconciled (pools : Table Text PoolConfig) (r₀ : PoolRegistry) (s : Reload) : Prop where
  base : ∀ n, poolKeySeparator ∉ n → (s.registry.base n).map (·.config) =
    (pools.get n).bind fun c => settled r₀ (n, c)
  entries : ∀ n c, pools.get n = some c → Settles r₀ (n, c) s.registry
  /-- Every identity of a pool that passes has the configuration of the file. -/
  identities : ∀ n c, pools.get n = some c → (∀ err, fate r₀ (n, c) ≠ .refused err) →
    ∀ u c', c.identity u = some c' →
      ∃ i t, s.registry.entries.get (poolKey n u) = some ⟨n, u, c', false, i, t⟩
  /-- Nothing is left of a pool that is not in the file. -/
  gone : ∀ n, pools.get n = none → s.registry.entriesOf n = []
  added : s.result.added = namesOf r₀ .added pools.pairs
  reconfigured : s.result.reconfigured = namesOf r₀ .reconfigured pools.pairs
  unchanged : s.result.unchanged = namesOf r₀ .unchanged pools.pairs
  removed : s.result.removed = r₀.poolNames.filter fun n => (pools.get n).isNone
  errs : s.errs = pools.pairs.filterMap (refusal r₀)

lemma Reconciled.refusal (h : Reconciled pools r₀ s) (herrs : s.errs = [])
    (hpool : pools.get n = some c) : refusal r₀ (n, c) = none := by
  rw [h.errs, List.filterMap_eq_nil_iff] at herrs
  exact herrs (n, c) (Table.mem_pairs.mpr hpool)

/-- Without errors the pools are those of the file. -/
lemma Reconciled.base_of_errs (h : Reconciled pools r₀ s) (herrs : s.errs = [])
    (hn : poolKeySeparator ∉ n) : (s.registry.base n).map (·.config) = pools.get n := by
  rw [h.base n hn]
  cases hpool : pools.get n with
  | none => rfl
  | some c => exact settled_of_refusal (h.refusal herrs hpool)

/-! ## The loop over the file -/

/-- The reload when the loop over the file is through. -/
def applied (now : ℤ) (pools : Table Text PoolConfig) (r₀ : PoolRegistry) : Reload :=
  pools.pairs.foldl (applyPool now r₀.poolNames) (start r₀)

/-- It is the turn of the pool `p`, and the pools `done` are through. -/
structure Turn (r₀ : PoolRegistry) (done : List (Text × PoolConfig)) (p : Text × PoolConfig) :
    Prop where
  accepted : p.2.Accepted p.1
  known : p.1 ∈ r₀.poolNames ↔ (r₀.base p.1).isSome = true
  fresh : p.1 ∉ done.map Prod.fst
  plain : ∀ q ∈ done, poolKeySeparator ∉ q.1

lemma mem_poolNames_iff (h : r₀.Keyed) (hn : poolKeySeparator ∉ n) :
    n ∈ r₀.poolNames ↔ (r₀.base n).isSome = true := by
  rw [Option.isSome_iff_exists]
  exact ⟨h.exists_base, fun ⟨b, hb⟩ => h.mem_poolNames_of_base hn hb⟩

lemma turn_of_pairs (h : r₀.Keyed) (haccepted : ∀ n c, pools.get n = some c → c.Accepted n)
    (hl : pools.pairs = done ++ p :: rest) : Turn r₀ done p := by
  have hfile : ∀ q ∈ pools.pairs, q.2.Accepted q.1 := fun q hq =>
    haccepted q.1 q.2 (Table.mem_pairs.mp hq)
  have hdistinct := (names_of_accepted haccepted).distinct
  rw [hl] at hfile hdistinct
  obtain ⟨hdone, hrest⟩ := List.forall_mem_append.mp hfile
  have hp := hrest p List.mem_cons_self
  refine ⟨hp, mem_poolNames_iff h hp.name, fun hin => ?_, fun q hq => (hdone q hq).name⟩
  obtain ⟨q, hq, heq⟩ := List.mem_map.mp hin
  exact (List.pairwise_append.mp hdistinct).2.2 q hq p List.mem_cons_self heq

/-- The pools `done` are through. -/
structure Progress (r₀ : PoolRegistry) (done : List (Text × PoolConfig)) (s : Reload) : Prop where
  keyed : s.registry.Keyed
  waiting : ∀ n, poolKeySeparator ∉ n → n ∉ done.map Prod.fst → ∀ u,
    s.registry.entries.get (poolKey n u) = r₀.entries.get (poolKey n u)
  through : ∀ p ∈ done, Settles r₀ p s.registry
  result : s.result = ⟨namesOf r₀ .added done, [], namesOf r₀ .reconfigured done,
    namesOf r₀ .unchanged done⟩
  errs : s.errs = done.filterMap (refusal r₀)

lemma namesOf_concat {f : Fate} :
    namesOf r₀ f (done ++ [p]) = namesOf r₀ f done ++ if fate r₀ p = f then [p.1] else [] := by
  unfold namesOf
  rw [List.filter_append, List.map_append]
  by_cases hf : fate r₀ p = f
  · simp [hf]
  · simp [hf]

lemma filterMap_concat : (done ++ [p]).filterMap (refusal r₀) =
    done.filterMap (refusal r₀) ++ (refusal r₀ p).toList := by
  rw [List.filterMap_append]
  cases h : refusal r₀ p with
  | none => simp [h]
  | some err => simp [h]

/-- A pool is put in, where there is none of its name. -/
lemma get_put (h : r.Keyed) (hn : poolKeySeparator ∉ name) (hfree : r.entriesOf name = []) :
    ((r.addEntries now name cfg).entries.get (poolKey name u)).map
        (fun e => (e.config, e.passthrough)) = (cfg.identity u).map fun c => (c, false) := by
  cases hid : cfg.identity u with
  | some c =>
    obtain ⟨i, hget⟩ : ∃ i, (r.addEntries now name cfg).entries.get (poolKey name u) =
      some ⟨name, u, c, false, i, now⟩ := get_addEntries_of_identity hid
    rw [hget]
    rfl
  | none =>
    have hsame : (r.addEntries now name cfg).entries.get (poolKey name u) =
        r.entries.get (poolKey name u) := by
      refine get_addEntries_of_ne fun u' c hid' heq => ?_
      rw [poolKey_inj_right heq, hid'] at hid
      cases hid
    rw [hsame, Option.map_none, Option.map_eq_none_iff]
    by_contra hsome
    obtain ⟨e, he⟩ := Option.ne_none_iff_exists'.mp hsome
    exact entriesOf_eq_nil.mp hfree _ e he (poolKey_inj hn (h.plain he) (h.key he)).1.symm

/-- What a round of the loop does, by the fate of its pool. -/
lemma applyPool_eq {current : List Text} (hmem : p.1 ∈ current ↔ (r₀.base p.1).isSome = true)
    (hsame : s.registry.base p.1 = r₀.base p.1) :
    applyPool now current s p =
      match fate r₀ p with
      | .refused _ => { s with errs := s.errs ++ (refusal r₀ p).toList }
      | .added =>
        { s with
          registry := s.registry.addEntries now p.1 p.2
          result := { s.result with added := s.result.added ++ [p.1] } }
      | .reconfigured =>
        { s with
          registry := s.registry.replace now p.1 p.2
          result := { s.result with reconfigured := s.result.reconfigured ++ [p.1] }
          drained := s.drained ++ [(p.1, (s.registry.entriesOf p.1).map (·.pool))] }
      | .unchanged =>
        { s with result := { s.result with unchanged := s.result.unchanged ++ [p.1] } } := by
  unfold applyPool refusal
  cases hvalid : validatePoolConfig p.1 p.2 with
  | error err =>
    have hfate : fate r₀ p = .refused err := by rw [fate, hvalid]
    have hrec : s.registry.reconfigure now p.1 p.2 = .error err := by
      rw [PoolRegistry.reconfigure, hvalid]
      rfl
    have hadd : s.registry.add now p.1 p.2 = .error err := by
      rw [PoolRegistry.add, hvalid]
      rfl
    rw [hfate, hrec, hadd]
    by_cases hin : p.1 ∈ current
    · simp [hin, hmem.mp hin]
    · simp [hin, mt hmem.mpr hin]
  | ok x =>
    cases hb : r₀.base p.1 with
    | none =>
      have hfate : fate r₀ p = .added := by rw [fate, hvalid, hb]
      have hadd : s.registry.add now p.1 p.2 = .ok (s.registry.addEntries now p.1 p.2) :=
        add_eq_ok.mpr ⟨hvalid, hsame.trans hb, rfl⟩
      have hin : p.1 ∉ current := fun hin => by
        rw [hmem, hb] at hin
        cases hin
      rw [hfate, hadd, if_neg (mt List.contains_iff_mem.mp hin)]
    | some b =>
      have hin : p.1 ∈ current := hmem.mpr (by rw [hb]; rfl)
      rw [if_pos (List.contains_iff_mem.mpr hin)]
      by_cases hconfig : b.config = p.2
      · have hfate : fate r₀ p = .unchanged := by simp [fate, hvalid, hb, hconfig]
        have hrec : s.registry.reconfigure now p.1 p.2 = .ok ([], false, s.registry) :=
          reconfigure_eq_ok.mpr ⟨hvalid, b, hsame.trans hb, .inl ⟨hconfig, rfl⟩⟩
        rw [hfate, hrec]
      · have hfate : fate r₀ p = .reconfigured := by simp [fate, hvalid, hb, hconfig]
        have hrec : s.registry.reconfigure now p.1 p.2 =
            .ok ((s.registry.entriesOf p.1).map (·.pool), true, s.registry.replace now p.1 p.2) :=
          reconfigure_eq_ok.mpr ⟨hvalid, b, hsame.trans hb, .inr ⟨hconfig, rfl⟩⟩
        rw [hfate, hrec]

lemma Settles.congr (h : Settles r₀ p r)
    (heq : ∀ u, r'.entries.get (poolKey p.1 u) = r.entries.get (poolKey p.1 u)) :
    Settles r₀ p r' := by
  unfold Settles at h ⊢
  cases hfate : fate r₀ p <;> simp only [hfate] at h ⊢ <;> simpa only [heq] using h

/-- The base entry has the configuration that the pool settles for. -/
lemma Settles.base (h : Settles r₀ p r) (husers : p.2.users.get [] = none) :
    (r.base p.1).map (·.config) = settled r₀ p := by
  have hput : ((r.entries.get (poolKey p.1 [])).map fun e => (e.config, e.passthrough)) =
      (p.2.identity []).map (fun c => (c, false)) → (r.base p.1).map (·.config) = some p.2 := by
    rw [identity_nil_of_users husers, PoolRegistry.base]
    cases r.entries.get (poolKey p.1 []) with
    | none => simp
    | some e => exact fun heq => congrArg (Option.map Prod.fst) heq
  unfold Settles at h
  unfold settled
  cases hfate : fate r₀ p with
  | refused err =>
    simp only [hfate] at h
    rw [PoolRegistry.base, h []]
    rfl
  | unchanged =>
    simp only [hfate] at h
    obtain ⟨b, hb, hconfig⟩ := base_of_unchanged hfate
    rw [PoolRegistry.base, h [], show r₀.entries.get (poolKey p.1 []) = some b from hb, ← hconfig]
    rfl
  | added | reconfigured =>
    simp only [hfate] at h
    exact hput (h [])

/-- A round whose pool has its configuration in the end and leaves the other pools alone. -/
lemma Progress.round (h : Progress r₀ done s) {s' : Reload} (hkeyed : s'.registry.Keyed)
    (hthrough : Settles r₀ p s'.registry)
    (hothers : ∀ m, poolKeySeparator ∉ m → m ≠ p.1 → ∀ u,
      s'.registry.entries.get (poolKey m u) = s.registry.entries.get (poolKey m u))
    (hp : Turn r₀ done p)
    (hresult : s'.result =
      ⟨s.result.added ++ if fate r₀ p = .added then [p.1] else [], s.result.removed,
        s.result.reconfigured ++ if fate r₀ p = .reconfigured then [p.1] else [],
        s.result.unchanged ++ if fate r₀ p = .unchanged then [p.1] else []⟩)
    (herrs : s'.errs = s.errs ++ (refusal r₀ p).toList) : Progress r₀ (done ++ [p]) s' := by
  refine ⟨hkeyed, ?_, ?_, ?_, ?_⟩
  · intro m hm hnot u
    rw [List.map_append, List.mem_append, not_or, List.map_singleton, List.mem_singleton] at hnot
    rw [hothers m hm hnot.2]
    exact h.waiting m hm hnot.1 u
  · intro q hq
    rcases List.mem_append.mp hq with hq | hq
    · have hne : q.1 ≠ p.1 := fun heq => hp.fresh (heq ▸ List.mem_map_of_mem hq)
      exact (h.through q hq).congr (hothers q.1 (hp.plain q hq) hne)
    · obtain rfl := List.mem_singleton.mp hq
      exact hthrough
  · rw [hresult, h.result, namesOf_concat, namesOf_concat, namesOf_concat]
  · rw [herrs, h.errs, filterMap_concat]

/-- No entry stands in the way of a pool that is added. -/
lemma Progress.free (h : Progress r₀ done s) (hp : Turn r₀ done p) (hfate : fate r₀ p = .added) :
    s.registry.entriesOf p.1 = [] := by
  have hn := hp.accepted.name
  refine (h.keyed.entriesOf_eq_nil_iff hn).mpr ?_
  exact (h.waiting p.1 hn hp.fresh []).trans (base_of_added hfate)

lemma Progress.applyPool (h : Progress r₀ done s) (hp : Turn r₀ done p) :
    Progress r₀ (done ++ [p]) (applyPool now r₀.poolNames s p) := by
  have hn := hp.accepted.name
  have hsame := h.waiting p.1 hn hp.fresh
  rw [applyPool_eq hp.known (hsame [])]
  cases hfate : fate r₀ p with
  | refused err =>
    refine h.round h.keyed ?_ (fun _ _ _ _ => rfl) hp ?_ rfl
    · rw [Settles, hfate]
      exact hsame
    · simp [hfate]
  | added =>
    have hfree := h.free hp hfate
    refine h.round (h.keyed.addEntries hn hfree) ?_
      (fun m hm hne u => get_addEntries_other hn hm hne) hp ?_ ?_
    · rw [Settles, hfate]
      exact fun u => get_put h.keyed hn hfree
    · simp [hfate]
    · simp [refusal, hfate]
  | reconfigured =>
    refine h.round (h.keyed.replace hn) ?_ (fun m hm hne u => ?_) hp ?_ ?_
    · rw [Settles, hfate]
      exact fun u => get_put h.keyed.takeEntries.stopWatchers hn (h.keyed.entriesOf_takeEntries hn)
    · exact (get_addEntries_other hn hm hne).trans (h.keyed.get_takeEntries_of_ne hm hne)
    · simp [hfate]
    · simp [refusal, hfate]
  | unchanged =>
    refine h.round h.keyed ?_ (fun _ _ _ _ => rfl) hp ?_ ?_
    · rw [Settles, hfate]
      exact hsame
    · simp [hfate]
    · simp [refusal, hfate]

/-- What holds at the start and through every round holds when the loop over the file is through. -/
lemma applyPools_rule (h : r₀.Keyed) (haccepted : ∀ n c, pools.get n = some c → c.Accepted n)
    {P : List (Text × PoolConfig) → Reload → Prop} (h0 : P [] (start r₀))
    (hround : ∀ {done p s}, Turn r₀ done p → Progress r₀ done s → P done s →
      P (done ++ [p]) (applyPool now r₀.poolNames s p)) :
    Progress r₀ pools.pairs (applied now pools r₀) ∧ P pools.pairs (applied now pools r₀) := by
  have hstart : Progress r₀ [] (start r₀) :=
    ⟨h, fun _ _ _ _ => rfl, List.forall_mem_nil _, rfl, rfl⟩
  refine foldl_rounds (P := fun done s => Progress r₀ done s ∧ P done s) ⟨hstart, h0⟩ ?_
  intro done p rest s hl ⟨hprogress, hP⟩
  have hp := turn_of_pairs h haccepted hl
  exact ⟨hprogress.applyPool hp, hround hp hprogress hP⟩

lemma progress_applied (h : r₀.Keyed)
    (haccepted : ∀ n c, pools.get n = some c → c.Accepted n) :
    Progress r₀ pools.pairs (applied now pools r₀) :=
  (applyPools_rule h haccepted (P := fun _ _ => True) trivial fun _ _ _ => trivial).1

/-- A pool that is not in the file is left to the second loop. -/
lemma Progress.surplus (h : Progress r₀ pools.pairs s) (hn : poolKeySeparator ∉ n)
    (hnone : pools.get n = none) (u : Text) :
    s.registry.entries.get (poolKey n u) = r₀.entries.get (poolKey n u) :=
  h.waiting n hn (Table.not_mem_keys hnone) u

/-! ## The loop over the names that were there -/

/-- The first loop has left `s₁`, and of the names that were there `gone` have been looked at. -/
structure Retiring (pools : Table Text PoolConfig) (s₁ : Reload) (gone : List Text) (s : Reload) :
    Prop where
  keyed : s.registry.Keyed
  entries : ∀ n, poolKeySeparator ∉ n → ∀ u, s.registry.entries.get (poolKey n u) =
    if n ∈ gone ∧ pools.get n = none then none else s₁.registry.entries.get (poolKey n u)
  result : s.result =
    { s₁.result with removed := s₁.result.removed ++ gone.filter fun n => (pools.get n).isNone }
  errs : s.errs = s₁.errs

lemma retirePool_eq (hthere : pools.get name = none → s.registry.entriesOf name ≠ []) :
    retirePool pools s name =
      match pools.get name with
      | some _ => s
      | none =>
        { s with
          registry := (s.registry.takeEntries name).stopWatchers (s.registry.entriesOf name)
          result := { s.result with removed := s.result.removed ++ [name] }
          drained := s.drained ++ [(name, (s.registry.entriesOf name).map (·.pool))] } := by
  unfold retirePool
  cases hpool : pools.get name with
  | some c => rfl
  | none =>
    have hremove := remove_eq_ok.mpr ⟨hthere hpool, rfl⟩
    rw [hremove]
    rfl

/-- A surplus pool is there until its round. -/
lemma Retiring.there (h : Retiring pools s₁ gone s) (h₁ : Progress r₀ pools.pairs s₁)
    (h₀ : r₀.Keyed) (hname : name ∈ r₀.poolNames) (hgone : name ∉ gone)
    (hnone : pools.get name = none) : s.registry.entriesOf name ≠ [] := by
  have hplain := h₀.plain_of_mem hname
  obtain ⟨b, hb⟩ := h₀.exists_base hname
  have hsame : s.registry.base name = r₀.base name := by
    refine (h.entries name hplain []).trans ?_
    rw [if_neg fun hin => hgone hin.1]
    exact h₁.surplus hplain hnone []
  rw [Ne, h.keyed.entriesOf_eq_nil_iff hplain, hsame, hb]
  exact Option.some_ne_none b

lemma Retiring.retirePool (h : Retiring pools s₁ gone s) (hname : poolKeySeparator ∉ name)
    (hthere : pools.get name = none → s.registry.entriesOf name ≠ []) :
    Retiring pools s₁ (gone ++ [name]) (retirePool pools s name) := by
  rw [retirePool_eq hthere]
  cases hpool : pools.get name with
  | some cfg =>
    refine ⟨h.keyed, fun n hn u => ?_, ?_, h.errs⟩
    · rw [h.entries n hn]
      have hiff : (n ∈ gone ++ [name] ∧ pools.get n = none) ↔ n ∈ gone ∧ pools.get n = none := by
        rw [List.mem_append, List.mem_singleton]
        refine ⟨fun ⟨hin, hnone⟩ => ⟨hin.resolve_right ?_, hnone⟩, fun ⟨hin, hnone⟩ =>
          ⟨.inl hin, hnone⟩⟩
        rintro rfl
        rw [hpool] at hnone
        cases hnone
      simp only [hiff]
    · rw [h.result, List.filter_append]
      simp [hpool]
  | none =>
    refine ⟨h.keyed.takeEntries.stopWatchers, fun n hn u => ?_, ?_, h.errs⟩
    · change (s.registry.takeEntries name).entries.get (poolKey n u) = _
      by_cases heq : n = name
      · subst heq
        have hin : n ∈ gone ++ [n] ∧ pools.get n = none :=
          ⟨List.mem_append_right _ (List.mem_singleton_self n), hpool⟩
        rw [if_pos hin]
        by_contra hsome
        obtain ⟨e, he⟩ := Option.ne_none_iff_exists'.mp hsome
        obtain ⟨hget, hne⟩ := get_takeEntries_some.mp he
        exact hne (poolKey_inj hn (h.keyed.plain hget) (h.keyed.key hget)).1.symm
      · have hiff : n ∈ gone ++ [name] ↔ n ∈ gone := by
          rw [List.mem_append, List.mem_singleton]
          exact or_iff_left heq
        rw [h.keyed.get_takeEntries_of_ne hn heq, h.entries n hn]
        simp only [hiff]
    · simp [h.result, List.filter_append, hpool]

lemma nodup_poolNames : r.poolNames.Nodup :=
  (List.Pairwise.map Prod.fst (fun _ _ hlt => hlt) (Table.ofList _).sorted).imp fun hlt => hlt.ne

/-- What holds after the loop over the file and through every round of the other one holds when the
reload is through. -/
lemma retirePools_rule (h : r₀.Keyed) (haccepted : ∀ n c, pools.get n = some c → c.Accepted n)
    {P : List Text → Reload → Prop} (h0 : P [] (applied now pools r₀))
    (hround : ∀ {gone name s}, Retiring pools (applied now pools r₀) gone s →
      name ∈ r₀.poolNames → name ∉ gone →
      (pools.get name = none → s.registry.entriesOf name ≠ []) → P gone s →
      P (gone ++ [name]) (retirePool pools s name)) :
    Retiring pools (applied now pools r₀) r₀.poolNames (run now pools r₀) ∧
      P r₀.poolNames (run now pools r₀) := by
  have hprogress : Progress r₀ pools.pairs (applied now pools r₀) := progress_applied h haccepted
  have hstart : Retiring pools (applied now pools r₀) [] (applied now pools r₀) := by
    refine ⟨hprogress.keyed, fun n _ _ => ?_, ?_, rfl⟩
    · rw [if_neg fun hin => List.not_mem_nil hin.1]
    · rw [List.filter_nil, List.append_nil]
  refine foldl_rounds (P := fun gone s => Retiring pools (applied now pools r₀) gone s ∧ P gone s)
    ⟨hstart, h0⟩ ?_
  intro gone name rest s hl ⟨hretiring, hP⟩
  have hname : name ∈ r₀.poolNames := by
    rw [hl]
    exact List.mem_append_right _ List.mem_cons_self
  have hgone : name ∉ gone := fun hin => by
    have hdistinct : r₀.poolNames.Nodup := nodup_poolNames
    rw [hl] at hdistinct
    exact (List.nodup_append.mp hdistinct).2.2 name hin name List.mem_cons_self rfl
  have hthere := hretiring.there hprogress h hname hgone
  exact ⟨hretiring.retirePool (h.plain_of_mem hname) hthere,
    hround hretiring hname hgone hthere hP⟩

/-! ## The reload as a whole -/

lemma retiring_run (h : r₀.Keyed) (haccepted : ∀ n c, pools.get n = some c → c.Accepted n) :
    Retiring pools (applied now pools r₀) r₀.poolNames (run now pools r₀) :=
  (retirePools_rule h haccepted (P := fun _ _ => True) trivial fun _ _ _ _ _ => trivial).1

lemma settles_run (h : r₀.Keyed) (haccepted : ∀ n c, pools.get n = some c → c.Accepted n)
    (hpool : pools.get n = some c) : Settles r₀ (n, c) (run now pools r₀).registry := by
  have hprogress : Progress r₀ pools.pairs (applied now pools r₀) := progress_applied h haccepted
  refine (hprogress.through (n, c) (Table.mem_pairs.mpr hpool)).congr fun u => ?_
  rw [(retiring_run h haccepted).entries n (haccepted n c hpool).name,
    if_neg fun hin => Option.some_ne_none c (hpool.symm.trans hin.2)]

lemma base_run_of_none (h : r₀.Keyed) (haccepted : ∀ n c, pools.get n = some c → c.Accepted n)
    (hn : poolKeySeparator ∉ n) (hpool : pools.get n = none) :
    (run now pools r₀).registry.base n = none := by
  rw [PoolRegistry.base, (retiring_run h haccepted).entries n hn]
  by_cases hin : n ∈ r₀.poolNames
  · rw [if_pos ⟨hin, hpool⟩]
  · rw [if_neg fun hboth => hin hboth.1, (progress_applied h haccepted).surplus hn hpool]
    exact Option.not_isSome_iff_eq_none.mp (mt (mem_poolNames_iff h hn).mpr hin)

/-- Every reload of accepted pools is reconciled. -/
lemma reconciled_run (h : r₀.Keyed)
    (haccepted : ∀ n c, pools.get n = some c → c.Accepted n) :
    Reconciled pools r₀ (run now pools r₀) := by
  have hprogress : Progress r₀ pools.pairs (applied now pools r₀) := progress_applied h haccepted
  have hretiring : Retiring pools (applied now pools r₀) r₀.poolNames (run now pools r₀) :=
    retiring_run h haccepted
  have hbase : ∀ n c, pools.get n = some c →
      ((run now pools r₀).registry.base n).map (·.config) = settled r₀ (n, c) := fun n c hpool =>
    (settles_run h haccepted hpool).base (users_nil_of_accepted (haccepted n c hpool))
  refine ⟨fun n hn => ?_, fun n c hpool => settles_run h haccepted hpool,
    fun n c hpool hfate u c' hid => ?_, fun n hpool => ?_, ?_, ?_, ?_, ?_,
    hretiring.errs.trans hprogress.errs⟩
  · cases hpool : pools.get n with
    | some c => rw [Option.bind_some, hbase n c hpool]
    | none => rw [Option.bind_none, base_run_of_none h haccepted hn hpool, Option.map_none]
  · -- the entries of a pool are those that the configuration of its base entry asks for
    obtain ⟨b, hb, rfl⟩ :=
      Option.map_eq_some_iff.mp ((hbase n c hpool).trans (settled_of_passes hfate))
    exact hretiring.keyed.identity hb (haccepted n b.config hpool).name hid
  · by_cases hn : poolKeySeparator ∈ n
    · exact entriesOf_eq_nil.mpr fun k e he hname => hretiring.keyed.plain he (hname ▸ hn)
    · exact (hretiring.keyed.entriesOf_eq_nil_iff hn).mpr (base_run_of_none h haccepted hn hpool)
  · rw [hretiring.result, hprogress.result]
  · rw [hretiring.result, hprogress.result]
  · rw [hretiring.result, hprogress.result]
  · rw [hretiring.result, hprogress.result, List.nil_append]

end Reload

end Pgman
