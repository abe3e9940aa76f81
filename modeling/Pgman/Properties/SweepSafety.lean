import Pgman.Construction.Session.Traffic

/-!
# A sweep and the clients that are not yet in its view

A sweep spares a pass-through pool whose key a session has recorded, and one that a client was
routed to within the idle time.  A client is covered by the second rule from the stamp of its
`Resolve` until its pool name is recorded, if that takes less than the idle time; before the stamp
it is covered by neither.

`Resolve` stamps an entry after it has let go of the lock under which it found it.  A sweep that
comes between takes the entry out, and `Resolve` returns a pool that is closed
(`resolve_returns_swept_pool`).  When no sweep comes there, and every client that a sweep did not
see has called `Resolve` within the idle time, sweeps and clients stay apart
(`sweep_spares_visits`).

What makes the argument short is that the operations on the registry keep the pool objects apart:
an entry that an operation leaves is one that was there, as old or stamped now, or it has a pool
object of its own that is new (`Advance`).
-/

namespace Pgman

open Net (Text)

variable {name n user u k key db : Text} {cfg c : PoolConfig} {r r' r'' : PoolRegistry}
  {e e' e₀ b : RegistryEntry} {now : ℤ}

namespace PoolRegistry

/-! ## Pool objects over time -/

/-- Moreover the keys of pass-through entries are not empty. -/
structure Addressed (r : PoolRegistry) : Prop extends Numbered r where
  key : ∀ {k e}, r.entries.get k = some e → e.passthrough = true → k ≠ []

/-- What an operation at `now` may do to the entries. -/
structure Advance (now : ℤ) (r r' : PoolRegistry) : Prop where
  addressed : Addressed r'
  pools : r.pools ≤ r'.pools
  entry : ∀ {k e'}, r'.entries.get k = some e' →
    (r.pools ≤ e'.pool ∧ now ≤ e'.lastRouted) ∨
    ∃ e, r.entries.get k = some e ∧ e'.pool = e.pool ∧ e'.passthrough = e.passthrough ∧
      (e'.lastRouted = e.lastRouted ∨ now ≤ e'.lastRouted)

lemma addressed_empty : Addressed empty :=
  ⟨numbered_empty, fun hk => by cases hk⟩

lemma Advance.refl (h : Addressed r) : Advance now r r :=
  ⟨h, le_rfl, fun {_ e'} hk => .inr ⟨e', hk, rfl, rfl, .inl rfl⟩⟩

lemma Advance.trans (h : Advance now r r') (h' : Advance now r' r'') : Advance now r r'' := by
  refine ⟨h'.addressed, h.pools.trans h'.pools, ?_⟩
  intro k e'' hk
  rcases h'.entry hk with ⟨hnew, hnow⟩ | ⟨e', hk', hpool', hpass', hrouted'⟩
  · exact .inl ⟨h.pools.trans hnew, hnow⟩
  rcases h.entry hk' with ⟨hnew, hnow⟩ | ⟨e, he, hpool, hpass, hrouted⟩
  · refine .inl ⟨hpool' ▸ hnew, ?_⟩
    rcases hrouted' with hsame | hnow'
    · rwa [hsame]
    · exact hnow'
  · refine .inr ⟨e, he, hpool'.trans hpool, hpass'.trans hpass, ?_⟩
    rcases hrouted' with hsame | hnow'
    · rwa [hsame]
    · exact .inr hnow'

/-- Entries are taken away. -/
lemma Addressed.shrink (h : Addressed r) (hpools : r'.pools = r.pools)
    (hget : ∀ {k e}, r'.entries.get k = some e → r.entries.get k = some e) :
    Advance now r r' := by
  refine ⟨⟨h.of_get hpools fun {k e} hk => ⟨e, hget hk, rfl⟩, fun hk => h.key (hget hk)⟩,
    hpools.ge, ?_⟩
  intro k e hk
  exact .inr ⟨e, hget hk, rfl, rfl, .inl rfl⟩

lemma Addressed.putEntry {pt : Bool} (h : Addressed r) (hkey : pt = true → poolKey name user ≠ []) :
    Advance now r (r.putEntry now name user c pt) := by
  refine ⟨⟨h.put, ?_⟩, Nat.le_succ _, ?_⟩
  · intro k e hk hpass
    rw [get_putEntry] at hk
    split_ifs at hk with hnew
    · obtain rfl := Option.some.inj hk
      exact hnew ▸ hkey hpass
    · exact h.key hk hpass
  · intro k e hk
    rw [get_putEntry] at hk
    split_ifs at hk
    · obtain rfl := Option.some.inj hk
      exact .inl ⟨le_rfl, le_rfl⟩
    · exact .inr ⟨e, hk, rfl, rfl, .inl rfl⟩

lemma Addressed.addEntries (h : Addressed r) : Advance now r (r.addEntries now name cfg) := by
  refine addEntries_rule (Q := Advance now r) (h.shrink rfl fun hk => hk) ?_
  intro r' user c hadv
  exact hadv.trans (hadv.addressed.putEntry fun hpass => Bool.noConfusion hpass)

lemma Addressed.takeEntries (h : Addressed r) {old : List RegistryEntry} :
    Advance now r ((r.takeEntries name).stopWatchers old) := by
  refine h.shrink ?_ fun hk => (get_takeEntries_some.mp hk).1
  unfold PoolRegistry.takeEntries stopWatchers
  split_ifs
  · rfl
  · rfl

lemma Addressed.replace (h : Addressed r) : Advance now r (r.replace now name cfg) := by
  have htaken : Advance now r ((r.takeEntries name).stopWatchers (r.entriesOf name)) :=
    h.takeEntries
  exact htaken.trans htaken.addressed.addEntries

lemma addressed_new {l : List (Text × PoolConfig)} {t₀ : ℤ} : Addressed (new t₀ l) := by
  unfold new
  generalize hr : empty = r
  have h : Addressed r := hr ▸ addressed_empty
  clear hr
  induction l generalizing r with
  | nil => exact h
  | cons p l ih => exact ih _ h.addEntries.addressed

/-- A stamp leaves everything but one time as it is. -/
lemma get_stamp_cases (hk : (r.stamp now key e₀).entries.get k = some e') :
    ∃ e, r.entries.get k = some e ∧ e'.pool = e.pool ∧ e'.passthrough = e.passthrough ∧
      (e'.lastRouted = e.lastRouted ∨ e'.lastRouted = now) := by
  have hsame : ∀ {e}, r.entries.get k = some e → ∃ e', r.entries.get k = some e' ∧
      e.pool = e'.pool ∧ e.passthrough = e'.passthrough ∧
        (e.lastRouted = e'.lastRouted ∨ e.lastRouted = now) :=
    fun {e} hk => ⟨e, hk, rfl, rfl, .inl rfl⟩
  unfold stamp at hk
  split_ifs at hk
  · cases hkey : r.entries.get key with
    | none =>
      rw [hkey] at hk
      exact hsame hk
    | some e =>
      simp only [hkey] at hk
      split_ifs at hk
      · rw [Table.get_set] at hk
        split_ifs at hk with heq
        · obtain rfl := Option.some.inj hk
          exact ⟨e, heq ▸ hkey, rfl, rfl, .inr rfl⟩
        · exact hsame hk
      · exact hsame hk
  · exact hsame hk

/-- The entry that was found has the stamp, if it is a pass-through entry and still there. -/
lemma lastRouted_stamp (hpass : e₀.passthrough = true)
    (hk : (r.stamp now key e₀).entries.get key = some e') (hpool : e'.pool = e₀.pool) :
    e'.lastRouted = now := by
  unfold stamp at hk
  rw [if_pos hpass] at hk
  cases hkey : r.entries.get key with
  | none =>
    simp only [hkey] at hk
    cases hk
  | some e =>
    simp only [hkey] at hk
    split_ifs at hk with heq
    · rw [Table.get_set, if_pos rfl] at hk
      obtain rfl := Option.some.inj hk
      rfl
    · rw [hkey] at hk
      obtain rfl := Option.some.inj hk
      exact absurd hpool heq

lemma pools_stamp : (r.stamp now key e₀).pools = r.pools := by
  unfold stamp
  split
  · split
    · rfl
    · split
      · rfl
      · rfl
  · rfl

lemma Addressed.stamp (h : Addressed r) : Advance now r (r.stamp now key e₀) := by
  refine ⟨⟨h.of_get pools_stamp fun hk => ?_, ?_⟩, pools_stamp.ge, ?_⟩
  · obtain ⟨e, he, hpool, -⟩ := get_stamp_cases hk
    exact ⟨e, he, hpool⟩
  · intro k e' hk hpass
    obtain ⟨e, he, -, hpass', -⟩ := get_stamp_cases hk
    exact h.key he (hpass' ▸ hpass)
  · intro k e' hk
    obtain ⟨e, he, hpool, hpass, hrouted⟩ := get_stamp_cases hk
    exact .inr ⟨e, he, hpool, hpass, hrouted.imp id fun heq => heq.ge⟩

lemma poolKey_ne_nil (h : user ≠ []) : poolKey name user ≠ [] := by
  rw [poolKey_of_ne h]
  exact List.append_ne_nil_of_right_ne_nil _ (List.cons_ne_nil _ _)

lemma Addressed.create (h : Addressed r) (huser : user ≠ []) :
    Advance now r (r.createPassthroughEntry now name user cfg).2 := by
  unfold createPassthroughEntry
  cases r.entries.get (poolKey name user) with
  | some e => exact .refl h
  | none =>
    cases r.base name with
    | none => exact .refl h
    | some b => exact h.putEntry fun _ => poolKey_ne_nil huser

lemma Addressed.operate {call : OperatorCall} (h : Addressed r) (he : call.Effect now r r') :
    Advance now r r' := by
  cases he with
  | added => exact h.addEntries
  | same => exact .refl h
  | replaced => exact h.replace
  | resized => exact h.replace
  | removed => exact h.takeEntries

end PoolRegistry

/-! ## What a visit has in its hands -/

namespace Traffic

variable {w w' : Traffic} {v : Visit} {i j : ℕ} {closed : List ℕ} {x : PoolRegistry.Resolved}
  {l : PoolRegistry.Lookup} {t : ℤ}

/-- A pool that sweeps have left alone: where it is in the registry it stands under its key, and a
pass-through pool was stamped at `t` or later. -/
structure Holds (r : PoolRegistry) (closed : List ℕ) (t : ℤ) (x : PoolRegistry.Resolved) :
    Prop where
  past : x.pool < r.pools
  kept : x.pool ∉ closed
  entry : ∀ {k e}, r.entries.get k = some e → e.pool = x.pool →
    k = x.key ∧ (e.passthrough = true → t ≤ e.lastRouted)

/-- The entry that a `Resolve` has found and not yet stamped. -/
structure Found (r : PoolRegistry) (closed : List ℕ) (key : Text) (e₀ : RegistryEntry) : Prop where
  past : e₀.pool < r.pools
  kept : e₀.pool ∉ closed
  entry : ∀ {k e}, r.entries.get k = some e → e.pool = e₀.pool →
    k = key ∧ e.passthrough = e₀.passthrough

/-- What a `Resolve` knows, called at `t`.  An entry where there was none has been put since. -/
def Knows (r : PoolRegistry) (closed : List ℕ) (t : ℤ) : PoolRegistry.Lookup → Prop
  | .missing => True
  | .found key e => Found r closed key e
  | .create name user _ => user ≠ [] ∧
    ∀ e, r.entries.get (poolKey name user) = some e → t ≤ e.lastRouted

def Stands (r : PoolRegistry) (closed : List ℕ) (t : ℤ) : Stage → Prop
  | .asked l => Knows r closed t l
  | .routed x | .registered _ x | .named _ x => Holds r closed t x

lemma Holds.advance (h : Holds r closed t x) (ht : t ≤ now) (ha : r.Advance now r') :
    Holds r' closed t x := by
  refine ⟨h.past.trans_le ha.pools, h.kept, ?_⟩
  intro k e' hk hpool
  rcases ha.entry hk with ⟨hnew, -⟩ | ⟨e, he, hp, hpass, hrouted⟩
  · exact absurd (hpool ▸ h.past) (not_lt.mpr hnew)
  · obtain ⟨hkey, hle⟩ := h.entry he (hp.symm.trans hpool)
    refine ⟨hkey, fun hpt => ?_⟩
    rcases hrouted with hsame | hnow
    · rw [hsame]
      exact hle (hpass ▸ hpt)
    · exact ht.trans hnow

lemma Found.advance (h : Found r closed key e₀) (ha : r.Advance now r') :
    Found r' closed key e₀ := by
  refine ⟨h.past.trans_le ha.pools, h.kept, ?_⟩
  intro k e' hk hpool
  rcases ha.entry hk with ⟨hnew, -⟩ | ⟨e, he, hp, hpass, -⟩
  · exact absurd (hpool ▸ h.past) (not_lt.mpr hnew)
  · obtain ⟨hkey, hsame⟩ := h.entry he (hp.symm.trans hpool)
    exact ⟨hkey, hpass.trans hsame⟩

lemma Stands.advance {stage : Stage} (h : Stands r closed t stage) (ht : t ≤ now)
    (ha : r.Advance now r') : Stands r' closed t stage := by
  cases stage with
  | asked l =>
    cases l with
    | missing => trivial
    | found key e => exact Found.advance h ha
    | create name user cfg =>
      refine ⟨h.1, fun e' hk => ?_⟩
      rcases ha.entry hk with ⟨-, hnow⟩ | ⟨e, he, -, -, hsame | hnow⟩
      · exact ht.trans hnow
      · rw [hsame]
        exact h.2 e he
      · exact ht.trans hnow
  | routed x => exact Holds.advance h ht ha
  | registered pid x => exact Holds.advance h ht ha
  | named pid x => exact Holds.advance h ht ha

/-- A pass-through identity is the client's own. -/
lemma backendIdentityFor_passthrough {held : Text → Bool}
    (h : (PoolRegistry.backendIdentityFor held cfg user).2 = true) :
    (PoolRegistry.backendIdentityFor held cfg user).1 = user ∧ user ≠ [] := by
  unfold PoolRegistry.backendIdentityFor at h ⊢
  split_ifs at h ⊢ with hnil
  exact ⟨rfl, hnil⟩

/-- The first critical section of `Resolve`. -/
lemma knows_lookup {held : Text → Bool} (h : r.Addressed)
    (hclosed : ∀ {k e}, r.entries.get k = some e → e.pool ∉ closed) :
    Knows r closed t (r.lookup held db user) := by
  unfold PoolRegistry.lookup
  cases r.byDatabase.get db with
  | none => trivial
  | some n =>
    dsimp only
    cases r.base n with
    | none => trivial
    | some b =>
      dsimp only
      have hown : (PoolRegistry.backendIdentityFor held b.config user).2 = true →
          (PoolRegistry.backendIdentityFor held b.config user).1 = user ∧ user ≠ [] :=
        backendIdentityFor_passthrough
      generalize PoolRegistry.backendIdentityFor held b.config user = identity at hown ⊢
      cases hget : r.entries.get (poolKey n identity.1) with
      | some e =>
        refine ⟨h.given hget, hclosed hget, fun hk hpool => ?_⟩
        obtain rfl := h.distinct hk hget hpool
        exact ⟨rfl, by rw [Option.some.inj (hk.symm.trans hget)]⟩
      | none =>
        dsimp only
        split_ifs with hpass
        · obtain ⟨huser, hne⟩ := hown hpass
          refine ⟨hne, fun e he => ?_⟩
          rw [← huser, hget] at he
          cases he
        · trivial

/-! ## The invariant -/

/-- The visits whose pool name was recorded are still there under it, or gone, and the names in the
shards below `shard` have been collected. -/
def Seen (visits : Table ℕ Visit) (next : ℕ) (active : List Text) (known : List ℕ) (shard : ℕ) :
    Prop :=
  ∀ i ∈ known, i < next ∧ ∀ v, visits.get i = some v → ∃ pid x, v.stage = .named pid x ∧
    v.poolName ≠ [] ∧ (pid % sessionShardCount < shard → v.poolName ∈ active)

def Covers (visits : Table ℕ Visit) (next : ℕ) : Sweep → Prop
  | .looking shard active known => Seen visits next active known shard
  | .armed _ active known => Seen visits next active known sessionShardCount

/-- Sweeps have not touched what visits have. -/
structure Apart (w : Traffic) : Prop where
  addressed : w.registry.Addressed
  kept : ∀ {k e}, w.registry.entries.get k = some e → e.pool ∉ w.closed
  past : ∀ {p}, p ∈ w.closed → p < w.registry.pools
  visit : ∀ {i v}, w.visits.get i = some v →
    i < w.next ∧ v.asked ≤ w.now ∧ Stands w.registry w.closed v.asked v.stage
  sweep : ∀ s, w.sweep = some s → Covers w.visits w.next s

lemma Seen.mono {visits visits' : Table ℕ Visit} {next next' : ℕ} {active : List Text}
    {known : List ℕ} {shard : ℕ} (h : Seen visits next active known shard) (hnext : next ≤ next')
    (hvisits : ∀ i ∈ known, ∀ v, visits'.get i = some v → visits.get i = some v) :
    Seen visits' next' active known shard := fun i hi =>
  ⟨(h i hi).1.trans_le hnext, fun v hv => (h i hi).2 v (hvisits i hi v hv)⟩

def known : Sweep → List ℕ
  | .looking _ _ known | .armed _ _ known => known

lemma Covers.mono {visits visits' : Table ℕ Visit} {next next' : ℕ} {s : Sweep}
    (h : Covers visits next s) (hnext : next ≤ next')
    (hvisits : ∀ i ∈ known s, ∀ v, visits'.get i = some v → visits.get i = some v) :
    Covers visits' next' s := by
  cases s with
  | looking shard active known => exact Seen.mono h hnext hvisits
  | armed cutoff active known => exact Seen.mono h hnext hvisits

lemma Covers.lt {visits : Table ℕ Visit} {next : ℕ} {s : Sweep} (h : Covers visits next s)
    (hi : i ∈ known s) : i < next := by
  cases s with
  | looking shard active known => exact (h i hi).1
  | armed cutoff active known => exact (h i hi).1

/-- A visit that a sweep knows has its name recorded. -/
lemma Covers.named {visits : Table ℕ Visit} {next : ℕ} {s : Sweep} (h : Covers visits next s)
    (hi : i ∈ known s) (hv : visits.get i = some v) : ∃ pid x, v.stage = .named pid x := by
  cases s with
  | looking shard active known =>
    obtain ⟨pid, x, hstage, -⟩ := (h i hi).2 v hv
    exact ⟨pid, x, hstage⟩
  | armed cutoff active known =>
    obtain ⟨pid, x, hstage, -⟩ := (h i hi).2 v hv
    exact ⟨pid, x, hstage⟩

/-- The registry changes and the visits stay where they are. -/
lemma Apart.advance (h : Apart w) (ha : w.registry.Advance w.now r') :
    Apart { w with registry := r' } := by
  refine ⟨ha.addressed, ?_, fun hp => (h.past hp).trans_le ha.pools, ?_, h.sweep⟩
  · intro k e' hk
    rcases ha.entry hk with ⟨hnew, -⟩ | ⟨e, he, hpool, -⟩
    · exact fun hclosed => absurd (h.past hclosed) (not_lt.mpr hnew)
    · rw [hpool]
      exact h.kept he
  · intro i v hv
    obtain ⟨hi, hasked, hstands⟩ := h.visit hv
    exact ⟨hi, hasked, hstands.advance hasked ha⟩

lemma get_setStage {stage : Stage} {v' : Visit}
    (hv' : (w.setStage i v stage).visits.get j = some v') :
    (j = i ∧ v' = { v with stage := stage }) ∨ (j ≠ i ∧ w.visits.get j = some v') := by
  unfold setStage at hv'
  rw [Table.get_set] at hv'
  split_ifs at hv' with heq
  · exact .inl ⟨heq, (Option.some.inj hv').symm⟩
  · exact .inr ⟨heq, hv'⟩

/-- A visit goes on to its next stage. -/
lemma Apart.setStage {stage : Stage} (h : Apart w) (hv : w.visits.get i = some v)
    (hstage : Stands w.registry w.closed v.asked stage)
    (hnot : ∀ pid x, v.stage ≠ .named pid x) : Apart (w.setStage i v stage) := by
  refine ⟨h.addressed, h.kept, h.past, ?_, ?_⟩
  · intro j v' hv'
    rcases get_setStage hv' with ⟨rfl, rfl⟩ | ⟨-, hold⟩
    · exact ⟨(h.visit hv).1, (h.visit hv).2.1, hstage⟩
    · exact h.visit hold
  · intro s hs
    refine (h.sweep s hs).mono le_rfl fun j hj v' hv' => ?_
    rcases get_setStage hv' with ⟨rfl, -⟩ | ⟨-, hold⟩
    · obtain ⟨pid, x, hnamed⟩ := (h.sweep s hs).named hj hv
      exact absurd hnamed (hnot pid x)
    · exact hold

lemma Apart.dropVisit (h : Apart w) : Apart (w.dropVisit i) := by
  have hget : ∀ {j v}, (w.dropVisit i).visits.get j = some v → w.visits.get j = some v := by
    intro j v hv
    unfold Traffic.dropVisit at hv
    rw [Table.get_keep] at hv
    exact (Option.filter_eq_some_iff.mp hv).1
  exact ⟨h.addressed, h.kept, h.past, fun hv => h.visit (hget hv),
    fun s hs => (h.sweep s hs).mono le_rfl fun _ _ _ hv => hget hv⟩

/-! ## The steps -/

/-- The second half of `Resolve`: what it returns is in the visit's hands. -/
lemma answer_stands (h : Apart w) (hv : w.visits.get i = some v) (hl : v.stage = .asked l) :
    w.registry.Advance w.now (l.answer w.now w.registry).2 ∧
      ∀ x, (l.answer w.now w.registry).1 = some x →
        Holds (l.answer w.now w.registry).2 w.closed v.asked x := by
  obtain ⟨-, hasked, hstands⟩ := h.visit hv
  rw [hl] at hstands
  cases l with
  | missing =>
    have hsame : w.registry.Advance w.now w.registry := .refl h.addressed
    refine ⟨hsame, fun x hx => ?_⟩
    cases hx
  | found key e₀ =>
    have hadvance : w.registry.Advance w.now (w.registry.stamp w.now key e₀) := h.addressed.stamp
    refine ⟨hadvance, fun x hx => ?_⟩
    obtain rfl := Option.some.inj hx
    have hfound : Found (w.registry.stamp w.now key e₀) w.closed key e₀ :=
      Found.advance hstands hadvance
    refine ⟨hfound.past, hfound.kept, fun {k e} hk hpool => ?_⟩
    obtain ⟨rfl, hsame⟩ := hfound.entry hk hpool
    refine ⟨rfl, fun hpass => ?_⟩
    rw [PoolRegistry.lastRouted_stamp (hsame ▸ hpass) hk hpool]
    exact hasked
  | create name user cfg =>
    obtain ⟨huser, hlater⟩ := hstands
    refine ⟨h.addressed.create huser, ?_⟩
    intro x hx
    unfold PoolRegistry.Lookup.answer PoolRegistry.createPassthroughEntry at hx ⊢
    cases hget : w.registry.entries.get (poolKey name user) with
    | some e =>
      simp only [hget] at hx ⊢
      obtain rfl := Option.some.inj hx
      refine ⟨h.addressed.given hget, h.kept hget, fun {k e'} hk hpool => ?_⟩
      obtain rfl := h.addressed.distinct hk hget hpool
      obtain rfl := Option.some.inj (hk.symm.trans hget)
      exact ⟨rfl, fun _ => hlater _ hget⟩
    | none =>
      simp only [hget] at hx ⊢
      cases hb : w.registry.base name with
      | none =>
        simp only [hb] at hx
        cases hx
      | some b =>
        simp only [hb] at hx ⊢
        obtain rfl := Option.some.inj hx
        refine ⟨Nat.lt_succ_self _, fun hp => (h.past hp).ne rfl, fun {k e'} hk hpool => ?_⟩
        rw [PoolRegistry.get_putEntry] at hk
        split_ifs at hk with hkey
        · obtain rfl := Option.some.inj hk
          exact ⟨hkey, fun _ => hasked⟩
        · exact absurd (h.addressed.given hk) (hpool ▸ Nat.lt_irrefl _)

lemma Apart.answer (h : Apart w) (hv : w.visits.get i = some v) (hl : v.stage = .asked l) :
    Apart (w.answer i v l) := by
  obtain ⟨hadvance, hholds⟩ := answer_stands h hv hl
  have hapart := h.advance hadvance
  unfold Traffic.answer
  cases hx : (l.answer w.now w.registry).1 with
  | none =>
    simp only [hx]
    exact hapart.dropVisit
  | some x =>
    simp only [hx]
    exact hapart.setStage hv (hholds x hx) fun pid y => by simp [hl]

/-- A visit that a sweep which is about to take the lock does not see. -/
def exposed (cutoff : ℤ) (v : Visit) : Bool :=
  match v.stage with
  | .asked (.found _ e) => e.passthrough
  | .asked .missing | .asked (.create ..) => false
  | .routed _ | .registered .. | .named .. => v.asked ≤ cutoff

def exposes : Sweep → ℕ → Visit → Bool
  | .looking .., _, _ => false
  | .armed cutoff _ known, i, v => i ∉ known && exposed cutoff v

/-- When a sweep takes the lock, no `Resolve` has found a pass-through entry and not stamped it, and
every visit whose pool name was not recorded when the sweep began has called `Resolve` after the
cutoff. -/
def timely (w : Traffic) : TrafficEvent → Bool
  | .evict _ => w.sweep.all fun s => w.visits.pairs.all fun p => !exposes s p.1 p.2
  | .tick _ | .ask .. | .answer _ | .register .. | .name _ | .leave _ | .operate _ | .beginSweep
  | .look | .aim => true

/-- The pool object that a visit has found or been given. -/
def hand : Stage → Option ℕ
  | .asked (.found _ e) => some e.pool
  | .asked .missing | .asked (.create ..) => none
  | .routed x | .registered _ x | .named _ x => some x.pool

/-- What is in a visit's hands is not idle. -/
lemma not_idle {cutoff : ℤ} {active : List Text} {known : List ℕ} {inUse : ℕ → ℕ}
    (h : Apart w) (hs : w.sweep = some (.armed cutoff active known))
    (hv : w.visits.get i = some v) (htime : exposes (.armed cutoff active known) i v = false)
    (hk : w.registry.entries.get k = some e)
    (hidle : PoolRegistry.idle cutoff (fun key => active.contains key) inUse k e = true) :
    hand v.stage ≠ some e.pool := by
  obtain ⟨-, -, hstands⟩ := h.visit hv
  simp only [PoolRegistry.idle, Bool.and_eq_true, Bool.not_eq_true', decide_eq_true_eq,
    List.contains_eq_mem, decide_eq_false_iff_not] at hidle
  obtain ⟨⟨⟨hpass, hactive⟩, hold⟩, -⟩ := hidle
  by_cases hi : i ∈ known
  · -- the sweep has the name of the visit's pool
    obtain ⟨pid, x, hnamed, -, hmem⟩ := (h.sweep _ hs i hi).2 v hv
    rw [hnamed] at hstands ⊢
    intro hpool
    have hkey := (Holds.entry hstands hk (Option.some.inj hpool).symm).1
    have hname : v.poolName = k := by
      rw [Visit.poolName, hnamed]
      simp only
      rw [← hkey, if_neg (h.addressed.key hk hpass)]
    exact hactive (hname ▸ hmem (Nat.mod_lt _ (by decide)))
  · simp only [exposes, hi, not_false_eq_true, decide_true, Bool.true_and] at htime
    -- the stamp is too new
    have hrecent : ∀ {x}, Holds w.registry w.closed v.asked x →
        decide (v.asked ≤ cutoff) = false → some x.pool ≠ some e.pool := by
      intro x hholds hasked hpool
      have hle := (hholds.entry hk (Option.some.inj hpool).symm).2 hpass
      exact of_decide_eq_false hasked (hle.trans hold)
    unfold exposed at htime
    cases hstage : v.stage with
    | asked l =>
      rw [hstage] at hstands htime
      cases l with
      | missing => exact fun hpool => by cases hpool
      | create name user cfg => exact fun hpool => by cases hpool
      | found key e₀ =>
        intro hpool
        have hsame := (Found.entry hstands hk (Option.some.inj hpool).symm).2
        simp only [← hsame, hpass] at htime
        cases htime
    | routed x =>
      rw [hstage] at hstands htime
      exact hrecent hstands htime
    | registered pid x =>
      rw [hstage] at hstands htime
      exact hrecent hstands htime
    | named pid x =>
      rw [hstage] at hstands htime
      exact hrecent hstands htime

/-- Other pools are closed. -/
lemma Stands.close {stage : Stage} {out : List ℕ} (h : Stands r closed t stage)
    (hout : ∀ p ∈ out, hand stage ≠ some p) : Stands r (closed ++ out) t stage := by
  have hkept : ∀ {p}, p ∉ closed → some p = hand stage → p ∉ closed ++ out := by
    intro p hclosed hp hmem
    rcases List.mem_append.mp hmem with hmem | hmem
    · exact hclosed hmem
    · exact hout p hmem hp.symm
  cases stage with
  | asked l =>
    cases l with
    | missing => trivial
    | create name user cfg => exact h
    | found key e₀ =>
      have hfound : Found r closed key e₀ := h
      exact ⟨hfound.past, hkept hfound.kept rfl, hfound.entry⟩
  | routed x =>
    have hholds : Holds r closed t x := h
    exact ⟨hholds.past, hkept hholds.kept rfl, hholds.entry⟩
  | registered pid x =>
    have hholds : Holds r closed t x := h
    exact ⟨hholds.past, hkept hholds.kept rfl, hholds.entry⟩
  | named pid x =>
    have hholds : Holds r closed t x := h
    exact ⟨hholds.past, hkept hholds.kept rfl, hholds.entry⟩

lemma Apart.evict {cutoff : ℤ} {active : List Text} {known : List ℕ} {inUse : ℕ → ℕ}
    (h : Apart w) (hs : w.sweep = some (.armed cutoff active known))
    (htime : ∀ {i v}, w.visits.get i = some v →
      exposes (.armed cutoff active known) i v = false) :
    Apart (w.evict cutoff active inUse) := by
  set idle := PoolRegistry.idle cutoff (fun key => active.contains key) inUse with hidle
  set out := (w.registry.entries.pairs.filter fun p => idle p.1 p.2).map fun p => p.2.pool
    with hout
  have hmem : ∀ {p}, p ∈ out → ∃ k e, w.registry.entries.get k = some e ∧ idle k e = true ∧
      e.pool = p := by
    intro p hp
    obtain ⟨⟨k, e⟩, hpair, rfl⟩ := List.mem_map.mp hp
    obtain ⟨hpair, hidle⟩ := List.mem_filter.mp hpair
    exact ⟨k, e, Table.mem_pairs.mp hpair, hidle, rfl⟩
  have hget : ∀ {k e}, (w.evict cutoff active inUse).registry.entries.get k = some e →
      w.registry.entries.get k = some e ∧ idle k e = false := by
    intro k e hk
    have hkeep : ((w.registry.entries.keep fun key e => !idle key e).get k) = some e := hk
    rw [Table.get_keep, Option.filter_eq_some_iff, Bool.not_eq_true'] at hkeep
    exact hkeep
  have hadvance : w.registry.Advance w.now (w.evict cutoff active inUse).registry :=
    h.addressed.shrink rfl fun hk => (hget hk).1
  refine ⟨hadvance.addressed, ?_, ?_, ?_, fun s hs => by cases hs⟩
  · intro k e hk hclosed
    obtain ⟨hold, hbusy⟩ := hget hk
    rcases List.mem_append.mp hclosed with hclosed | hclosed
    · exact h.kept hold hclosed
    · obtain ⟨k', e', hk', htaken, hpool⟩ := hmem hclosed
      obtain rfl := h.addressed.distinct hk' hold hpool
      rw [Option.some.inj (hk'.symm.trans hold), hbusy] at htaken
      cases htaken
  · intro p hp
    rcases List.mem_append.mp hp with hp | hp
    · exact h.past hp
    · obtain ⟨k, e, hk, -, rfl⟩ := hmem hp
      exact h.addressed.given hk
  · intro i v hv
    obtain ⟨hi, hasked, hstands⟩ := h.visit hv
    refine ⟨hi, hasked, (hstands.advance hasked hadvance).close fun p hp => ?_⟩
    obtain ⟨k, e, hk, htaken, rfl⟩ := hmem hp
    exact not_idle h hs hv (htime hv) hk htaken

/-- A sweep goes into the next shard. -/
lemma Seen.look {active : List Text} {known : List ℕ} {shard : ℕ}
    (h : Seen w.visits w.next active known shard) :
    Seen w.visits w.next (active ++ w.shardKeys shard) known (shard + 1) := by
  intro i hi
  refine ⟨(h i hi).1, fun v hv => ?_⟩
  obtain ⟨pid, x, hnamed, hne, hmem⟩ := (h i hi).2 v hv
  refine ⟨pid, x, hnamed, hne, fun hlt => List.mem_append.mpr ?_⟩
  rcases Nat.lt_succ_iff_lt_or_eq.mp hlt with hlt | heq
  · exact .inl (hmem hlt)
  · refine .inr (List.mem_map.mpr ⟨(i, v), List.mem_filter.mpr ⟨Table.mem_pairs.mpr hv, ?_⟩, rfl⟩)
    rw [decide_eq_true_iff, hnamed]
    exact ⟨congrArg some heq, hne⟩

lemma seen_recorded (h : Apart w) : Seen w.visits w.next [] w.recorded 0 := by
  intro i hi
  obtain ⟨⟨j, v⟩, hpair, rfl⟩ := List.mem_map.mp hi
  obtain ⟨hpair, hne⟩ := List.mem_filter.mp hpair
  have hv := Table.mem_pairs.mp hpair
  refine ⟨(h.visit hv).1, fun v' hv' => ?_⟩
  obtain rfl := Option.some.inj (hv.symm.trans hv')
  have hne : v.poolName ≠ [] := of_decide_eq_true hne
  cases hstage : v.stage with
  | named pid x => exact ⟨pid, x, rfl, hne, fun hlt => absurd hlt (Nat.not_lt_zero _)⟩
  | asked l => simp [Visit.poolName, hstage] at hne
  | routed x => simp [Visit.poolName, hstage] at hne
  | registered pid x => simp [Visit.poolName, hstage] at hne

/-- A sweep that has looked into every shard. -/
lemma Seen.all {visits : Table ℕ Visit} {next : ℕ} {active : List Text} {known : List ℕ}
    {shard : ℕ} (h : Seen visits next active known shard) (hshard : sessionShardCount ≤ shard) :
    Seen visits next active known sessionShardCount := by
  intro i hi
  refine ⟨(h i hi).1, fun v hv => ?_⟩
  obtain ⟨pid, x, hnamed, hne, hmem⟩ := (h i hi).2 v hv
  exact ⟨pid, x, hnamed, hne, fun hpid => hmem (hpid.trans_le hshard)⟩

/-- Only the sweep goes on. -/
lemma Apart.setSweep (h : Apart w) {s : Sweep} (hs : Covers w.visits w.next s) :
    Apart { w with sweep := some s } :=
  ⟨h.addressed, h.kept, h.past, h.visit, fun _ hs' => Option.some.inj hs' ▸ hs⟩

section Events

variable {idleFor : ℤ}

lemma Apart.step_tick {d : ℕ} (h : Apart w) (hs : step idleFor w (.tick d) = some w') :
    Apart w' := by
  obtain rfl := Option.some.inj hs
  refine ⟨h.addressed, h.kept, h.past, fun hv => ?_, h.sweep⟩
  obtain ⟨hi, hasked, hstands⟩ := h.visit hv
  exact ⟨hi, hasked.trans (Int.le_add_of_nonneg_right (Int.natCast_nonneg d)), hstands⟩

lemma Apart.step_ask {held : Text → Bool} (h : Apart w)
    (hs : step idleFor w (.ask held db user) = some w') : Apart w' := by
  obtain rfl := Option.some.inj hs
  have hknows : Knows w.registry w.closed w.now (w.registry.lookup held db user) :=
    knows_lookup h.addressed h.kept
  refine ⟨h.addressed, h.kept, h.past, ?_, ?_⟩
  · intro i v hv
    rw [Table.get_set] at hv
    split_ifs at hv with hi
    · obtain rfl := Option.some.inj hv
      exact ⟨hi ▸ Nat.lt_succ_self _, le_rfl, hknows⟩
    · obtain ⟨hi, hrest⟩ := h.visit hv
      exact ⟨Nat.lt_succ_of_lt hi, hrest⟩
  · intro s hs
    -- no sweep knows the visit that has just come
    refine (h.sweep s hs).mono (Nat.le_succ _) fun i hi v hv => ?_
    rwa [Table.get_set_of_ne ((h.sweep s hs).lt hi).ne] at hv

lemma Apart.step_answer (h : Apart w) (hs : step idleFor w (.answer i) = some w') :
    Apart w' := by
  simp only [Traffic.step] at hs
  split at hs
  next v hv =>
    split at hs
    next l hl =>
      obtain rfl := Option.some.inj hs
      exact h.answer hv hl
    all_goals cases hs
  next => cases hs

lemma Apart.step_register {pid : ℕ} (h : Apart w)
    (hs : step idleFor w (.register i pid) = some w') : Apart w' := by
  simp only [Traffic.step] at hs
  split at hs
  next v hv =>
    split at hs
    next x hx =>
      split_ifs at hs
      obtain rfl := Option.some.inj hs
      have hholds := (h.visit hv).2.2
      rw [hx] at hholds
      exact h.setStage hv hholds fun _ _ => by simp [hx]
    all_goals cases hs
  next => cases hs

lemma Apart.step_name (h : Apart w) (hs : step idleFor w (.name i) = some w') : Apart w' := by
  simp only [Traffic.step] at hs
  split at hs
  next v hv =>
    split at hs
    next pid x hx =>
      obtain rfl := Option.some.inj hs
      have hholds := (h.visit hv).2.2
      rw [hx] at hholds
      exact h.setStage hv hholds fun _ _ => by simp [hx]
    all_goals cases hs
  next => cases hs

lemma Apart.step_beginSweep (h : Apart w) (hs : step idleFor w .beginSweep = some w') :
    Apart w' := by
  simp only [Traffic.step] at hs
  split at hs
  · split_ifs at hs
    obtain rfl := Option.some.inj hs
    exact h.setSweep (seen_recorded h)
  · cases hs

lemma Apart.step_look (h : Apart w) (hs : step idleFor w .look = some w') : Apart w' := by
  simp only [Traffic.step] at hs
  split at hs
  next shard active known hsweep =>
    split_ifs at hs
    obtain rfl := Option.some.inj hs
    exact h.setSweep (Seen.look (h.sweep _ hsweep))
  all_goals cases hs

lemma Apart.step_aim (h : Apart w) (hs : step idleFor w .aim = some w') : Apart w' := by
  simp only [Traffic.step] at hs
  split at hs
  next shard active known hsweep =>
    split_ifs at hs with hlt
    obtain rfl := Option.some.inj hs
    exact h.setSweep (Seen.all (h.sweep _ hsweep) (not_lt.mp hlt))
  all_goals cases hs

lemma Apart.step_evict {inUse : ℕ → ℕ} (h : Apart w) (htime : timely w (.evict inUse) = true)
    (hs : step idleFor w (.evict inUse) = some w') : Apart w' := by
  simp only [Traffic.step] at hs
  split at hs
  next cutoff active known hsweep =>
    obtain rfl := Option.some.inj hs
    refine h.evict hsweep fun {i v} hv => ?_
    simp only [timely, hsweep, Option.all_some, List.all_eq_true] at htime
    exact Bool.not_eq_true' _ |>.mp (htime (i, v) (Table.mem_pairs.mpr hv))
  all_goals cases hs

lemma Apart.step {ev : TrafficEvent} (h : Apart w) (htime : timely w ev = true)
    (hs : step idleFor w ev = some w') : Apart w' := by
  cases ev with
  | tick d => exact h.step_tick hs
  | ask held database user => exact h.step_ask hs
  | answer i => exact h.step_answer hs
  | register i pid => exact h.step_register hs
  | name i => exact h.step_name hs
  | leave i =>
    obtain ⟨v, -, rfl⟩ := Option.map_eq_some_iff.mp hs
    exact h.dropVisit
  | operate call =>
    obtain ⟨r', hr, rfl⟩ := Option.map_eq_some_iff.mp hs
    exact h.advance (h.addressed.operate (OperatorCall.effect_of_apply hr))
  | beginSweep => exact h.step_beginSweep hs
  | look => exact h.step_look hs
  | aim => exact h.step_aim hs
  | evict inUse => exact h.step_evict htime hs

end Events

lemma apart_of_reach {idleFor t₀ t₁ : ℤ} {l : List (Text × PoolConfig)}
    (hw : (machine idleFor t₁ (.new t₀ l)).Reach (fun w ev => timely w ev = true) w) : Apart w := by
  induction hw with
  | init hi =>
    obtain rfl : _ = _ := hi
    refine ⟨PoolRegistry.addressed_new, ?_, ?_, ?_, ?_⟩
    · intro k e _ hmem
      cases hmem
    · intro p hmem
      cases hmem
    · intro i v hv
      cases hv
    · intro s hs
      cases hs
  | step _ htime hs ih => exact ih.step htime hs

end Traffic

/-- **Sweeps and clients stay apart**, in every run in which each sweep takes the lock while no
`Resolve` is yet to stamp a pass-through entry, and while every client whose pool name it could not
see has called `Resolve` after the cutoff: no pool that a client was given has been taken out by a
sweep, from the return of its `Resolve` to the end of its session. -/
theorem sweep_spares_visits (idleFor t₀ t₁ : ℤ) (l : List (Text × PoolConfig)) {w : Traffic}
    (hw : (Traffic.machine idleFor t₁ (.new t₀ l)).Reach
      (fun w ev => Traffic.timely w ev = true) w)
    {i : ℕ} {v : Visit} (hv : w.visits.get i = some v) {x : PoolRegistry.Resolved}
    (hx : v.stage.given = some x) : x.pool ∉ w.closed := by
  have hstands := ((Traffic.apart_of_reach hw).visit hv).2.2
  cases hstage : v.stage with
  | asked l =>
    rw [hstage] at hx
    cases hx
  | routed y =>
    rw [hstage] at hx hstands
    obtain rfl := Option.some.inj hx
    exact Traffic.Holds.kept hstands
  | registered pid y =>
    rw [hstage] at hx hstands
    obtain rfl := Option.some.inj hx
    exact Traffic.Holds.kept hstands
  | named pid y =>
    rw [hstage] at hx hstands
    obtain rfl := Option.some.inj hx
    exact Traffic.Holds.kept hstands

/-- One pool with pass-through. -/
def sharedPool : List (Text × PoolConfig) :=
  [("a".toList, { PoolConfig.plain with scramPassthrough := true })]

lemma sharedPool_init : (Traffic.machine 10 0 (.new 0 sharedPool)).init
    ⟨0, .new 0 sharedPool, .empty, 0, none, []⟩ := rfl

/-- Everything a sweep does. -/
def wholeSweep : List TrafficEvent :=
  [TrafficEvent.beginSweep] ++ List.replicate sessionShardCount TrafficEvent.look ++
    [TrafficEvent.aim, TrafficEvent.evict fun _ => 0]

/-- Alice stays and Bob goes, both come in as themselves, and a sweep comes later: it takes Bob's
pool and leaves Alice's. -/
theorem sweep_spares_alice : ∃ w v x,
    (Traffic.machine 10 0 (.new 0 sharedPool)).Reach (fun w ev => Traffic.timely w ev = true) w ∧
      w.visits.get 0 = some v ∧ v.stage.given = some x ∧ x.pool ∉ w.closed ∧ 2 ∈ w.closed := by
  have hrun : (((Traffic.machine 10 0 (.new 0 sharedPool)).guarded
      fun w ev => Traffic.timely w ev = true).run ⟨0, .new 0 sharedPool, .empty, 0, none, []⟩
      ([TrafficEvent.ask (fun _ => true) "a".toList "alice".toList, .answer 0, .register 0 7,
        .name 0, .ask (fun _ => true) "a".toList "bob".toList, .answer 1, .leave 1, .tick 60] ++
        wholeSweep)).map (fun w => decide
      (((w.visits.get 0).bind fun v => v.stage.given.map (·.pool)) = some 1 ∧ 2 ∈ w.closed)) =
      some true := by decide
  obtain ⟨w, hrun, hview⟩ := Option.map_eq_some_iff.mp hrun
  obtain ⟨hgiven, hbob⟩ := of_decide_eq_true hview
  obtain ⟨v, hv, hpool⟩ := Option.bind_eq_some_iff.mp hgiven
  obtain ⟨x, hx, -⟩ := Option.map_eq_some_iff.mp hpool
  have hw := Machine.reach_of_guarded_run sharedPool_init hrun
  exact ⟨w, v, x, hw, hv, hx, sweep_spares_visits 10 0 0 sharedPool hw hv hx, hbob⟩

/-- Alice comes back after a while.  `Resolve` finds the entry, a sweep takes it before `Resolve`
has stamped it, and Alice is given a pool that is closed.  And a client that needs longer than the
idle time from `Resolve` to the record of its pool name loses its pool to a sweep on the way. -/
theorem resolve_returns_swept_pool :
    (∃ w v x, (Traffic.machine 10 0 (.new 0 sharedPool)).Reachable w ∧
      w.visits.get 1 = some v ∧ v.stage.given = some x ∧ x.pool ∈ w.closed) ∧
    ∃ w v x, (Traffic.machine 10 0 (.new 0 sharedPool)).Reachable w ∧
      w.visits.get 0 = some v ∧ v.stage.given = some x ∧ x.pool ∈ w.closed := by
  have hview : ∀ {i : ℕ} {w : Traffic}, (((w.visits.get i).bind fun v => v.stage.given).any
      fun x => decide (x.pool ∈ w.closed)) = true →
      ∃ v x, w.visits.get i = some v ∧ v.stage.given = some x ∧ x.pool ∈ w.closed := by
    intro i w hany
    cases hv : w.visits.get i with
    | none =>
      rw [hv] at hany
      cases hany
    | some v =>
      rw [hv, Option.bind_some] at hany
      cases hx : v.stage.given with
      | none =>
        rw [hx] at hany
        cases hany
      | some x =>
        rw [hx, Option.any_some] at hany
        exact ⟨v, x, rfl, hx, of_decide_eq_true hany⟩
  constructor
  · have hrun : ((Traffic.machine 10 0 (.new 0 sharedPool)).run
        ⟨0, .new 0 sharedPool, .empty, 0, none, []⟩
        ([TrafficEvent.ask (fun _ => true) "a".toList "alice".toList, .answer 0, .leave 0, .tick 60,
          .ask (fun _ => true) "a".toList "alice".toList] ++ wholeSweep ++
          [TrafficEvent.answer 1])).map
        (fun w => ((w.visits.get 1).bind fun v => v.stage.given).any
          fun x => decide (x.pool ∈ w.closed)) = some true := by decide
    obtain ⟨w, hrun, hany⟩ := Option.map_eq_some_iff.mp hrun
    obtain ⟨v, x, hvx⟩ := hview hany
    exact ⟨w, v, x, Machine.reach_of_run sharedPool_init hrun, hvx⟩
  · have hrun : ((Traffic.machine 10 0 (.new 0 sharedPool)).run
        ⟨0, .new 0 sharedPool, .empty, 0, none, []⟩
        ([TrafficEvent.ask (fun _ => true) "a".toList "alice".toList, .answer 0, .tick 60] ++
          wholeSweep ++ [TrafficEvent.register 0 7, .name 0])).map
        (fun w => ((w.visits.get 0).bind fun v => v.stage.given).any
          fun x => decide (x.pool ∈ w.closed)) = some true := by decide
    obtain ⟨w, hrun, hany⟩ := Option.map_eq_some_iff.mp hrun
    obtain ⟨v, x, hvx⟩ := hview hany
    exact ⟨w, v, x, Machine.reach_of_run sharedPool_init hrun, hvx⟩

end Pgman
