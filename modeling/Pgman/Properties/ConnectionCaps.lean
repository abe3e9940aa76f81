import Mathlib.Data.List.Perm.Lattice
import Mathlib.Algebra.Order.BigOperators.Group.List
import Mathlib.Algebra.Order.Ring.Nat
import Pgman.Construction.Backend.Entries
import Pgman.Construction.Session.ConnLimits

/-!
# What the caps on connections cap

`max_db_connections` is a cap per configured database name: the limiter counts under the name the
client asked for, so that the customers of a shard, each with an alias of the shard's pool, are
capped one by one.  `connection_caps_by_name` is that cap, with the one per user and the care the
limiter takes of its counters.

It is not a cap per pool, for a pool answers to its aliases too and every further name is a further
allowance.  `connection_caps_by_pool_iff` makes the difference exact: the same caps hold by pool, in
every run, just when no pool is reached under two names.

Both rest on `Exact`: the counters are the numbers of clients that hold a slot, by name and by
user, neither number passes its cap, and a counter at zero is not kept.
-/

namespace Pgman

open Net (Text)

namespace ConnLimiter

variable {t : Table Text ℕ} {j k : Text}

/-! ## Counters -/

lemma count_increment : count (increment t k) j = count t j + if j = k then 1 else 0 := by
  by_cases h : j = k
  · subst h
    simp [count, increment]
  · simp [count, increment, Table.get_set, h]

lemma count_decrement : count (decrement t k) j = count t j - if j = k then 1 else 0 := by
  unfold decrement
  by_cases h : j = k
  · subst h
    rw [if_pos rfl]
    split_ifs with hpos hone
    · rw [hone]
      simp [count, Table.get_keep]
    · simp [count]
    · omega
  · rw [if_neg h, Nat.sub_zero]
    split_ifs
    · rw [count, Table.get_keep, count]
      simp only [ne_eq, h, not_false_eq_true, decide_true]
      cases t.get j <;> rfl
    · simp [count, Table.get_set, h]
    · rfl

/-- No counter is kept at zero. -/
def Tight (t : Table Text ℕ) : Prop := ∀ k, t.get k ≠ some 0

lemma Tight.increment (h : Tight t) : Tight (increment t k) := by
  intro j hj
  rw [ConnLimiter.increment, Table.get_set] at hj
  split_ifs at hj
  · simp at hj
  · exact h j hj

lemma Tight.decrement (h : Tight t) : Tight (decrement t k) := by
  intro j hj
  unfold ConnLimiter.decrement at hj
  split_ifs at hj with hpos hone
  · rw [Table.get_keep] at hj
    exact h j (Option.filter_eq_some_iff.mp hj).1
  · rw [Table.get_set] at hj
    split_ifs at hj
    · simp only [Option.some.injEq] at hj
      omega
    · exact h j hj
  · exact h j hj

lemma Tight.eq_empty (h : Tight t) (h0 : ∀ k, count t k = 0) : t = .empty := by
  refine Table.ext_get fun k => ?_
  have hk : (t.get k).getD 0 = 0 := h0 k
  cases hget : t.get k with
  | none => rfl
  | some n =>
    rw [hget] at hk
    obtain rfl : n = 0 := hk
    exact absurd hget (h k)

end ConnLimiter

open ConnLimiter

/-! ## The counters are exact -/

variable {r : PoolRegistry} {m u : ℤ} {w w' : Doorway}

/-- How many of the clients that hold a slot satisfy `p`. -/
def slots (l : List (Routed × Progress)) (p : Routed → Bool) : ℕ :=
  l.countP fun x => x.2.holdsSlot && p x.1

def askedFor (database : Text) (c : Routed) : Bool := c.database = database

def isUser (user : Text) (c : Routed) : Bool := c.user = user

structure Exact (r : PoolRegistry) (m u : ℤ) (w : Doorway) : Prop where
  maxPerDB : w.limiter.maxPerDB = m
  maxPerUser : w.limiter.maxPerUser = u
  perDB : ∀ d, count w.limiter.perDB d = slots w.clients (askedFor d)
  perUser : ∀ v, count w.limiter.perUser v = slots w.clients (isUser v)
  tightDB : Tight w.limiter.perDB
  tightUser : Tight w.limiter.perUser
  capDB : 0 < m → ∀ d, (slots w.clients (askedFor d) : ℤ) ≤ m
  capUser : 0 < u → ∀ v, (slots w.clients (isUser v) : ℤ) ≤ u
  routes : w.registry.byDatabase = r.byDatabase
  pools : ∀ x ∈ w.clients, r.byDatabase.get x.1.database = some x.1.pool

/-- The slots of a client on its own. -/
def slot (c : Routed) (q : Progress) (p : Routed → Bool) : ℕ := if q.holdsSlot && p c then 1 else 0

lemma slots_cons {l : List (Routed × Progress)} {c : Routed} {q : Progress} {p : Routed → Bool} :
    slots ((c, q) :: l) p = slots l p + slot c q p := List.countP_cons

lemma slots_erase {l : List (Routed × Progress)} {c : Routed} {q : Progress} (h : (c, q) ∈ l)
    (p : Routed → Bool) : slots (l.erase (c, q)) p + slot c q p = slots l p := by
  rw [← slots_cons]
  exact ((List.perm_cons_erase h).countP_eq _).symm

lemma mem_of_mem_advance {l : List (Routed × Progress)} {c : Routed} {p q : Progress}
    {x : Routed × Progress} (h : (c, p) ∈ l) (hx : x ∈ (c, q) :: l.erase (c, p)) :
    ∃ y ∈ l, y.1 = x.1 := by
  rcases List.mem_cons.mp hx with rfl | hx
  · exact ⟨_, h, rfl⟩
  · exact ⟨x, List.mem_of_mem_erase hx, rfl⟩

/-- A step that changes neither who holds a slot nor the counters. -/
lemma Exact.of_same (h : Exact r m u w) (hl : w'.limiter = w.limiter)
    (hhold : ∀ p, slots w'.clients p = slots w.clients p)
    (hroutes : w'.registry.byDatabase = r.byDatabase)
    (hpools : ∀ x ∈ w'.clients, r.byDatabase.get x.1.database = some x.1.pool) :
    Exact r m u w' where
  maxPerDB := hl ▸ h.maxPerDB
  maxPerUser := hl ▸ h.maxPerUser
  perDB d := by rw [hl, hhold]; exact h.perDB d
  perUser v := by rw [hl, hhold]; exact h.perUser v
  tightDB := hl ▸ h.tightDB
  tightUser := hl ▸ h.tightUser
  capDB hm d := by rw [hhold]; exact h.capDB hm d
  capUser hu v := by rw [hhold]; exact h.capUser hu v
  routes := hroutes
  pools := hpools

lemma Exact.advance (h : Exact r m u w) {c : Routed} {p q : Progress}
    (hpq : p.holdsSlot = q.holdsSlot) (hs : w.advance c p q = some w') : Exact r m u w' := by
  unfold Doorway.advance at hs
  split_ifs at hs with hmem
  cases hs
  refine h.of_same rfl (fun f => ?_) h.routes fun x hx => ?_
  · have hslot : slot c q f = slot c p f := by rw [slot, slot, hpq]
    rw [slots_cons, hslot]
    exact slots_erase hmem f
  · obtain ⟨y, hy, hyx⟩ := mem_of_mem_advance hmem hx
    exact hyx ▸ h.pools y hy

namespace PoolRegistry

variable {now : ℤ} {held : Text → Bool} {database user : Text}

/-- Routing a client leaves the routes alone. -/
lemma byDatabase_resolve : (r.resolve now held database user).2.byDatabase = r.byDatabase := by
  unfold resolve Lookup.answer
  split
  · rfl
  · unfold stamp
    repeat' split
    all_goals rfl
  · unfold createPassthroughEntry
    repeat' split
    all_goals rfl

end PoolRegistry

lemma Exact.route (h : Exact r m u w) (now : ℤ) (user database : Text) :
    Exact r m u (w.route now user database) := by
  have hbyDatabase : (w.registry.resolve now (fun u => u ∈ w.keys) database user).2.byDatabase =
      w.registry.byDatabase := PoolRegistry.byDatabase_resolve
  unfold Doorway.route
  split
  · next pool _ registry hpool hres =>
    rw [hres] at hbyDatabase
    refine h.of_same rfl (fun p => ?_) (hbyDatabase.trans h.routes) fun x hx => ?_
    · exact List.countP_cons_of_neg (by simp [Progress.holdsSlot])
    · rcases List.mem_cons.mp hx with rfl | hx
      · exact h.routes ▸ hpool
      · exact h.pools x hx
  · next hres _ =>
    rw [hres] at hbyDatabase
    exact h.of_same rfl (fun _ => rfl) (hbyDatabase.trans h.routes) h.pools

/-- What `Reserve` answers says how the counters stand. -/
lemma ConnLimiter.reserve_eq_ok {c c' : ConnLimiter} {user database : Text}
    (h : c.reserve user database = .ok c') :
    (0 < c.maxPerDB → (count c.perDB database : ℤ) < c.maxPerDB) ∧
    (0 < c.maxPerUser → (count c.perUser user : ℤ) < c.maxPerUser) ∧
    c' = { c with perDB := increment c.perDB database, perUser := increment c.perUser user } := by
  unfold ConnLimiter.reserve at h
  split_ifs at h with hdb huser
  cases h
  exact ⟨fun hm => not_le.mp fun hle => hdb ⟨hm, hle⟩,
    fun hu => not_le.mp fun hle => huser ⟨hu, hle⟩, rfl⟩

lemma ConnLimiter.reserve_of_lt {c : ConnLimiter} {user database : Text}
    (hdb : (count c.perDB database : ℤ) < c.maxPerDB)
    (huser : (count c.perUser user : ℤ) < c.maxPerUser) :
    c.reserve user database =
      .ok { c with perDB := increment c.perDB database, perUser := increment c.perUser user } := by
  rw [ConnLimiter.reserve, if_neg (fun h => absurd h.2 (not_le.mpr hdb)),
    if_neg (fun h => absurd h.2 (not_le.mpr huser))]

lemma Exact.reserve (h : Exact r m u w) {c : Routed} (hs : w.reserve c = some w') :
    Exact r m u w' := by
  unfold Doorway.reserve at hs
  split_ifs at hs with hmem
  split at hs
  · -- refused: the client held no slot and goes
    cases hs
    refine h.of_same rfl (fun f => ?_) h.routes fun x hx => h.pools x (List.mem_of_mem_erase hx)
    exact slots_erase hmem f
  · next limiter hok =>
    cases hs
    obtain ⟨hdb, huser, rfl⟩ := ConnLimiter.reserve_eq_ok hok
    have hslots : ∀ f, slots ((c, .admitted) :: w.clients.erase (c, .routed)) f =
        slots w.clients f + if f c then 1 else 0 := by
      intro f
      have herase : slots (w.clients.erase (c, .routed)) f = slots w.clients f :=
        slots_erase hmem f
      rw [slots_cons, herase]
      rfl
    rw [h.maxPerDB, h.perDB] at hdb
    rw [h.maxPerUser, h.perUser] at huser
    refine ⟨h.maxPerDB, h.maxPerUser, fun d => ?_, fun v => ?_, h.tightDB.increment,
      h.tightUser.increment, fun hm d => ?_, fun hu v => ?_, h.routes, fun x hx => ?_⟩
    · rw [hslots, count_increment, h.perDB]
      simp [askedFor, eq_comm]
    · rw [hslots, count_increment, h.perUser]
      simp [isUser, eq_comm]
    · rw [hslots]
      by_cases hd : c.database = d
      · subst hd
        have hlt := hdb hm
        simp only [askedFor, decide_true, if_true]
        push_cast
        exact hlt
      · simpa [askedFor, hd] using h.capDB hm d
    · rw [hslots]
      by_cases hv : c.user = v
      · subst hv
        have hlt := huser hu
        simp only [isUser, decide_true, if_true]
        push_cast
        exact hlt
      · simpa [isUser, hv] using h.capUser hu v
    · obtain ⟨y, hy, hyx⟩ := mem_of_mem_advance hmem hx
      exact hyx ▸ h.pools y hy

lemma Exact.release (h : Exact r m u w) {c : Routed} (hs : w.release c = some w') :
    Exact r m u w' := by
  unfold Doorway.release at hs
  split_ifs at hs with hmem
  cases hs
  have hslots : ∀ f, slots (w.clients.erase (c, .returning)) f + (if f c then 1 else 0) =
      slots w.clients f := slots_erase hmem
  refine ⟨h.maxPerDB, h.maxPerUser, fun d => ?_, fun v => ?_, h.tightDB.decrement,
    h.tightUser.decrement, fun hm d => ?_, fun hu v => ?_, h.routes,
    fun x hx => h.pools x (List.mem_of_mem_erase hx)⟩
  · have hd := hslots (askedFor d)
    rw [ConnLimiter.release, count_decrement, h.perDB, ← hd]
    simp [askedFor, eq_comm]
  · have hv := hslots (isUser v)
    rw [ConnLimiter.release, count_decrement, h.perUser, ← hv]
    simp [isUser, eq_comm]
  · have hd := hslots (askedFor d)
    have hcap := h.capDB hm d
    change (slots (w.clients.erase (c, .returning)) (askedFor d) : ℤ) ≤ m
    omega
  · have hv := hslots (isUser v)
    have hcap := h.capUser hu v
    change (slots (w.clients.erase (c, .returning)) (isUser v) : ℤ) ≤ u
    omega

lemma exact_of_reachable (h : (doorway r m u).Reachable w) : Exact r m u w := by
  refine Machine.Reach.invariant h ?_ ?_
  · rintro w rfl
    refine ⟨rfl, rfl, fun _ => rfl, fun _ => rfl, fun _ => nofun, fun _ => nofun, fun hm _ => hm.le,
      fun hu _ => hu.le, rfl, fun _ => nofun⟩
  · intro w e w' hw _ hs
    cases e with
    | remember user =>
      cases hs
      exact hw.of_same rfl (fun _ => rfl) hw.routes hw.pools
    | route now user database =>
      cases hs
      exact hw.route now user database
    | reserve c => exact hw.reserve hs
    | relay c => exact hw.advance (p := .admitted) (q := .relayed) rfl hs
    | abort c => exact hw.advance (p := .admitted) (q := .returning) rfl hs
    | finish c => exact hw.advance (p := .relayed) (q := .returning) rfl hs
    | release c => exact hw.release hs

/-! ## The caps -/

/-- Clients that are being relayed, of those with the key `n`. -/
def relayedFor (key : Routed → Text) (n : Text) (x : Routed × Progress) : Bool :=
  x.2 = .relayed && key x.1 = n

/-- The caps, with clients counted under a key of theirs and by user, and the care of the
counters. -/
structure Capped (key : Routed → Text) (r : PoolRegistry) (m u : ℤ) (w : Doorway) : Prop where
  relayed : ∀ n, (w.clients.countP (relayedFor key n) : ℤ) ≤ m
  user : ∀ v, (slots w.clients (isUser v) : ℤ) ≤ u
  refusal : ∀ c err w', w.limiter.reserve c.user c.database = .error err →
    (doorway r m u).step w (.reserve c) = some w' → w'.limiter = w.limiter
  empty : (∀ x ∈ w.clients, x.2.holdsSlot = false) →
    w.limiter.perDB = .empty ∧ w.limiter.perUser = .empty

/-- No pool is reached under two names. -/
def OneName (r : PoolRegistry) : Prop :=
  ∀ d d' n, r.byDatabase.get d = some n → r.byDatabase.get d' = some n → d = d'

lemma slots_eq_zero {l : List (Routed × Progress)} {p : Routed → Bool}
    (h : ∀ x ∈ l, x.2.holdsSlot = false) : slots l p = 0 := by
  refine List.countP_eq_zero.mpr fun x hx => ?_
  rw [h x hx]
  exact Bool.false_ne_true

lemma Exact.relayed_le_by_name (h : Exact r m u w) (hm : 0 < m) (d : Text) :
    (w.clients.countP (relayedFor Routed.database d) : ℤ) ≤ m := by
  have hle : w.clients.countP (relayedFor Routed.database d) ≤ slots w.clients (askedFor d) := by
    refine List.countP_mono_left fun x _ hx => ?_
    simp only [relayedFor, Bool.and_eq_true, decide_eq_true_eq] at hx
    simp [askedFor, hx.1, hx.2, Progress.holdsSlot]
  exact (Int.ofNat_le.mpr hle).trans (h.capDB hm d)

/-- With one name a pool, its clients are those that asked for that name. -/
lemma Exact.relayed_le_by_pool (h : Exact r m u w) (hm : 0 < m) (hone : OneName r) (n : Text) :
    (w.clients.countP (relayedFor Routed.pool n) : ℤ) ≤ m := by
  by_cases hex : ∃ x ∈ w.clients, relayedFor Routed.pool n x = true
  · obtain ⟨x, hx, hxn⟩ := hex
    have hroute : ∀ y ∈ w.clients, relayedFor Routed.pool n y = true →
        r.byDatabase.get y.1.database = some n := by
      intro y hy hyn
      simp only [relayedFor, Bool.and_eq_true, decide_eq_true_eq] at hyn
      exact hyn.2 ▸ h.pools y hy
    have hle : w.clients.countP (relayedFor Routed.pool n) ≤
        w.clients.countP (relayedFor Routed.database x.1.database) := by
      refine List.countP_mono_left fun y hy hyn => ?_
      have hsame := hone _ _ n (hroute y hy hyn) (hroute x hx hxn)
      simp only [relayedFor, Bool.and_eq_true, decide_eq_true_eq] at hyn ⊢
      exact ⟨hyn.1, hsame⟩
    exact (Int.ofNat_le.mpr hle).trans (h.relayed_le_by_name hm _)
  · have hzero : w.clients.countP (relayedFor Routed.pool n) = 0 :=
      List.countP_eq_zero.mpr fun x hx hxn => hex ⟨x, hx, hxn⟩
    rw [hzero]
    exact hm.le

lemma Exact.capped (h : Exact r m u w) (hu : 0 < u) {key : Routed → Text}
    (hrelayed : ∀ n, (w.clients.countP (relayedFor key n) : ℤ) ≤ m) : Capped key r m u w where
  relayed := hrelayed
  user := h.capUser hu
  refusal c err w' herr hs := by
    change w.reserve c = some w' at hs
    unfold Doorway.reserve at hs
    split_ifs at hs
    rw [herr] at hs
    cases hs
    rfl
  empty hidle := by
    constructor
    · exact h.tightDB.eq_empty fun d => (h.perDB d).trans (slots_eq_zero hidle)
    · exact h.tightUser.eq_empty fun v => (h.perUser v).trans (slots_eq_zero hidle)

/-! ## Filling a pool under two names -/

/-- Registries as they are built at startup. -/
structure Fresh (r : PoolRegistry) : Prop where
  base : ∀ d n, r.byDatabase.get d = some n → ∃ e, r.base n = some e
  shared : ∀ k e, r.entries.get k = some e → e.passthrough = false

lemma Fresh.addEntries (h : Fresh r) (now : ℤ) (name : Text) (cfg : PoolConfig) :
    Fresh (r.addEntries now name cfg) := by
  constructor
  · intro d n hd
    rw [PoolRegistry.byDatabase_addEntries, PoolRegistry.get_route] at hd
    unfold PoolRegistry.base
    by_cases hnew : ∀ v c, cfg.identity v = some c → poolKey n [] ≠ poolKey name v
    · rw [PoolRegistry.get_addEntries_of_ne hnew]
      split_ifs at hd
      · cases hd
        obtain ⟨c, hc⟩ := identity_nil cfg
        exact absurd rfl (hnew [] c hc)
      · exact h.base d n hd
    · push Not at hnew
      obtain ⟨v, c, hc, hkey⟩ := hnew
      obtain ⟨p, hp⟩ := PoolRegistry.get_addEntries_of_identity (r := r) hc
      exact ⟨_, hkey ▸ hp⟩
  · intro k e hk
    rcases PoolRegistry.get_addEntries_cases hk with ⟨_, _, _, _, _, rfl⟩ | ⟨hold, _⟩
    · rfl
    · exact h.shared k e hold

lemma fresh_new (now : ℤ) (pools : List (Text × PoolConfig)) :
    Fresh (PoolRegistry.new now pools) := by
  have hfold : ∀ (l : List (Text × PoolConfig)) (r : PoolRegistry), Fresh r →
      Fresh (l.foldl (fun r p => r.addEntries now p.1 p.2) r) := by
    intro l
    induction l with
    | nil => exact fun _ h => h
    | cons p l ih => exact fun r h => ih _ (h.addEntries now p.1 p.2)
  exact hfold pools _ ⟨fun _ _ => nofun, fun _ _ => nofun⟩

/-- A client without an identity of its own is routed to the pool's own identity. -/
lemma Fresh.route (h : Fresh w.registry) {d n v : Text} {e : RegistryEntry}
    (hd : w.registry.byDatabase.get d = some n) (he : w.registry.base n = some e)
    (hv : e.config.users.get v = none) (hkeys : w.keys = []) :
    w.route 0 v d = { w with clients := (⟨v, d, n⟩, .routed) :: w.clients } := by
  have hid : PoolRegistry.backendIdentityFor (fun u => u ∈ w.keys) e.config v = ([], false) := by
    simp [PoolRegistry.backendIdentityFor, hv, hkeys]
  have hget : w.registry.entries.get (poolKey n []) = some e := he
  have hlook : w.registry.lookup (fun u => u ∈ w.keys) d v = .found (poolKey n []) e := by
    simp only [PoolRegistry.lookup, hd, he, hid, hget]
  have hstamp : w.registry.stamp 0 (poolKey n []) e = w.registry := by
    rw [PoolRegistry.stamp, h.shared _ e hget]
    rfl
  simp only [Doorway.route, hd, PoolRegistry.resolve, hlook,
    PoolRegistry.Lookup.answer, hstamp]

/-- A client without an identity of its own gets in as long as both counters have room. -/
lemma exists_relayed (h : (doorway r m u).Reachable w) (hfresh : Fresh r) (hreg : w.registry = r)
    (hkeys : w.keys = []) {d n v : Text} {e : RegistryEntry} (hd : r.byDatabase.get d = some n)
    (he : r.base n = some e) (hv : e.config.users.get v = none)
    (hdb : (slots w.clients (askedFor d) : ℤ) < m) (huser : (slots w.clients (isUser v) : ℤ) < u) :
    ∃ w', (doorway r m u).Reachable w' ∧ w'.registry = r ∧ w'.keys = [] ∧
      w'.clients = (⟨v, d, n⟩, .relayed) :: w.clients := by
  have hexact := exact_of_reachable h
  obtain rfl := hreg
  have hroute := hfresh.route hd he hv hkeys
  have h₁ : (doorway w.registry m u).Reachable _ :=
    h.step (i := .route 0 v d) trivial (congrArg some hroute)
  have hok := ConnLimiter.reserve_of_lt (c := w.limiter)
    (by rw [hexact.perDB, hexact.maxPerDB]; exact hdb)
    (by rw [hexact.perUser, hexact.maxPerUser]; exact huser)
  have h₂ := h₁.step (i := .reserve ⟨v, d, n⟩) trivial
    (by
      change Doorway.reserve _ _ = _
      rw [Doorway.reserve, if_pos (List.mem_cons_self ..)]
      simp only [hok]
      rfl)
  have h₃ := h₂.step (i := .relay ⟨v, d, n⟩) trivial
    (by
      change Doorway.advance _ _ _ _ = _
      rw [Doorway.advance, if_pos (List.mem_cons_self ..)])
  refine ⟨_, h₃, rfl, hkeys, ?_⟩
  simp

/-- Clients of one database, with the users `user 0`, …, `user (k - 1)`. -/
def crowd (user : ℕ → Text) (d n : Text) : ℕ → List (Routed × Progress)
  | 0 => []
  | k + 1 => (⟨user k, d, n⟩, .relayed) :: crowd user d n k

lemma mem_crowd {user : ℕ → Text} {d n : Text} {x : Routed × Progress} {k : ℕ}
    (h : x ∈ crowd user d n k) : ∃ i < k, x = (⟨user i, d, n⟩, .relayed) := by
  induction k with
  | zero => nomatch h
  | succ k ih =>
    rcases List.mem_cons.mp h with rfl | h
    · exact ⟨k, Nat.lt_succ_self k, rfl⟩
    · obtain ⟨i, hi, rfl⟩ := ih h
      exact ⟨i, Nat.lt_succ_of_lt hi, rfl⟩

lemma length_crowd {user : ℕ → Text} {d n : Text} (k : ℕ) : (crowd user d n k).length = k := by
  induction k with
  | zero => rfl
  | succ k ih => rw [crowd, List.length_cons, ih]

/-- A user that is not in the crowd has no slot. -/
lemma slots_crowd_user {user : ℕ → Text} (hinj : Function.Injective user) {d n : Text} (k : ℕ) :
    slots (crowd user d n k) (isUser (user k)) = 0 := by
  refine List.countP_eq_zero.mpr fun x hx => ?_
  obtain ⟨i, hi, rfl⟩ := mem_crowd hx
  simpa [isUser] using fun _ heq => absurd (hinj heq) hi.ne

/-- There is no end of users without credentials of their own. -/
lemma exists_users (t : Table Text Text) :
    ∃ user : ℕ → Text, Function.Injective user ∧ ∀ i, t.get (user i) = none := by
  refine ⟨fun i => List.replicate ((t.keys.map List.length).sum + 1 + i) 'a', ?_, fun i => ?_⟩
  · intro i j hij
    have hlen := congrArg List.length hij
    simp only [List.length_replicate] at hlen
    omega
  · -- a name longer than all the names in the table together
    by_contra hsome
    obtain ⟨dsn, hdsn⟩ := Option.ne_none_iff_exists'.mp hsome
    have hmem := List.mem_map_of_mem (f := List.length) (Table.mem_keys.mpr ⟨dsn, hdsn⟩)
    have hle := List.le_sum_of_mem hmem
    simp only [List.length_replicate] at hle
    omega

lemma exists_crowd (hfresh : Fresh r) (hu : 0 < u) {d n : Text} {e : RegistryEntry}
    (hd : r.byDatabase.get d = some n) (he : r.base n = some e) {user : ℕ → Text}
    (hinj : Function.Injective user) (huser : ∀ i, e.config.users.get (user i) = none) (k : ℕ)
    (hk : (k : ℤ) ≤ m) :
    ∃ w, (doorway r m u).Reachable w ∧ w.registry = r ∧ w.keys = [] ∧
      w.clients = crowd user d n k := by
  induction k with
  | zero => exact ⟨_, .init rfl, rfl, rfl, rfl⟩
  | succ k ih =>
    obtain ⟨w, hw, hreg, hkeys, hclients⟩ := ih (by omega)
    have hroom : (slots w.clients (askedFor d) : ℤ) < m := by
      have hle : slots w.clients (askedFor d) ≤ w.clients.length := List.countP_le_length
      rw [hclients, length_crowd] at hle
      rw [hclients]
      omega
    obtain ⟨w', hw', hreg', hkeys', hclients'⟩ :=
      exists_relayed hw hfresh hreg hkeys hd he (huser k) hroom
        (by rw [hclients, slots_crowd_user hinj]; exact hu)
    exact ⟨w', hw', hreg', hkeys', by rw [hclients', hclients, crowd]⟩

/-- A second name is a further allowance: one client more than the cap is relayed to the pool. -/
lemma exists_overfull (hfresh : Fresh r) (hm : 0 < m) (hu : 0 < u) {d d' n : Text}
    (hd : r.byDatabase.get d = some n) (hd' : r.byDatabase.get d' = some n) (hne : d ≠ d') :
    ∃ w, (doorway r m u).Reachable w ∧ m < w.clients.countP (relayedFor Routed.pool n) := by
  obtain ⟨e, he⟩ := hfresh.base d n hd
  obtain ⟨user, hinj, huser⟩ := exists_users e.config.users
  obtain ⟨w, hw, hreg, hkeys, hclients⟩ :=
    exists_crowd (m := m) hfresh hu hd he hinj huser m.toNat (by omega)
  have hnone : slots w.clients (askedFor d') = 0 := by
    refine List.countP_eq_zero.mpr fun x hx => ?_
    obtain ⟨i, _, rfl⟩ := mem_crowd (hclients ▸ hx)
    simp [askedFor, hne]
  obtain ⟨w', hw', _, _, hclients'⟩ :=
    exists_relayed hw hfresh hreg hkeys hd' he (huser m.toNat) (by rw [hnone]; exact hm)
      (by rw [hclients, slots_crowd_user hinj]; exact hu)
  refine ⟨w', hw', ?_⟩
  have hall : w'.clients.countP (relayedFor Routed.pool n) = w'.clients.length := by
    refine List.countP_eq_length.mpr fun x hx => ?_
    rw [hclients', hclients] at hx
    rcases List.mem_cons.mp hx with rfl | hx
    · simp [relayedFor]
    · obtain ⟨i, _, rfl⟩ := mem_crowd hx
      simp [relayedFor]
  rw [hall, hclients', hclients, List.length_cons, length_crowd]
  omega

/-- **The caps on connections**, by the name that clients ask for. -/
theorem connection_caps_by_name (now : ℤ) (pools : List (Text × PoolConfig)) (m u : ℤ)
    (hm : 0 < m) (hu : 0 < u) (w : Doorway)
    (hw : (doorway (PoolRegistry.new now pools) m u).Reachable w) :
    Capped Routed.database (PoolRegistry.new now pools) m u w := by
  have hexact := exact_of_reachable hw
  exact hexact.capped hu (hexact.relayed_le_by_name hm)

/-- **The caps by pool** hold in every run, for the pools configured at startup, just when no pool
is reached under two names. -/
theorem connection_caps_by_pool_iff (now : ℤ) (pools : List (Text × PoolConfig)) (m u : ℤ)
    (hm : 0 < m) (hu : 0 < u) :
    (∀ w, (doorway (PoolRegistry.new now pools) m u).Reachable w →
      Capped Routed.pool (PoolRegistry.new now pools) m u w) ↔
      OneName (PoolRegistry.new now pools) := by
  constructor
  · intro h d d' n hd hd'
    by_contra hne
    obtain ⟨w, hw, hover⟩ := exists_overfull (fresh_new now pools) hm hu hd hd' hne
    exact absurd ((h w hw).relayed n) (not_le.mpr hover)
  · intro hone w hw
    have hexact := exact_of_reachable hw
    exact hexact.capped hu (hexact.relayed_le_by_pool hm hone)

/-- The pool `app` with its alias `app_ro`. -/
def twoNames : PoolRegistry :=
  PoolRegistry.new 0 [("app".toList,
    { PoolConfig.plain with aliases := some ["app_ro".toList] })]

/-- With both caps at one, a client of either name is relayed to the pool. -/
lemma two_names_run : ∃ w, (doorway twoNames 1 1).Reachable w ∧
    w.clients.countP (relayedFor Routed.pool "app".toList) = 2 := by
  obtain ⟨w, hrun, hcount⟩ := Option.map_eq_some_iff.mp (show
    ((doorway twoNames 1 1).run ⟨.new 1 1, twoNames, [], []⟩
      [.route 0 "alice".toList "app".toList,
        .reserve ⟨"alice".toList, "app".toList, "app".toList⟩,
        .relay ⟨"alice".toList, "app".toList, "app".toList⟩,
        .route 0 "bob".toList "app_ro".toList,
        .reserve ⟨"bob".toList, "app_ro".toList, "app".toList⟩,
        .relay ⟨"bob".toList, "app_ro".toList, "app".toList⟩]).map
      (fun w => w.clients.countP (relayedFor Routed.pool "app".toList)) = some 2 by decide)
  exact ⟨w, Machine.reach_of_run rfl hrun, hcount⟩

/-- The caps by name hold there, with two clients in. -/
theorem connection_caps_by_name_two_names : ∃ w, (doorway twoNames 1 1).Reachable w ∧
    w.clients.countP (relayedFor Routed.pool "app".toList) = 2 ∧
    Capped Routed.database twoNames 1 1 w := by
  obtain ⟨w, hw, hcount⟩ := two_names_run
  exact ⟨w, hw, hcount, connection_caps_by_name 0 _ 1 1 (by decide) (by decide) w hw⟩

/-- The caps by pool do not. -/
theorem alias_passes_the_pool_cap : ∃ w, (doorway twoNames 1 1).Reachable w ∧
    ¬ Capped Routed.pool twoNames 1 1 w := by
  obtain ⟨w, hw, hcount⟩ := two_names_run
  refine ⟨w, hw, fun hcap => ?_⟩
  have hle := hcap.relayed "app".toList
  rw [hcount] at hle
  exact absurd hle (by decide)

end Pgman
