import Pgman.Construction.Pool.Moves
import Pgman.Properties.PoolOwnership

/-!
# The age of a pooled connection

`max_lifetime` counts from the dial.  The clock is read once, right after the dial, into the record
of the side table; from there it is copied, by every `Release`, into a new idle entry.

What has to be said is about moments that are gone: what the clock showed when a dialed connection
was given its date, when `Acquire` looked at it, what a pass of `reapExpired` found.  `Watch` is the
pool together with a record of these, which is taken from the clock and which no step of the pool
reads.

All dates in the pool, those of idle entries, those of the side table and those that running calls
carry, come from one another, and a new one appears only where the clock is read for a connection
that nobody knows yet (`opStep_dates`).  That is why every date is the one of the dial.
-/

namespace Pgman.Pool

variable {o : Options} {limit : ℕ} {s s' : Shared} {op op' : Op} {ch : Choice} {p : Pool}
  {c : Conn} {m : ConnMeta} {x : Conn × ℤ}

/-! ## Dates -/

/-- The dates that a running call carries. -/
def Op.dates : Op → List (Conn × ℤ)
  | .acqExamine _ ic | .acqCheck _ ic | .acqHealth _ ic => [(ic.conn, ic.createdAt)]
  | .relClosed _ c m | .relGen _ c m | .relPark _ c m _ => [(c, m.createdAt)]
  | .acqStore _ c m => [(c, m.createdAt)]
  | .warmPark _ c now => [(c, now)]
  | _ => []

/-- The dates in the shared state. -/
def Shared.Dates (s : Shared) (x : Conn × ℤ) : Prop :=
  (∃ ic ∈ s.idle, x = (ic.conn, ic.createdAt)) ∨ ∃ m, s.connMeta x.1 = some m ∧ x.2 = m.createdAt

/-- The connection that a call has dialed and just read the clock for, `time.Now()` behind
`circuitRecordSuccess`. -/
def Op.newlyDated : Op → Option Conn
  | .acqStore _ c _ | .warmPark _ c _ => some c
  | _ => none

lemma Op.carries_of_dates (h : x ∈ op.dates) :
    x.1 ∈ op.tagged ∨ op.newlyDated = some x.1 ∧ x.1 ∈ op.untagged := by
  unfold Op.dates at h
  split at h
  all_goals first
    | cases h; done
    | obtain rfl := List.mem_singleton.mp h
  all_goals first
    | exact .inl (List.mem_singleton_self _)
    | exact .inr ⟨rfl, List.mem_singleton_self _⟩

/-- Where the dates of the idle stack come from. -/
lemma idle_dates (h : opStep o limit s op ch = some (s', op')) {ic : IdleConn}
    (hic : ic ∈ s'.idle) : ic ∈ s.idle ∨ (ic.conn, ic.createdAt) ∈ op.dates := by
  -- what is parked is dated by the call that parks it
  have hpark : ∀ new : IdleConn, ic ∈ s.idle ++ [new] → (new.conn, new.createdAt) ∈ op.dates →
      ic ∈ s.idle ∨ (ic.conn, ic.createdAt) ∈ op.dates := by
    intro new hic hnew
    rcases List.mem_append.mp hic with hold | hic
    · exact .inl hold
    · obtain rfl := List.mem_singleton.mp hic
      exact .inr hnew
  cases opStep_shelves h with
  | keeps hidle => exact .inl (hidle ▸ hic)
  | pops k ic' htop => exact .inl (List.dropLast_subset _ hic)
  | parks k c m now hopen => exact hpark _ hic (List.mem_singleton_self _)
  | warms i c now hopen => exact hpark _ hic (List.mem_singleton_self _)
  | sweeps now => exact .inl (List.mem_of_mem_filter hic)
  | reconnects => cases hic
  | closes => cases hic

/-- What a step does to the side table. -/
inductive Registers (s : Shared) (op : Op) (s' : Shared) : Prop
  | keeps (h : s'.connMeta = s.connMeta)
  | deletes (c : Conn) (h : s'.connMeta = Function.update s.connMeta c none)
  | stores (c : Conn) (m : ConnMeta) (h : s'.connMeta = Function.update s.connMeta c (some m))
      (hdate : (c, m.createdAt) ∈ op.dates)

lemma opStep_registers (h : opStep o limit s op ch = some (s', op')) : Registers s op s' := by
  obtain h | h | h | h | h | h := opStep_cases h
  · unfold acquireStep at h
    split at h
    case h_16 => cases h; exact .deletes _ rfl
    case h_24 => cases h; exact .stores _ _ rfl (List.mem_singleton_self _)
    all_goals try split at h
    all_goals cases h
    all_goals first
      | exact .keeps rfl
      | exact .keeps (congrArg Goods.connMeta (goods_releaseSlot s))
  · exact .keeps (congrArg Goods.connMeta (circuitStep_goods h))
  · unfold returnStep at h
    split at h
    case h_5 => cases h; exact .deletes _ rfl
    all_goals try split at h
    all_goals try split at h
    all_goals cases h
    all_goals first
      | exact .keeps rfl
      | exact .keeps (congrArg Goods.connMeta ((goods_emit? _ _).trans (goods_releaseSlot s)))
  · unfold drainStep at h
    split at h
    case h_13 => cases h; exact .deletes _ rfl
    all_goals try split at h
    all_goals cases h
    all_goals first
      | exact .keeps rfl
      | exact .keeps (congrArg Goods.connMeta (goods_emit? _ _))
  · unfold warmUpStep at h
    split at h
    case h_6 =>
      split at h
      · cases h; exact .keeps rfl
      · cases h; exact .stores _ _ rfl (List.mem_singleton_self _)
    all_goals try split at h
    all_goals cases h
    all_goals first
      | exact .keeps rfl
      | exact .keeps (congrArg Goods.connMeta (goods_releaseSlot s))
  · unfold pauseStep at h
    split at h
    all_goals try split at h
    all_goals cases h
    all_goals first
      | exact .keeps rfl
      | exact .keeps (congrArg Goods.connMeta (goods_closeChan s _))

/-- Where the dates of the side table come from. -/
lemma meta_dates (h : opStep o limit s op ch = some (s', op')) (hc : s'.connMeta c = some m) :
    s.connMeta c = some m ∨ (c, m.createdAt) ∈ op.dates := by
  cases opStep_registers h with
  | keeps hsame => exact .inl (hsame ▸ hc)
  | deletes c' hsame =>
    rw [hsame] at hc
    by_cases hne : c = c'
    · rw [hne, Function.update_self] at hc
      cases hc
    · rw [Function.update_of_ne hne] at hc
      exact .inl hc
  | stores c' m' hsame hdate =>
    rw [hsame] at hc
    by_cases hne : c = c'
    · rw [hne, Function.update_self] at hc
      obtain rfl := Option.some.inj hc
      exact .inr (hne ▸ hdate)
    · rw [Function.update_of_ne hne] at hc
      exact .inl hc

/-- What a step does to the dates that its call carries: `Acquire` takes one from the idle stack,
`Release` one from the side table, and who has dialed reads one from the clock, for a connection
that it has in hand without a record. -/
inductive DateMove (s : Shared) (op op' : Op) : Prop
  | keeps (h : ∀ x ∈ op'.dates, x ∈ op.dates) (hnew : op'.newlyDated = none)
  | finds (x : Conn × ℤ) (h : op'.dates = [x]) (hx : s.Dates x) (hnew : op'.newlyDated = none)
  | dials (c : Conn) (h : op'.dates = [(c, s.clock)]) (hnew : op'.newlyDated = some c)
      (hnone : op.newlyDated = none) (hc : c ∈ op.untagged)

lemma DateMove.drops (h : op'.dates = []) (hnew : op'.newlyDated = none) : DateMove s op op' :=
  .keeps (fun x hx => by rw [h] at hx; cases hx) hnew

lemma circuitStep_dateMove (h : circuitStep o s op ch = some (s', op')) :
    op'.dates = [] ∧ op'.newlyDated = none ∨ ∃ c, op'.dates = [(c, s.clock)] ∧
      op'.newlyDated = some c ∧ op.newlyDated = none ∧ c ∈ op.untagged := by
  cases circuitStep_moves h with
  | asks d _ hop' => obtain (_ | _ | _) | rfl | rfl := hop' <;> cases d <;> exact .inl ⟨rfl, rfl⟩
  | frees => exact .inl ⟨rfl, rfl⟩
  | records d err _ hop' =>
    obtain (_ | _ | _) | rfl := hop' <;> cases d <;> exact .inl ⟨rfl, rfl⟩
  | succeeds d c hop hop' =>
    rcases hop' with hop' | rfl
    · cases hop' <;> exact .inl ⟨rfl, rfl⟩
    · cases d with
      | acquire k => exact .inl ⟨rfl, rfl⟩
      | warmUp i => cases hop <;> exact .inr ⟨c, rfl, rfl, rfl, List.mem_singleton_self _⟩

lemma opStep_dateMove (h : opStep o limit s op ch = some (s', op')) : DateMove s op op' := by
  obtain h | h | h | h | h | h := opStep_cases h
  · unfold acquireStep at h
    split at h
    case h_11 =>
      split at h
      · cases h
        exact .drops rfl rfl
      · rename_i ic htop
        cases h
        exact .finds _ rfl (.inl ⟨ic, List.mem_of_getLast? htop, rfl⟩) rfl
    case h_23 =>
      cases h
      exact .dials _ rfl rfl rfl (List.mem_singleton_self _)
    all_goals try split at h
    all_goals cases h
    all_goals first
      | exact .drops rfl rfl
      | exact .keeps (fun _ hx => hx) rfl
      | (split <;> exact .drops rfl rfl)
  · rcases circuitStep_dateMove h with ⟨hnil, hnew⟩ | ⟨c, hdates, hnew, hnone, hc⟩
    · exact .drops hnil hnew
    · exact .dials c hdates hnew hnone hc
  · unfold returnStep at h
    split at h
    case h_1 =>
      split at h
      · cases h
        exact .drops rfl rfl
      · rename_i m hm
        cases h
        exact .finds _ rfl (.inr ⟨m, hm, rfl⟩) rfl
    all_goals try split at h
    all_goals try split at h
    all_goals cases h
    all_goals first
      | exact .drops rfl rfl
      | exact .keeps (fun _ hx => hx) rfl
  · unfold drainStep at h
    split at h
    all_goals try split at h
    all_goals cases h
    all_goals exact .drops rfl rfl
  · unfold warmUpStep at h
    split at h
    all_goals try split at h
    all_goals cases h
    all_goals exact .drops rfl rfl
  · unfold pauseStep at h
    split at h
    all_goals try split at h
    all_goals cases h
    all_goals exact .drops rfl rfl

lemma DateMove.dates (h : DateMove s op op') (hx : x ∈ op'.dates) :
    x ∈ op.dates ∨ s.Dates x ∨ op'.newlyDated = some x.1 ∧ x.2 = s.clock := by
  cases h with
  | keeps h => exact .inl (h x hx)
  | finds y h hy =>
    rw [h, List.mem_singleton] at hx
    exact .inr (.inl (hx ▸ hy))
  | dials c h hnew =>
    rw [h, List.mem_singleton] at hx
    rw [hx]
    exact .inr (.inr ⟨hnew, rfl⟩)

/-- Who reads the clock for a connection has it in hand, without a record. -/
lemma DateMove.untagged (h : DateMove s op op') (hnew : op'.newlyDated = some c) :
    op.newlyDated = none ∧ c ∈ op.untagged := by
  cases h with
  | keeps _ hnone => cases hnone.symm.trans hnew
  | finds _ _ _ hnone => cases hnone.symm.trans hnew
  | dials c' _ hnew' hnone hc =>
    obtain rfl := Option.some.inj (hnew'.symm.trans hnew)
    exact ⟨hnone, hc⟩

/-- **Dates come from dates**, but for the one that is read from the clock after a dial. -/
lemma opStep_dates (h : opStep o limit s op ch = some (s', op'))
    (hx : s'.Dates x ∨ x ∈ op'.dates) :
    s.Dates x ∨ x ∈ op.dates ∨ op'.newlyDated = some x.1 ∧ x.2 = s.clock := by
  rcases hx with (⟨ic, hic, rfl⟩ | ⟨m, hm, hdate⟩) | hx
  · rcases idle_dates h hic with hold | hop
    · exact .inl (.inl ⟨ic, hold, rfl⟩)
    · exact .inr (.inl hop)
  · rcases meta_dates h hm with hold | hop
    · exact .inl (.inr ⟨m, hold, hdate⟩)
    · rw [← hdate] at hop
      exact .inr (.inl hop)
  · rcases (opStep_dateMove h).dates hx with hop | hold | hnew
    · exact .inr (.inl hop)
    · exact .inl hold
    · exact .inr (.inr hnew)

/-- A connection in hand without a record is known nowhere else. -/
lemma Accounted.unknown_of_untagged (h : Accounted limit p) (hop : op ∈ p.ops)
    (hc : c ∈ op.untagged) : p.sh.connMeta c = none ∧ (∀ ic ∈ p.sh.idle, ic.conn ≠ c) ∧
      ∀ op' ∈ p.ops, c ∉ op'.tagged := by
  have hunt : 0 < tally (fun op => op.untagged.count c) p.ops :=
    Nat.lt_of_lt_of_le (List.count_pos_iff.mpr hc) (le_tally (fun op => op.untagged.count c) hop)
  have honce := h.once c
  have hle : (if c ∈ p.sh.dialed then 1 else 0) ≤ 1 := by split <;> omega
  have htag : tally (fun op => op.tagged.count c) p.ops = 0 := by omega
  have hidle : idleCount p.sh c = 0 := by omega
  refine ⟨?_, ?_, ?_⟩
  · rw [← Option.not_isSome_iff_eq_none, h.record c]
    omega
  · intro ic hic heq
    have hmem : c ∈ p.sh.idle.map (·.conn) := List.mem_map.mpr ⟨ic, hic, heq⟩
    exact absurd (List.count_pos_iff.mpr hmem) (by rw [← idleCount, hidle]; omega)
  · intro op' hop' hmem
    have hpos := le_tally (fun op => op.tagged.count c) hop'
    exact absurd (List.count_pos_iff.mpr hmem) (by omega)

/-- Closing is for good. -/
lemma opStep_closes (h : opStep o limit s op ch = some (s', op')) (c : Conn) :
    s.closes c ≤ s'.closes c := by
  have hclose : ∀ (t : Shared) (d : Conn), t.closes c ≤ (t.closeConn d).closes c := by
    intro t d
    change t.closes c ≤ Function.update t.closes d (t.closes d + 1) c
    by_cases hd : c = d
    · rw [hd, Function.update_self]
      omega
    · exact Nat.le_of_eq (Function.update_of_ne hd _ _).symm
  have hgoods : ∀ {t : Shared}, t.goods = s.goods → s.closes c ≤ t.closes c :=
    fun ht => Nat.le_of_eq (congrFun (congrArg Goods.closes ht) c).symm
  obtain h | h | h | h | h | h := opStep_cases h
  · unfold acquireStep at h
    split at h
    all_goals try split at h
    all_goals cases h
    all_goals first
      | exact Nat.le_refl _
      | exact hclose s _
      | exact hgoods (goods_releaseSlot s)
  · exact hgoods (circuitStep_goods h)
  · unfold returnStep at h
    split at h
    all_goals try split at h
    all_goals try split at h
    all_goals cases h
    all_goals first
      | exact Nat.le_refl _
      | exact hclose s _
      | exact hgoods ((goods_emit? _ _).trans (goods_releaseSlot s))
  · unfold drainStep at h
    split at h
    case h_14 =>
      rename_i d cs fin _
      cases h
      have hemit : ((s.closeConn d).emit? fin.event).closes = (s.closeConn d).closes :=
        congrArg Goods.closes (goods_emit? _ _)
      rw [hemit]
      exact hclose s d
    all_goals try split at h
    all_goals cases h
    all_goals exact Nat.le_refl _
  · unfold warmUpStep at h
    split at h
    all_goals try split at h
    all_goals cases h
    all_goals first
      | exact Nat.le_refl _
      | exact hclose s _
      | exact hgoods (goods_releaseSlot s)
  · unfold pauseStep at h
    split at h
    all_goals try split at h
    all_goals cases h
    all_goals first
      | exact Nat.le_refl _
      | exact hgoods (goods_closeChan s _)

/-! ## Watching the pool -/

/-- A pass of `reapExpired`: what had expired when it swept the stack, and what it has closed. -/
structure Pass where
  expired : List Conn
  closed : List Conn

/-- The pool, with what has been seen of it. -/
structure Watch where
  pool : Pool
  /-- what the clock showed when a connection that had been dialed was given its date -/
  dialedAt : Conn → Option ℤ
  /-- what the call at a position has examined last, and when -/
  examined : ℕ → Option (Conn × ℤ)
  /-- the pass of the call at a position -/
  passes : ℕ → Option Pass

/-- The idle time or the age since the dial exceeds its limit. -/
def exceeds (o : Options) (dialedAt : Conn → Option ℤ) (now : ℤ) (ic : IdleConn) : Bool :=
  (decide (0 < o.idleTimeout) && decide (o.idleTimeout < now - ic.releasedAt)) ||
    (dialedAt ic.conn).any fun t => decide (0 < o.maxLifetime) && decide (o.maxLifetime < now - t)

namespace Watch

variable {w w' : Watch} {i j : ℕ} {a : Action}

def start : Watch := ⟨new, fun _ => none, fun _ => none, fun _ => none⟩

/-- What is seen when the call at `i` executes `op`. -/
def observe (o : Options) (w : Watch) (i : ℕ) (op : Op) (p : Pool) : Watch where
  pool := p
  dialedAt :=
    match (p.ops[i]?).bind Op.newlyDated with
    | some c => Function.update w.dialedAt c (some w.pool.sh.clock)
    | none => w.dialedAt
  examined :=
    match op with
    | .acqExamine _ ic => Function.update w.examined i (some (ic.conn, w.pool.sh.clock))
    | _ => w.examined
  passes :=
    match op with
    | .reapSweep now =>
      if w.pool.sh.closed then w.passes
      else Function.update w.passes i
        (some ⟨(w.pool.sh.idle.filter (exceeds o w.dialedAt now)).map (·.conn), []⟩)
    | .retireClose c _ .reapExpired =>
      Function.update w.passes i
        ((w.passes i).map fun P => { P with closed := P.closed ++ [c] })
    | _ => w.passes

def step (o : Options) (limit : ℕ) (w : Watch) (a : Action) : Option Watch :=
  (w.pool.step o limit a).map fun p =>
    match a with
    | .run i _ => (w.pool.ops[i]?).elim { w with pool := p } fun op => w.observe o i op p
    | _ => { w with pool := p }

def machine (o : Options) (limit : ℕ) : Machine Watch Action where
  init w := w = start
  step := step o limit

/-- The steps that run no call: one may begin, and nothing else that is watched changes. -/
inductive Quiet (p : Pool) : Pool → Prop
  | intro (sh : Shared) (ops : List Op)
      (hops : ∀ op ∈ ops, op.entry = true ∨ ∃ k c, op = .release k c ∨ op = .discard k c)
      (hidle : sh.idle = p.sh.idle) (hmeta : sh.connMeta = p.sh.connMeta)
      (hcloses : sh.closes = p.sh.closes) : Quiet p ⟨sh, p.ops ++ ops⟩

lemma quiet_of_step {p' : Pool} (hrun : ∀ i ch, a ≠ .run i ch)
    (h : p.step o limit a = some p') : Quiet p p' := by
  cases step_moves h with
  | starts op hop =>
    refine .intro p.sh [op] ?_ rfl rfl rfl
    intro op' hop'
    obtain rfl := List.mem_singleton.mp hop'
    exact .inl hop
  | gives k c op hheld hop =>
    refine .intro _ [op] ?_ rfl rfl rfl
    intro op' hop'
    obtain rfl := List.mem_singleton.mp hop'
    exact .inr ⟨k, c, hop⟩
  | runs i ch op op' sh hop hstep => exact absurd rfl (hrun i ch)
  | ticks d =>
    have hquiet : Quiet p ⟨{ p.sh with clock := p.sh.clock + d }, p.ops ++ []⟩ :=
      .intro _ [] nofun rfl rfl rfl
    rwa [List.append_nil] at hquiet

lemma step_run {ch : Choice} (h : w.step o limit (.run i ch) = some w') :
    ∃ op op' sh, w.pool.ops[i]? = some op ∧ opStep o limit w.pool.sh op ch = some (sh, op') ∧
      w' = w.observe o i op ⟨sh, w.pool.ops.set i op'⟩ := by
  obtain ⟨p, hp, rfl⟩ := Option.map_eq_some_iff.mp h
  obtain ⟨op, op', sh, hop, hstep, rfl⟩ := run_moves hp
  refine ⟨op, op', sh, hop, hstep, ?_⟩
  dsimp only
  rw [hop]
  rfl

lemma step_quiet (hrun : ∀ i ch, a ≠ .run i ch) (h : w.step o limit a = some w') :
    Quiet w.pool w'.pool ∧ w' = { w with pool := w'.pool } := by
  obtain ⟨p, hp, heq⟩ := Option.map_eq_some_iff.mp h
  have hw : w' = { w with pool := p } := by
    rw [← heq]
    cases a with
    | run i ch => exact absurd rfl (hrun i ch)
    | _ => rfl
  rw [hw]
  exact ⟨quiet_of_step hrun hp, rfl⟩

lemma pool_step (h : w.step o limit a = some w') : w.pool.step o limit a = some w'.pool := by
  obtain ⟨p, hp, rfl⟩ := Option.map_eq_some_iff.mp h
  rw [hp]
  congr 1
  cases a with
  | run i ch =>
    dsimp only
    cases w.pool.ops[i]? with
    | none => rfl
    | some op => rfl
  | _ => rfl

lemma reachable_pool (h : (Watch.machine o limit).Reachable w) :
    (Pool.machine o limit).Reachable w.pool := by
  induction h with
  | init hi =>
    obtain rfl : _ = start := hi
    exact .init rfl
  | step _ _ hs ih => exact reachable_step ih (pool_step hs)

/-! ## Every date is that of the dial -/

/-- A date somewhere in the pool. -/
def Bears (p : Pool) (x : Conn × ℤ) : Prop := p.sh.Dates x ∨ ∃ op ∈ p.ops, x ∈ op.dates

/-- A connection that the clock is read for bears no date yet. -/
lemma ne_of_newlyDated (h : Accounted limit p) (hop : p.ops[i]? = some op)
    (hstep : opStep o limit p.sh op ch = some (s', op')) (hnew : op'.newlyDated = some c)
    (hx : Bears p x) : x.1 ≠ c := by
  obtain ⟨hnone, hunt⟩ := (opStep_dateMove hstep).untagged hnew
  obtain ⟨hmeta, hidle, htag⟩ := h.unknown_of_untagged (List.mem_of_getElem? hop) hunt
  rintro rfl
  rcases hx with (⟨ic, hic, rfl⟩ | ⟨m, hm, -⟩) | ⟨op₁, hop₁, hx⟩
  · exact hidle ic hic rfl
  · rw [hmeta] at hm
    cases hm
  · rcases Op.carries_of_dates hx with htagged | ⟨hnew₁, hunt₁⟩
    · exact htag op₁ hop₁ htagged
    · -- two calls would have it in hand
      obtain ⟨j, hj⟩ := List.mem_iff_getElem?.mp hop₁
      have hij : i ≠ j := by
        rintro rfl
        obtain rfl := Option.some.inj (hop.symm.trans hj)
        rw [hnone] at hnew₁
        cases hnew₁
      have htwo := add_le_tally (fun op => op.untagged.count x.1) hop hj hij
      have hpos := List.count_pos_iff.mpr hunt
      have hpos₁ := List.count_pos_iff.mpr hunt₁
      have honce := h.once x.1
      have hle : (if x.1 ∈ p.sh.dialed then 1 else 0) ≤ 1 := by split <;> omega
      omega

lemma bears_run (hop : p.ops[i]? = some op) (hstep : opStep o limit p.sh op ch = some (s', op'))
    (hx : Bears ⟨s', p.ops.set i op'⟩ x) :
    Bears p x ∨ op'.newlyDated = some x.1 ∧ x.2 = p.sh.clock := by
  have hmem := List.mem_of_getElem? hop
  -- a call that has not run carries what it carried
  have hcases : (s'.Dates x ∨ x ∈ op'.dates) ∨ ∃ op₁ ∈ p.ops, x ∈ op₁.dates := by
    rcases hx with hx | ⟨op₁, hop₁, hx⟩
    · exact .inl (.inl hx)
    · rcases List.mem_or_eq_of_mem_set hop₁ with hold | rfl
      · exact .inr ⟨op₁, hold, hx⟩
      · exact .inl (.inr hx)
  rcases hcases with hx | hx
  · rcases opStep_dates hstep hx with hold | hop | hnew
    · exact .inl (.inl hold)
    · exact .inl (.inr ⟨op, hmem, hop⟩)
    · exact .inr hnew
  · exact .inl (.inr hx)

/-- Calls begin without a date. -/
lemma dates_of_entry (h : op.entry = true ∨ ∃ k c, op = .release k c ∨ op = .discard k c) :
    op.dates = [] := by
  rcases h with hentry | ⟨k, c, rfl | rfl⟩
  · unfold Op.entry at hentry
    split at hentry
    all_goals first | rfl | cases hentry
  · rfl
  · rfl

lemma bears_quiet {p' : Pool} (hq : Quiet p p') (hx : Bears p' x) : Bears p x := by
  cases hq with
  | intro sh ops hops hidle hmeta _ =>
    rcases hx with hx | ⟨op, hop, hx⟩
    · refine .inl ?_
      rcases hx with ⟨ic, hic, rfl⟩ | ⟨m, hm, hdate⟩
      · exact .inl ⟨ic, hidle ▸ hic, rfl⟩
      · exact .inr ⟨m, hmeta ▸ hm, hdate⟩
    · rcases List.mem_append.mp hop with hold | hnew
      · exact .inr ⟨op, hold, hx⟩
      · rw [dates_of_entry (hops op hnew)] at hx
        cases hx

/-- The date that `Acquire` and the passes go by. -/
def Dated (w : Watch) : Prop := ∀ x, Bears w.pool x → w.dialedAt x.1 = some x.2

/-- What is seen of the dates. -/
lemma dialedAt_observe {q : Pool} (hq : q.ops[i]? = some op') :
    (w.observe o i op q).dialedAt =
      op'.newlyDated.elim w.dialedAt fun c =>
        Function.update w.dialedAt c (some w.pool.sh.clock) := by
  unfold observe
  dsimp only
  rw [hq, Option.bind_some]
  cases op'.newlyDated <;> rfl

lemma Dated.step (h : Dated w) (hacc : Accounted limit w.pool)
    (hs : w.step o limit a = some w') : Dated w' := by
  intro x hx
  by_cases hrun : ∃ i ch, a = .run i ch
  · obtain ⟨i, ch, rfl⟩ := hrun
    obtain ⟨op, op', sh, hop, hstep, rfl⟩ := step_run hs
    have hset : (w.pool.ops.set i op')[i]? = some op' :=
      List.getElem?_set_self (List.getElem?_eq_some_iff.mp hop).1
    rw [dialedAt_observe hset]
    cases hnew : op'.newlyDated with
    | none =>
      rcases bears_run hop hstep hx with hold | ⟨hthis, -⟩
      · exact h x hold
      · rw [hnew] at hthis
        cases hthis
    | some c =>
      rcases bears_run hop hstep hx with hold | ⟨hthis, hclock⟩
      · have hne : x.1 ≠ c := ne_of_newlyDated hacc hop hstep hnew hold
        exact (Function.update_of_ne hne _ _).trans (h x hold)
      · obtain rfl := Option.some.inj (hnew.symm.trans hthis)
        rw [hclock]
        exact Function.update_self _ _ _
  · obtain ⟨hq, hw⟩ := step_quiet (fun i ch heq => hrun ⟨i, ch, heq⟩) hs
    rw [hw]
    exact h x (bears_quiet hq hx)

/-! ## What has been examined -/

/-- A connection that passed the test of its age was young enough then. -/
def Tested (o : Options) (w : Watch) : Prop :=
  ∀ i k ic, w.pool.ops[i]? = some (.acqCheck k ic) ∨ w.pool.ops[i]? = some (.acqHealth k ic) →
    ∃ t, w.examined i = some (ic.conn, t) ∧
      (0 < o.maxLifetime → t - ic.createdAt ≤ o.maxLifetime)

lemma check_of_step {k : Caller} {ic : IdleConn}
    (h : opStep o limit s op ch = some (s', .acqCheck k ic)) :
    op = .acqExamine k ic ∧ (0 < o.maxLifetime → s.clock - ic.createdAt ≤ o.maxLifetime) := by
  rcases acquireStep_of_acquire h rfl with h | h
  · unfold acquireStep at h
    split at h
    case h_12 =>
      obtain ⟨-, hop⟩ := Prod.mk.inj (Option.some.inj h)
      split at hop
      · cases hop
      next hyoung =>
        cases hop
        refine ⟨rfl, fun hpos => ?_⟩
        by_contra hold
        exact hyoung ⟨hpos, by omega⟩
    all_goals repeat' split at h
    all_goals cases h
  · rcases circuitStep_dateMove h with ⟨hnil, -⟩ | ⟨c, -, hnew, -⟩
    · cases hnil
    · cases hnew

lemma health_of_step {k : Caller} {ic : IdleConn}
    (h : opStep o limit s op ch = some (s', .acqHealth k ic)) : op = .acqCheck k ic := by
  rcases acquireStep_of_acquire h rfl with h | h
  · unfold acquireStep at h
    split at h
    case h_13 =>
      split at h
      · cases h
      · cases h
        rfl
    all_goals repeat' split at h
    all_goals cases h
  · rcases circuitStep_dateMove h with ⟨hnil, -⟩ | ⟨c, -, hnew, -⟩
    · cases hnil
    · cases hnew

/-- Only the call that looks at a connection changes what it has examined. -/
lemma examined_observe {q : Pool} (hne : j ≠ i) :
    (w.observe o i op q).examined j = w.examined j := by
  unfold observe
  dsimp only
  split
  · exact Function.update_of_ne hne _ _
  · rfl

lemma Tested.step (h : Tested o w) (hs : w.step o limit a = some w') : Tested o w' := by
  intro j k ic hj
  by_cases hrun : ∃ i ch, a = .run i ch
  · obtain ⟨i, ch, rfl⟩ := hrun
    obtain ⟨op, op', sh, hop, hstep, rfl⟩ := step_run hs
    by_cases hji : j = i
    · subst hji
      have hset : (w.pool.ops.set j op')[j]? = some op' :=
        List.getElem?_set_self (List.getElem?_eq_some_iff.mp hop).1
      rcases hj with hj | hj
      · obtain rfl := Option.some.inj (hset.symm.trans hj)
        obtain ⟨rfl, hyoung⟩ := check_of_step hstep
        exact ⟨w.pool.sh.clock, Function.update_self _ _ _, hyoung⟩
      · obtain rfl := Option.some.inj (hset.symm.trans hj)
        obtain rfl := health_of_step hstep
        exact h j k ic (.inl hop)
    · have hset : (w.pool.ops.set i op')[j]? = w.pool.ops[j]? :=
        List.getElem?_set_ne (Ne.symm hji)
      change (w.pool.ops.set i op')[j]? = _ ∨ (w.pool.ops.set i op')[j]? = _ at hj
      rw [hset] at hj
      rw [examined_observe hji]
      exact h j k ic hj
  · obtain ⟨hq, hw⟩ := step_quiet (fun i ch heq => hrun ⟨i, ch, heq⟩) hs
    rw [hw]
    refine h j k ic ?_
    generalize w'.pool = p' at hq hj
    cases hq with
    | intro sh ops hops =>
      -- no call begins in the middle of an `Acquire`
      have hold : ∀ op, (w.pool.ops ++ ops)[j]? = some op → op.dates ≠ [] →
          w.pool.ops[j]? = some op := by
        intro op hop hdates
        rcases Nat.lt_or_ge j w.pool.ops.length with hlt | hge
        · rwa [List.getElem?_append_left hlt] at hop
        · rw [List.getElem?_append_right hge] at hop
          exact absurd (dates_of_entry (hops op (List.mem_of_getElem? hop))) hdates
      rcases hj with hj | hj
      · exact .inl (hold _ hj (List.cons_ne_nil _ _))
      · exact .inr (hold _ hj (List.cons_ne_nil _ _))

/-! ## Passes -/

/-- What a pass has still to close. -/
def remaining : Op → Option (List Conn)
  | .retire cs .reapExpired => some cs
  | .retireClose c cs .reapExpired => some (c :: cs)
  | .returned => some []
  | _ => none

/-- A pass goes on until it has closed what it took. -/
lemma remaining_step {cs : List Conn} (h : opStep o limit s op ch = some (s', op'))
    (hrem : remaining op = some cs) :
    (∃ c cs', op = .retireClose c cs' .reapExpired ∧ cs = c :: cs' ∧ remaining op' = some cs' ∧
      0 < s'.closes c) ∨
    (∀ c cs', op ≠ .retireClose c cs' .reapExpired) ∧ remaining op' = some cs := by
  unfold remaining at hrem
  split at hrem
  next cs' =>
    obtain rfl := Option.some.inj hrem
    refine .inr ⟨nofun, ?_⟩
    have hdrain : drainStep o s (.retire cs' .reapExpired) ch = some (s', op') := by
      simpa [opStep, acquireStep, circuitStep, returnStep, warmUpStep, pauseStep] using h
    cases cs' with
    | nil =>
      cases ch <;> cases hdrain
      rfl
    | cons c cs =>
      cases ch <;> cases hdrain
      rfl
  next c cs' =>
    obtain rfl := Option.some.inj hrem
    refine .inl ⟨c, cs', rfl, rfl, ?_⟩
    have hdrain : drainStep o s (.retireClose c cs' .reapExpired) ch = some (s', op') := by
      simpa [opStep, acquireStep, circuitStep, returnStep, warmUpStep, pauseStep] using h
    cases ch <;> cases hdrain
    refine ⟨rfl, ?_⟩
    change 0 < Function.update s.closes c (s.closes c + 1) c
    rw [Function.update_self]
    exact Nat.succ_pos _
  next =>
    simp [opStep, acquireStep, circuitStep, returnStep, drainStep, warmUpStep, pauseStep] at h
  next => cases hrem

/-- What is seen of passes. -/
lemma passes_observe (o : Options) (w : Watch) (i : ℕ) (op : Op) (q : Pool) :
    (∃ now, op = .reapSweep now ∧ w.pool.sh.closed = false ∧ (w.observe o i op q).passes =
      Function.update w.passes i
        (some ⟨(w.pool.sh.idle.filter (exceeds o w.dialedAt now)).map (·.conn), []⟩)) ∨
    (∃ c cs, op = .retireClose c cs .reapExpired ∧ (w.observe o i op q).passes =
      Function.update w.passes i
        ((w.passes i).map fun P => { P with closed := P.closed ++ [c] })) ∨
    (∀ c cs, op ≠ .retireClose c cs .reapExpired) ∧ (w.observe o i op q).passes = w.passes := by
  unfold observe
  dsimp only
  split
  next now =>
    split
    · exact .inr (.inr ⟨nofun, rfl⟩)
    next hopen => exact .inl ⟨now, rfl, Bool.eq_false_iff.mpr hopen, rfl⟩
  next c cs => exact .inr (.inl ⟨c, cs, rfl, rfl⟩)
  next hother => exact .inr (.inr ⟨fun c cs => hother c cs, rfl⟩)

/-- By the recorded dates a pass takes what `reapExpired` takes. -/
lemma Dated.filter_exceeds (h : Dated w) (now : ℤ) :
    w.pool.sh.idle.filter (exceeds o w.dialedAt now) = w.pool.sh.idle.filter (expired o now) := by
  refine List.filter_congr fun ic hic => ?_
  have hdate : w.dialedAt ic.conn = some ic.createdAt :=
    h (ic.conn, ic.createdAt) (.inl (.inl ⟨ic, hic, rfl⟩))
  rw [exceeds, hdate]
  rfl

/-- The critical section of `reapExpired`. -/
lemma sweep_of_step {now : ℤ} (hopen : s.closed = false)
    (h : opStep o limit s (.reapSweep now) ch = some (s', op')) :
    s'.idle = s.idle.filter (fun ic => !expired o now ic) ∧
      op' = .retire ((s.idle.filter (expired o now)).map (·.conn)) .reapExpired := by
  have hdrain : drainStep o s (.reapSweep now) ch = some (s', op') := by
    simpa [opStep, acquireStep, circuitStep, returnStep, warmUpStep, pauseStep] using h
  cases ch with
  | go =>
    rw [drainStep, if_neg (by simp [hopen])] at hdrain
    obtain ⟨rfl, rfl⟩ := Prod.mk.inj (Option.some.inj hdrain)
    exact ⟨rfl, rfl⟩
  | _ => cases hdrain

/-- What a pass has closed and what it has still to close is what had expired. -/
def Passing (w : Watch) : Prop :=
  ∀ i P, w.passes i = some P → (∃ op cs, w.pool.ops[i]? = some op ∧ remaining op = some cs ∧
    P.closed ++ cs = P.expired) ∧ ∀ c ∈ P.closed, 0 < w.pool.sh.closes c

lemma Passing.run (h : Passing w) (hdated : Dated w) (hop : w.pool.ops[i]? = some op)
    (hstep : opStep o limit w.pool.sh op ch = some (s', op')) :
    Passing (w.observe o i op ⟨s', w.pool.ops.set i op'⟩) := by
  intro j P hj
  have hclosed : ∀ {Q : Pass} {j : ℕ}, w.passes j = some Q → ∀ c ∈ Q.closed, 0 < s'.closes c :=
    fun hQ c hc => Nat.lt_of_lt_of_le ((h _ _ hQ).2 c hc) (opStep_closes hstep c)
  by_cases hji : j = i
  · subst hji
    have hset : (w.pool.ops.set j op')[j]? = some op' :=
      List.getElem?_set_self (List.getElem?_eq_some_iff.mp hop).1
    rcases passes_observe o w j op ⟨s', w.pool.ops.set j op'⟩ with
      ⟨now, rfl, hopen, hpasses⟩ | ⟨c, cs, rfl, hpasses⟩ | ⟨hother, hpasses⟩
    · rw [hpasses, Function.update_self] at hj
      obtain rfl := Option.some.inj hj
      obtain ⟨-, rfl⟩ := sweep_of_step hopen hstep
      refine ⟨⟨_, _, hset, rfl, ?_⟩, nofun⟩
      rw [hdated.filter_exceeds]
      rfl
    · rw [hpasses, Function.update_self] at hj
      obtain ⟨Q, hQ, rfl⟩ := Option.map_eq_some_iff.mp hj
      obtain ⟨⟨op₁, cs₁, hop₁, hrem, hsplit⟩, -⟩ := h j Q hQ
      obtain rfl := Option.some.inj (hop.symm.trans hop₁)
      rcases remaining_step hstep hrem with ⟨c', cs', heq, rfl, hrem', hpos⟩ | ⟨hne, -⟩
      · obtain ⟨rfl, rfl, -⟩ := Op.retireClose.inj heq
        refine ⟨⟨op', cs, hset, hrem', ?_⟩, ?_⟩
        · rw [← hsplit]
          exact List.append_assoc _ _ _
        · intro d hd
          rcases List.mem_append.mp hd with hd | hd
          · exact hclosed hQ d hd
          · obtain rfl := List.mem_singleton.mp hd
            exact hpos
      · exact absurd rfl (hne c cs)
    · rw [hpasses] at hj
      obtain ⟨⟨op₁, cs₁, hop₁, hrem, hsplit⟩, -⟩ := h j P hj
      obtain rfl := Option.some.inj (hop.symm.trans hop₁)
      rcases remaining_step hstep hrem with ⟨c', cs', heq, -⟩ | ⟨-, hrem'⟩
      · exact absurd heq (hother c' cs')
      · exact ⟨⟨op', cs₁, hset, hrem', hsplit⟩, hclosed hj⟩
  · have hset : (w.pool.ops.set i op')[j]? = w.pool.ops[j]? :=
      List.getElem?_set_ne (Ne.symm hji)
    have hsame : (w.observe o i op ⟨s', w.pool.ops.set i op'⟩).passes j = w.passes j := by
      rcases passes_observe o w i op ⟨s', w.pool.ops.set i op'⟩ with
        ⟨now, -, -, hpasses⟩ | ⟨c, cs, -, hpasses⟩ | ⟨-, hpasses⟩
      · rw [hpasses, Function.update_of_ne hji]
      · rw [hpasses, Function.update_of_ne hji]
      · rw [hpasses]
    rw [hsame] at hj
    obtain ⟨⟨op₁, cs₁, hop₁, hrem, hsplit⟩, -⟩ := h j P hj
    exact ⟨⟨op₁, cs₁, hset.trans hop₁, hrem, hsplit⟩, hclosed hj⟩

lemma Passing.step (h : Passing w) (hdated : Dated w) (hs : w.step o limit a = some w') :
    Passing w' := by
  by_cases hrun : ∃ i ch, a = .run i ch
  · obtain ⟨i, ch, rfl⟩ := hrun
    obtain ⟨op, op', sh, hop, hstep, rfl⟩ := step_run hs
    exact h.run hdated hop hstep
  · obtain ⟨hq, hw⟩ := step_quiet (fun i ch heq => hrun ⟨i, ch, heq⟩) hs
    rw [hw]
    intro j P hj
    obtain ⟨⟨op, cs, hop, hrem, hsplit⟩, hclosed⟩ := h j P hj
    generalize w'.pool = p' at hq
    cases hq with
    | intro sh ops _ _ _ hcloses =>
      refine ⟨⟨op, cs, ?_, hrem, hsplit⟩, fun c hc => hcloses ▸ hclosed c hc⟩
      have hlt := (List.getElem?_eq_some_iff.mp hop).1
      exact (List.getElem?_append_left hlt).trans hop

/-! ## All together -/

structure Sound (o : Options) (w : Watch) : Prop where
  dated : Dated w
  tested : Tested o w
  passing : Passing w

lemma sound_of_reachable (h : (Watch.machine o limit).Reachable w) : Sound o w := by
  induction h with
  | init hi =>
    obtain rfl : _ = start := hi
    refine ⟨?_, ?_, nofun⟩
    · rintro x ((⟨ic, hic, -⟩ | ⟨m, hm, -⟩) | ⟨op, hop, -⟩)
      · cases hic
      · cases hm
      · cases hop
    · rintro i k ic (hi | hi)
      · cases hi
      · cases hi
  | step hr _ hs ih =>
    have hacc := reachable_accounted (reachable_pool hr)
    exact ⟨ih.dated.step hacc hs, ih.tested.step hs, ih.passing.step ih.dated hs⟩

lemma Sound.dialedAt_idle (h : Sound o w) {ic : IdleConn} (hic : ic ∈ w.pool.sh.idle) :
    w.dialedAt ic.conn = some ic.createdAt :=
  h.dated (ic.conn, ic.createdAt) (.inl (.inl ⟨ic, hic, rfl⟩))

/-- A pooled connection that is handed out was young enough when it was examined. -/
lemma Sound.handed_out (h : Sound o w) (hacc : Accounted limit w.pool) {ch : Choice} {k : Caller}
    (hs : w.step o limit (.run i ch) = some w')
    (hheld : w'.pool.sh.held = (k, c) :: w.pool.sh.held) (hmeta : (w.pool.sh.connMeta c).isSome) :
    ∃ t d, w.examined i = some (c, t) ∧ w.dialedAt c = some d ∧
      (0 < o.maxLifetime → t - d ≤ o.maxLifetime) := by
  obtain ⟨op, op', sh, hop, hstep, rfl⟩ := step_run hs
  have hmem := List.mem_of_getElem? hop
  change sh.held = (k, c) :: w.pool.sh.held at hheld
  cases opStep_deals hstep with
  | keeps hsame =>
    have hlen := congrArg List.length (hsame.symm.trans hheld)
    simp at hlen
  | pooled k' ic hfrom =>
    obtain ⟨heq, -⟩ := List.cons.inj hheld
    obtain ⟨rfl, rfl⟩ := Prod.mk.inj heq
    have hat : w.pool.ops[i]? = some (.acqCheck k' ic) ∨
        w.pool.ops[i]? = some (.acqHealth k' ic) := by
      rcases hfrom with rfl | rfl
      · exact .inl hop
      · exact .inr hop
    obtain ⟨t, hexam, hyoung⟩ := h.tested i k' ic hat
    have hcarried : (ic.conn, ic.createdAt) ∈ op.dates := by
      rcases hfrom with rfl | rfl
      · exact List.mem_singleton_self _
      · exact List.mem_singleton_self _
    exact ⟨t, ic.createdAt, hexam,
      h.dated (ic.conn, ic.createdAt) (.inr ⟨op, hmem, hcarried⟩), hyoung⟩
  | dialed k' c' m =>
    obtain ⟨heq, -⟩ := List.cons.inj hheld
    obtain ⟨rfl, rfl⟩ := Prod.mk.inj heq
    obtain ⟨hnone, -⟩ := hacc.unknown_of_untagged hmem (List.mem_singleton_self c')
    rw [hnone] at hmeta
    cases hmeta

/-- A pass takes what has expired from the stack and leaves the rest in order. -/
lemma Sound.sweeps (h : Sound o w) {ch : Choice} {now : ℤ}
    (hop : w.pool.ops[i]? = some (.reapSweep now)) (hopen : w.pool.sh.closed = false)
    (hs : w.step o limit (.run i ch) = some w') :
    w'.pool.sh.idle = w.pool.sh.idle.filter (fun ic => !exceeds o w.dialedAt now ic) ∧
      w'.passes i = some ⟨(w.pool.sh.idle.filter (exceeds o w.dialedAt now)).map (·.conn), []⟩ := by
  obtain ⟨op, op', sh, hop', hstep, rfl⟩ := step_run hs
  obtain rfl := Option.some.inj (hop.symm.trans hop')
  obtain ⟨hidle, -⟩ := sweep_of_step hopen hstep
  constructor
  · change sh.idle = _
    rw [hidle]
    refine List.filter_congr fun ic hic => ?_
    rw [exceeds, h.dialedAt_idle hic]
    rfl
  · rcases passes_observe o w i (.reapSweep now) ⟨sh, w.pool.ops.set i op'⟩ with
      ⟨now', heq, -, hpasses⟩ | ⟨c, cs, heq, -⟩ | ⟨-, -⟩
    · obtain rfl := Op.reapSweep.inj heq
      rw [hpasses, Function.update_self]
    · cases heq
    · simp [observe, hopen]

/-- A pass that has returned has closed what it took, once. -/
lemma Sound.pass_done (h : Sound o w) (hacc : Accounted limit w.pool) {P : Pass}
    (hP : w.passes i = some P) (hret : w.pool.ops[i]? = some .returned) :
    P.closed = P.expired ∧ ∀ c ∈ P.closed, w.pool.sh.closes c = 1 := by
  obtain ⟨⟨op, cs, hop, hrem, hsplit⟩, hclosed⟩ := h.passing i P hP
  obtain rfl := Option.some.inj (hret.symm.trans hop)
  obtain rfl := Option.some.inj hrem
  rw [List.append_nil] at hsplit
  refine ⟨hsplit, fun c hc => ?_⟩
  have honce := hacc.once c
  have hpos := hclosed c hc
  have hle : (if c ∈ w.pool.sh.dialed then 1 else 0) ≤ 1 := by split <;> omega
  omega

end Watch

/-- Connections live for ten units, no breaker, no health check. -/
def tenUnits : Options where
  idleTimeout := 0
  maxLifetime := 10
  healthCheckDelay := 0
  minIdle := 0
  dialRetryMax := 0
  dialRetryBackoff := 0
  cbThreshold := 0
  cbCooldown := 0
  healthCheck := false

end Pgman.Pool
