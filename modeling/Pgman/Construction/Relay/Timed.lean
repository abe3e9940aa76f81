import Pgman.Construction.Relay.Steady

/-!
# A session and its client's idle clock (`relay.go`)

The world of `Construction/Relay/World.lean` with a clock and the read deadline on the client
socket of one session.  `armClientIdleDeadline` sets the deadline each time the outer loop is
about to read, and `disarmClientIdleDeadline` clears it as soon as that read is over;
`relayCopyBoth` sets one in the past to wake a pump, and clears it before it returns.  Nothing
else touches it.

What a deadline means is in `step`: a read fails with a timeout no earlier than its deadline,
and time does not pass the deadline of a read that is still waiting.  Other sessions' clocks are
not modelled; their timeouts may come at any time.
-/

namespace Pgman

/-- Blocked in a read from the client. -/
def PC.readsClient : PC → Bool
  | .outer _ | .batch _ | .drain _ _ | .copyIn _ _ => true
  | .copyBoth _ st => st.clientPump = .reading
  | _ => false

/-- Blocked in a read from the client, outside of COPY. -/
def PC.readsCommand : PC → Bool
  | .outer _ | .batch _ | .drain _ _ => true
  | _ => false

namespace Relay

/-- How long `armClientIdleDeadline` lets the client be silent. -/
def idleLimit (opts : RuntimeOpts) (l : Local) (backend : Option Conn) : Option ℤ :=
  if backend.isSome && (l.lastTxStatus == 'T' || l.lastTxStatus == 'E') then
    if opts.idleTransactionTimeout ≤ 0 then none else some opts.idleTransactionTimeout
  else if opts.clientIdleTimeout ≤ 0 then none else some opts.clientIdleTimeout

/-- The read deadline on the client socket of a session that comes to block at time `now`.  The
deadline that wakes the pumps of `relayCopyBoth` lies a second back. -/
def clientDeadline (opts : RuntimeOpts) (now : ℤ) (l : Local) : Option ℤ :=
  match l.pc with
  | .outer backend => (idleLimit opts l backend).map (now + ·)
  | .copyBoth _ st => if st.forced then some (now - 1000000000) else none
  | _ => none

/-- The deadline is armed exactly when there is something to report once it fires. -/
lemma idleTimeout_isSome (opts : RuntimeOpts) (l : Local) (backend : Option Conn) :
    (idleTimeout opts l backend).isSome = (idleLimit opts l backend).isSome := by
  unfold idleTimeout idleLimit
  split <;> split <;> rfl

/-- With both timeouts set the outer loop always has a limit, and none above the larger one. -/
lemma idleLimit_of_pos {opts : RuntimeOpts} (hidle : 0 < opts.clientIdleTimeout)
    (htx : 0 < opts.idleTransactionTimeout) (l : Local) (backend : Option Conn) :
    ∃ d, idleLimit opts l backend = some d ∧ 0 < d ∧
      d ≤ max opts.clientIdleTimeout opts.idleTransactionTimeout := by
  unfold idleLimit
  split
  · exact ⟨_, if_neg (Int.not_le.mpr htx), htx, Int.le_max_right _ _⟩
  · exact ⟨_, if_neg (Int.not_le.mpr hidle), hidle, Int.le_max_left _ _⟩

end Relay

/-- A world, a clock, and the read deadline on one client's socket. -/
structure Timed where
  world : World
  now : ℤ
  deadline : Option ℤ

inductive Tick
  | happens (a : Happening)
  /-- Time passes. -/
  | elapse (d : ℕ)
  deriving DecidableEq, Repr

namespace Timed

/-- A read of session `k` that times out is past its deadline. -/
def Due (k : Caller) (s : Timed) : Happening → Prop
  | .relay k' .clientTimeout => k' = k → ∃ t ∈ s.deadline, t ≤ s.now
  | _ => True

instance (k : Caller) (s : Timed) (a : Happening) : Decidable (s.Due k a) := by
  unfold Due
  split <;> infer_instance

/-- No deadline of a waiting read lies within the next `d`. -/
def Quiet (k : Caller) (s : Timed) (d : ℕ) : Prop :=
  (s.world.loc k).pc.readsClient = true → ∀ t ∈ s.deadline, s.now + d ≤ t

instance (k : Caller) (s : Timed) (d : ℕ) : Decidable (s.Quiet k d) := by
  unfold Quiet
  infer_instance

/-- The deadline after something has happened: a step of session `k` sets it anew. -/
def rearm (opts : RuntimeOpts) (k : Caller) (s : Timed) (w : World) : Happening → Option ℤ
  | .relay k' _ => if k' = k then Relay.clientDeadline opts s.now (w.loc k) else s.deadline
  | _ => s.deadline

def step (opts : RuntimeOpts) (k : Caller) (s : Timed) : Tick → Option Timed
  | .happens a =>
      if s.Due k a then
        (World.step opts s.world a).map fun w => ⟨w, s.now, s.rearm opts k w a⟩
      else none
  | .elapse d => if s.Quiet k d then some { s with now := s.now + d } else none

/-- Session `k` enters `relayImpl` at time zero. -/
def start (opts : RuntimeOpts) (k : Caller) (w : World) : Timed :=
  ⟨w, 0, Relay.clientDeadline opts 0 (w.loc k)⟩

def machine (opts : RuntimeOpts) (mode : PoolMode) (params : Caller → List TrackedParam)
    (k : Caller) : Machine Timed Tick where
  init s := ∃ psLimit, s = start opts k (World.start mode params psLimit)
  step := step opts k

variable {opts : RuntimeOpts} {mode : PoolMode} {params : Caller → List TrackedParam} {k : Caller}
  {s s' : Timed}

/-- What a tick can do. -/
lemma step_cases {e : Tick} (h : step opts k s e = some s') :
    (∃ a, e = .happens a ∧ s.Due k a ∧ World.step opts s.world a = some s'.world ∧
      s'.now = s.now ∧ s'.deadline = s.rearm opts k s'.world a) ∨
    ∃ d, e = .elapse d ∧ s.Quiet k d ∧ s' = { s with now := s.now + d } := by
  cases e with
  | happens a =>
    simp only [step] at h
    split at h
    · rename_i hdue
      obtain ⟨w, hw, rfl⟩ := Option.map_eq_some_iff.mp h
      exact .inl ⟨a, rfl, hdue, hw, rfl, rfl⟩
    · cases h
  | elapse d =>
    simp only [step] at h
    split at h
    · rename_i hquiet
      cases h
      exact .inr ⟨d, rfl, hquiet, rfl⟩
    · cases h

/-- Forgetting the clock. -/
theorem reach_world {C : Timed → Tick → Prop} (h : (machine opts mode params k).Reach C s) :
    (World.machine opts mode params).Reachable s.world := by
  induction h with
  | init h0 =>
    obtain ⟨psLimit, rfl⟩ := h0
    exact .init ⟨psLimit, rfl⟩
  | step _ _ hs ih =>
    rcases step_cases hs with ⟨a, -, -, hw, -, -⟩ | ⟨d, -, -, rfl⟩
    · exact .step ih trivial hw
    · exact ih

/-! ## What a step of the world leaves of a session -/

/-- A session is moved by its own steps only; registering it changes no more than its id. -/
lemma loc_of_step {w w' : World} {a : Happening} (h : World.step opts w a = some w') (k : Caller) :
    (∃ i r, a = .relay k i ∧ Relay.step opts w.res w.shared (w.loc k) i = some r ∧
      w'.loc k = r.1) ∨
    ((∀ i, a ≠ .relay k i) ∧ (w'.loc k).pc = (w.loc k).pc ∧
      (w'.loc k).lastTxStatus = (w.loc k).lastTxStatus) := by
  cases a with
  | relay k' i =>
    simp only [World.step] at h
    split at h
    · obtain ⟨r, hr, rfl⟩ := Option.map_eq_some_iff.mp h
      by_cases hk : k' = k
      · subst hk
        exact .inl ⟨i, r, rfl, hr, by simp [Leased.perform]⟩
      · refine .inr ⟨fun i' hi' => hk (by injection hi'), ?_⟩
        simp [Leased.perform, Function.update_of_ne (Ne.symm hk)]
    · cases h
  | register k' =>
    simp only [World.step] at h
    split at h <;> cases h
    refine .inr ⟨fun _ => by simp, ?_⟩
    by_cases hk : k = k'
    · subst hk
      simp [World.register]
    · simp [World.register, Function.update_of_ne hk]
  | dial c =>
    simp only [World.step] at h
    split at h <;> cases h
    exact .inr ⟨fun _ => by simp, rfl, rfl⟩
  | retire c =>
    simp only [World.step] at h
    split at h <;> cases h
    exact .inr ⟨fun _ => by simp, rfl, rfl⟩

/-! ## The deadline along a run -/

lemma clientDeadline_congr {now : ℤ} {l l' : Local} (hpc : l'.pc = l.pc)
    (hst : l'.lastTxStatus = l.lastTxStatus) :
    Relay.clientDeadline opts now l' = Relay.clientDeadline opts now l := by
  simp only [Relay.clientDeadline, Relay.idleLimit, hpc, hst]

/-- The deadline was set when the session came to block where it is, and a read of the outer loop
has not outlived it. -/
structure Armed (opts : RuntimeOpts) (k : Caller) (s : Timed) : Prop where
  since : ∃ t₀ ≤ s.now, s.deadline = Relay.clientDeadline opts t₀ (s.world.loc k)
  pending : ∀ backend, (s.world.loc k).pc = .outer backend → ∀ t ∈ s.deadline, s.now ≤ t

lemma idleLimit_pos {l : Local} {backend : Option Conn} {d : ℤ}
    (h : Relay.idleLimit opts l backend = some d) : 0 < d := by
  unfold Relay.idleLimit at h
  split at h <;> split at h <;> cases h <;> omega

/-- A deadline just armed lies ahead. -/
lemma pending_of_clientDeadline {l : Local} {now t : ℤ} {backend : Option Conn}
    (hpc : l.pc = .outer backend) (ht : t ∈ Relay.clientDeadline opts now l) : now ≤ t := by
  simp only [Relay.clientDeadline, hpc] at ht
  obtain ⟨d, hd, rfl⟩ := Option.map_eq_some_iff.mp ht
  have := idleLimit_pos hd
  omega

theorem Armed.step {e : Tick} (h : s.Armed opts k) (hs : Timed.step opts k s e = some s') :
    s'.Armed opts k := by
  rcases step_cases hs with ⟨a, -, -, hw, hnow, hdl⟩ | ⟨d, -, hquiet, rfl⟩
  · rcases loc_of_step hw k with ⟨i, r, rfl, -, -⟩ | ⟨hother, hpc, hst⟩
    · -- the session has moved, and the deadline is set anew
      have hnew : s'.deadline = Relay.clientDeadline opts s.now (s'.world.loc k) := by
        rw [hdl]
        exact if_pos rfl
      refine ⟨⟨s.now, Int.le_of_eq hnow.symm, hnew⟩, fun backend hbackend t ht => ?_⟩
      rw [hnow]
      rw [hnew] at ht
      exact pending_of_clientDeadline hbackend ht
    · have hkeep : s'.deadline = s.deadline := by
        rw [hdl]
        unfold rearm
        split
        · rename_i k' i
          exact if_neg (fun hk => hother i (by rw [hk]))
        · rfl
      obtain ⟨t₀, ht₀, hdl₀⟩ := h.since
      refine ⟨⟨t₀, by omega, ?_⟩, fun backend hbackend t ht => ?_⟩
      · rw [hkeep, hdl₀, clientDeadline_congr hpc hst]
      · rw [hnow]
        exact h.pending backend (hpc ▸ hbackend) t (hkeep ▸ ht)
  · obtain ⟨t₀, ht₀, hdl₀⟩ := h.since
    refine ⟨⟨t₀, by simp only; omega, hdl₀⟩, fun backend hbackend t ht => ?_⟩
    have hreads : (s.world.loc k).pc.readsClient = true := by
      rw [show (s.world.loc k).pc = .outer backend from hbackend]
      rfl
    exact hquiet hreads t ht

theorem armed_of_reach {C : Timed → Tick → Prop} (h : (machine opts mode params k).Reach C s) :
    s.Armed opts k := by
  refine h.invariant (fun s h0 => ?_) (fun _ _ _ hI _ hs => hI.step hs)
  obtain ⟨psLimit, rfl⟩ := h0
  exact ⟨⟨0, Int.le_refl 0, rfl⟩,
    fun backend hbackend t ht => pending_of_clientDeadline hbackend ht⟩

end Timed

end Pgman
