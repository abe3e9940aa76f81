import Pgman.Construction.Relay.Timed

/-!
# A client that falls silent

With both idle timeouts set, a client that stops sending is to lose its session, and its backend
is to go back, within the larger of the two.  The relay reads commands from its client in three
places: at the top of the outer loop, in the batch loop, and in `failQuery` while it reads a
failed batch to its end.  The deadline is armed around the first one only, so the promise is kept
there and nowhere else: `silent_client_bounded_iff`.

`Bounded` is the promise, for a session that is waiting for its client: a deadline is set in time,
and whatever happens while the client says nothing, the session is over once it has passed.
-/

namespace Pgman.Timed

/-- Nothing comes from the client of session `k`, not even the end of the connection. -/
def Silent (k : Caller) (_ : Timed) : Tick → Prop
  | .happens (.relay k' i) => k' = k → (∀ m, i ≠ .client m) ∧ i ≠ .clientErr
  | _ => True

/-- The session still waits where it did, and no longer than `t`; at `t` its read times out. -/
def Waits (opts : RuntimeOpts) (k : Caller) (pc : PC) (t : ℤ) (s : Timed) : Prop :=
  (s.world.loc k).pc = pc ∧ s.now ≤ t ∧
    (s.now = t → ∃ s', step opts k s (.happens (.relay k .clientTimeout)) = some s')

/-- The session is over and has no connection any more. -/
def Over (k : Caller) (s : Timed) : Prop :=
  (s.world.loc k).pc = .done ∧ ∀ c, s.world.place c ≠ .held k

/-- A deadline no later than the larger timeout is armed, and a client that stays silent has lost
its session and its connection once it has passed. -/
def Bounded (opts : RuntimeOpts) (mode : PoolMode) (params : Caller → List TrackedParam)
    (k : Caller) (s : Timed) : Prop :=
  ∃ t ∈ s.deadline, t ≤ s.now + max opts.clientIdleTimeout opts.idleTransactionTimeout ∧
    ∀ s', ((machine opts mode params k).startingAt s).Reach (Silent k) s' →
      Waits opts k (s.world.loc k).pc t s' ∨ Over k s'

variable {opts : RuntimeOpts} {mode : PoolMode} {params : Caller → List TrackedParam} {k : Caller}
  {s s' : Timed}

/-! ## Waiting at the outer loop -/

/-- The only thing a silent client's outer read can end with is its timeout. -/
lemma outerStep_silent {conns : Conn → BackendConn} {l : Local} {backend : Option Conn} {i : Input}
    {r : Local × List Act} (hi : (∀ m, i ≠ .client m) ∧ i ≠ .clientErr)
    (h : Relay.outerStep opts conns l backend i = some r) :
    i = .clientTimeout ∧ r.1.pc = .done := by
  unfold Relay.outerStep at h
  split at h
  · obtain ⟨t, -, rfl⟩ := Option.map_eq_some_iff.mp h
    exact ⟨rfl, rfl⟩
  · exact absurd rfl hi.2
  · exact absurd rfl (hi.1 _)
  · exact absurd rfl (hi.1 _)
  · cases h

/-- The timeout of an outer read whose deadline has come. -/
lemma timeout_enabled {backend : Option Conn} {t : ℤ} (hidle : 0 < opts.clientIdleTimeout)
    (htx : 0 < opts.idleTransactionTimeout) (hpc : (s.world.loc k).pc = .outer backend)
    (hdl : s.deadline = some t) (hnow : s.now = t) :
    ∃ s', step opts k s (.happens (.relay k .clientTimeout)) = some s' := by
  have hdue : s.Due k (.relay k .clientTimeout) := fun _ => ⟨t, hdl, Int.le_of_eq hnow.symm⟩
  have hadmits : s.world.Admits .clientTimeout := fun c hc => by cases hc
  obtain ⟨d, hd, -⟩ := Relay.idleLimit_of_pos hidle htx (s.world.loc k) backend
  have hsome : (Relay.idleTimeout opts (s.world.loc k) backend).isSome = true := by
    rw [Relay.idleTimeout_isSome, hd]
    rfl
  obtain ⟨p, hp⟩ := Option.isSome_iff_exists.mp hsome
  simp only [step, if_pos hdue, World.step, if_pos hadmits, Relay.step, hpc, Relay.outerStep, hp,
    Option.map_some]
  exact ⟨_, rfl⟩

/-- How a session that waits at the outer loop for a silent client goes on: it waits, with its
deadline ahead, or it is over. -/
structure WaitsOuter (k : Caller) (backend : Option Conn) (t : ℤ) (s : Timed) : Prop where
  pc : (s.world.loc k).pc = .outer backend
  deadline : s.deadline = some t
  now : s.now ≤ t

lemma WaitsOuter.step {backend : Option Conn} {t : ℤ} {e : Tick} (h : WaitsOuter k backend t s)
    (he : Silent k s e) (hs : Timed.step opts k s e = some s') :
    WaitsOuter k backend t s' ∨ (s'.world.loc k).pc = .done := by
  rcases step_cases hs with ⟨a, rfl, -, hw, hnow, hdl⟩ | ⟨d, -, hquiet, rfl⟩
  · rcases loc_of_step hw k with ⟨i, r, rfl, hr, hloc⟩ | ⟨hother, hpc, -⟩
    · simp only [Relay.step, h.pc] at hr
      rw [hloc]
      exact .inr (outerStep_silent (he rfl) hr).2
    · refine .inl ⟨hpc.trans h.pc, ?_, hnow ▸ h.now⟩
      rw [hdl, ← h.deadline]
      unfold rearm
      split
      · rename_i k' i
        exact if_neg (fun hk => hother i (by rw [hk]))
      · rfl
  · have hreads : (s.world.loc k).pc.readsClient = true := by rw [h.pc]; rfl
    exact .inl ⟨h.pc, h.deadline, hquiet hreads t h.deadline⟩

/-- A session that is over stays over. -/
lemma done_step {e : Tick} (h : (s.world.loc k).pc = .done)
    (hs : Timed.step opts k s e = some s') : (s'.world.loc k).pc = .done := by
  rcases step_cases hs with ⟨a, -, -, hw, -, -⟩ | ⟨d, -, -, rfl⟩
  · rcases loc_of_step hw k with ⟨i, r, -, hr, -⟩ | ⟨-, hpc, -⟩
    · simp [Relay.step, h] at hr
    · rw [hpc, h]
  · exact h

/-- A run during which the client is silent. -/
lemma WaitsOuter.run {backend : Option Conn} {t : ℤ} (h : WaitsOuter k backend t s)
    (hs' : ((machine opts mode params k).startingAt s).Reach (Silent k) s') :
    WaitsOuter k backend t s' ∨ (s'.world.loc k).pc = .done := by
  induction hs' with
  | init h0 =>
    obtain rfl : _ = s := h0
    exact .inl h
  | step _ he hs ih =>
    rcases ih with hwait | hdone
    · exact hwait.step he hs
    · exact .inr (done_step hdone hs)

/-- A session that is over holds no connection. -/
lemma over_of_done (hs : (machine opts mode params k).Reachable s)
    (h : (s.world.loc k).pc = .done) : Over k s := by
  refine ⟨h, fun c hc => ?_⟩
  have hhand := ((World.steady_of_reach (reach_world hs)).exclusive k c).mp hc
  simp [Local.hand, Local.grip, h, PC.grip, Grip.conn] at hhand

/-! ## The main result -/

/-- **Exactly the outer loop's reads are bounded.**  Wherever a session waits for its client's
next message outside of COPY, the client's silence is bounded by the larger of the two timeouts if
and only if the session is not in the middle of a batch. -/
theorem silent_client_bounded_iff (hidle : 0 < opts.clientIdleTimeout)
    (htx : 0 < opts.idleTransactionTimeout) (hs : (machine opts mode params k).Reachable s)
    (hread : (s.world.loc k).pc.readsCommand = true) :
    Bounded opts mode params k s ↔ ∃ backend, (s.world.loc k).pc = .outer backend := by
  have harmed := armed_of_reach hs
  obtain ⟨t₀, ht₀, hdl⟩ := harmed.since
  constructor
  · rintro ⟨t, ht, -⟩
    rw [hdl] at ht
    unfold Relay.clientDeadline at ht
    split at ht
    · rename_i backend hpc
      exact ⟨backend, hpc⟩
    · rename_i hpc
      simp [hpc, PC.readsCommand] at hread
    · cases ht
  · rintro ⟨backend, hpc⟩
    obtain ⟨d, hd, -, hmax⟩ := Relay.idleLimit_of_pos hidle htx (s.world.loc k) backend
    have hsome : s.deadline = some (t₀ + d) := by
      rw [hdl]
      simp [Relay.clientDeadline, hpc, hd]
    refine ⟨t₀ + d, hsome, by omega, fun s' hs' => ?_⟩
    have hwait : WaitsOuter k backend (t₀ + d) s :=
      ⟨hpc, hsome, harmed.pending backend hpc _ hsome⟩
    rcases hwait.run hs' with h | h
    · exact .inl ⟨h.pc.trans hpc.symm, h.now, timeout_enabled hidle htx h.pc h.deadline⟩
    · exact .inr (over_of_done (hs.trans hs' fun _ _ _ => trivial) h)

/-- Half an hour outside a transaction, five minutes inside, in nanoseconds. -/
def idleOpts : RuntimeOpts := ⟨"DISCARD ALL", true, 0, 1800000000000, 300000000000⟩

/-- A client in session mode that has run a query and then says nothing. -/
theorem silent_client_bounded_after_query :
    ∃ s, (machine idleOpts .session (fun _ => []) 0).Reachable s ∧
      (s.world.loc 0).pc = .outer (some 3) ∧
      Bounded idleOpts .session (fun _ => []) 0 s := by
  have hrun : ((machine idleOpts .session (fun _ => []) 0).run
      (start idleOpts 0 (World.start .session (fun _ => []) fun _ => 0))
      [.happens (.dial 3), .elapse 7, .happens (.relay 0 (.client (.query "SELECT 1"))),
        .happens (.relay 0 (.draining false)), .happens (.relay 0 (.acquired 3)),
        .happens (.relay 0 (.feFlush none)), .elapse 2,
        .happens (.relay 0 (.reply (.readyForQuery 'I'))),
        .happens (.relay 0 (.flushClient true)), .elapse 1000]).map
      (fun s => (s.world.loc 0).pc) = some (.outer (some 3)) := by decide
  obtain ⟨s, hs, hpc⟩ := Option.map_eq_some_iff.mp hrun
  have hreach : (machine idleOpts .session (fun _ => []) 0).Reachable s :=
    Machine.reach_of_run ⟨fun _ => 0, rfl⟩ hs
  exact ⟨s, hreach, hpc, (silent_client_bounded_iff (by decide) (by decide) hreach
    (by rw [hpc]; rfl)).mpr ⟨_, hpc⟩⟩

/-- A client that sends a `Parse` and then nothing: no deadline is armed, and its connection is
still held at any later time. -/
theorem silent_batch_holds_backend :
    ∃ s, (machine idleOpts .transaction (fun _ => []) 0).Reachable s ∧
      (s.world.loc 0).pc = .batch 3 ∧ s.deadline = none ∧
      ¬Bounded idleOpts .transaction (fun _ => []) 0 s ∧
      ∀ T : ℕ, ∃ s', ((machine idleOpts .transaction (fun _ => []) 0).startingAt s).Reach
        (Silent 0) s' ∧ s'.now = s.now + T ∧ s'.world.place 3 = .held 0 := by
  have hrun : ((machine idleOpts .transaction (fun _ => []) 0).run
      (start idleOpts 0 (World.start .transaction (fun _ => []) fun _ => 0))
      [.happens (.dial 3), .happens (.relay 0 (.client (.parse "s" "SELECT 1" []))),
        .happens (.relay 0 (.draining false)), .happens (.relay 0 (.acquired 3))]).map
      (fun s => ((s.world.loc 0).pc, s.deadline, s.world.place 3)) =
        some (.batch 3, none, .held 0) := by decide
  obtain ⟨s, hs, hview⟩ := Option.map_eq_some_iff.mp hrun
  simp only [Prod.mk.injEq] at hview
  obtain ⟨hpc, hdl, hplace⟩ := hview
  refine ⟨s, Machine.reach_of_run ⟨fun _ => 0, rfl⟩ hs, hpc, hdl, ?_, fun T => ?_⟩
  · rintro ⟨t, ht, -⟩
    rw [hdl] at ht
    cases ht
  · have hquiet : s.Quiet 0 T := fun _ t ht => by
      rw [hdl] at ht
      cases ht
    have hstep : step idleOpts 0 s (.elapse T) = some { s with now := s.now + T } := if_pos hquiet
    exact ⟨_, (Machine.Reach.init rfl).step (i := .elapse T) trivial hstep, rfl, hplace⟩

end Pgman.Timed
