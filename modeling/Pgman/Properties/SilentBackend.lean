import Pgman.Construction.Relay.Deadlines
import Pgman.Construction.Relay.Timed

/-!
# How long a silent backend is waited for

A session blocks on its backend in a health check, in the scrub, in the replay of tracked
parameters, and in the reply loop.  `TimedConn` is the world with a clock and the read deadline of
one connection; what a deadline means is in `step`: time does not pass the deadline of a read that
is still waiting.

All of these reads are bounded but two kinds.  `applyTrackedParams` reads after the deadline of
`runResetQuery` has been cleared and before the reply loop arms its own; and the reply loop clears
its own when it hands over to COPY and does not arm it again when the exchange is over, so the
rest of that batch is read without one.  A backend that falls silent there keeps its slot for
good.
-/

namespace Pgman

/-- Blocked in a read from the backend: which one, and what for. -/
def PC.readsBackend : PC → Option (Conn × Site)
  | .checkRecv c _ => some (c, .health)
  | .resetRecv c _ => some (c, .reset)
  | .paramsRecv c _ => some (c, .params)
  | .replies c => some (c, .reply)
  | .copyBoth c st => if st.backendPump = .reading then some (c, .copyBoth) else none
  | _ => none

/-- A reply to the batch in flight on `c` has entered COPY IN or COPY BOTH. -/
def handedOver (c : Conn) (log : List (Caller × Act)) : Bool :=
  log.foldl (fun s e =>
    if e.2.on = some c then
      match e.2 with
      | .flush _ .reply _ => false
      | .recv _ .reply r _ => r.startsCopy || s
      | _ => s
    else s) false

/-- The read belongs to a COPY exchange.  `relayCopyIn` and `relayCopyBoth` last from the response
that enters COPY until they return; the reply loop reads what the backend says after them. -/
def Site.InCopy : Site → Prop
  | .copyIn | .copyBoth => True
  | _ => False

/-- The read is not one of the replay, nor one of the reply loop after a COPY of the same batch. -/
def World.Covered (w : World) (c : Conn) : Site → Prop
  | .params => False
  | .reply => handedOver c w.log = false
  | _ => True

namespace Relay

/-- The time from now of a read deadline set at a program point, in nanoseconds. -/
def readLimit (opts : RuntimeOpts) (healthCheckTimeout : ℤ) : PC → ℤ
  | .checkArm _ _ => healthCheckTimeout
  | .resetArm _ _ => if healthCheckTimeout ≤ 0 then 500000000 else healthCheckTimeout
  | .copyBoth _ _ => -1000000000
  | _ => opts.queryTimeout

/-- The read deadline of a connection after an act on it. -/
def deadlineAfter (time : ℤ) (d : Option ℤ) : Act → Option ℤ
  | .setDeadline _ on | .setReadDeadline _ on => if on then some time else none
  | _ => d

end Relay

/-- A world, a clock, and the read deadline of one connection. -/
structure TimedConn where
  world : World
  now : ℤ
  deadline : Option ℤ

namespace TimedConn

/-- A read of `c` that times out is past its deadline. -/
def Due (c : Conn) (s : TimedConn) : Happening → Prop
  | .relay k .replyTimeout => (s.world.loc k).hand = some c → ∃ t ∈ s.deadline, t ≤ s.now
  | _ => True

instance (c : Conn) (s : TimedConn) (a : Happening) : Decidable (s.Due c a) := by
  unfold Due
  split <;> infer_instance

/-- The deadline of `c` does not lie within the next `d`, if its holder waits in a read. -/
def Quiet (c : Conn) (s : TimedConn) (d : ℕ) : Prop :=
  match s.world.place c with
  | .held k => (s.world.loc k).pc.readsBackend ≠ none → ∀ t ∈ s.deadline, s.now + d ≤ t
  | _ => True

instance (c : Conn) (s : TimedConn) (d : ℕ) : Decidable (s.Quiet c d) := by
  unfold Quiet
  split <;> infer_instance

/-- The deadline of `c` after something has happened, from what it added to the log. -/
def rearm (opts : RuntimeOpts) (health : ℤ) (c : Conn) (s : TimedConn) (w : World) :
    Happening → Option ℤ
  | .relay k _ => (w.log.drop s.world.log.length).foldl (fun d e =>
      if e.2.on = some c then
        Relay.deadlineAfter (s.now + Relay.readLimit opts health (s.world.loc k).pc) d e.2
      else d) s.deadline
  | _ => s.deadline

def step (opts : RuntimeOpts) (health : ℤ) (c : Conn) (s : TimedConn) : Tick → Option TimedConn
  | .happens a =>
      if s.Due c a then
        (World.step opts s.world a).map fun w => ⟨w, s.now, s.rearm opts health c w a⟩
      else none
  | .elapse d => if s.Quiet c d then some { s with now := s.now + d } else none

def start (w : World) : TimedConn := ⟨w, 0, none⟩

def machine (opts : RuntimeOpts) (health : ℤ) (mode : PoolMode)
    (params : Caller → List TrackedParam) (c : Conn) : Machine TimedConn Tick where
  init s := ∃ psLimit, s = start (World.start mode params psLimit)
  step := step opts health c

/-- The backend that session `k` talks to says nothing. -/
def Silent (k : Caller) (_ : TimedConn) (e : Tick) : Prop :=
  ∀ r, e ≠ .happens (.relay k (.reply r))

/-- The wait of session `k` for connection `c` is bounded: a read deadline is armed, at most
`limit` from now, and while the backend stays silent that much time passes only once the
connection has been given up. -/
def Bounded (opts : RuntimeOpts) (health : ℤ) (mode : PoolMode)
    (params : Caller → List TrackedParam) (c : Conn) (k : Caller) (limit : ℤ) (s : TimedConn) :
    Prop :=
  (∃ t ∈ s.deadline, t ≤ s.now + limit) ∧
    ∀ s', ((machine opts health mode params c).startingAt s).Reach (Silent k) s' →
      s'.world.place c = .gone ∨
      s'.now ≤ s.now + limit ∧ ∃ s'' text, step opts health c s'
        (.happens (.relay k (.replyErr text))) = some s'' ∧ s''.world.place c = .gone

end TimedConn

/-! ## The reads of a session -/

namespace Relay

variable {opts : RuntimeOpts} {conns : Conn → BackendConn} {nextID : ℕ} {l : Local} {c : Conn}
  {k : Caller} {i : Input} {r : Local × List Act} {site : Site}

/-- Who reads from a backend has it in hand. -/
lemma hand_of_readsBackend (h : l.pc.readsBackend = some (c, site)) : l.hand = some c := by
  unfold Local.hand Local.grip
  cases hl : l.pc <;> simp only [hl, PC.readsBackend, Option.some.injEq, Prod.mk.injEq,
    reduceCtorEq] at h
  case copyBoth c' st =>
    split at h <;> cases h
    rfl
  all_goals
    obtain ⟨rfl, -⟩ := h
    rfl

lemma adoptFailed_gone (msg : FrontendMsg) (err : String) :
    relaySem.placeAfter k c (.held k) (adoptFailed l c msg err).2 = .gone := by
  have hrest : ∀ a ∈ (failQuery l msg "08006"
      ("backend could not be prepared for this session: " ++ err)).2, relaySem.on a ≠ some c := by
    unfold failQuery
    split
    · simp [reportFailure, relaySem, Act.on]
    · simp
  unfold adoptFailed
  rw [relaySem.placeAfter_append, relaySem.placeAfter_frame hrest]
  simp [LeaseSem.placeAfter, relaySem, Act.on, Act.lease, LeaseSem.moved]

lemma abandon_gone : relaySem.placeAfter k c (.held k) (abandon l c).2 = .gone := by
  simp [abandon, release, LeaseSem.placeAfter, relaySem, Act.on, Act.lease, LeaseSem.moved]

/-- A read of a session's own that does not bring a reply gives the connection up. -/
lemma gone_of_silent (hread : l.pc.readsBackend = some (c, site)) (hsite : site ≠ .copyBoth)
    (hi : ∀ m, i ≠ .reply m) (h : step opts conns nextID l i = some r) :
    relaySem.placeAfter k c (.held k) r.2 = .gone := by
  -- an act that leaves the lease alone, in front
  have hfront : ∀ {a : Act} {acts : List Act}, a.lease = none →
      relaySem.placeAfter k c (.held k) acts = .gone →
      relaySem.placeAfter k c (.held k) (a :: acts) = .gone := by
    intro a acts ha hacts
    rw [relaySem.placeAfter_cons, show relaySem.lease a = none from ha]
    split <;> exact hacts
  unfold step at h
  cases hl : l.pc <;> simp only [hl, PC.readsBackend, Option.some.injEq, Prod.mk.injEq,
    reduceCtorEq] at h hread
  case checkRecv c' msg =>
    obtain ⟨rfl, -⟩ := hread
    cases i with
    | replyErr err =>
      cases h
      simp [LeaseSem.placeAfter, relaySem, Act.on, Act.lease, LeaseSem.moved]
    | reply m => exact absurd rfl (hi m)
    | _ => simp [checkStep] at h
  case resetRecv c' msg =>
    obtain ⟨rfl, -⟩ := hread
    cases i with
    | replyErr err =>
      cases h
      exact hfront rfl (hfront rfl (adoptFailed_gone msg _))
    | reply m => exact absurd rfl (hi m)
    | _ => simp [resetStep] at h
  case paramsRecv c' msg =>
    obtain ⟨rfl, -⟩ := hread
    cases i with
    | replyErr err =>
      cases h
      exact hfront rfl (adoptFailed_gone msg _)
    | reply m => exact absurd rfl (hi m)
    | _ => simp [paramsStep] at h
  case replies c' =>
    obtain ⟨rfl, -⟩ := hread
    cases i with
    | replyErr err =>
      cases h
      exact hfront rfl abandon_gone
    | replyTimeout =>
      simp only [replyStep] at h
      split at h <;> cases h
      rw [relaySem.placeAfter_append]
      have habandon : relaySem.placeAfter k c' (.held k)
          (.recvErr c' .reply :: (abandon l c').2) = .gone := hfront rfl abandon_gone
      rw [habandon]
      rfl
    | reply m => exact absurd rfl (hi m)
    | _ => simp [replyStep] at h
  case copyBoth c' st =>
    split at hread <;> cases hread
    exact absurd rfl hsite

/-- A read of a session's own can fail at any time. -/
lemma replyErr_enabled (opts : RuntimeOpts) (conns : Conn → BackendConn) (nextID : ℕ)
    (hread : l.pc.readsBackend = some (c, site)) (hsite : site ≠ .copyBoth) (text : String) :
    ∃ r, step opts conns nextID l (.replyErr text) = some r := by
  unfold step
  cases hl : l.pc <;> simp only [hl, PC.readsBackend, Option.some.injEq, Prod.mk.injEq,
    reduceCtorEq] at hread ⊢
  case checkRecv | resetRecv | paramsRecv | replies => exact ⟨_, rfl⟩
  case copyBoth c' st =>
    split at hread <;> cases hread
    exact absurd rfl hsite

/-- With both timeouts set, no deadline lies further ahead than the larger one. -/
lemma readLimit_le {health : ℤ} (hq : 0 < opts.queryTimeout) (hh : 0 < health) (pc : PC) :
    readLimit opts health pc ≤ max opts.queryTimeout health := by
  unfold readLimit
  split
  · exact Int.le_max_right _ _
  · rw [if_neg (by omega)]
    exact Int.le_max_right _ _
  · have := Int.le_max_left opts.queryTimeout health
    omega
  · exact Int.le_max_left _ _

end Relay

/-! ## Who replays parameters -/

/-- Inside `applyTrackedParams`. -/
def PC.replaying : PC → Bool
  | .paramsFlush _ _ | .paramsRecv _ _ => true
  | _ => false

namespace Relay

variable {opts : RuntimeOpts} {conns : Conn → BackendConn} {nextID : ℕ} {l : Local} {c : Conn}
  {i : Input} {r : Local × List Act} {msg : FrontendMsg} {stmts : BackendPSCache}

lemma forward_replaying (h : forward l c stmts msg = .ok r) : r.1.pc.replaying = false := by
  unfold forward at h
  split at h <;> cases h
  simp only
  split <;> rfl

lemma beginBatch_replaying : (beginBatch l c stmts msg).1.pc.replaying = false := by
  unfold beginBatch
  split
  · rename_i h
    exact forward_replaying h
  · rfl

/-- The replay is entered with something to replay. -/
lemma replayParams_replaying (h : (replayParams l c msg).1.pc.replaying = true) :
    l.sess.trackedParams ≠ [] := by
  unfold replayParams at h
  split at h
  · rw [show (adopted l c msg).1.pc.replaying = false from beginBatch_replaying] at h
    cases h
  · rename_i hne
    simpa using hne

lemma adopt_replaying (h : (adopt opts (conns c) nextID l c msg).1.pc.replaying = true) :
    l.sess.trackedParams ≠ [] := by
  have has : ∀ l' : Local, (adoptAs opts (conns c) l' c msg).1.pc.replaying = true →
      l'.sess.trackedParams ≠ [] := by
    intro l' h
    unfold adoptAs at h
    split at h
    · rw [beginBatch_replaying] at h
      cases h
    · split at h
      · cases h
      · exact replayParams_replaying h
  unfold adopt ensureID at h
  split at h
  · exact has { l with sess := { l.sess with id := nextID + 1 } } h
  · exact has l h

lemma failQuery_replaying (code message : String) :
    (failQuery l msg code message).1.pc.replaying = false := by
  unfold failQuery
  split <;> rfl

lemma replaying_of_grip {pc : PC} (h : pc.grip = .loose ∨ ∃ c, pc.grip = .checking c) :
    pc.replaying = false := by
  cases pc with
  | paramsFlush c msg | paramsRecv c msg => rcases h with h | ⟨c, h⟩ <;> cases h
  | _ => rfl

lemma resetStep_replaying {pc : PC} (h : resetStep opts conns l c msg pc i = some r)
    (hr : r.1.pc.replaying = true) : l.sess.trackedParams ≠ [] := by
  have hfail : ∀ err, (adoptFailed l c msg err).1.pc.replaying = true →
      l.sess.trackedParams ≠ [] := by
    intro err h
    rw [show (adoptFailed l c msg err).1.pc.replaying = false from failQuery_replaying _ _] at h
    cases h
  unfold resetStep at h
  split at h
  · cases h; cases hr
  · cases h; exact hfail _ hr
  · cases h; cases hr
  · cases h; exact hfail _ hr
  · cases h; exact hfail _ hr
  · split at h <;> cases h
    · exact hfail _ hr
    · exact replayParams_replaying hr
    · cases hr
  · cases h

/-- Only a session with tracked parameters comes to replay them. -/
theorem step_replaying (h : step opts conns nextID l i = some r) (hr : r.1.pc.replaying = true) :
    l.pc.replaying = true ∨ l.sess.trackedParams ≠ [] := by
  by_cases hg : ∃ c, l.grip = .holding c
  · obtain ⟨c, hg⟩ := hg
    cases working_step hg h with
    | outer hpc h =>
      exfalso
      have hfalse : r.1.pc.replaying = false := by
        unfold outerStep at h
        split at h
        · obtain ⟨t, -, rfl⟩ := Option.map_eq_some_iff.mp h
          rfl
        · cases h; rfl
        · cases h; rfl
        · cases h; exact beginBatch_replaying
        · cases h
      rw [hfalse] at hr
      cases hr
    | reset msg _ h => exact .inr (resetStep_replaying h hr)
    | params msg hpc _ =>
      refine .inl ?_
      rcases hpc with hpc | hpc <;> rw [hpc] <;> rfl
    | batch hpc h =>
      exfalso
      have hfalse : r.1.pc.replaying = false := by
        unfold batchStep at h
        split at h
        · cases h; rfl
        · split at h
          · cases h; rfl
          · split at h <;> cases h
            · rename_i hf
              exact forward_replaying hf
            · rfl
        · cases h; rfl
        · cases h; rfl
        · cases h
      rw [hfalse] at hr
      cases hr
    | service _ h =>
      exfalso
      cases hpc : r.1.pc with
      | paramsFlush c' msg | paramsRecv c' msg =>
        cases h with
        | stay _ _ hend => simp [hpc, PC.service] at hend
        | back _ _ _ _ hend => simp [hpc] at hend
        | drop _ _ _ _ _ _ hend => simp [hpc] at hend
      | _ => simp [hpc, PC.replaying] at hr
  · refine .inr ?_
    have hout : r.1.pc.grip = .loose ∨ (∃ c, r.1.pc.grip = .checking c) →
        l.sess.trackedParams ≠ [] := by
      intro hend
      rw [replaying_of_grip hend] at hr
      cases hr
    cases approach_step (fun c hc => hg ⟨c, hc⟩) h with
    | idle _ _ _ hend => exact hout (.inl hend)
    | pop c msg _ _ heq => exact hout (.inr ⟨c, by rw [heq]; rfl⟩)
    | acquire c msg _ _ heq => rw [heq] at hr; exact adopt_replaying hr
    | probe c _ _ _ hend => exact hout (.inr ⟨c, hend⟩)
    | reject c acts _ _ _ _ hend => exact hout (.inl hend)
    | passed c msg acts _ _ heq => rw [heq] at hr; exact adopt_replaying hr

end Relay

/-- A session that replays parameters has some. -/
theorem World.tracked_of_replaying {opts : RuntimeOpts} {mode : PoolMode}
    {params : Caller → List TrackedParam} {w : World}
    (hw : (World.machine opts mode params).Reachable w) (k : Caller)
    (hk : (w.loc k).pc.replaying = true) : params k ≠ [] := by
  induction hw with
  | init h0 =>
    obtain ⟨psLimit, rfl⟩ := h0
    cases hk
  | step hreach _ hs ih =>
    rcases Timed.loc_of_step hs k with ⟨i, r, rfl, hr, hloc⟩ | ⟨-, hpc, -⟩
    · rw [hloc] at hk
      rcases Relay.step_replaying hr hk with h | h
      · exact ih h
      · rwa [(steady_of_reach hreach).tracked k] at h
    · rw [hpc] at hk
      exact ih hk

/-! ## The clock along a run -/

namespace TimedConn

variable {opts : RuntimeOpts} {health : ℤ} {mode : PoolMode} {params : Caller → List TrackedParam}
  {c : Conn} {k : Caller} {s s' : TimedConn} {site : Site}

/-- What a tick can do. -/
lemma step_cases {e : Tick} (h : step opts health c s e = some s') :
    (∃ a, e = .happens a ∧ World.step opts s.world a = some s'.world ∧ s'.now = s.now ∧
      s'.deadline = s.rearm opts health c s'.world a) ∨
    ∃ d, e = .elapse d ∧ s.Quiet c d ∧ s' = { s with now := s.now + d } := by
  cases e with
  | happens a =>
    simp only [step] at h
    split at h
    · obtain ⟨w, hw, rfl⟩ := Option.map_eq_some_iff.mp h
      exact .inl ⟨a, rfl, hw, rfl, rfl⟩
    · cases h
  | elapse d =>
    simp only [step] at h
    split at h
    · rename_i hquiet
      cases h
      exact .inr ⟨d, rfl, hquiet, rfl⟩
    · cases h

/-- Forgetting the clock. -/
theorem reach_world {C : TimedConn → Tick → Prop}
    (h : (machine opts health mode params c).Reach C s) :
    (World.machine opts mode params).Reachable s.world := by
  induction h with
  | init h0 =>
    obtain ⟨psLimit, rfl⟩ := h0
    exact .init ⟨psLimit, rfl⟩
  | step _ _ hs ih =>
    rcases step_cases hs with ⟨a, -, hw, -, -⟩ | ⟨d, -, -, rfl⟩
    · exact .step ih trivial hw
    · exact ih

/-- The deadline after the acts of a session's step. -/
lemma rearm_relay {w : World} {i : Input} {r : Local × List Act}
    (hlog : w.log = s.world.log ++ r.2.map fun a => (k, a)) :
    s.rearm opts health c w (.relay k i) = r.2.foldl (fun d a =>
      if a.on = some c then
        Relay.deadlineAfter (s.now + Relay.readLimit opts health (s.world.loc k).pc) d a
      else d) s.deadline := by
  simp only [rearm, hlog, List.drop_left, List.foldl_map]

/-- Acts about other connections leave the deadline alone. -/
lemma deadline_frame {acts : List Act} {d : Option ℤ} {time : ℤ}
    (h : ∀ a ∈ acts, a.on ≠ some c) :
    acts.foldl (fun d a => if a.on = some c then Relay.deadlineAfter time d a else d) d = d := by
  induction acts with
  | nil => rfl
  | cons a acts ih =>
    rw [List.foldl_cons, if_neg (h a (by simp))]
    exact ih (fun a' ha' => h a' (by simp [ha']))

/-- The flag of the model is the deadline of the clock. -/
lemma deadline_acts (acts : List Act) (time : ℤ) {d : Option ℤ} {b : BackendConn} {bound : ℤ}
    (hd : d.isSome = b.readDeadline) (hbound : ∀ t ∈ d, t ≤ bound) (htime : time ≤ bound) :
    (acts.foldl (fun d a => if a.on = some c then Relay.deadlineAfter time d a else d) d).isSome =
        (relaySem.resAfter c b acts).readDeadline ∧
      ∀ t ∈ acts.foldl (fun d a => if a.on = some c then Relay.deadlineAfter time d a else d) d,
        t ≤ bound := by
  induction acts generalizing d b with
  | nil => exact ⟨hd, hbound⟩
  | cons a acts ih =>
    rw [List.foldl_cons, relaySem.resAfter_cons]
    by_cases hon : a.on = some c
    · rw [if_pos hon, if_pos (show relaySem.on a = some c from hon)]
      have hset : ∀ on : Bool, (if on then some time else none).isSome = on ∧
          ∀ t ∈ (if on then some time else none), t ≤ bound := by
        intro on
        cases on with
        | true => exact ⟨rfl, fun t ht => Option.some.inj ht ▸ htime⟩
        | false => exact ⟨rfl, fun t ht => by cases ht⟩
      have hact : (Relay.deadlineAfter time d a).isSome = (b.after a).readDeadline ∧
          ∀ t ∈ Relay.deadlineAfter time d a, t ≤ bound := by
        cases a with
        | setDeadline c' on => exact hset on
        | setReadDeadline c' on => exact hset on
        | _ => exact ⟨hd, hbound⟩
      exact ih hact.1 hact.2
    · rw [if_neg hon, if_neg (show ¬relaySem.on a = some c from hon)]
      exact ih hd hbound

/-- The clock's deadline is the connection's, and not too far ahead. -/
structure Tuned (opts : RuntimeOpts) (health : ℤ) (c : Conn) (s : TimedConn) : Prop where
  armed : s.deadline.isSome = (s.world.res c).readDeadline
  ahead : ∀ t ∈ s.deadline, t ≤ s.now + max opts.queryTimeout health

theorem Tuned.step {e : Tick} (hq : 0 < opts.queryTimeout) (hh : 0 < health)
    (h : s.Tuned opts health c) (hs : TimedConn.step opts health c s e = some s') :
    s'.Tuned opts health c := by
  rcases step_cases hs with ⟨a, rfl, hw, hnow, hdl⟩ | ⟨d, rfl, -, rfl⟩
  · cases a with
    | relay k i =>
      simp only [World.step] at hw
      split at hw
      · obtain ⟨r, -, hperform⟩ := Option.map_eq_some_iff.mp hw
        have hlog : s'.world.log = s.world.log ++ r.2.map fun a => (k, a) := by
          rw [← hperform]
          rfl
        have hlimit := Relay.readLimit_le hq hh (s.world.loc k).pc
        obtain ⟨h1, h2⟩ := deadline_acts (c := c) r.2
          (s.now + Relay.readLimit opts health (s.world.loc k).pc) h.armed h.ahead
          (by omega)
        rw [rearm_relay hlog] at hdl
        refine ⟨?_, ?_⟩
        · rw [hdl, ← hperform]
          exact h1
        · rw [hdl, hnow]
          exact h2
      · cases hw
    | register k | dial k | retire k =>
      simp only [World.step] at hw
      split at hw
      · have hres : s'.world.res c = s.world.res c :=
          (congrArg (fun w : World => w.res c) (Option.some.inj hw)).symm
        have hsame : s'.deadline = s.deadline := hdl
        exact ⟨by rw [hsame, hres]; exact h.armed, by rw [hsame, hnow]; exact h.ahead⟩
      · cases hw
  · refine ⟨h.armed, fun t ht => ?_⟩
    have := h.ahead t ht
    simp only
    omega

theorem tuned_of_reach (hq : 0 < opts.queryTimeout) (hh : 0 < health)
    {C : TimedConn → Tick → Prop} (h : (machine opts health mode params c).Reach C s) :
    s.Tuned opts health c := by
  refine h.invariant (fun s h0 => ?_) (fun _ _ _ hI _ hs => hI.step hq hh hs)
  obtain ⟨psLimit, rfl⟩ := h0
  exact ⟨rfl, fun t ht => by cases ht⟩

/-! ## While the backend is silent -/

/-- A step leaves a connection alone that is neither its session's nor the pool's. -/
lemma frame_of_relay {w : World} {k : Caller} {i : Input} {r : Local × List Act}
    (hex : w.Exclusive Local.hand) (ha : w.Admits i)
    (hr : Relay.step opts w.res w.shared (w.loc k) i = some r)
    (hc : w.place c ≠ .held k) (hp : w.place c ≠ .pooled) : ∀ a ∈ r.2, a.on ≠ some c := by
  have hd := World.relay_disciplined ha hr
  refine hd.frame (fun htouch => ?_)
  rcases hd.pooled c htouch with hhand | hpooled
  · exact hc ((hex k c).mpr hhand)
  · exact hp hpooled

/-- A connection given up stays so. -/
lemma gone_of_step {w w' : World} {a : Happening} (hex : w.Exclusive Local.hand)
    (hc : w.place c = .gone) (h : World.step opts w a = some w') : w'.place c = .gone := by
  cases a with
  | relay k i =>
    simp only [World.step] at h
    split at h
    · rename_i ha
      obtain ⟨r, hr, rfl⟩ := Option.map_eq_some_iff.mp h
      have hframe := frame_of_relay hex ha hr (c := c) (by simp [hc]) (by simp [hc])
      exact (relaySem.placeAfter_frame hframe k _).trans hc
    · cases h
  | register k =>
    simp only [World.step] at h
    split at h <;> cases h
    exact hc
  | dial c' =>
    simp only [World.step] at h
    split at h <;> cases h
    rename_i hfresh
    have hne : c ≠ c' := by
      rintro rfl
      rw [hc] at hfresh
      cases hfresh
    simpa [Function.update_of_ne hne] using hc
  | retire c' =>
    simp only [World.step] at h
    split at h <;> cases h
    rename_i hpooled
    have hne : c ≠ c' := by
      rintro rfl
      rw [hc] at hpooled
      cases hpooled
    simpa [Function.update_of_ne hne] using hc

/-- The session still waits, and its deadline has not passed by more than it had. -/
structure Waits (c : Conn) (k : Caller) (site : Site) (t bound : ℤ) (s : TimedConn) : Prop where
  reads : (s.world.loc k).pc.readsBackend = some (c, site)
  deadline : s.deadline = some t
  now : s.now ≤ bound

lemma Waits.step {t bound : ℤ} {e : Tick} (h : Waits c k site t bound s) (ht : t ≤ bound)
    (hsite : site ≠ .copyBoth) (hex : s.world.Exclusive Local.hand) (he : Silent k s e)
    (hs : TimedConn.step opts health c s e = some s') :
    Waits c k site t bound s' ∨ s'.world.place c = .gone := by
  have hplace : s.world.place c = .held k :=
    (hex k c).mpr (Relay.hand_of_readsBackend h.reads)
  rcases step_cases hs with ⟨a, rfl, hw, hnow, hdl⟩ | ⟨d, rfl, hquiet, rfl⟩
  · cases a with
    | relay k' i =>
      simp only [World.step] at hw
      split at hw
      · rename_i ha
        obtain ⟨r, hr, hperform⟩ := Option.map_eq_some_iff.mp hw
        by_cases hk : k' = k
        · -- the read ends without a reply
          subst hk
          refine .inr ?_
          rw [← hperform]
          simp only [Leased.perform, hplace]
          exact Relay.gone_of_silent h.reads hsite (fun m hm => he m (by rw [hm])) hr
        · have hframe := frame_of_relay hex ha hr (c := c)
            (by rw [hplace]; simpa using Ne.symm hk) (by simp [hplace])
          have hlog : s'.world.log = s.world.log ++ r.2.map fun a => (k', a) := by
            rw [← hperform]
            rfl
          have hloc : s'.world.loc k = s.world.loc k := by
            rw [← hperform]
            exact Function.update_of_ne (Ne.symm hk) _ _
          refine .inl ⟨by rw [hloc]; exact h.reads, ?_, hnow ▸ h.now⟩
          rw [hdl, rearm_relay hlog, deadline_frame hframe, h.deadline]
      · cases hw
    | register k' | dial c' | retire c' =>
      refine .inl ⟨?_, hdl.trans h.deadline, hnow ▸ h.now⟩
      rcases Timed.loc_of_step hw k with ⟨i, r, hi, -, -⟩ | ⟨-, hpc, -⟩
      · cases hi
      · rw [hpc]
        exact h.reads
  · refine .inl ⟨h.reads, h.deadline, ?_⟩
    simp only [Quiet, hplace, h.reads] at hquiet
    have hle := hquiet (by simp) t h.deadline
    simp only
    omega

/-- A run during which the backend is silent. -/
lemma Waits.run {t bound : ℤ} (h : Waits c k site t bound s) (ht : t ≤ bound)
    (hsite : site ≠ .copyBoth) (hreach : (machine opts health mode params c).Reachable s)
    (hs' : ((machine opts health mode params c).startingAt s).Reach (Silent k) s') :
    Waits c k site t bound s' ∨ s'.world.place c = .gone := by
  induction hs' with
  | init h0 =>
    obtain rfl : _ = s := h0
    exact .inl h
  | step hr he hs ih =>
    have hex := (World.steady_of_reach (reach_world
      (hreach.trans hr fun _ _ _ => trivial))).exclusive
    rcases ih with hwait | hgone
    · exact hwait.step ht hsite hex he hs
    · refine .inr ?_
      rcases step_cases hs with ⟨a, -, hw, -, -⟩ | ⟨d, -, -, rfl⟩
      · exact gone_of_step hex hgone hw
      · exact hgone

/-- A session that waits can fail at any time, and then the connection is given up. -/
lemma Waits.fails {t bound : ℤ} (h : Waits c k site t bound s) (hsite : site ≠ .copyBoth)
    (hex : s.world.Exclusive Local.hand) :
    ∃ s' text, TimedConn.step opts health c s (.happens (.relay k (.replyErr text))) = some s' ∧
      s'.world.place c = .gone := by
  obtain ⟨r, hr⟩ := Relay.replyErr_enabled opts s.world.res s.world.shared h.reads hsite ""
  have hadmits : s.world.Admits (.replyErr "") := fun c hc => by cases hc
  have hplace : s.world.place c = .held k :=
    (hex k c).mpr (Relay.hand_of_readsBackend h.reads)
  have hgone : (s.world.perform relaySem k r.1 r.2).place c = .gone := by
    simp only [Leased.perform, hplace]
    exact Relay.gone_of_silent h.reads hsite (by simp) hr
  have hdue : s.Due c (.relay k (.replyErr "")) := trivial
  refine ⟨⟨s.world.perform relaySem k r.1 r.2, s.now, s.rearm opts health c
    (s.world.perform relaySem k r.1 r.2) (.relay k (.replyErr ""))⟩, "", ?_, hgone⟩
  simp only [TimedConn.step, if_pos hdue, World.step, if_pos hadmits, hr, Option.map_some]

/-! ## The main result -/

/-- The ghost of the outline knows whether a batch has been handed over. -/
lemma ghost_copying (opts : RuntimeOpts) (c : Conn) (log : List (Caller × Act)) :
    ((timing opts).ghost relaySem c log).copying = handedOver c log := by
  suffices h : ∀ s : DeadlineTrail, (log.foldl (fun s e => if relaySem.on e.2 = some c
      then (timing opts).next s e else s) s).copying = log.foldl (fun s e =>
        if e.2.on = some c then
          match e.2 with
          | .flush _ .reply _ => false
          | .recv _ .reply r _ => r.startsCopy || s
          | _ => s
        else s) s.copying from h ⟨.blank, false, false⟩
  induction log with
  | nil => exact fun _ => rfl
  | cons e log ih =>
    intro s
    rw [List.foldl_cons, List.foldl_cons, ih]
    congr 1
    by_cases hon : e.2.on = some c
    · rw [if_pos hon, if_pos (show relaySem.on e.2 = some c from hon)]
      rfl
    · rw [if_neg hon, if_neg (show ¬relaySem.on e.2 = some c from hon)]

/-- Outside of COPY, a read deadline is armed in the reads that are covered and in no others. -/
lemma armed_iff_covered {w : World} (hq : 0 < opts.queryTimeout)
    (hw : (World.machine opts mode params).Reachable w)
    (hread : (w.loc k).pc.readsBackend = some (c, site)) (hcopy : ¬site.InCopy) :
    (w.res c).readDeadline = true ↔ w.Covered c site := by
  have hplace : w.place c = .held k :=
    ((World.steady_of_reach hw).exclusive k c).mpr (Relay.hand_of_readsBackend hread)
  have hfits := (World.timing_of_reach hw).asserts c
  simp only [Outline.Asserts, hplace] at hfits
  have hconn := World.ghost_conn opts c w.log
  rw [← World.res_of_reach hw] at hconn
  have hcopying := ghost_copying opts c w.log
  rw [← hconn]
  simp only [timing] at hfits hconn hcopying
  cases hl : (w.loc k).pc <;> simp only [hl, PC.readsBackend, Option.some.injEq, Prod.mk.injEq,
    reduceCtorEq] at hread hfits
  case checkRecv | resetRecv =>
    obtain ⟨-, rfl⟩ := hread
    exact iff_of_true hfits trivial
  case paramsRecv =>
    obtain ⟨-, rfl⟩ := hread
    exact iff_of_false (by simp [timing, hfits.1]) id
  case replies =>
    obtain ⟨-, rfl⟩ := hread
    rw [World.Covered, ← hcopying]
    exact hfits.2.2.trans (and_iff_left hq)
  case copyBoth =>
    split at hread <;> cases hread
    exact absurd trivial hcopy

/-- Without a deadline the clock may go on for as long as the backend is silent. -/
lemma held_while_silent (hdl : s.deadline = none) (hplace : s.world.place c = .held k) (T : ℕ) :
    ∃ s', ((machine opts health mode params c).startingAt s).Reach (Silent k) s' ∧
      s'.now = s.now + T ∧ s'.world.place c = .held k := by
  have hquiet : s.Quiet c T := by
    simp only [Quiet, hplace]
    intro _ t ht
    rw [hdl] at ht
    cases ht
  refine ⟨{ s with now := s.now + T }, ?_, rfl, hplace⟩
  exact .step (i := .elapse T) (.init rfl) (fun r hr => by cases hr) (if_pos hquiet)

/-- **Which waits for a silent backend are bounded.**  Wherever a session waits for its backend
outside of COPY, the wait is bounded by the larger of `query_timeout` and `health_check_timeout`
if and only if the session is not replaying its tracked parameters and no COPY came earlier in
the batch; otherwise the slot is held for any length of time.  Only a session that has tracked
parameters replays them. -/
theorem silent_backend_bounded_iff (hq : 0 < opts.queryTimeout) (hh : 0 < health)
    (hs : (machine opts health mode params c).Reachable s)
    (hread : (s.world.loc k).pc.readsBackend = some (c, site)) (hcopy : ¬site.InCopy) :
    (Bounded opts health mode params c k (max opts.queryTimeout health) s ↔
      s.world.Covered c site) ∧
    (¬s.world.Covered c site →
      ∀ T : ℕ, ∃ s', ((machine opts health mode params c).startingAt s).Reach (Silent k) s' ∧
        s'.now = s.now + T ∧ s'.world.place c = .held k) ∧
    (params k = [] → site ≠ .params) := by
  have hw := reach_world hs
  have htuned := tuned_of_reach hq hh hs
  have harmed := armed_iff_covered hq hw hread hcopy
  have hsite : site ≠ .copyBoth := by
    rintro rfl
    exact hcopy trivial
  refine ⟨⟨?_, ?_⟩, ?_, ?_⟩
  · rintro ⟨⟨t, ht, -⟩, -⟩
    refine harmed.mp ?_
    rw [← htuned.armed, ht]
    rfl
  · intro hcovered
    obtain ⟨t, ht⟩ := Option.isSome_iff_exists.mp (htuned.armed.trans (harmed.mpr hcovered))
    have hle := htuned.ahead t ht
    refine ⟨⟨t, ht, hle⟩, fun s' hs' => ?_⟩
    have hpos := Int.le_max_left opts.queryTimeout health
    have hwait : Waits c k site t (s.now + max opts.queryTimeout health) s :=
      ⟨hread, ht, by omega⟩
    rcases hwait.run hle hsite hs hs' with hstill | hgone
    · have hex := (World.steady_of_reach (reach_world
        (hs.trans hs' fun _ _ _ => trivial))).exclusive
      exact .inr ⟨hstill.now, hstill.fails hsite hex⟩
    · exact .inl hgone
  · intro hbare
    have hoff : s.deadline.isSome = false := by
      rw [htuned.armed]
      exact Bool.eq_false_iff.mpr (mt harmed.mp hbare)
    exact held_while_silent (Option.isSome_eq_false_iff.mp hoff |> Option.isNone_iff_eq_none.mp)
      (((World.steady_of_reach hw).exclusive k c).mpr (Relay.hand_of_readsBackend hread))
  · rintro hnone rfl
    refine World.tracked_of_replaying hw k ?_ hnone
    cases hl : (s.world.loc k).pc <;> simp [hl, PC.readsBackend] at hread
    case paramsRecv => rfl

/-- A query timeout of thirty seconds, in nanoseconds. -/
def boundedOpts : RuntimeOpts := ⟨"DISCARD ALL", true, 30000000000, 0, 0⟩

/-- A session without tracked parameters waits for the reply to its query. -/
theorem silent_backend_bounded_query :
    ∃ s, (machine boundedOpts 500000000 .transaction (fun _ => []) 3).Reachable s ∧
      (s.world.loc 0).pc = .replies 3 ∧
      Bounded boundedOpts 500000000 .transaction (fun _ => []) 3 0 30000000000 s := by
  have hrun : ((machine boundedOpts 500000000 .transaction (fun _ => []) 3).run
      (start (World.start .transaction (fun _ => []) fun _ => 0))
      [.happens (.dial 3), .elapse 7, .happens (.relay 0 (.client (.query "SELECT 1"))),
        .happens (.relay 0 (.draining false)), .happens (.relay 0 (.popped 3)),
        .happens (.relay 0 (.armed none)), .happens (.relay 0 (.feFlush none)), .elapse 2,
        .happens (.relay 0 (.reply (.readyForQuery 'I'))), .happens (.relay 0 (.feFlush none)),
        .elapse 1000]).map
      (fun s => ((s.world.loc 0).pc, handedOver 3 s.world.log)) =
        some (.replies 3, false) := by decide
  obtain ⟨s, hs, hview⟩ := Option.map_eq_some_iff.mp hrun
  obtain ⟨hpc, hover⟩ := Prod.mk.inj hview
  have hreach : (machine boundedOpts 500000000 .transaction (fun _ => []) 3).Reachable s :=
    Machine.reach_of_run ⟨fun _ => 0, rfl⟩ hs
  have hread : (s.world.loc 0).pc.readsBackend = some (3, .reply) := by rw [hpc]; rfl
  have hboth := silent_backend_bounded_iff (k := 0) (by decide) (by decide) hreach hread id
  exact ⟨s, hreach, hpc, hboth.1.mpr hover⟩

/-- The parameters of the client in the next run. -/
def replayedParams : Caller → List TrackedParam := fun _ => [⟨"application_name", "app"⟩]

/-- **A backend that falls silent** during the replay, or after a COPY IN.  The scrub and the query
would both be bounded; these two reads have no deadline, and the slot is held at any later time. -/
theorem silent_backend_holds_slot :
    (∃ s, (machine boundedOpts 500000000 .transaction replayedParams 3).Reachable s ∧
      (s.world.loc 0).pc = .paramsRecv 3 (.query "SELECT 1") ∧ s.deadline = none ∧
      ¬Bounded boundedOpts 500000000 .transaction replayedParams 3 0 30000000000 s ∧
      ∀ T : ℕ, ∃ s', ((machine boundedOpts 500000000 .transaction replayedParams 3).startingAt
        s).Reach (Silent 0) s' ∧ s'.now = s.now + T ∧ s'.world.place 3 = .held 0) ∧
    ∃ s, (machine boundedOpts 500000000 .transaction (fun _ => []) 3).Reachable s ∧
      (s.world.loc 0).pc = .replies 3 ∧ s.deadline = none ∧
      ¬Bounded boundedOpts 500000000 .transaction (fun _ => []) 3 0 30000000000 s ∧
      ∀ T : ℕ, ∃ s', ((machine boundedOpts 500000000 .transaction (fun _ => []) 3).startingAt
        s).Reach (Silent 0) s' ∧ s'.now = s.now + T ∧ s'.world.place 3 = .held 0 := by
  have hreplay : ((machine boundedOpts 500000000 .transaction replayedParams 3).run
      (start (World.start .transaction replayedParams fun _ => 0))
      [Tick.happens (.dial 3), .happens (.relay 0 (.client (.query "SELECT 1"))),
        .happens (.relay 0 (.draining false)), .happens (.relay 0 (.acquired 3)),
        .happens (.relay 0 (.feFlush none))]).map
      (fun s => ((s.world.loc 0).pc, s.deadline, s.world.place 3)) =
        some (.paramsRecv 3 (.query "SELECT 1"), none, .held 0) := by decide
  have hcopied : ((machine boundedOpts 500000000 .transaction (fun _ => []) 3).run
      (start (World.start .transaction (fun _ => []) fun _ => 0))
      [Tick.happens (.dial 3), .happens (.relay 0 (.client (.query "COPY t FROM STDIN"))),
        .happens (.relay 0 (.draining false)), .happens (.relay 0 (.acquired 3)),
        .happens (.relay 0 (.feFlush none)), .happens (.relay 0 (.reply .copyInResponse)),
        .happens (.relay 0 (.flushClient true)), .happens (.relay 0 (.client .copyDone)),
        .happens (.relay 0 (.feFlush none))]).map
      (fun s => ((s.world.loc 0).pc, s.deadline, s.world.place 3)) =
        some (.replies 3, none, .held 0) := by decide
  have hunbounded : ∀ {params : Caller → List TrackedParam} {s : TimedConn}, s.deadline = none →
      ¬Bounded boundedOpts 500000000 .transaction params 3 0 30000000000 s := by
    rintro params s hdl ⟨⟨t, ht, -⟩, -⟩
    rw [hdl] at ht
    cases ht
  constructor
  · obtain ⟨s, hs, hview⟩ := Option.map_eq_some_iff.mp hreplay
    simp only [Prod.mk.injEq] at hview
    obtain ⟨hpc, hdl, hplace⟩ := hview
    exact ⟨s, Machine.reach_of_run ⟨fun _ => 0, rfl⟩ hs, hpc, hdl, hunbounded hdl,
      held_while_silent hdl hplace⟩
  · obtain ⟨s, hs, hview⟩ := Option.map_eq_some_iff.mp hcopied
    simp only [Prod.mk.injEq] at hview
    obtain ⟨hpc, hdl, hplace⟩ := hview
    exact ⟨s, Machine.reach_of_run ⟨fun _ => 0, rfl⟩ hs, hpc, hdl, hunbounded hdl,
      held_while_silent hdl hplace⟩

end TimedConn

end Pgman
