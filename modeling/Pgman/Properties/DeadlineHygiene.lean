import Pgman.Construction.Relay.Deadlines
import Pgman.Construction.Relay.Engagement
import Pgman.Construction.Relay.Timed

/-!
# No deadline outlives its purpose

A deadline left on a connection fails the next session's first read, and one left on a client's
socket the client's next message.  Neither is left.  For connections this is the outline of
`Construction/Relay/Deadlines.lean`.

For clients, `Sockets` adds to a world the calls every session makes on its client's socket, in
order: the outer loop arms or clears the read deadline before it reads and clears it after,
`relayCopyBoth` sets one in the past and clears it before it returns.  `Force` is the deadline in
force after some of these calls, and whether a read has used it.
-/

namespace Pgman

/-! ## The calls on a client's socket -/

inductive SocketCall
  /-- `SetReadDeadline` to the given time from now. -/
  | arm (limit : ℤ)
  /-- `SetReadDeadline` to a time in the past. -/
  | trip
  /-- `SetReadDeadline(time.Time{})`. -/
  | clear
  /-- A `Receive` has returned. -/
  | read
  deriving DecidableEq, Repr

/-- The input ends a read from the client. -/
def Input.endsRead : Input → Bool
  | .client _ | .clientErr | .clientTimeout => true
  | _ => false

/-- The read deadlines have been tripped. -/
def PC.forced : PC → Bool
  | .copyBoth _ st => st.forced
  | _ => false

namespace Relay

/-- `armClientIdleDeadline`. -/
def armClientIdleDeadline (opts : RuntimeOpts) (l : Local) (backend : Option Conn) : SocketCall :=
  match idleLimit opts l backend with
  | none => .clear
  | some d => .arm d

/-- The calls as the session comes to block at its program point. -/
def armCalls (opts : RuntimeOpts) (l : Local) : List SocketCall :=
  match l.pc with
  | .outer backend => [armClientIdleDeadline opts l backend]
  | _ => []

/-- The calls right after a session's blocking operation has ended: `disarmClientIdleDeadline` in
the outer loop, the two calls around the last wait of `relayCopyBoth`. -/
def disarmCalls (l : Local) (i : Input) (pc : PC) : List SocketCall :=
  match l.pc with
  | .outer _ => [.clear]
  | .copyBoth _ st =>
      match pc with
      | .copyBoth _ _ => if i = .grace then [.trip] else []
      | _ => if st.forced then [SocketCall.clear] else []
  | _ => []

/-- What a step from `l` to `l'` does to the client's socket. -/
def socketCalls (opts : RuntimeOpts) (l : Local) (i : Input) (l' : Local) : List SocketCall :=
  (if i.endsRead then [SocketCall.read] else []) ++ disarmCalls l i l'.pc ++ armCalls opts l'

end Relay

/-- A world, and the calls of each session on its client's socket. -/
structure Sockets where
  world : World
  calls : Caller → List SocketCall

namespace Sockets

def record (opts : RuntimeOpts) (s : Sockets) (w : World) : Happening → Caller → List SocketCall
  | .relay k i => Function.update s.calls k
      (s.calls k ++ Relay.socketCalls opts (s.world.loc k) i (w.loc k))
  | _ => s.calls

def step (opts : RuntimeOpts) (s : Sockets) (a : Happening) : Option Sockets :=
  (World.step opts s.world a).map fun w => ⟨w, s.record opts w a⟩

def start (opts : RuntimeOpts) (w : World) : Sockets := ⟨w, fun k => Relay.armCalls opts (w.loc k)⟩

def machine (opts : RuntimeOpts) (mode : PoolMode) (params : Caller → List TrackedParam) :
    Machine Sockets Happening where
  init s := ∃ psLimit, s = start opts (World.start mode params psLimit)
  step := step opts

end Sockets

/-! ## The deadline in force -/

inductive Force
  | off
  /-- Armed, and used by a read already or not. -/
  | idle (used : Bool)
  | past
  deriving DecidableEq, Repr

namespace Force

def next : Force → SocketCall → Force
  | _, .arm _ => .idle false
  | _, .trip => .past
  | _, .clear => .off
  | .idle _, .read => .idle true
  | f, .read => f

/-- Deadlines are set only where none is in force, and none serves two reads. -/
def Allows (f : Force) : SocketCall → Prop
  | .arm _ | .trip => f = .off
  | .clear => True
  | .read => f ≠ .idle true

/-- The deadline in force after some calls. -/
def after (calls : List SocketCall) : Force := calls.foldl next .off

/-- The deadline in force once it has been read under. -/
def used : Force → Force
  | .idle _ => .idle true
  | f => f

lemma after_append (calls calls' : List SocketCall) :
    after (calls ++ calls') = calls'.foldl next (after calls) := List.foldl_append

/-- Calls that are all allowed, one after the other. -/
def Permits : Force → List SocketCall → Prop
  | _, [] => True
  | f, e :: calls => f.Allows e ∧ Permits (f.next e) calls

lemma permits_append {f : Force} {calls calls' : List SocketCall} :
    f.Permits (calls ++ calls') ↔ f.Permits calls ∧ (calls.foldl next f).Permits calls' := by
  induction calls generalizing f with
  | nil => simp [Permits]
  | cons e calls ih => simp only [List.cons_append, Permits, ih, List.foldl_cons, and_assoc]

lemma always_append {calls calls' : List SocketCall}
    (h : Always (fun pre e => (after pre).Allows e) calls) (h' : (after calls).Permits calls') :
    Always (fun pre e => (after pre).Allows e) (calls ++ calls') := by
  induction calls' generalizing calls with
  | nil => simpa using h
  | cons e calls' ih =>
    refine h.cons_append h'.1 (fun hsnoc => ih hsnoc ?_)
    rw [after_append]
    exact h'.2

/-- A deadline stays in force until it is cleared. -/
lemma after_of_not_clear {calls mid : List SocketCall} (pre post : List SocketCall)
    (h : Always (fun pre e => (after pre).Allows e) calls) (hcalls : calls = pre ++ mid ++ post)
    (hpre : after pre ≠ .off) (hmid : SocketCall.clear ∉ mid) :
    after (pre ++ mid) = if SocketCall.read ∈ mid then (after pre).used else after pre := by
  induction mid generalizing pre with
  | nil => simp
  | cons e mid ih =>
    have hallows : (after pre).Allows e := h pre e (mid ++ post) (by simp [hcalls])
    have hcalls' : calls = pre ++ [e] ++ mid ++ post := by simp [hcalls]
    have hmid' : SocketCall.clear ∉ mid := fun hc => hmid (List.mem_cons_of_mem _ hc)
    have hsnoc : after (pre ++ [e]) = (after pre).next e := after_append pre [e]
    cases e with
    | arm d => exact absurd hallows hpre
    | trip => exact absurd hallows hpre
    | clear => exact absurd List.mem_cons_self hmid
    | read =>
      have hread : (after pre).next .read = (after pre).used := by cases after pre <;> rfl
      have hne : after (pre ++ [SocketCall.read]) ≠ .off := by
        rw [hsnoc, hread]
        intro hoff
        cases hf : after pre with
        | off => exact hpre hf
        | idle u => simp [hf, used] at hoff
        | past => simp [hf, used] at hoff
      have hrest := ih (pre ++ [SocketCall.read]) hcalls' hne hmid'
      rw [hsnoc, hread] at hrest
      have hused : (after pre).used.used = (after pre).used := by cases after pre <;> rfl
      rw [List.append_cons, hrest, hused]
      simp

end Force

/-! ## Where `relayCopyBoth` is entered and left -/

namespace Relay

variable {opts : RuntimeOpts} {conns : Conn → BackendConn} {nextID : ℕ} {l : Local} {c : Conn}
  {i : Input} {r : Local × List Act} {msg : FrontendMsg} {stmts : BackendPSCache}

lemma forward_forced (h : forward l c stmts msg = .ok r) : r.1.pc.forced = false := by
  unfold forward at h
  split at h <;> cases h
  simp only
  split <;> rfl

lemma outerStep_forced (h : outerStep opts conns l (some c) i = some r) :
    r.1.pc.forced = false := by
  unfold outerStep at h
  split at h
  · obtain ⟨t, -, rfl⟩ := Option.map_eq_some_iff.mp h
    rfl
  · cases h; rfl
  · cases h; rfl
  · cases h
    unfold beginBatch
    split
    · rename_i hf
      exact forward_forced hf
    · rfl
  · cases h

lemma batchStep_forced {pc : PC} (h : batchStep opts conns l c pc i = some r) :
    r.1.pc.forced = false := by
  unfold batchStep at h
  split at h
  · cases h; rfl
  · split at h
    · cases h; rfl
    · split at h <;> cases h
      · rename_i hf
        exact forward_forced hf
      · rfl
  · cases h; rfl
  · cases h; rfl
  · cases h

lemma endBatch_forced (st : Char) : (endBatch l c st).1.pc.forced = false := by
  unfold endBatch
  simp only
  split
  · rfl
  · rfl
  · split <;> rfl

lemma replyStep_forced {pc : PC} (h : replyStep opts l c pc i = some r) :
    r.1.pc.forced = false := by
  unfold replyStep at h
  split at h
  · cases h
    unfold onReply
    split
    · rfl
    · simp only
      split <;> rfl
  · cases h; rfl
  · split at h <;> cases h
    rfl
  · cases h
    unfold afterReply
    split
    · rfl
    · rfl
    · exact endBatch_forced _
    · rfl
  · cases h; rfl
  · cases h

lemma copyInStep_forced {pc : PC} (h : copyInStep conns l c pc i = some r) :
    r.1.pc.forced = false := by
  unfold copyInStep at h
  split at h
  · cases h; rfl
  · split at h <;> cases h
    · rfl
    · simp only
      split <;> rfl
    · rfl
    · rfl
    · rfl
  · cases h
    simp only
    split <;> rfl
  · cases h; rfl
  · cases h

/-- `relayCopyBoth` begins with the deadlines untouched. -/
theorem step_forced (hpc : ∀ c st, l.pc ≠ .copyBoth c st)
    (h : step opts conns nextID l i = some r) : r.1.pc.forced = false := by
  cases hengaged : l.pc.engaged with
  | none =>
    cases entering_step hengaged h with
    | outside _ hout =>
      cases hr : r.1.pc with
      | copyBoth c st => simp [hr, PC.engaged, PC.service] at hout
      | _ => rfl
    | begins c l' stmts msg acts acts' _ _ hf => exact forward_forced (r := (r.1, acts')) hf
  | some c =>
    unfold step at h
    cases hl : l.pc <;>
      simp only [hl, PC.engaged, PC.service, Option.some.injEq, reduceCtorEq] at h hengaged
    case outer => subst hengaged; exact outerStep_forced h
    case batch | feFlush => exact batchStep_forced h
    case replies | clientFlush => exact replyStep_forced h
    case copyIn | copyInFlush => exact copyInStep_forced h
    case copyBoth c' st => exact absurd hl (hpc c' st)

/-- What a step of `relayCopyBoth` does about the deadlines. -/
inductive Drains (st : CopyBoth) (i : Input) (pc : PC) : Prop
  | trips (c : Conn) (st' : CopyBoth) (hi : i = .grace) (hst : st.forced = false)
      (hpc : pc = .copyBoth c st') (hst' : st'.forced = true)
  | stays (c : Conn) (st' : CopyBoth) (hi : i ≠ .grace) (hpc : pc = .copyBoth c st')
      (hst' : st'.forced = st.forced)
  | returns (hpc : ∀ c st', pc ≠ .copyBoth c st')

lemma conclude_drains {st st' : CopyBoth} (hi : i ≠ .grace) (hst : st'.forced = st.forced) :
    Drains st i (CopyBoth.conclude l c st').1.pc := by
  unfold CopyBoth.conclude
  split
  · simp only
    split
    · exact .returns (by simp)
    · exact .returns (by simp [abandon])
  · exact .stays c st' hi rfl hst

theorem copyBothStep_drains {st : CopyBoth} (h : copyBothStep conns l c st i = some r) :
    Drains st i r.1.pc := by
  unfold copyBothStep at h
  split at h
  · cases h
    refine .stays c _ (by simp) rfl ?_
    unfold CopyBoth.onClient
    split <;> rfl
  · cases h; exact conclude_drains (by simp) rfl
  · cases h
    refine conclude_drains (by simp) ?_
    unfold CopyBoth.onFlush
    split <;> rfl
  · cases h; exact .stays c _ (by simp) rfl rfl
  · cases h; exact conclude_drains (by simp) rfl
  · cases h
    refine conclude_drains (by simp) ?_
    unfold CopyBoth.onClientFlush
    split <;> rfl
  · split at h <;> cases h
    rename_i hgrace
    refine .trips c _ rfl ?_ rfl rfl
    simpa using (Bool.and_eq_true_iff.mp hgrace).2
  · cases h

end Relay

/-! ## Along a run -/

/-- The deadline a session has on its client's socket while it blocks. -/
def PC.Expects (f : Force) : PC → Prop
  | .outer _ => f = .off ∨ f = .idle false
  | pc => f = if pc.forced then .past else .off

namespace Relay

variable {opts : RuntimeOpts} {conns : Conn → BackendConn} {nextID : ℕ} {l l' : Local}
  {i : Input} {r : Local × List Act} {f : Force}

lemma expects_of_off {pc : PC} (hpc : pc.forced = false) : pc.Expects .off := by
  cases pc with
  | outer backend => exact .inl rfl
  | copyBoth c st => simp only [PC.Expects, hpc]; rfl
  | _ => rfl

/-- Arming, where no deadline is in force. -/
lemma armCalls_permits (opts : RuntimeOpts) (hpc : l.pc.forced = false) :
    Force.off.Permits (armCalls opts l) ∧
      l.pc.Expects ((armCalls opts l).foldl Force.next .off) := by
  unfold armCalls
  split
  · rename_i backend hl
    rw [hl]
    unfold armClientIdleDeadline
    split
    · exact ⟨⟨trivial, trivial⟩, .inl rfl⟩
    · exact ⟨⟨rfl, trivial⟩, .inr rfl⟩
  · exact ⟨trivial, expects_of_off hpc⟩

/-- A read under no armed deadline changes nothing. -/
lemma read_permits (hf : f = .off ∨ f = .past) :
    f.Permits (if i.endsRead then [SocketCall.read] else []) ∧
      (if i.endsRead then [SocketCall.read] else []).foldl Force.next f = f := by
  rcases hf with rfl | rfl
  · split
    · exact ⟨⟨by simp [Force.Allows], trivial⟩, rfl⟩
    · exact ⟨trivial, rfl⟩
  · split
    · exact ⟨⟨by simp [Force.Allows], trivial⟩, rfl⟩
    · exact ⟨trivial, rfl⟩

/-- In the outer loop the deadline is cleared whatever the read brought. -/
lemma outer_permits (hf : f = .off ∨ f = .idle false) :
    f.Permits ((if i.endsRead then [SocketCall.read] else []) ++ [SocketCall.clear]) ∧
      ((if i.endsRead then [SocketCall.read] else []) ++ [SocketCall.clear]).foldl Force.next f =
        .off := by
  rcases hf with rfl | rfl
  · split
    · exact ⟨⟨by simp [Force.Allows], trivial, trivial⟩, rfl⟩
    · exact ⟨⟨trivial, trivial⟩, rfl⟩
  · split
    · exact ⟨⟨by simp [Force.Allows], trivial, trivial⟩, rfl⟩
    · exact ⟨⟨trivial, trivial⟩, rfl⟩

/-- **The calls of one step** are allowed, and leave the deadline the next program point wants. -/
theorem socketCalls_permits (hf : l.pc.Expects f) (h : step opts conns nextID l i = some r) :
    f.Permits (socketCalls opts l i r.1) ∧
      r.1.pc.Expects ((socketCalls opts l i r.1).foldl Force.next f) := by
  -- once no deadline is in force, arming the next one is all that is left
  have harm : ∀ calls : List SocketCall, f.Permits calls → calls.foldl Force.next f = .off →
      r.1.pc.forced = false → f.Permits (calls ++ armCalls opts r.1) ∧
        r.1.pc.Expects ((calls ++ armCalls opts r.1).foldl Force.next f) := by
    intro calls hcalls hoff hpc
    rw [Force.permits_append, List.foldl_append, hoff]
    exact ⟨⟨hcalls, (armCalls_permits opts hpc).1⟩, (armCalls_permits opts hpc).2⟩
  unfold socketCalls
  by_cases hboth : ∃ c st, l.pc = .copyBoth c st
  · obtain ⟨c, st, hl⟩ := hboth
    have hdrains : Drains st i r.1.pc := by
      unfold step at h
      rw [hl] at h
      exact copyBothStep_drains h
    have hfst : f = if st.forced then .past else .off := by
      rw [hl] at hf
      exact hf
    cases hdrains with
    | trips c' st' hi hst hpc hst' =>
      rw [hst] at hfst
      simp only [hfst, hi, hpc, armCalls, disarmCalls, hl, Input.endsRead]
      exact ⟨⟨rfl, trivial⟩, by simp [PC.Expects, PC.forced, hst', Force.next]⟩
    | stays c' st' hi hpc hst' =>
      obtain ⟨hread, hsame⟩ := read_permits (i := i) (f := f) (by rw [hfst]; split <;> simp)
      have hdisarm : disarmCalls l i r.1.pc = [] := by simp only [disarmCalls, hl, hpc, if_neg hi]
      have harmed : armCalls opts r.1 = [] := by
        unfold armCalls
        rw [hpc]
      rw [hdisarm, harmed, List.append_nil, List.append_nil, hsame, hpc]
      refine ⟨hread, ?_⟩
      show f = if st'.forced then .past else .off
      rw [hst', hfst]
    | returns hpc =>
      obtain ⟨hread, hsame⟩ := read_permits (i := i) (f := f) (by rw [hfst]; split <;> simp)
      have hforced : r.1.pc.forced = false := by
        cases hr : r.1.pc with
        | copyBoth c' st' => exact absurd hr (hpc c' st')
        | _ => rfl
      have hdisarm : disarmCalls l i r.1.pc = if st.forced then [SocketCall.clear] else [] := by
        unfold disarmCalls
        rw [hl]
        cases hr : r.1.pc with
        | copyBoth c' st' => exact absurd hr (hpc c' st')
        | _ => rfl
      refine harm _ ?_ ?_ hforced
      · rw [Force.permits_append, hdisarm]
        refine ⟨hread, ?_⟩
        cases st.forced with
        | true => exact ⟨trivial, trivial⟩
        | false => trivial
      · rw [List.foldl_append, hsame, hdisarm, hfst]
        split <;> rfl
  · have hforced := step_forced (fun c st hl => hboth ⟨c, st, hl⟩) h
    by_cases houter : ∃ backend, l.pc = .outer backend
    · obtain ⟨backend, hl⟩ := houter
      rw [hl] at hf
      obtain ⟨hcalls, hoff⟩ := outer_permits (i := i) hf
      simp only [disarmCalls, hl]
      exact harm _ hcalls hoff hforced
    · have hfoff : f = .off ∧ disarmCalls l i r.1.pc = [] := by
        cases hl : l.pc with
        | outer backend => exact absurd ⟨backend, hl⟩ houter
        | copyBoth c st => exact absurd ⟨c, st, hl⟩ hboth
        | _ =>
          rw [hl] at hf
          exact ⟨hf, by simp only [disarmCalls, hl]⟩
      obtain ⟨hread, hsame⟩ := read_permits (i := i) (f := f) (.inl hfoff.1)
      rw [hfoff.2, List.append_nil]
      exact harm _ hread (hsame.trans hfoff.1) hforced

end Relay

namespace Sockets

variable {opts : RuntimeOpts} {mode : PoolMode} {params : Caller → List TrackedParam}
  {s s' : Sockets}

/-- Forgetting the sockets. -/
theorem reach_world (h : (machine opts mode params).Reachable s) :
    (World.machine opts mode params).Reachable s.world := by
  induction h with
  | init h0 =>
    obtain ⟨psLimit, rfl⟩ := h0
    exact .init ⟨psLimit, rfl⟩
  | step _ _ hs ih =>
    obtain ⟨w, hw, rfl⟩ := Option.map_eq_some_iff.mp hs
    exact .step ih trivial hw

/-- Every call so far was allowed, and each session has the deadline it wants. -/
def InOrder (s : Sockets) : Prop :=
  ∀ k, Always (fun pre e => (Force.after pre).Allows e) (s.calls k) ∧
    (s.world.loc k).pc.Expects (Force.after (s.calls k))

theorem InOrder.step {a : Happening} (h : s.InOrder) (hs : step opts s a = some s') :
    s'.InOrder := by
  intro k
  obtain ⟨w, hw, rfl⟩ := Option.map_eq_some_iff.mp hs
  rcases Timed.loc_of_step hw k with ⟨i, r, rfl, hr, hloc⟩ | ⟨hother, hpc, -⟩
  · obtain ⟨hpermits, hexpects⟩ := Relay.socketCalls_permits (h k).2 hr
    simp only [record, Function.update_self, Force.after_append, hloc]
    exact ⟨Force.always_append (h k).1 hpermits, hexpects⟩
  · have hsame : s.record opts w a k = s.calls k := by
      cases a with
      | relay k' i =>
        have hne : k ≠ k' := fun hk => hother i (by rw [hk])
        simp [record, Function.update_of_ne hne]
      | _ => rfl
    simp only [hsame, hpc]
    exact h k

theorem inOrder_of_reachable (h : (machine opts mode params).Reachable s) : s.InOrder := by
  refine h.invariant (fun s h0 => ?_) (fun _ _ _ hI _ hs => hI.step hs)
  obtain ⟨psLimit, rfl⟩ := h0
  intro k
  obtain ⟨hpermits, hexpects⟩ := Relay.armCalls_permits opts
    (l := (World.start mode params psLimit).loc k) rfl
  exact ⟨Force.always_append always_nil hpermits, hexpects⟩

end Sockets

/-! ## Reading the log -/

/-- No message of a client has gone out on `c` since it was acquired last. -/
def FirstSinceAcquire (c : Conn) (log : List (Caller × Act)) : Prop :=
  ∃ pre k mid, log = pre ++ (k, Act.acquire c) :: mid ∧ ∀ k' m, (k', .send c .client m) ∉ mid

lemma forwarded_of_first {opts : RuntimeOpts} {c : Conn} {log : List (Caller × Act)}
    (h : FirstSinceAcquire c log) : ((timing opts).ghost relaySem c log).forwarded = false := by
  obtain ⟨pre, k, mid, rfl, hmid⟩ := h
  have hkeep : ∀ s : DeadlineTrail, s.forwarded = false → (mid.foldl (fun s e =>
      if relaySem.on e.2 = some c then (timing opts).next s e else s) s).forwarded = false := by
    induction mid with
    | nil => exact fun _ hs => hs
    | cons e mid ih =>
      intro s hs
      rw [List.foldl_cons]
      refine ih (fun k' m hm => hmid k' m (List.mem_cons_of_mem _ hm)) _ ?_
      split
      · rename_i hon
        obtain ⟨k', a⟩ := e
        simp only [timing, DeadlineTrail.next]
        split
        · rfl
        · rename_i c' m
          obtain rfl : c' = c := Option.some.inj hon
          exact absurd List.mem_cons_self (hmid k' m)
        · exact hs
      · exact hs
  rw [Outline.ghost, List.foldl_append, List.foldl_cons]
  exact hkeep _ (by simp [relaySem, Act.on, timing, DeadlineTrail.next])

/-- **No deadline leaks.**  In every run: a connection in the pool's keeping has no deadline; nor
has one on which a client's message is forwarded for the first time since it was acquired, or on
which a batch is written; a deadline armed on a client's socket for one read is cleared before the
next; and the deadline with which `relayCopyBoth` wakes its pump is cleared when it returns. -/
theorem no_deadline_leaks {opts : RuntimeOpts} {mode : PoolMode}
    {params : Caller → List TrackedParam} {s : Sockets}
    (h : (Sockets.machine opts mode params).Reachable s) :
    (∀ c, s.world.place c = .pooled → (s.world.res c).NoDeadline) ∧
      (∀ c k m pre post, s.world.log = pre ++ (k, Act.send c .client m) :: post →
        FirstSinceAcquire c pre → (World.connAfter c pre).NoDeadline) ∧
      (∀ c k sent pre post, s.world.log = pre ++ (k, Act.flush c .reply sent) :: post →
        (World.connAfter c pre).NoDeadline) ∧
      (∀ k d pre mid post, s.calls k = pre ++ SocketCall.arm d :: mid ++ SocketCall.read :: post →
        SocketCall.read ∈ mid → SocketCall.clear ∈ mid) ∧
      (∀ k pre mid, s.calls k = pre ++ SocketCall.trip :: mid →
        (∀ c st, (s.world.loc k).pc ≠ .copyBoth c st) → SocketCall.clear ∈ mid) := by
  have hreach := Sockets.reach_world h
  have htiming := World.timing_of_reach hreach
  have horder := Sockets.inOrder_of_reachable h
  refine ⟨?_, ?_, ?_, ?_, ?_⟩
  · intro c hc
    have hassert := htiming.asserts c
    simp only [Outline.Asserts, hc] at hassert
    rw [World.res_of_reach hreach, ← World.ghost_conn opts]
    exact hassert
  · intro c k m pre post hlog hfirst
    have hgood := htiming.good pre _ post hlog c rfl
    rw [← World.ghost_conn opts]
    exact hgood (forwarded_of_first hfirst)
  · intro c k sent pre post hlog
    rw [← World.ghost_conn opts]
    exact htiming.good pre _ post hlog c rfl
  · intro k d pre mid post hcalls hread
    by_contra hclear
    have hin : Force.after (pre ++ [SocketCall.arm d]) = .idle false :=
      Force.after_append pre [.arm d]
    have hstill := Force.after_of_not_clear (pre ++ [SocketCall.arm d]) (.read :: post)
      (horder k).1 (by simp [hcalls]) (by simp [hin]) hclear
    rw [if_pos hread, hin] at hstill
    exact (horder k).1 (pre ++ [SocketCall.arm d] ++ mid) .read post (by simp [hcalls]) hstill
  · intro k pre mid hcalls hpc
    by_contra hclear
    have hin : Force.after (pre ++ [SocketCall.trip]) = .past :=
      Force.after_append pre [.trip]
    have hstill := Force.after_of_not_clear (pre ++ [SocketCall.trip]) [] (horder k).1
      (by simp [hcalls]) (by simp [hin]) hclear
    have hpast : Force.after (s.calls k) = .past := by
      rw [hcalls, List.append_cons, hstill, hin]
      split <;> rfl
    have hexpects := (horder k).2
    rw [hpast] at hexpects
    cases hl : (s.world.loc k).pc with
    | copyBoth c st => exact hpc c st hl
    | outer backend =>
      rw [hl] at hexpects
      rcases hexpects with hoff | hoff <;> cases hoff
    | _ =>
      rw [hl] at hexpects
      cases hexpects

/-- Timeouts for queries and for idle clients, and connections scrubbed between sessions. -/
def timeoutOpts : RuntimeOpts := ⟨"DISCARD ALL", true, 30, 60, 10⟩

/-- A client ends its replication, the pump is woken, and the connection goes back: neither it nor
the client's socket has a deadline from before. -/
theorem no_deadline_leaks_replication :
    ∃ s, (Sockets.machine timeoutOpts .transaction fun _ => []).Reachable s ∧
      s.world.place 3 = .pooled ∧ (s.world.res 3).NoDeadline ∧
      s.calls 0 = [.arm 60, .read, .clear, .read, .trip, .clear, .arm 60] := by
  have hrun : ((Sockets.machine timeoutOpts .transaction fun _ => []).run
      (Sockets.start timeoutOpts (World.start .transaction (fun _ => []) fun _ => 0))
      [.dial 3, .relay 0 (.client (.query "START_REPLICATION")), .relay 0 (.draining false),
        .relay 0 (.acquired 3), .relay 0 (.feFlush none), .relay 0 (.reply .copyBothResponse),
        .relay 0 (.flushClient true), .relay 0 (.client .copyDone), .relay 0 (.feFlush none),
        .relay 0 .grace, .relay 0 (.replyErr "i/o timeout"),
        .relay 0 (.reply (.readyForQuery 'I')), .relay 0 (.flushClient true)]).map
      (fun s => (s.world.place 3, s.calls 0)) =
        some (.pooled, [.arm 60, .read, .clear, .read, .trip, .clear, .arm 60]) := by decide
  obtain ⟨s, hs, hview⟩ := Option.map_eq_some_iff.mp hrun
  obtain ⟨hplace, hcalls⟩ := Prod.mk.inj hview
  have hreach : (Sockets.machine timeoutOpts .transaction fun _ => []).Reachable s :=
    Machine.reach_of_run ⟨fun _ => 0, rfl⟩ hs
  exact ⟨s, hreach, hplace, (no_deadline_leaks hreach).1 3 hplace, hcalls⟩

end Pgman
