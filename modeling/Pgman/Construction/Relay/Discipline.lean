import Pgman.Construction.Relay.World
import Pgman.Framework.Outline

/-!
# The relay keeps the lease discipline

Every step of `relayImpl` is about at most one connection: the one in hand, or the one that
`Acquire` just brought.  `step_runs` follows the hand through each of the twenty-odd exit
and hand-back points, and `step_identity` records what a step leaves alone: the session's mode,
its tracked parameters, and its id once issued.

Both are proved from the pieces of the loop; `Construction/Relay/Steady.lean` lifts them to
worlds.
-/

namespace Pgman

/-- What a session has hold of.  During a health check the connection is in the hands of the
session's `Acquire`, not yet in the relay's. -/
inductive Grip
  | loose
  | checking (c : Conn)
  | holding (c : Conn)
  deriving DecidableEq, Repr

def Grip.conn : Grip → Option Conn
  | .loose => none
  | .checking c | .holding c => some c

def PC.grip : PC → Grip
  | .outer (some c) => .holding c
  | .checkArm c _ | .checkFlush c _ | .checkRecv c _ => .checking c
  | .resetArm c _ | .resetFlush c _ | .resetRecv c _ | .paramsFlush c _ | .paramsRecv c _
  | .batch c | .feFlush c | .replies c | .clientFlush c _ | .copyIn c _ | .copyInFlush c _
  | .copyBoth c _ => .holding c
  | .outer none | .drainCheck _ | .acquiring _ | .drain _ _ | .failFlush | .done => .loose

def Local.grip (l : Local) : Grip := l.pc.grip

/-- The connection in a session's hands. -/
def Local.hand (l : Local) : Option Conn := l.grip.conn

/-- What a health check does with its connection. -/
def Act.checks : Act → Bool
  | .setDeadline _ _ | .send _ .health _ | .flush _ .health _ | .flushErr _ .health
  | .recv _ .health _ _ | .recvErr _ .health => true
  | _ => false

/-- What the relay does with the connection it holds. -/
def Act.works : Act → Bool
  | .send _ .health _ | .flush _ .health _ | .flushErr _ .health | .recv _ .health _ _
  | .recvErr _ .health => false
  | _ => true

namespace Grip

/-- How an act of a step about `touch` changes the grip. -/
def next (touch : Option Conn) (g : Grip) (a : Act) : Option Grip :=
  match a.on with
  | none => some g
  | some c =>
    if touch = some c then
      match a with
      | .take _ => if g = .loose then some (.checking c) else none
      | .retire _ => if g = .checking c then some .loose else none
      | .acquire _ => if g = .loose ∨ g = .checking c then some (.holding c) else none
      | .release _ | .discard _ => if g = .holding c then some .loose else none
      | a =>
        if g = .holding c ∧ a.works = true ∨ g = .checking c ∧ a.checks = true then some g else none
    else none

/-- The acts lead from one grip to another. -/
def Runs (touch : Option Conn) : Grip → List Act → Grip → Prop
  | g, [], g' => g = g'
  | g, a :: acts, g' => ∃ g₁, next touch g a = some g₁ ∧ Runs touch g₁ acts g'

variable {touch : Option Conn} {g g₁ g' : Grip} {a : Act} {acts acts' : List Act} {c : Conn}

lemma Runs.append (h1 : Runs touch g acts g₁) (h2 : Runs touch g₁ acts' g') :
    Runs touch g (acts ++ acts') g' := by
  induction acts generalizing g with
  | nil => exact h1 ▸ h2
  | cons a acts ih =>
    obtain ⟨g₂, ha, hr⟩ := h1
    exact ⟨g₂, ha, ih hr⟩

/-- Acts about no connection are allowed in any step. -/
lemma Runs.weaken (h : Runs none g acts g') : Runs touch g acts g' := by
  induction acts generalizing g with
  | nil => exact h
  | cons a acts ih =>
    obtain ⟨g₁, ha, hr⟩ := h
    refine ⟨g₁, ?_, ih hr⟩
    unfold next at ha ⊢
    split at ha
    · exact ha
    · simp at ha

/-- The grip follows the lease discipline. -/
lemma next_handNext (h : next touch g a = some g₁) :
    relaySem.handNext touch g.conn a = some g₁.conn := by
  unfold next at h
  unfold LeaseSem.handNext relaySem
  split at h
  · rename_i hon
    cases h
    simp only [hon]
  · rename_i c hon
    simp only [hon]
    split at h
    · rename_i ht
      rw [if_pos ht]
      split at h
      all_goals split at h <;> cases h
      · rename_i hg
        subst hg
        simp [Act.lease, conn]
      · rename_i hg
        subst hg
        simp [Act.lease, conn]
      · rename_i hg
        rcases hg with rfl | rfl <;> simp [Act.lease, conn]
      · rename_i hg
        subst hg
        simp [Act.lease, conn]
      · rename_i hg
        subst hg
        simp [Act.lease, conn]
      · rename_i h1 h2 h3 h4 h5 hg
        have hlease : a.lease = none := by
          unfold Act.lease
          split <;> simp_all
        rcases hg with ⟨rfl, -⟩ | ⟨rfl, -⟩ <;> simp [hlease, conn]
    · cases h

lemma Runs.accepts (h : Runs touch g acts g') : relaySem.Accepts touch g.conn acts g'.conn := by
  induction acts generalizing g with
  | nil => exact congrArg conn h
  | cons a acts ih =>
    obtain ⟨g₁, ha, hr⟩ := h
    exact ⟨g₁.conn, next_handNext ha, ih hr⟩

end Grip

namespace Relay

variable {opts : RuntimeOpts} {conns : Conn → BackendConn} {nextID : ℕ} {l : Local} {c : Conn}
  {msg : FrontendMsg} {stmts : BackendPSCache} {i : Input} {r : Local × List Act}

/-! ## The grip -/

section Hand

section Next

attribute [local simp] Grip.next

/-- An act that uses the connection in hand. -/
lemma next_use {a : Act} (hon : a.on = some c) (hl : a.lease = none) (hw : a.works = true) :
    Grip.next (some c) (.holding c) a = some (.holding c) := by
  cases a <;> simp_all [Grip.next, Act.lease]

/-- An act of the health check. -/
lemma next_check {a : Act} (hon : a.on = some c) (hl : a.lease = none) (hw : a.checks = true) :
    Grip.next (some c) (.checking c) a = some (.checking c) := by
  cases a <;> simp_all [Grip.next, Act.lease]

/-- An act that is about no connection. -/
lemma next_none {a : Act} {touch : Option Conn} {g : Grip} (hon : a.on = none) :
    Grip.next touch g a = some g := by
  simp [Grip.next, hon]

lemma next_discard : Grip.next (some c) (.holding c) (.discard c) = some .loose := by
  simp [Grip.next, Act.on]

lemma next_release : Grip.next (some c) (.holding c) (.release c) = some .loose := by
  simp [Grip.next, Act.on]

lemma next_retire : Grip.next (some c) (.checking c) (.retire c) = some .loose := by
  simp [Grip.next, Act.on]

lemma next_take : Grip.next (some c) .loose (.take c) = some (.checking c) := by
  simp [Grip.next, Act.on]

lemma next_acquire {g : Grip} (hg : g = .loose ∨ g = .checking c) :
    Grip.next (some c) g (.acquire c) = some (.holding c) := by
  simp [Grip.next, Act.on, hg]

end Next

/-- Acts that only use the connection in hand. -/
lemma runs_uses {acts : List Act}
    (h : ∀ a ∈ acts, a.on = some c ∧ a.lease = none ∧ a.works = true) :
    Grip.Runs (some c) (.holding c) acts (.holding c) := by
  induction acts with
  | nil => rfl
  | cons a acts ih =>
    have ha := h a (by simp)
    exact ⟨_, next_use ha.1 ha.2.1 ha.2.2, ih (fun a' ha' => h a' (by simp [ha']))⟩

lemma release_runs (l : Local) (c : Conn) (reusable : Bool) :
    Grip.Runs (some c) (.holding c) (release l c reusable) .loose := by
  cases reusable
  · exact ⟨_, next_use rfl rfl rfl, _, next_discard, rfl⟩
  · exact ⟨_, next_use rfl rfl rfl, _, next_use rfl rfl rfl, _, next_release, rfl⟩

lemma leave_runs (l : Local) (backend : Option Conn) :
    Grip.Runs backend (PC.outer backend).grip (leave l backend).2 (leave l backend).1.grip := by
  cases backend with
  | none => rfl
  | some c => exact release_runs l c _

lemma abandon_runs (l : Local) (c : Conn) :
    Grip.Runs (some c) (.holding c) (abandon l c).2 (abandon l c).1.grip :=
  release_runs l c false

lemma failQuery_runs (l : Local) (msg : FrontendMsg) (code message : String)
    {touch : Option Conn} : Grip.Runs touch .loose (failQuery l msg code message).2
      (failQuery l msg code message).1.grip := by
  unfold failQuery
  split
  · exact ⟨_, next_none rfl, _, next_none rfl, rfl⟩
  · rfl

lemma forward_grip (h : forward l c stmts msg = .ok r) : r.1.grip = .holding c := by
  unfold forward at h
  split at h <;> cases h
  simp only [Local.grip]
  split <;> rfl

lemma forward_runs (h : forward l c stmts msg = .ok r) :
    Grip.Runs (some c) (.holding c) r.2 (.holding c) := by
  unfold forward at h
  split at h <;> cases h
  refine runs_uses (fun a ha => ?_)
  simp only [List.mem_append, List.mem_map, List.mem_cons, List.not_mem_nil, or_false] at ha
  rcases ha with ⟨m, -, rfl⟩ | rfl | rfl <;> exact ⟨rfl, rfl, rfl⟩

lemma beginBatch_runs (l : Local) (c : Conn) (stmts : BackendPSCache) (msg : FrontendMsg) :
    Grip.Runs (some c) (.holding c) (beginBatch l c stmts msg).2
      (beginBatch l c stmts msg).1.grip := by
  unfold beginBatch
  split
  · rename_i r hr
    rw [forward_grip hr]
    exact forward_runs hr
  · exact ⟨_, next_none rfl, release_runs l c _⟩

lemma adopted_runs (l : Local) (c : Conn) (msg : FrontendMsg) :
    Grip.Runs (some c) (.holding c) (adopted l c msg).2 (adopted l c msg).1.grip :=
  ⟨_, next_use rfl rfl rfl, beginBatch_runs l c ∅ msg⟩

lemma replayParams_runs (l : Local) (c : Conn) (msg : FrontendMsg) :
    Grip.Runs (some c) (.holding c) (replayParams l c msg).2 (replayParams l c msg).1.grip := by
  unfold replayParams
  split
  · exact ⟨_, next_use rfl rfl rfl, adopted_runs l c msg⟩
  · exact ⟨_, next_use rfl rfl rfl, _, next_use rfl rfl rfl, rfl⟩

lemma adoptAs_runs (opts : RuntimeOpts) (b : BackendConn) (l : Local) (c : Conn)
    (msg : FrontendMsg) : Grip.Runs (some c) (.holding c) (adoptAs opts b l c msg).2
      (adoptAs opts b l c msg).1.grip := by
  unfold adoptAs
  split
  · exact beginBatch_runs l c _ msg
  · split
    · rfl
    · exact replayParams_runs l c msg

lemma ensureID_runs (nextID : ℕ) (l : Local) (touch : Option Conn) (g : Grip) :
    Grip.Runs touch g (ensureID nextID l).2 g := by
  unfold ensureID
  split
  · exact ⟨_, next_none rfl, rfl⟩
  · rfl

lemma adopt_runs (opts : RuntimeOpts) (b : BackendConn) (nextID : ℕ) (l : Local) (c : Conn)
    (msg : FrontendMsg) : Grip.Runs (some c) (.holding c) (adopt opts b nextID l c msg).2
      (adopt opts b nextID l c msg).1.grip :=
  (ensureID_runs nextID l _ _).append (adoptAs_runs opts b _ c msg)

lemma adoptFailed_runs (l : Local) (c : Conn) (msg : FrontendMsg) (err : String) :
    Grip.Runs (some c) (.holding c) (adoptFailed l c msg err).2
      (adoptFailed l c msg err).1.grip :=
  ⟨_, next_use rfl rfl rfl, _, next_discard, failQuery_runs l msg _ _⟩

lemma endBatch_runs (l : Local) (c : Conn) (st : Char) :
    Grip.Runs (some c) (.holding c) (endBatch l c st).2 (endBatch l c st).1.grip := by
  have hmark : Grip.Runs (some c) (.holding c) [.setReadDeadline c false, .batchEnd c st]
      (.holding c) := ⟨_, next_use rfl rfl rfl, _, next_use rfl rfl rfl, rfl⟩
  unfold endBatch
  simp only
  split
  · exact hmark.append (release_runs _ c _)
  · exact hmark
  · split
    · exact hmark.append (release_runs _ c _)
    · exact hmark

lemma afterReply_runs (l : Local) (c : Conn) (m : BackendMsg) :
    Grip.Runs (some c) (.holding c) (afterReply l c m).2 (afterReply l c m).1.grip := by
  unfold afterReply
  split
  · exact ⟨_, next_use rfl rfl rfl, rfl⟩
  · exact ⟨_, next_use rfl rfl rfl, rfl⟩
  · exact endBatch_runs l c _
  · rfl

lemma onReply_runs (l : Local) (c : Conn) (m : BackendMsg) :
    Grip.Runs (some c) (.holding c) (onReply l c m).2 (onReply l c m).1.grip := by
  unfold onReply
  split
  · exact ⟨_, next_use rfl rfl rfl, rfl⟩
  · refine ⟨_, next_use rfl rfl rfl, _, next_none rfl, ?_⟩
    simp only [Local.grip]
    split <;> rfl

lemma conclude_runs (l : Local) (c : Conn) (st : CopyBoth) :
    Grip.Runs (some c) (.holding c) (CopyBoth.conclude l c st).2
      (CopyBoth.conclude l c st).1.grip := by
  have hclear : Grip.Runs (some c) (.holding c)
      (if st.forced then [Act.setReadDeadline c false] else []) (.holding c) := by
    split
    · exact ⟨_, next_use rfl rfl rfl, rfl⟩
    · rfl
  unfold CopyBoth.conclude
  split
  · simp only
    split
    · exact hclear
    · exact hclear.append (abandon_runs l c)
  · rfl

/-- What a step touches: the connection in hand, or the one `Acquire` brings. -/
def touch (l : Local) (i : Input) : Option Conn := l.hand <|> i.conn

lemma outerStep_runs {backend : Option Conn}
    (h : outerStep opts conns l backend i = some r) :
    Grip.Runs backend (PC.outer backend).grip r.2 r.1.grip := by
  unfold outerStep at h
  split at h
  · obtain ⟨t, -, rfl⟩ := Option.map_eq_some_iff.mp h
    exact ⟨_, next_none rfl, leave_runs l backend⟩
  · cases h; exact leave_runs l backend
  · cases h; exact leave_runs l backend
  · split at h <;> cases h
    · rfl
    · exact beginBatch_runs l _ _ _
  · cases h

lemma drainCheckStep_runs (h : drainCheckStep l msg i = some r) :
    Grip.Runs i.conn .loose r.2 r.1.grip := by
  unfold drainCheckStep at h
  split at h <;> cases h
  · exact ⟨_, next_none rfl, rfl⟩
  · rfl

lemma acquireStep_runs (h : acquireStep opts conns nextID l msg i = some r) :
    Grip.Runs i.conn .loose r.2 r.1.grip := by
  unfold acquireStep at h
  split at h
  · cases h
    exact ⟨_, next_take, rfl⟩
  · cases h
    exact ⟨_, next_acquire (.inl rfl), adopt_runs opts _ nextID l _ msg⟩
  · split at h <;> cases h
    · exact ⟨_, next_none rfl, rfl⟩
    · exact ⟨_, next_none rfl, rfl⟩
    · exact failQuery_runs l msg _ _
    · exact failQuery_runs l msg _ _
  · cases h

lemma checkStep_runs {pc : PC} (h : checkStep opts conns nextID l c msg pc i = some r) :
    Grip.Runs (some c) (.checking c) r.2 r.1.grip := by
  have hretire : ∀ a : Act, a.on = some c → a.lease = none → a.checks = true →
      Grip.Runs (some c) (.checking c) [a, .setDeadline c false, .retire c] .loose :=
    fun a hon hl hc => ⟨_, next_check hon hl hc, _, next_check rfl rfl rfl, _, next_retire, rfl⟩
  unfold checkStep at h
  split at h
  · cases h; exact ⟨_, next_check rfl rfl rfl, _, next_check rfl rfl rfl, rfl⟩
  · cases h; exact ⟨_, next_retire, rfl⟩
  · cases h; exact ⟨_, next_check rfl rfl rfl, rfl⟩
  · cases h; exact hretire _ rfl rfl rfl
  · cases h; exact hretire _ rfl rfl rfl
  · split at h <;> cases h
    · exact hretire _ rfl rfl rfl
    · exact ⟨_, next_check rfl rfl rfl, _, next_check rfl rfl rfl, _,
        next_acquire (.inr rfl), adopt_runs opts _ nextID l c msg⟩
    · exact ⟨_, next_check rfl rfl rfl, rfl⟩
  · cases h

lemma resetStep_runs {pc : PC} (h : resetStep opts conns l c msg pc i = some r) :
    Grip.Runs (some c) (.holding c) r.2 r.1.grip := by
  unfold resetStep at h
  split at h
  · cases h; exact ⟨_, next_use rfl rfl rfl, _, next_use rfl rfl rfl, rfl⟩
  · cases h; exact adoptFailed_runs l c msg _
  · cases h; exact ⟨_, next_use rfl rfl rfl, rfl⟩
  · cases h
    exact ⟨_, next_use rfl rfl rfl, _, next_use rfl rfl rfl, adoptFailed_runs l c msg _⟩
  · cases h
    exact ⟨_, next_use rfl rfl rfl, _, next_use rfl rfl rfl, adoptFailed_runs l c msg _⟩
  · split at h <;> cases h
    · exact ⟨_, next_use rfl rfl rfl, _, next_use rfl rfl rfl, adoptFailed_runs l c msg _⟩
    · exact ⟨_, next_use rfl rfl rfl, _, next_use rfl rfl rfl, replayParams_runs l c msg⟩
    · exact ⟨_, next_use rfl rfl rfl, rfl⟩
  · cases h

lemma paramsStep_runs {pc : PC} (h : paramsStep conns l c msg pc i = some r) :
    Grip.Runs (some c) (.holding c) r.2 r.1.grip := by
  unfold paramsStep at h
  split at h
  · cases h; exact ⟨_, next_use rfl rfl rfl, rfl⟩
  · cases h; exact ⟨_, next_use rfl rfl rfl, adoptFailed_runs l c msg _⟩
  · cases h; exact ⟨_, next_use rfl rfl rfl, adoptFailed_runs l c msg _⟩
  · split at h <;> cases h
    · exact ⟨_, next_use rfl rfl rfl, adoptFailed_runs l c msg _⟩
    · exact ⟨_, next_use rfl rfl rfl, adopted_runs l c msg⟩
    · exact ⟨_, next_use rfl rfl rfl, rfl⟩
  · cases h

lemma failStep_runs {pc : PC} {touch : Option Conn} (h : failStep l pc i = some r) :
    Grip.Runs touch .loose r.2 r.1.grip := by
  unfold failStep at h
  split at h
  · cases h; rfl
  · split at h
    · cases h; rfl
    · split at h <;> cases h
      · exact ⟨_, next_none rfl, _, next_none rfl, rfl⟩
      · rfl
  · cases h
    refine ⟨_, next_none rfl, ?_⟩
    simp only [Local.grip]
    split <;> rfl
  · cases h

lemma batchStep_runs {pc : PC} (h : batchStep opts conns l c pc i = some r) :
    Grip.Runs (some c) (.holding c) r.2 r.1.grip := by
  unfold batchStep at h
  split at h
  · cases h; exact leave_runs l (some c)
  · split at h
    · cases h; exact leave_runs l (some c)
    · split at h <;> cases h
      · rename_i hr
        rw [forward_grip hr]
        exact forward_runs hr
      · exact ⟨_, next_none rfl, release_runs l c _⟩
  · cases h
    refine ⟨_, next_use rfl rfl rfl, ?_⟩
    split
    · exact ⟨_, next_use rfl rfl rfl, rfl⟩
    · rfl
  · cases h; exact ⟨_, next_use rfl rfl rfl, abandon_runs l c⟩
  · cases h

lemma replyStep_runs {pc : PC} (h : replyStep opts l c pc i = some r) :
    Grip.Runs (some c) (.holding c) r.2 r.1.grip := by
  unfold replyStep at h
  split at h
  · cases h; exact onReply_runs l c _
  · cases h; exact ⟨_, next_use rfl rfl rfl, abandon_runs l c⟩
  · split at h <;> cases h
    exact ⟨_, next_use rfl rfl rfl, (abandon_runs l c).append ⟨_, next_none rfl, rfl⟩⟩
  · cases h; exact ⟨_, next_none rfl, afterReply_runs _ c _⟩
  · cases h; exact ⟨_, next_none rfl, abandon_runs _ c⟩
  · cases h

lemma copyInStep_runs {pc : PC} (h : copyInStep conns l c pc i = some r) :
    Grip.Runs (some c) (.holding c) r.2 r.1.grip := by
  unfold copyInStep at h
  split at h
  · cases h; exact abandon_runs l c
  · split at h <;> cases h
    · exact ⟨_, next_use rfl rfl rfl, rfl⟩
    · refine ⟨_, next_use rfl rfl rfl, ?_⟩
      simp only [Local.grip]
      split <;> rfl
    · exact ⟨_, next_use rfl rfl rfl, rfl⟩
    · exact ⟨_, next_use rfl rfl rfl, rfl⟩
    · exact ⟨_, next_use rfl rfl rfl, rfl⟩
  · cases h
    refine ⟨_, next_use rfl rfl rfl, ?_⟩
    simp only [Local.grip]
    split <;> rfl
  · cases h; exact ⟨_, next_use rfl rfl rfl, abandon_runs l c⟩
  · cases h

lemma onClient_runs (st : CopyBoth) (c : Conn) (m : FrontendMsg) :
    Grip.Runs (some c) (.holding c) (st.onClient c m).2 (.holding c) := by
  unfold CopyBoth.onClient
  split <;> exact ⟨_, next_use rfl rfl rfl, rfl⟩

lemma copyBothStep_runs {st : CopyBoth} (h : copyBothStep conns l c st i = some r) :
    Grip.Runs (some c) (.holding c) r.2 r.1.grip := by
  unfold copyBothStep at h
  split at h
  · cases h; exact onClient_runs st c _
  · cases h; exact conclude_runs l c _
  · cases h
    refine ⟨_, ?_, conclude_runs l c _⟩
    split <;> exact next_use rfl rfl rfl
  · cases h; exact ⟨_, next_use rfl rfl rfl, _, next_none rfl, rfl⟩
  · cases h; exact ⟨_, next_use rfl rfl rfl, conclude_runs l c _⟩
  · cases h; exact ⟨_, next_none rfl, conclude_runs l c _⟩
  · split at h <;> cases h
    exact ⟨_, next_use rfl rfl rfl, rfl⟩
  · cases h

/-- Every step keeps the discipline. -/
theorem step_runs (h : step opts conns nextID l i = some r) :
    Grip.Runs (touch l i) l.grip r.2 r.1.grip := by
  unfold touch Local.hand
  unfold step at h
  rw [show l.grip = l.pc.grip from rfl]
  cases hpc : l.pc with
  | outer backend =>
    rw [hpc] at h
    cases backend with
    | none => exact (outerStep_runs h).weaken
    | some c => exact outerStep_runs h
  | drainCheck msg => rw [hpc] at h; exact drainCheckStep_runs h
  | acquiring msg => rw [hpc] at h; exact acquireStep_runs h
  | checkArm c msg => rw [hpc] at h; exact checkStep_runs h
  | checkFlush c msg => rw [hpc] at h; exact checkStep_runs h
  | checkRecv c msg => rw [hpc] at h; exact checkStep_runs h
  | resetArm c msg => rw [hpc] at h; exact resetStep_runs h
  | resetFlush c msg => rw [hpc] at h; exact resetStep_runs h
  | resetRecv c msg => rw [hpc] at h; exact resetStep_runs h
  | paramsFlush c msg => rw [hpc] at h; exact paramsStep_runs h
  | paramsRecv c msg => rw [hpc] at h; exact paramsStep_runs h
  | drain code message => rw [hpc] at h; exact failStep_runs h
  | failFlush => rw [hpc] at h; exact failStep_runs h
  | batch c => rw [hpc] at h; exact batchStep_runs h
  | feFlush c => rw [hpc] at h; exact batchStep_runs h
  | replies c => rw [hpc] at h; exact replyStep_runs h
  | clientFlush c m => rw [hpc] at h; exact replyStep_runs h
  | copyIn c n => rw [hpc] at h; exact copyInStep_runs h
  | copyInFlush c n => rw [hpc] at h; exact copyInStep_runs h
  | copyBoth c st => rw [hpc] at h; exact copyBothStep_runs h
  | done => rw [hpc] at h; cases h

end Hand

/-! ## What a step leaves alone -/

section Keeps

/-- The part of a session that is fixed once it has an id. -/
def identity (l : Local) : ℕ × PoolMode × List TrackedParam :=
  (l.sess.id, l.sess.poolMode, l.sess.trackedParams)

lemma checkSQLSideEffects_identity (stmts : BackendPSCache) (sess : Session) (sql : String) :
    let s := (checkSQLSideEffects stmts sess sql).1
    (s.id, s.poolMode, s.trackedParams) = (sess.id, sess.poolMode, sess.trackedParams) := by
  unfold checkSQLSideEffects checkListenWarn
  simp only
  split
  · rfl
  · repeat' split
    all_goals rfl

lemma ensureBackendHasStmt_identity (stmts : BackendPSCache) (sess : Session) (name : String) :
    let s := (ensureBackendHasStmt stmts sess name).sess
    (s.id, s.poolMode, s.trackedParams) = (sess.id, sess.poolMode, sess.trackedParams) := by
  unfold ensureBackendHasStmt
  simp only
  repeat' split
  all_goals rfl

lemma processClientMsg_identity {sess : Session} {p : Processed}
    (h : processClientMsg stmts sess msg = .ok p) :
    (p.sess.id, p.sess.poolMode, p.sess.trackedParams) =
      (sess.id, sess.poolMode, sess.trackedParams) := by
  unfold processClientMsg at h
  split at h
  · split at h
    · cases h; exact checkSQLSideEffects_identity _ _ _
    · split at h <;> cases h
      rename_i p hp
      refine (checkSQLSideEffects_identity _ _ _).trans ?_
      unfold trackClientParse at hp
      split at hp <;> cases hp
      rfl
  · cases h; exact ensureBackendHasStmt_identity _ _ _
  · split at h <;> cases h
    · exact ensureBackendHasStmt_identity _ _ _
    · rfl
  · split at h <;> cases h <;> rfl
  · cases h; exact checkSQLSideEffects_identity _ _ _
  · cases h; rfl

lemma forward_identity (h : forward l c stmts msg = .ok r) : identity r.1 = identity l := by
  unfold forward at h
  split at h <;> cases h
  rename_i p hp
  exact processClientMsg_identity hp

lemma beginBatch_identity (l : Local) (c : Conn) (stmts : BackendPSCache) (msg : FrontendMsg) :
    identity (beginBatch l c stmts msg).1 = identity l := by
  unfold beginBatch
  split
  · rename_i r hr
    exact (forward_identity hr).trans rfl
  · rfl

lemma replayParams_identity (l : Local) (c : Conn) (msg : FrontendMsg) :
    identity (replayParams l c msg).1 = identity l := by
  unfold replayParams
  split
  · exact beginBatch_identity l c ∅ msg
  · rfl

lemma adoptAs_identity (opts : RuntimeOpts) (b : BackendConn) (l : Local) (c : Conn)
    (msg : FrontendMsg) : identity (adoptAs opts b l c msg).1 = identity l := by
  unfold adoptAs
  split
  · exact beginBatch_identity l c _ msg
  · split
    · rfl
    · exact replayParams_identity l c msg

lemma failQuery_identity (l : Local) (msg : FrontendMsg) (code message : String) :
    identity (failQuery l msg code message).1 = identity l := by
  unfold failQuery
  split <;> rfl

lemma endBatch_identity (l : Local) (c : Conn) (st : Char) :
    identity (endBatch l c st).1 = identity l := by
  unfold endBatch
  simp only
  repeat' split
  all_goals rfl

lemma afterReply_identity (l : Local) (c : Conn) (m : BackendMsg) :
    identity (afterReply l c m).1 = identity l := by
  unfold afterReply
  split <;> first | rfl | exact endBatch_identity l c _

lemma onReply_identity (l : Local) (c : Conn) (m : BackendMsg) :
    identity (onReply l c m).1 = identity l := by
  unfold onReply
  split <;> rfl

lemma conclude_identity (l : Local) (c : Conn) (st : CopyBoth) :
    identity (CopyBoth.conclude l c st).1 = identity l := by
  unfold CopyBoth.conclude
  split
  · simp only
    split <;> rfl
  · rfl

/-- A step keeps the identity, or issues the id and keeps the rest. -/
def KeepsIdentity (nextID : ℕ) (l : Local) (r : Local × List Act) : Prop :=
  identity r.1 = identity l ∨
    l.sess.id = 0 ∧ identity r.1 = (nextID + 1, l.sess.poolMode, l.sess.trackedParams) ∧
      .issueID ∈ r.2

lemma adopt_identity (opts : RuntimeOpts) (b : BackendConn) (nextID : ℕ) (l : Local) (c : Conn)
    (msg : FrontendMsg) : KeepsIdentity nextID l (adopt opts b nextID l c msg) := by
  unfold adopt ensureID
  by_cases hid : l.sess.id = 0
  · refine .inr ⟨hid, ?_, ?_⟩
    · simp only [hid, if_true]
      exact adoptAs_identity opts b _ c msg
    · simp [hid]
  · refine .inl ?_
    simp only [hid, if_false]
    exact adoptAs_identity opts b l c msg

lemma KeepsIdentity.prepend (acts : List Act) (h : KeepsIdentity nextID l r) :
    KeepsIdentity nextID l (r.1, acts ++ r.2) := by
  rcases h with h | ⟨h0, h1, h2⟩
  · exact .inl h
  · exact .inr ⟨h0, h1, List.mem_append_right _ h2⟩

lemma outerStep_identity {backend : Option Conn} (h : outerStep opts conns l backend i = some r) :
    identity r.1 = identity l := by
  unfold outerStep at h
  split at h
  · obtain ⟨t, -, rfl⟩ := Option.map_eq_some_iff.mp h
    rfl
  · cases h; rfl
  · cases h; rfl
  · split at h <;> cases h
    · rfl
    · exact beginBatch_identity l _ _ _
  · cases h

lemma drainCheckStep_identity (h : drainCheckStep l msg i = some r) :
    identity r.1 = identity l := by
  unfold drainCheckStep at h
  split at h <;> cases h <;> rfl

lemma acquireStep_identity (h : acquireStep opts conns nextID l msg i = some r) :
    KeepsIdentity nextID l r := by
  unfold acquireStep at h
  split at h
  · cases h; exact .inl rfl
  · cases h
    exact (adopt_identity opts _ nextID l _ _).prepend [_]
  · split at h <;> cases h
    · exact .inl rfl
    · exact .inl rfl
    · exact .inl (failQuery_identity l _ _ _)
    · exact .inl (failQuery_identity l _ _ _)
  · cases h

lemma checkStep_identity {pc : PC} (h : checkStep opts conns nextID l c msg pc i = some r) :
    KeepsIdentity nextID l r := by
  unfold checkStep at h
  split at h
  · cases h; exact .inl rfl
  · cases h; exact .inl rfl
  · cases h; exact .inl rfl
  · cases h; exact .inl rfl
  · cases h; exact .inl rfl
  · split at h <;> cases h
    · exact .inl rfl
    · exact (adopt_identity opts _ nextID l c msg).prepend _
    · exact .inl rfl
  · cases h

lemma resetStep_identity {pc : PC} (h : resetStep opts conns l c msg pc i = some r) :
    identity r.1 = identity l := by
  unfold resetStep at h
  split at h
  · cases h; rfl
  · cases h; exact failQuery_identity l msg _ _
  · cases h; rfl
  · cases h; exact failQuery_identity l msg _ _
  · cases h; exact failQuery_identity l msg _ _
  · split at h <;> cases h
    · exact failQuery_identity l msg _ _
    · exact replayParams_identity l c msg
    · rfl
  · cases h

lemma paramsStep_identity {pc : PC} (h : paramsStep conns l c msg pc i = some r) :
    identity r.1 = identity l := by
  unfold paramsStep at h
  split at h
  · cases h; rfl
  · cases h; exact failQuery_identity l msg _ _
  · cases h; exact failQuery_identity l msg _ _
  · split at h <;> cases h
    · exact failQuery_identity l msg _ _
    · exact beginBatch_identity l c ∅ msg
    · rfl
  · cases h

lemma failStep_identity {pc : PC} (h : failStep l pc i = some r) : identity r.1 = identity l := by
  unfold failStep at h
  repeat' split at h
  all_goals (cases h <;> rfl)

lemma batchStep_identity {pc : PC} (h : batchStep opts conns l c pc i = some r) :
    identity r.1 = identity l := by
  unfold batchStep at h
  split at h
  · cases h; rfl
  · split at h
    · cases h; rfl
    · split at h <;> cases h
      · rename_i hr
        exact forward_identity hr
      · rfl
  · cases h; rfl
  · cases h; rfl
  · cases h

lemma replyStep_identity {pc : PC} (h : replyStep opts l c pc i = some r) :
    identity r.1 = identity l := by
  unfold replyStep at h
  split at h
  · cases h; exact onReply_identity l c _
  · cases h; rfl
  · split at h <;> cases h
    rfl
  · cases h; exact (afterReply_identity _ c _).trans rfl
  · cases h; rfl
  · cases h

lemma copyInStep_identity {pc : PC} (h : copyInStep conns l c pc i = some r) :
    identity r.1 = identity l := by
  unfold copyInStep at h
  repeat' split at h
  all_goals (cases h <;> rfl)

lemma copyBothStep_identity {st : CopyBoth} (h : copyBothStep conns l c st i = some r) :
    identity r.1 = identity l := by
  unfold copyBothStep at h
  split at h
  · cases h; rfl
  · cases h; exact conclude_identity l c _
  · cases h; exact conclude_identity l c _
  · cases h; rfl
  · cases h; exact conclude_identity l c _
  · cases h; exact conclude_identity l c _
  · split at h <;> cases h
    rfl
  · cases h

/-- Every step keeps the session's mode and parameters, and its id once issued. -/
theorem step_identity (h : step opts conns nextID l i = some r) : KeepsIdentity nextID l r := by
  unfold step at h
  cases hpc : l.pc with
  | outer backend => rw [hpc] at h; exact .inl (outerStep_identity h)
  | drainCheck msg =>
    rw [hpc] at h
    exact .inl (drainCheckStep_identity h)
  | acquiring msg => rw [hpc] at h; exact acquireStep_identity h
  | checkArm c msg => rw [hpc] at h; exact checkStep_identity h
  | checkFlush c msg => rw [hpc] at h; exact checkStep_identity h
  | checkRecv c msg => rw [hpc] at h; exact checkStep_identity h
  | resetArm c msg => rw [hpc] at h; exact .inl (resetStep_identity h)
  | resetFlush c msg => rw [hpc] at h; exact .inl (resetStep_identity h)
  | resetRecv c msg => rw [hpc] at h; exact .inl (resetStep_identity h)
  | paramsFlush c msg => rw [hpc] at h; exact .inl (paramsStep_identity h)
  | paramsRecv c msg => rw [hpc] at h; exact .inl (paramsStep_identity h)
  | drain code message => rw [hpc] at h; exact .inl (failStep_identity h)
  | failFlush => rw [hpc] at h; exact .inl (failStep_identity h)
  | batch c => rw [hpc] at h; exact .inl (batchStep_identity h)
  | feFlush c => rw [hpc] at h; exact .inl (batchStep_identity h)
  | replies c => rw [hpc] at h; exact .inl (replyStep_identity h)
  | clientFlush c m => rw [hpc] at h; exact .inl (replyStep_identity h)
  | copyIn c n => rw [hpc] at h; exact .inl (copyInStep_identity h)
  | copyInFlush c n => rw [hpc] at h; exact .inl (copyInStep_identity h)
  | copyBoth c st => rw [hpc] at h; exact .inl (copyBothStep_identity h)
  | done => rw [hpc] at h; simp at h

end Keeps


end Relay

end Pgman
