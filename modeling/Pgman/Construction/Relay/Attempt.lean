import Pgman.Construction.Relay.Tidy

/-!
# A message in want of a backend

From the message that begins a batch until a backend is ready for it, the session checks for a
shutdown, waits in `Acquire`, checks the health of what it is given and adopts it.  `Attempt` lists
how a step of that can end, with what the client is told and what is sent: the message goes on
waiting, enters a batch, ends the session at the prepared-statement ceiling or at a shutdown, or is
handed to `failQuery`, because `Acquire` failed or because the connection could not be adopted.
-/

namespace Pgman

/-- Acts that concern neither the client nor its messages. -/
def Act.aside : Act → Prop
  | .send _ .client _ | .send _ .inject _ | .toClient _ | .flushClient _ | .adoptFail _ => False
  | _ => True

/-- Acts by which a message enters a batch. -/
def Act.enters : Act → Prop
  | .send _ .client _ | .send _ .inject _ | .setStmts _ _ => True
  | _ => False

/-- The results of a shutdown. -/
def Input.shutdown : Input → Bool
  | .draining true | .acquireErr .poolClosed _ | .acquireErr (.dial .poolClosed) _ => true
  | _ => false

namespace Relay

/-- How a step ends that brings message `m` nearer to a backend; `pend` is the size of the client's
write buffer. -/
inductive Adopts (pend : ℕ) (m : FrontendMsg) (r : Local × List Act) : Prop
  | waits (hacts : ∀ a ∈ r.2, a.aside) (hpc : r.1.pc.msg = some m) (hpend : r.1.pending = pend)
  | begins (c : Conn) (acts entry : List Act) (h : r.2 = acts ++ entry)
      (hacts : ∀ a ∈ acts, a.aside) (hentry : ∀ a ∈ entry, a.enters)
      (hpc : r.1.pc = if isTerminalMessage m then .feFlush c else .batch c)
      (hpend : r.1.pending = pend)
  | ceiling (hacts : ∀ a ∈ r.2, ∀ c, a ≠ .adoptFail c) (hpc : r.1.pc = .done)

/-- How a step of a session that wants a backend for message `m` ends. -/
inductive Attempt (l : Local) (m : FrontendMsg) (i : Input) (r : Local × List Act) : Prop
  | adopts (hi : ∀ err text, i ≠ .acquireErr err text) (h : Adopts l.pending m r)
  | shutdown (hi : i.shutdown = true) (hpc : r.1.pc = .done)
  /-- `Acquire` failed. -/
  | refused (err : Pool.AcquireErr) (text code message : String) (hi : i = .acquireErr err text)
      (h : r = failQuery l m code message)
  /-- `adoptBackend` failed. -/
  | unfit (c : Conn) (acts : List Act) (code message : String)
      (hi : ∀ err text, i ≠ .acquireErr err text) (hacts : ∀ a ∈ acts, a.aside)
      (h : r = ((failQuery l m code message).1,
        acts ++ [Act.adoptFail c, .discard c] ++ (failQuery l m code message).2))

variable {opts : RuntimeOpts} {conns : Conn → BackendConn} {nextID pend : ℕ} {l : Local} {c : Conn}
  {m : FrontendMsg} {stmts : BackendPSCache} {i : Input} {r : Local × List Act}

lemma Adopts.prepend (h : Adopts pend m r) (acts : List Act) (hacts : ∀ a ∈ acts, a.aside) :
    Adopts pend m (r.1, acts ++ r.2) := by
  have hboth : ∀ {acts' : List Act}, (∀ a ∈ acts', a.aside) → ∀ a ∈ acts ++ acts', a.aside := by
    intro acts' h' a ha
    exact (List.mem_append.mp ha).elim (hacts a) (h' a)
  cases h with
  | waits h1 hpc hpend => exact .waits (hboth h1) hpc hpend
  | begins c acts' entry h h1 h2 hpc hpend =>
    exact .begins c (acts ++ acts') entry (by rw [h, List.append_assoc]) (hboth h1) h2 hpc hpend
  | ceiling h1 hpc =>
    refine .ceiling (fun a ha c hac => ?_) hpc
    rcases List.mem_append.mp ha with ha | ha
    · exact (hac ▸ hacts a ha : (Act.adoptFail c).aside)
    · exact h1 a ha c hac

lemma forward_enters (h : forward l c stmts m = .ok r) :
    (∀ a ∈ r.2, a.enters) ∧ r.1.pc = (if isTerminalMessage m then .feFlush c else .batch c) ∧
      r.1.pending = l.pending := by
  unfold forward at h
  split at h <;> cases h
  refine ⟨fun a ha => ?_, rfl, rfl⟩
  simp only [List.mem_append, List.mem_map, List.mem_cons, List.not_mem_nil, or_false] at ha
  rcases ha with ⟨m', -, rfl⟩ | rfl | rfl <;> trivial

lemma beginBatch_adopts (l : Local) (c : Conn) (stmts : BackendPSCache) (m : FrontendMsg) :
    Adopts l.pending m (beginBatch l c stmts m) := by
  unfold beginBatch
  split
  · next r hf =>
    obtain ⟨hentry, hpc, hpend⟩ := forward_enters hf
    exact .begins c [] r.2 rfl (fun _ ha => nomatch ha) hentry hpc hpend
  · refine .ceiling (fun a ha c' hac => ?_) rfl
    subst hac
    unfold release ceilingReport at ha
    split at ha <;> simp at ha

lemma replayParams_adopts (l : Local) (c : Conn) (m : FrontendMsg) :
    Adopts l.pending m (replayParams l c m) := by
  unfold replayParams
  split
  · exact (beginBatch_adopts l c ∅ m).prepend [.clearStmts c, .setOwner c l.sess.id]
      (by simp [Act.aside])
  · exact .waits (by simp [Act.aside]) rfl rfl

lemma adopt_adopts (opts : RuntimeOpts) (b : BackendConn) (nextID : ℕ) (l : Local) (c : Conn)
    (m : FrontendMsg) : Adopts l.pending m (adopt opts b nextID l c m) := by
  have hid : (∀ a ∈ (ensureID nextID l).2, a.aside) ∧
      (ensureID nextID l).1.pending = l.pending := by
    unfold ensureID
    split <;> simp [Act.aside]
  refine Adopts.prepend ?_ _ hid.1
  rw [← hid.2]
  unfold adoptAs
  split
  · exact beginBatch_adopts _ c _ m
  · split
    · exact .waits (by simp) rfl rfl
    · exact replayParams_adopts _ c m

lemma adoptFailed_unfit (hi : ∀ err text, i ≠ .acquireErr err text) (acts : List Act)
    (hacts : ∀ a ∈ acts, a.aside) (err : String) :
    Attempt l m i ((adoptFailed l c m err).1, acts ++ (adoptFailed l c m err).2) := by
  refine .unfit c acts "08006" ("backend could not be prepared for this session: " ++ err) hi
    hacts ?_
  rw [adoptFailed, List.append_assoc]

lemma acquireStep_attempt (h : acquireStep opts conns nextID l m i = some r) :
    Attempt l m i r := by
  unfold acquireStep at h
  split at h
  · cases h
    exact .adopts (by simp) (.waits (by simp [Act.aside]) rfl rfl)
  · next c =>
    cases h
    exact .adopts (by simp) ((adopt_adopts opts _ nextID l c m).prepend [.acquire c]
      (by simp [Act.aside]))
  · next err text =>
    split at h <;> cases h
    · exact .shutdown rfl rfl
    · exact .shutdown rfl rfl
    · exact .refused _ text _ _ rfl rfl
    · exact .refused _ text _ _ rfl rfl
  · cases h

lemma checkStep_attempt {pc : PC} (h : checkStep opts conns nextID l c m pc i = some r) :
    Attempt l m i r := by
  unfold checkStep at h
  split at h
  · cases h; exact .adopts (by simp) (.waits (by simp [Act.aside]) rfl rfl)
  · cases h; exact .adopts (by simp) (.waits (by simp [Act.aside]) rfl rfl)
  · cases h; exact .adopts (by simp) (.waits (by simp [Act.aside]) rfl rfl)
  · cases h; exact .adopts (by simp) (.waits (by simp [Act.aside]) rfl rfl)
  · cases h; exact .adopts (by simp) (.waits (by simp [Act.aside]) rfl rfl)
  · split at h <;> cases h
    · exact .adopts (by simp) (.waits (by simp [Act.aside]) rfl rfl)
    · exact .adopts (by simp) ((adopt_adopts opts _ nextID l c m).prepend _ (by simp [Act.aside]))
    · exact .adopts (by simp) (.waits (by simp [Act.aside]) rfl rfl)
  · cases h

lemma resetStep_attempt {pc : PC} (h : resetStep opts conns l c m pc i = some r) :
    Attempt l m i r := by
  unfold resetStep at h
  split at h
  · cases h; exact .adopts (by simp) (.waits (by simp [Act.aside]) rfl rfl)
  · cases h; exact adoptFailed_unfit (by simp) [] (by simp) _
  · cases h; exact .adopts (by simp) (.waits (by simp [Act.aside]) rfl rfl)
  · cases h; exact adoptFailed_unfit (by simp) _ (by simp [Act.aside]) _
  · cases h; exact adoptFailed_unfit (by simp) _ (by simp [Act.aside]) _
  · split at h <;> cases h
    · exact adoptFailed_unfit (by simp) _ (by simp [Act.aside]) _
    · exact .adopts (by simp) ((replayParams_adopts l c m).prepend _ (by simp [Act.aside]))
    · exact .adopts (by simp) (.waits (by simp [Act.aside]) rfl rfl)
  · cases h

lemma paramsStep_attempt {pc : PC} (h : paramsStep conns l c m pc i = some r) :
    Attempt l m i r := by
  unfold paramsStep at h
  split at h
  · cases h; exact .adopts (by simp) (.waits (by simp [Act.aside]) rfl rfl)
  · cases h; exact adoptFailed_unfit (by simp) [.flushErr c .params] (by simp [Act.aside]) _
  · cases h; exact adoptFailed_unfit (by simp) [.recvErr c .params] (by simp [Act.aside]) _
  · split at h <;> cases h
    · exact adoptFailed_unfit (by simp) [_] (by simp [Act.aside]) _
    · exact .adopts (by simp) ((beginBatch_adopts l c ∅ m).prepend
        [.recv c .params _ .consume, .setOwner c l.sess.id] (by simp [Act.aside]))
    · exact .adopts (by simp) (.waits (by simp [Act.aside]) rfl rfl)
  · cases h

/-- **A step of a session that wants a backend.** -/
theorem attempt_step (hm : l.pc.msg = some m) (h : step opts conns nextID l i = some r) :
    Attempt l m i r := by
  unfold step at h
  cases hpc : l.pc <;> simp only [hpc, PC.msg, Option.some.injEq, reduceCtorEq] at hm h
  case drainCheck =>
    subst hm
    unfold drainCheckStep at h
    split at h <;> cases h
    · exact .shutdown rfl rfl
    · exact .adopts (by simp) (.waits (by simp) rfl rfl)
  case acquiring => exact hm ▸ acquireStep_attempt h
  case checkArm | checkFlush | checkRecv => exact hm ▸ checkStep_attempt h
  case resetArm | resetFlush | resetRecv => exact hm ▸ resetStep_attempt h
  case paramsFlush | paramsRecv => exact hm ▸ paramsStep_attempt h

end Relay

end Pgman
