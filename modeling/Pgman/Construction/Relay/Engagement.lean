import Pgman.Construction.Relay.Service

/-!
# A session engaged on a connection

Between the first message of a batch and the decision on its `ReadyForQuery`, and in the outer
loop while a connection is kept, a session is engaged on one connection.  `engaged_step` says
what a step can do then, outside of statement mode: go on, leave, end a batch and keep the
connection, or end a batch on status `'I'` and give it back.  `entering_step` says that the
other steps belong to no batch, except that the last of them begins one.
-/

namespace Pgman

/-- The connection the session is engaged on. -/
def PC.engaged : PC → Option Conn
  | .outer backend => backend
  | .batch c => some c
  | pc => pc.service

lemma PC.engaged_of_service {pc : PC} {c : Conn} (h : pc.service = some c) :
    pc.engaged = some c := by
  cases pc with
  | outer | batch => cases h
  | _ => exact h

lemma PC.service_of_engaged {pc : PC} (h : pc.engaged = none) : pc.service = none := by
  cases pc with
  | outer | batch => rfl
  | _ => exact h

/-- Acts that carry on with the work on `c`: no scrubbing, no health check, no lease, no end of
a batch. -/
def Act.proceeds (c : Conn) : Act → Prop
  | .setReadDeadline c' _ | .setStmts c' _ | .setOwner c' _ => c' = c
  | .flush c' site _ | .flushErr c' site | .recv c' site _ _ | .recvErr c' site =>
      c' = c ∧ (site = .reply ∨ site = .copyIn ∨ site = .copyBoth)
  | .send c' src _ => c' = c ∧ (src = .client ∨ src = .inject ∨ src = .synth)
  | .toClient _ | .flushClient _ => True
  | _ => False

/-- Acts that belong to no batch. -/
def Act.preliminary : Act → Prop
  | .send _ .client _ | .send _ .inject _ | .send _ .synth _ | .recv _ .reply _ _
  | .recv _ .copyBoth _ _ | .batchEnd _ _ => False
  | _ => True

attribute [local simp] Act.proceeds Act.preliminary

namespace Relay

variable {opts : RuntimeOpts} {conns : Conn → BackendConn} {nextID : ℕ} {l : Local} {c : Conn}
  {i : Input} {r : Local × List Act} {msg : FrontendMsg} {stmts : BackendPSCache}

/-- What an engaged session does next. -/
inductive Proceeds (l : Local) (c : Conn) (r : Local × List Act) : Prop
  | stay (hacts : ∀ a ∈ r.2, a.proceeds c) (hpc : r.1.pc.engaged = some c)
      (hst : r.1.lastTxStatus = l.lastTxStatus)
  /-- The session ends. -/
  | leave (acts : List Act) (last : Act) (tail : List Act) (hacts : ∀ a ∈ acts, a.proceeds c)
      (hlast : last = .discard c ∨ last = .release c ∧ l.lastTxStatus = 'I')
      (htail : ∀ a ∈ tail, a.on = none) (h : r.2 = acts ++ last :: tail) (hpc : r.1.pc = .done)
  /-- A batch ends, and the connection is kept. -/
  | turn (acts : List Act) (st : Char) (hacts : ∀ a ∈ acts, a.proceeds c)
      (h : r.2 = acts ++ [Act.batchEnd c st]) (hpc : r.1.pc = .outer (some c))
      (hst : r.1.lastTxStatus = st)
  /-- A batch ends, and the connection goes back. -/
  | back (acts acts' : List Act) (hmode : l.sess.poolMode = .transaction)
      (hacts : ∀ a ∈ acts, a.proceeds c) (hacts' : ∀ a ∈ acts', a.proceeds c)
      (h : r.2 = acts ++ Act.batchEnd c 'I' :: acts' ++ [Act.release c])
      (hpc : r.1.pc = .outer none)

/-- Something in front changes nothing. -/
lemma Proceeds.prepend {acts : List Act} (hacts : ∀ a ∈ acts, a.proceeds c)
    (h : Proceeds l c r) : Proceeds l c (r.1, acts ++ r.2) := by
  have hboth : ∀ {acts' : List Act}, (∀ a ∈ acts', a.proceeds c) →
      ∀ a ∈ acts ++ acts', a.proceeds c := by
    intro acts' h' a ha
    rcases List.mem_append.mp ha with ha | ha
    · exact hacts a ha
    · exact h' a ha
  cases h with
  | stay h1 hpc hst => exact .stay (hboth h1) hpc hst
  | leave acts' last tail h1 hlast ht h2 hpc =>
    exact .leave (acts ++ acts') last tail (hboth h1) hlast ht (by simp [h2]) hpc
  | turn acts' st h1 h2 hpc hst => exact .turn (acts ++ acts') st (hboth h1) (by simp [h2]) hpc hst
  | back acts' acts'' hm h1 h1' h2 hpc =>
    exact .back (acts ++ acts') acts'' hm (hboth h1) h1' (by simp [h2]) hpc

lemma Proceeds.cons {a : Act} (ha : a.proceeds c) (h : Proceeds l c r) :
    Proceeds l c (r.1, a :: r.2) :=
  h.prepend (show ∀ a' ∈ [a], a'.proceeds c by simpa using ha)

/-- `release` and return, with the status to decide by. -/
lemma release_proceeds (l₀ : Local) {l' : Local} (reusable : Bool) (hpc : l'.pc = .done)
    (h : reusable = true → l₀.lastTxStatus = 'I') :
    Proceeds l₀ c (l', release l c reusable) := by
  cases reusable
  · exact .leave [.setReadDeadline c false] (.discard c) [] (by simp [Act.proceeds]) (.inl rfl)
      (by simp) rfl hpc
  · exact .leave [.setReadDeadline c false, .setOwner c l.sess.id] (.release c) []
      (by simp [Act.proceeds]) (.inr ⟨rfl, h rfl⟩) (by simp) rfl hpc

lemma abandon_proceeds (l₀ : Local) : Proceeds l₀ c (abandon l c) :=
  release_proceeds l₀ false rfl (by simp)

lemma leave_proceeds : Proceeds l c (leave l (some c)) :=
  release_proceeds l _ rfl (by simp)

/-- The report of a ceiling, then `release` and return. -/
lemma refuse_proceeds (err : String) (reusable : Bool)
    (h : reusable = true → l.lastTxStatus = 'I') :
    Proceeds l c ({ l with pc := .done }, ceilingReport err :: release l c reusable) := by
  have hrelease : Proceeds l c ({ l with pc := .done }, release l c reusable) :=
    release_proceeds l reusable rfl h
  exact hrelease.cons (a := ceilingReport err) trivial

lemma forward_stays (h : forward l c stmts msg = .ok r) :
    (∀ a ∈ r.2, a.proceeds c) ∧ r.1.pc.engaged = some c ∧ r.1.lastTxStatus = l.lastTxStatus := by
  unfold forward at h
  split at h <;> cases h
  refine ⟨?_, ?_, rfl⟩
  · intro a ha
    simp only [List.mem_append, List.mem_map, List.mem_cons, List.not_mem_nil, or_false] at ha
    rcases ha with ⟨m, -, rfl⟩ | rfl | rfl <;> simp [Act.proceeds]
  · simp only
    split <;> rfl

lemma beginBatch_proceeds (l : Local) (c : Conn) (stmts : BackendPSCache) (msg : FrontendMsg) :
    Proceeds l c (beginBatch l c stmts msg) := by
  unfold beginBatch
  split
  · rename_i h
    obtain ⟨hacts, hpc, hst⟩ := forward_stays h
    exact .stay hacts hpc hst
  · exact refuse_proceeds _ _ (by simp)

lemma endBatch_proceeds (l₀ : Local) (st : Char) (hmode : l.sess.poolMode ≠ .statement)
    (hl₀ : l.sess.poolMode = l₀.sess.poolMode) : Proceeds l₀ c (endBatch l c st) := by
  have hkeep : Proceeds l₀ c ({ l with lastTxStatus := st, pc := .outer (some c) },
      [.setReadDeadline c false, .batchEnd c st]) :=
    .turn [.setReadDeadline c false] st (by simp [Act.proceeds]) rfl rfl rfl
  unfold endBatch
  simp only
  split
  · exact absurd ‹_› hmode
  · exact hkeep
  · rename_i htxn
    split
    · rename_i hst
      exact .back [.setReadDeadline c false] [.setReadDeadline c false, .setOwner c l.sess.id]
        (hl₀ ▸ htxn) (by simp [Act.proceeds]) (by simp [Act.proceeds]) (by simp [hst, release]) rfl
    · exact hkeep

lemma afterReply_proceeds (l₀ : Local) (m : BackendMsg) (hmode : l.sess.poolMode ≠ .statement)
    (hl₀ : l.sess.poolMode = l₀.sess.poolMode) (hst : l.lastTxStatus = l₀.lastTxStatus) :
    Proceeds l₀ c (afterReply l c m) := by
  unfold afterReply
  split
  · exact .stay (by simp [Act.proceeds]) rfl hst
  · exact .stay (by simp [Act.proceeds]) rfl hst
  · exact endBatch_proceeds l₀ _ hmode hl₀
  · exact .stay (by simp) rfl hst

lemma onReply_proceeds (m : BackendMsg) : Proceeds l c (onReply l c m) := by
  unfold onReply
  split
  · exact .stay (by simp [Act.proceeds]) rfl rfl
  · refine .stay (by simp [Act.proceeds]) ?_ rfl
    simp only
    split <;> rfl

lemma conclude_proceeds (st : CopyBoth) : Proceeds l c (CopyBoth.conclude l c st) := by
  have hclear : ∀ a ∈ (if st.forced then [Act.setReadDeadline c false] else []),
      a.proceeds c := by
    split <;> simp [Act.proceeds]
  unfold CopyBoth.conclude
  split
  · simp only
    split
    · exact .stay hclear rfl rfl
    · exact (abandon_proceeds l).prepend hclear
  · exact .stay (by simp) rfl rfl

/-! ## The steps -/

lemma outerStep_proceeds (h : outerStep opts conns l (some c) i = some r) : Proceeds l c r := by
  unfold outerStep at h
  split at h
  · obtain ⟨t, -, rfl⟩ := Option.map_eq_some_iff.mp h
    exact leave_proceeds.cons trivial
  · cases h; exact leave_proceeds
  · cases h; exact leave_proceeds
  · cases h; exact beginBatch_proceeds l c _ _
  · cases h

lemma batchStep_proceeds {pc : PC} (h : batchStep opts conns l c pc i = some r) :
    Proceeds l c r := by
  unfold batchStep at h
  split at h
  · cases h; exact leave_proceeds
  · split at h
    · cases h; exact leave_proceeds
    · split at h <;> cases h
      · rename_i hf
        obtain ⟨hacts, hpc, hst⟩ := forward_stays hf
        exact .stay hacts hpc hst
      · exact refuse_proceeds _ _ (by simp)
  · cases h
    refine .stay ?_ rfl rfl
    split <;> simp [Act.proceeds]
  · cases h; exact (abandon_proceeds l).cons (by simp [Act.proceeds])
  · cases h

lemma replyStep_proceeds {pc : PC} (hmode : l.sess.poolMode ≠ .statement)
    (h : replyStep opts l c pc i = some r) : Proceeds l c r := by
  unfold replyStep at h
  split at h
  · cases h; exact onReply_proceeds _
  · cases h; exact (abandon_proceeds l).cons (by simp [Act.proceeds])
  · split at h <;> cases h
    exact .leave [.recvErr c .reply, .setReadDeadline c false] (.discard c) [_]
      (by simp [Act.proceeds]) (.inl rfl) (by simp [Act.on]) rfl rfl
  · cases h
    exact (afterReply_proceeds (l := { l with pending := 0 }) l _ hmode rfl rfl).cons trivial
  · cases h; exact (abandon_proceeds l).cons trivial
  · cases h

lemma copyInStep_proceeds {pc : PC} (h : copyInStep conns l c pc i = some r) :
    Proceeds l c r := by
  unfold copyInStep at h
  split at h
  · cases h; exact abandon_proceeds l
  · split at h <;> cases h
    · exact .stay (by simp [Act.proceeds]) rfl rfl
    · refine .stay (by simp [Act.proceeds]) ?_ rfl
      simp only
      split <;> rfl
    · exact .stay (by simp [Act.proceeds]) rfl rfl
    · exact .stay (by simp [Act.proceeds]) rfl rfl
    · exact .stay (by simp [Act.proceeds]) rfl rfl
  · cases h
    refine .stay (by simp [Act.proceeds]) ?_ rfl
    simp only
    split <;> rfl
  · cases h; exact (abandon_proceeds l).cons (by simp [Act.proceeds])
  · cases h

lemma copyBothStep_proceeds {st : CopyBoth} (h : copyBothStep conns l c st i = some r) :
    Proceeds l c r := by
  unfold copyBothStep at h
  split at h
  · cases h
    refine .stay ?_ rfl rfl
    simp only [CopyBoth.onClient]
    split <;> simp [Act.proceeds]
  · cases h; exact conclude_proceeds _
  · cases h
    refine (conclude_proceeds _).cons ?_
    split <;> simp [Act.proceeds]
  · cases h; exact .stay (by simp [Act.proceeds]) rfl rfl
  · cases h; exact (conclude_proceeds _).cons (by simp [Act.proceeds])
  · cases h; exact (conclude_proceeds _).cons trivial
  · split at h <;> cases h
    exact .stay (by simp [Act.proceeds]) rfl rfl
  · cases h

/-- **An engaged session**, outside of statement mode. -/
theorem engaged_step (hmode : l.sess.poolMode ≠ .statement) (hc : l.pc.engaged = some c)
    (h : step opts conns nextID l i = some r) : Proceeds l c r := by
  unfold step at h
  cases hpc : l.pc <;> simp only [hpc, PC.engaged, PC.service, Option.some.injEq, reduceCtorEq]
    at hc h
  case outer backend => subst hc; exact outerStep_proceeds h
  all_goals subst hc
  case batch => exact batchStep_proceeds h
  case feFlush => exact batchStep_proceeds h
  case replies => exact replyStep_proceeds hmode h
  case clientFlush => exact replyStep_proceeds hmode h
  case copyIn => exact copyInStep_proceeds h
  case copyInFlush => exact copyInStep_proceeds h
  case copyBoth => exact copyBothStep_proceeds h

/-! ## Entering -/

/-- What a session that is not engaged does next. -/
inductive Enters (r : Local × List Act) : Prop
  | outside (hacts : ∀ a ∈ r.2, a.preliminary) (hpc : r.1.pc.engaged = none)
  | begins (c : Conn) (l : Local) (stmts : BackendPSCache) (msg : FrontendMsg)
      (acts acts' : List Act) (h : r.2 = acts ++ acts') (hacts : ∀ a ∈ acts, a.preliminary)
      (hf : forward { l with swallow := .zero } c stmts msg = .ok (r.1, acts'))

lemma Enters.prepend {acts : List Act} (hacts : ∀ a ∈ acts, a.preliminary) (h : Enters r) :
    Enters (r.1, acts ++ r.2) := by
  have hboth : ∀ {acts' : List Act}, (∀ a ∈ acts', a.preliminary) →
      ∀ a ∈ acts ++ acts', a.preliminary := by
    intro acts' h' a ha
    rcases List.mem_append.mp ha with ha | ha
    · exact hacts a ha
    · exact h' a ha
  cases h with
  | outside h1 hpc => exact .outside (hboth h1) hpc
  | begins c l stmts msg acts₁ acts₂ h h1 hf =>
    exact .begins c l stmts msg (acts ++ acts₁) acts₂ (by simp [h]) (hboth h1) hf

lemma Enters.cons {a : Act} (ha : a.preliminary) (h : Enters r) : Enters (r.1, a :: r.2) :=
  h.prepend (show ∀ a' ∈ [a], a'.preliminary by simpa using ha)

lemma release_preliminary (l : Local) (c : Conn) (reusable : Bool) :
    ∀ a ∈ release l c reusable, a.preliminary := by
  cases reusable <;> simp [release, Act.preliminary]

lemma beginBatch_enters (l : Local) (c : Conn) (stmts : BackendPSCache) (msg : FrontendMsg) :
    Enters (beginBatch l c stmts msg) := by
  unfold beginBatch
  split
  · rename_i h
    exact .begins c l stmts msg [] _ rfl (by simp) h
  · refine .outside ?_ rfl
    simpa [ceilingReport, Act.preliminary] using release_preliminary l c _

lemma replayParams_enters (l : Local) (c : Conn) (msg : FrontendMsg) :
    Enters (replayParams l c msg) := by
  unfold replayParams
  split
  · have hacts : ∀ a ∈ [Act.clearStmts c, .setOwner c l.sess.id], a.preliminary := by
      simp [Act.preliminary]
    exact (beginBatch_enters l c ∅ msg).prepend hacts
  · exact .outside (by simp [Act.preliminary]) rfl

lemma adopt_enters (opts : RuntimeOpts) (b : BackendConn) (nextID : ℕ) (l : Local) (c : Conn)
    (msg : FrontendMsg) : Enters (adopt opts b nextID l c msg) := by
  have hid : ∀ a ∈ (ensureID nextID l).2, a.preliminary := by
    unfold ensureID
    split <;> simp [Act.preliminary]
  refine Enters.prepend hid ?_
  unfold adoptAs
  split
  · exact beginBatch_enters _ c _ msg
  · split
    · exact .outside (by simp) rfl
    · exact replayParams_enters _ c msg

lemma preliminary_of_on {a : Act} (h : a.on = none) : a.preliminary := by
  cases a <;> simp_all [Act.on, Act.preliminary]

lemma preliminary_of_probes {a : Act} (h : a.probes c) : a.preliminary := by
  unfold Act.probes at h
  split at h <;> simp_all [Act.preliminary]

lemma engaged_of_grip {pc : PC} (h : ∀ c, pc.grip ≠ .holding c) : pc.engaged = none := by
  cases pc with
  | outer backend =>
    cases backend with
    | none => rfl
    | some c => exact absurd rfl (h c)
  | batch c => exact absurd rfl (h c)
  | feFlush c => exact absurd rfl (h c)
  | replies c => exact absurd rfl (h c)
  | clientFlush c m => exact absurd rfl (h c)
  | copyIn c n => exact absurd rfl (h c)
  | copyInFlush c n => exact absurd rfl (h c)
  | copyBoth c st => exact absurd rfl (h c)
  | _ => rfl

/-- An engaged session has the connection in hand. -/
lemma grip_of_engaged {pc : PC} (h : pc.engaged = some c) : pc.grip = .holding c := by
  cases pc with
  | outer backend => simp_all [PC.engaged, PC.grip]
  | _ => simp_all [PC.engaged, PC.service, PC.grip]

lemma adoptFailed_enters (l : Local) (c : Conn) (msg : FrontendMsg) (err : String) :
    Enters (adoptFailed l c msg err) := by
  obtain ⟨-, hacts, hgrip⟩ := failQuery_idle l msg "08006"
    ("backend could not be prepared for this session: " ++ err)
  have hfail : ∀ a ∈ [Act.adoptFail c, .discard c], a.preliminary := by simp [Act.preliminary]
  refine Enters.prepend hfail (.outside (fun a ha => preliminary_of_on (hacts a ha)) ?_)
  exact engaged_of_grip (fun c' hc' => by simp [show PC.grip _ = _ from hgrip] at hc')

lemma resetStep_enters {pc : PC} (h : resetStep opts conns l c msg pc i = some r) : Enters r := by
  have hfail : ∀ (acts : List Act) (err : String), (∀ a ∈ acts, a.preliminary) →
      Enters ((adoptFailed l c msg err).1, acts ++ (adoptFailed l c msg err).2) :=
    fun acts err hacts => (adoptFailed_enters l c msg err).prepend hacts
  unfold resetStep at h
  split at h
  · cases h; exact .outside (by simp [Act.preliminary]) rfl
  · cases h; exact adoptFailed_enters l c msg _
  · cases h; exact .outside (by simp [Act.preliminary]) rfl
  · cases h; exact hfail _ _ (by simp [Act.preliminary])
  · cases h; exact hfail _ _ (by simp [Act.preliminary])
  · split at h <;> cases h
    · exact hfail _ _ (by simp [Act.preliminary])
    · exact (replayParams_enters l c msg).prepend (by simp [Act.preliminary])
    · exact .outside (by simp [Act.preliminary]) rfl
  · cases h

lemma paramsStep_enters {pc : PC} (h : paramsStep conns l c msg pc i = some r) : Enters r := by
  unfold paramsStep at h
  split at h
  · cases h; exact .outside (by simp [Act.preliminary]) rfl
  · cases h; exact (adoptFailed_enters l c msg _).cons (by simp [Act.preliminary])
  · cases h; exact (adoptFailed_enters l c msg _).cons (by simp [Act.preliminary])
  · split at h <;> cases h
    · exact (adoptFailed_enters l c msg _).cons (by simp [Act.preliminary])
    · have hacts : ∀ m, ∀ a ∈ [Act.recv c .params m .consume, .setOwner c l.sess.id],
          a.preliminary := by simp [Act.preliminary]
      exact (beginBatch_enters l c ∅ msg).prepend (hacts _)
    · exact .outside (by simp [Act.preliminary]) rfl
  · cases h

/-- **A session that is not engaged.** -/
theorem entering_step (hc : l.pc.engaged = none) (h : step opts conns nextID l i = some r) :
    Enters r := by
  by_cases hg : ∃ c, l.grip = .holding c
  · obtain ⟨c, hg⟩ := hg
    cases working_step hg h with
    | outer hpc => simp [hpc, PC.engaged] at hc
    | reset msg _ h => exact resetStep_enters h
    | params msg _ h => exact paramsStep_enters h
    | batch hpc => simp [hpc, PC.engaged] at hc
    | service hpc =>
      rw [PC.engaged_of_service hpc] at hc
      cases hc
  · have hloose : ∀ {l : Local}, (l.grip = .loose ∨ ∃ c, l.grip = .checking c) →
        l.pc.engaged = none := by
      intro l hl
      refine engaged_of_grip (fun c' hc' => ?_)
      rcases hl with hl | ⟨c, hl⟩ <;> simp [show PC.grip _ = _ from hl] at hc'
    cases approach_step (fun c hc => hg ⟨c, hc⟩) h with
    | idle _ _ hacts hr =>
      exact .outside (fun a ha => preliminary_of_on (hacts a ha)) (hloose (.inl hr))
    | pop c msg _ _ hr => rw [hr]; exact .outside (by simp [Act.preliminary]) rfl
    | acquire c msg _ _ hr =>
      rw [hr]
      exact (adopt_enters opts _ nextID l c msg).cons (a := .acquire c) trivial
    | probe c _ _ hacts hr =>
      exact .outside (fun a ha => preliminary_of_probes (hacts a ha)) (hloose (.inr ⟨c, hr⟩))
    | reject c acts _ _ hacts h hr =>
      refine .outside (fun a ha => ?_) (hloose (.inl hr))
      rw [h] at ha
      rcases List.mem_append.mp ha with ha | ha
      · exact preliminary_of_probes (hacts a ha)
      · simp_all [Act.preliminary]
    | passed c msg acts _ hacts hr =>
      rw [hr]
      have hacq := (adopt_enters opts (conns c) nextID l c msg).cons (a := .acquire c) trivial
      exact hacq.prepend (fun a ha => preliminary_of_probes (hacts a ha))

end Relay

end Pgman
