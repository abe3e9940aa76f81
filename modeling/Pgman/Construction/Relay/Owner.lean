import Pgman.Construction.Relay.Service

/-!
# Who signs the owner tag

`stateOwner` is written in two places: `release` and the end of `adoptBackend`.  Both write
the id of the session that has the connection, and that id has been issued by then: a
session without one gets it at the top of `adoptBackend`.
-/

namespace Pgman

namespace Relay

variable {opts : RuntimeOpts} {conns : Conn → BackendConn} {nextID : ℕ} {l l' : Local} {c : Conn}
  {msg : FrontendMsg} {stmts : BackendPSCache} {i : Input} {r : Local × List Act}

/-- Every owner tag among the acts is `id`. -/
def Signs (id : ℕ) (acts : List Act) : Prop := ∀ c id', .setOwner c id' ∈ acts → id' = id

lemma Signs.of_none {id : ℕ} {acts : List Act} (h : ∀ c id', .setOwner c id' ∉ acts) :
    Signs id acts := fun c id' hmem => (h c id' hmem).elim

lemma Signs.append {id : ℕ} {acts acts' : List Act} (h : Signs id acts) (h' : Signs id acts') :
    Signs id (acts ++ acts') := by
  intro c id' hmem
  rcases List.mem_append.mp hmem with hmem | hmem
  · exact h c id' hmem
  · exact h' c id' hmem

lemma Signs.cons {id : ℕ} {a : Act} {acts : List Act} (ha : ∀ c id', a = .setOwner c id' → id' = id)
    (h : Signs id acts) : Signs id (a :: acts) := by
  intro c id' hmem
  rcases List.mem_cons.mp hmem with hmem | hmem
  · exact ha c id' hmem.symm
  · exact h c id' hmem

lemma release_signs (l : Local) (c : Conn) (reusable : Bool) :
    Signs l.sess.id (release l c reusable) := by
  cases reusable <;> simp [Signs, release]

lemma leave_signs (l : Local) (backend : Option Conn) : Signs l.sess.id (leave l backend).2 := by
  cases backend with
  | none => simp [Signs, leave]
  | some c => exact release_signs l c _

lemma forward_signs {id : ℕ} (h : forward l c stmts msg = .ok r) : Signs id r.2 := by
  unfold forward at h
  split at h <;> cases h
  exact .of_none (by simp)

lemma beginBatch_signs (l : Local) (c : Conn) (stmts : BackendPSCache) (msg : FrontendMsg) :
    Signs l.sess.id (beginBatch l c stmts msg).2 := by
  unfold beginBatch
  split
  · rename_i hr
    exact forward_signs hr
  · exact (release_signs l c _).cons (by simp [ceilingReport])

lemma adopted_signs (l : Local) (c : Conn) (msg : FrontendMsg) :
    Signs l.sess.id (adopted l c msg).2 :=
  (beginBatch_signs l c ∅ msg).cons (by simp)

lemma replayParams_signs (l : Local) (c : Conn) (msg : FrontendMsg) :
    Signs l.sess.id (replayParams l c msg).2 := by
  unfold replayParams
  split
  · exact (adopted_signs l c msg).cons (by simp)
  · exact .of_none (by simp)

lemma adoptAs_signs (opts : RuntimeOpts) (b : BackendConn) (l : Local) (c : Conn)
    (msg : FrontendMsg) : Signs l.sess.id (adoptAs opts b l c msg).2 := by
  unfold adoptAs
  split
  · exact beginBatch_signs l c _ msg
  · split
    · exact .of_none (by simp)
    · exact replayParams_signs l c msg

lemma ensureID_id_ne_zero (nextID : ℕ) (l : Local) : (ensureID nextID l).1.sess.id ≠ 0 := by
  unfold ensureID
  split
  · simp
  · assumption

lemma adopt_id (opts : RuntimeOpts) (b : BackendConn) (nextID : ℕ) (l : Local) (c : Conn)
    (msg : FrontendMsg) :
    (adopt opts b nextID l c msg).1.sess.id = (ensureID nextID l).1.sess.id :=
  congrArg Prod.fst (adoptAs_identity opts b (ensureID nextID l).1 c msg)

lemma adopt_signs (opts : RuntimeOpts) (b : BackendConn) (nextID : ℕ) (l : Local) (c : Conn)
    (msg : FrontendMsg) : Signs (adopt opts b nextID l c msg).1.sess.id
      (adopt opts b nextID l c msg).2 := by
  rw [adopt_id]
  refine Signs.append (.of_none ?_) (adoptAs_signs opts b _ c msg)
  unfold ensureID
  split <;> simp

lemma failQuery_signs {id : ℕ} (l : Local) (msg : FrontendMsg) (code message : String) :
    Signs id (failQuery l msg code message).2 := by
  unfold failQuery reportFailure
  split <;> exact .of_none (by simp)

lemma adoptFailed_signs {id : ℕ} (l : Local) (c : Conn) (msg : FrontendMsg) (err : String) :
    Signs id (adoptFailed l c msg err).2 :=
  Signs.append (.of_none (by simp)) (failQuery_signs l msg _ _)

lemma outerStep_signs {backend : Option Conn} (h : outerStep opts conns l backend i = some r) :
    Signs l.sess.id r.2 := by
  unfold outerStep at h
  split at h
  · obtain ⟨t, -, rfl⟩ := Option.map_eq_some_iff.mp h
    exact (leave_signs l backend).cons (by simp)
  · cases h; exact leave_signs l backend
  · cases h; exact leave_signs l backend
  · split at h <;> cases h
    · exact .of_none (by simp)
    · exact beginBatch_signs l _ _ _
  · cases h

lemma resetStep_signs {pc : PC} (h : resetStep opts conns l c msg pc i = some r) :
    Signs l.sess.id r.2 := by
  unfold resetStep at h
  split at h
  · cases h; exact .of_none (by simp)
  · cases h; exact adoptFailed_signs l c msg _
  · cases h; exact .of_none (by simp)
  · cases h; exact Signs.append (.of_none (by simp)) (adoptFailed_signs l c msg _)
  · cases h; exact Signs.append (.of_none (by simp)) (adoptFailed_signs l c msg _)
  · split at h <;> cases h
    · exact Signs.append (.of_none (by simp)) (adoptFailed_signs l c msg _)
    · exact Signs.append (.of_none (by simp)) (replayParams_signs l c msg)
    · exact .of_none (by simp)
  · cases h

lemma paramsStep_signs {pc : PC} (h : paramsStep conns l c msg pc i = some r) :
    Signs l.sess.id r.2 := by
  unfold paramsStep at h
  split at h
  · cases h; exact .of_none (by simp)
  · cases h; exact (adoptFailed_signs l c msg _).cons (by simp)
  · cases h; exact (adoptFailed_signs l c msg _).cons (by simp)
  · split at h <;> cases h
    · exact (adoptFailed_signs l c msg _).cons (by simp)
    · exact (adopted_signs l c msg).cons (by simp)
    · exact .of_none (by simp)
  · cases h

lemma batch_signs (h : batchStep opts conns l c (.batch c) i = some r) : Signs l.sess.id r.2 := by
  unfold batchStep at h
  split at h
  · cases h; exact leave_signs l (some c)
  · split at h
    · cases h; exact leave_signs l (some c)
    · split at h <;> cases h
      · rename_i hr
        exact forward_signs hr
      · exact (release_signs l c _).cons (by simp [ceilingReport])
  · simp_all
  · simp_all
  · cases h

lemma ServiceEnd.signs {sess : Session} (h : ServiceEnd sess c i r) : Signs sess.id r.2 := by
  have hplain : ∀ {acts : List Act}, (∀ a ∈ acts, a.plain c i) → Signs sess.id acts :=
    fun hacts => .of_none (fun c' id' hmem => (hacts _ hmem).elim)
  cases h with
  | stay _ hacts _ => exact hplain hacts
  | back _ acts hacts h2 _ =>
    rw [h2]
    exact (hplain hacts).append (by simp [Signs])
  | drop _ acts tail hacts htail h2 _ =>
    rw [h2]
    refine (hplain hacts).append (Signs.cons (by simp) (.of_none (fun c' id' hmem => ?_)))
    simpa [Act.on] using htail _ hmem

/-- A step that starts with the connection in hand signs with the session's id. -/
lemma holding_signs (hg : l.grip = .holding c) (h : step opts conns nextID l i = some r) :
    Signs l.sess.id r.2 := by
  cases working_step hg h with
  | outer _ h => exact outerStep_signs h
  | reset msg _ h => exact resetStep_signs h
  | params msg _ h => exact paramsStep_signs h
  | batch _ h => exact batch_signs h
  | service _ h => exact h.signs

/-- A session that has a connection in hand has an id. -/
def Named (l : Local) : Prop := ∀ c, l.grip = .holding c → l.sess.id ≠ 0

lemma adopt_id_ne_zero (opts : RuntimeOpts) (b : BackendConn) (nextID : ℕ) (l : Local) (c : Conn)
    (msg : FrontendMsg) : (adopt opts b nextID l c msg).1.sess.id ≠ 0 := by
  rw [adopt_id]
  exact ensureID_id_ne_zero nextID l

/-- A step that starts without a connection in hand: whatever it signs, it signs with an id,
and with an id it ends if it ends with a connection in hand. -/
lemma unheld_signs (hg : ∀ c, l.grip ≠ .holding c) (h : step opts conns nextID l i = some r) :
    Named r.1 ∧ Signs r.1.sess.id r.2 ∧ ∀ c id, .setOwner c id ∈ r.2 → id ≠ 0 := by
  have hadopt : ∀ b c msg (acts : List Act), (∀ c id, .setOwner c id ∉ acts) →
      let a := adopt opts b nextID l c msg
      Named a.1 ∧ Signs a.1.sess.id (acts ++ a.2) ∧
        ∀ c id, .setOwner c id ∈ acts ++ a.2 → id ≠ 0 := by
    intro b c msg acts hacts a
    have hne := adopt_id_ne_zero opts b nextID l c msg
    have hsigns : Signs a.1.sess.id (acts ++ a.2) :=
      Signs.append (.of_none hacts) (adopt_signs opts b nextID l c msg)
    exact ⟨fun _ _ => hne, hsigns, fun c' id hmem => hsigns c' id hmem ▸ hne⟩
  have hquiet : (∀ c id, .setOwner c id ∉ r.2) → (∀ c, r.1.grip ≠ .holding c) →
      Named r.1 ∧ Signs r.1.sess.id r.2 ∧ ∀ c id, .setOwner c id ∈ r.2 → id ≠ 0 := fun h1 h2 =>
    ⟨fun c hc => (h2 c hc).elim, .of_none h1, fun c id hmem => (h1 c id hmem).elim⟩
  cases approach_step hg h with
  | idle _ _ hacts hr =>
    exact hquiet (fun c id hmem => by simpa [Act.on] using hacts _ hmem) (by simp [hr])
  | pop c msg _ _ hr =>
    subst hr
    exact hquiet (by simp) (by simp [Local.grip, PC.grip])
  | acquire c msg _ _ hr =>
    subst hr
    exact hadopt _ c msg [.acquire c] (by simp)
  | probe c _ _ hacts hr => exact hquiet (fun c' id hmem => (hacts _ hmem).elim) (by simp [hr])
  | reject c acts _ _ hacts h2 hr =>
    refine hquiet (fun c' id hmem => ?_) (by simp [hr])
    rw [h2] at hmem
    rcases List.mem_append.mp hmem with hmem | hmem
    · exact (hacts _ hmem).elim
    · simp at hmem
  | passed c msg acts _ hacts hr =>
    subst hr
    have := hadopt (conns c) c msg (acts ++ [Act.acquire c]) (fun c' id hmem => by
      rcases List.mem_append.mp hmem with hmem | hmem
      · exact (hacts _ hmem).elim
      · simp at hmem)
    simpa using this

/-- **The owner tag** is always the id of the session that writes it, and never zero. -/
theorem step_signs (hl : Named l) (h : step opts conns nextID l i = some r) :
    Named r.1 ∧ Signs r.1.sess.id r.2 ∧ ∀ c id, .setOwner c id ∈ r.2 → id ≠ 0 := by
  by_cases hg : ∃ c, l.grip = .holding c
  · obtain ⟨c, hg⟩ := hg
    have hne := hl c hg
    have hid : r.1.sess.id = l.sess.id := by
      rcases step_identity h with hsame | ⟨h0, -, -⟩
      · exact congrArg Prod.fst hsame
      · exact absurd h0 hne
    have hsigns := holding_signs hg h
    rw [← hid] at hne hsigns
    exact ⟨fun _ _ => hne, hsigns, fun c' id hmem => hsigns c' id hmem ▸ hne⟩
  · exact unheld_signs (fun c hc => hg ⟨c, hc⟩) h

end Relay

end Pgman
