import Pgman.Construction.Relay.Tidy

/-!
# What a server was like when something was done to it

The log of a run says what the sessions have done.  It does not say what state a server was in at
the time: a server's own moves are not in it.  `Witnessed` is a run with a second record, for every
connection the acts about it, each with the server that it met.  No step reads it.

A server notices a session's flushes and reads, and a step of a session does one of them at most
(`step_noticed`).  So what is true of a link before the step is true of the server that the flush
or the read meets, and in orderly runs the servers are as the relay takes them to be
(`Witnessed.calm`).
-/

namespace Pgman

/-- An act, who did it, and the server that it met. -/
structure Moment where
  caller : Caller
  act : Act
  server : Server

/-- The entries about a connection. -/
def about (c : Conn) (es : List (Caller × Act)) : List (Caller × Act) :=
  es.filter fun e => e.2.on = some c

lemma mem_about {c : Conn} {e : Caller × Act} {es : List (Caller × Act)} :
    e ∈ about c es ↔ e ∈ es ∧ e.2.on = some c := by
  simp [about]

namespace Moment

/-- What the log says of it. -/
def entry (m : Moment) : Caller × Act := (m.caller, m.act)

/-- The moments of a connection, from a state of its link on. -/
def along (c : Conn) : Link → List (Caller × Act) → List Moment
  | _, [] => []
  | b, e :: es =>
    if e.2.on = some c then ⟨e.1, e.2, b.server⟩ :: along c (b.after e.2) es else along c b es

lemma map_entry_along (c : Conn) (b : Link) (es : List (Caller × Act)) :
    (along c b es).map entry = about c es := by
  induction es generalizing b with
  | nil => rfl
  | cons e es ih =>
    unfold along about
    by_cases hon : e.2.on = some c
    · rw [if_pos hon, List.filter_cons_of_pos (by simpa using hon), List.map_cons, ih]
      rfl
    · rw [if_neg hon, List.filter_cons_of_neg (by simpa using hon), ih]
      rfl

end Moment

/-! ## What a server notices -/

/-- The act is nothing that a server notices, nor the end of a batch. -/
def Act.unnoted : Act → Bool
  | .flush _ _ _ | .recv _ _ _ _ | .batchEnd _ _ => false
  | _ => true

lemma Server.hear_of_unnoted {a : Act} (h : a.unnoted = true) (s : Server) : s.hear a = s := by
  cases a with
  | flush | recv | batchEnd => cases h
  | _ => rfl

/-- A moment of a session's step is one of its acts. -/
lemma Moment.mem_along {c : Conn} {k : Caller} {acts : List Act} {b : Link} {m : Moment}
    (hm : m ∈ along c b (acts.map fun a => (k, a))) :
    m.caller = k ∧ m.act ∈ acts ∧ m.act.on = some c := by
  have hentry := List.mem_map_of_mem (f := entry) hm
  rw [map_entry_along, mem_about] at hentry
  obtain ⟨hmem, hon⟩ := hentry
  obtain ⟨a, ha, heq⟩ := List.mem_map.mp hmem
  obtain ⟨rfl, rfl⟩ : k = m.caller ∧ a = m.act := by simpa [entry] using heq
  exact ⟨rfl, ha, hon⟩

namespace Relay

/-- The acts of note, each with the point of the relay that it is done at and the input
that it takes. -/
inductive Opens (conns : Conn → BackendConn) : PC → Input → Act → Prop
  | checkFlush {c msg} :
      Opens conns (.checkFlush c msg) (.feFlush none) (.flush c .health (conns c).wbuf)
  | checkRecv {c msg m} :
      Opens conns (.checkRecv c msg) (.reply m) (.recv c .health m .consume)
  | resetFlush {c msg} :
      Opens conns (.resetFlush c msg) (.feFlush none) (.flush c .reset (conns c).wbuf)
  | resetRecv {c msg m} :
      Opens conns (.resetRecv c msg) (.reply m) (.recv c .reset m .consume)
  | paramsFlush {c msg} :
      Opens conns (.paramsFlush c msg) (.feFlush none) (.flush c .params (conns c).wbuf)
  | paramsRecv {c msg m} :
      Opens conns (.paramsRecv c msg) (.reply m) (.recv c .params m .consume)
  | feFlush {c} : Opens conns (.feFlush c) (.feFlush none) (.flush c .reply (conns c).wbuf)
  | replies {c m how} : Opens conns (.replies c) (.reply m) (.recv c .reply m how)
  | copyInFlush {c next} :
      Opens conns (.copyInFlush c next) (.feFlush none) (.flush c .copyIn (conns c).wbuf)
  | pumpFlush {c st} :
      Opens conns (.copyBoth c st) (.feFlush none) (.flush c .copyBoth (conns c).wbuf)
  | pumpRecv {c st m} : Opens conns (.copyBoth c st) (.reply m) (.recv c .copyBoth m .forward)
  | batchEnd {c st} :
      Opens conns (.clientFlush c (.readyForQuery st)) (.flushClient true) (.batchEnd c st)

/-- Acts of which one at most is of note. -/
inductive Noticed (conns : Conn → BackendConn) (pc : PC) (i : Input) : List Act → Prop
  | silent {acts : List Act} (h : ∀ a ∈ acts, a.unnoted = true) : Noticed conns pc i acts
  | once {before : List Act} {a : Act} {after : List Act} (hbefore : ∀ a ∈ before, a.unnoted = true)
      (ha : Opens conns pc i a) (hafter : ∀ a ∈ after, a.unnoted = true) :
      Noticed conns pc i (before ++ a :: after)

/-- The first act is of note. -/
lemma Noticed.opens {conns : Conn → BackendConn} {pc : PC} {i : Input} {a : Act} {acts : List Act}
    (ha : Opens conns pc i a) (h : ∀ a ∈ acts, a.unnoted = true) :
    Noticed conns pc i (a :: acts) := by
  have hbefore : ∀ b ∈ ([] : List Act), b.unnoted = true := by simp
  exact .once hbefore ha h

variable {opts : RuntimeOpts} {conns : Conn → BackendConn} {nextID : ℕ} {l : Local} {c : Conn}
  {msg : FrontendMsg} {stmts : BackendPSCache} {i : Input} {r : Local × List Act} {a : Act}
  {acts : List Act}

/-! ### The pieces of the loop -/

lemma release_unnoted (reusable : Bool) : ∀ a ∈ release l c reusable, a.unnoted = true := by
  cases reusable <;> simp [release, Act.unnoted]

lemma leave_unnoted (backend : Option Conn) : ∀ a ∈ (leave l backend).2, a.unnoted = true := by
  cases backend with
  | none => simp [leave]
  | some c => exact release_unnoted _

lemma forward_unnoted (h : forward l c stmts msg = .ok r) : ∀ a ∈ r.2, a.unnoted = true := by
  unfold forward at h
  split at h <;> cases h
  intro a ha
  rcases List.mem_append.mp ha with ha | ha
  · obtain ⟨m, -, rfl⟩ := List.mem_map.mp ha
    rfl
  · rcases List.mem_pair.mp ha with rfl | rfl <;> rfl

lemma unnoted_nil : ∀ a ∈ ([] : List Act), a.unnoted = true := by simp

lemma unnoted_cons (ha : a.unnoted = true) (h : ∀ a ∈ acts, a.unnoted = true) :
    ∀ a' ∈ a :: acts, a'.unnoted = true :=
  List.forall_mem_cons.mpr ⟨ha, h⟩

lemma beginBatch_unnoted (l : Local) (c : Conn) (stmts : BackendPSCache) (msg : FrontendMsg) :
    ∀ a ∈ (beginBatch l c stmts msg).2, a.unnoted = true := by
  unfold beginBatch
  split
  · rename_i h
    exact forward_unnoted h
  · exact unnoted_cons rfl (release_unnoted _)

lemma replayParams_unnoted (l : Local) (c : Conn) (msg : FrontendMsg) :
    ∀ a ∈ (replayParams l c msg).2, a.unnoted = true := by
  unfold replayParams
  split
  · exact unnoted_cons rfl (unnoted_cons rfl (beginBatch_unnoted l c ∅ msg))
  · simp [Act.unnoted]

lemma adopt_unnoted (opts : RuntimeOpts) (b : BackendConn) (nextID : ℕ) (l : Local) (c : Conn)
    (msg : FrontendMsg) : ∀ a ∈ (adopt opts b nextID l c msg).2, a.unnoted = true := by
  have has : ∀ l', ∀ a ∈ (adoptAs opts b l' c msg).2, a.unnoted = true := by
    intro l'
    unfold adoptAs
    split
    · exact beginBatch_unnoted l' c _ msg
    · split
      · simp
      · exact replayParams_unnoted l' c msg
  unfold adopt ensureID
  split
  · exact unnoted_cons rfl (has _)
  · exact has _

lemma failQuery_unnoted (l : Local) (msg : FrontendMsg) (code message : String) :
    ∀ a ∈ (failQuery l msg code message).2, a.unnoted = true := by
  unfold failQuery
  split
  · simp [reportFailure, Act.unnoted]
  · simp

lemma adoptFailed_unnoted (l : Local) (c : Conn) (msg : FrontendMsg) (err : String) :
    ∀ a ∈ (adoptFailed l c msg err).2, a.unnoted = true :=
  unnoted_cons rfl (unnoted_cons rfl (failQuery_unnoted l msg _ _))

lemma endBatch_ends (l : Local) (c : Conn) (st : Char) :
    ∃ acts, (endBatch l c st).2 = [.setReadDeadline c false, .batchEnd c st] ++ acts ∧
      ∀ a ∈ acts, a.unnoted = true := by
  unfold endBatch
  simp only
  split
  · exact ⟨_, rfl, release_unnoted _⟩
  · exact ⟨[], rfl, unnoted_nil⟩
  · split
    · exact ⟨_, rfl, release_unnoted _⟩
    · exact ⟨[], rfl, unnoted_nil⟩

lemma conclude_unnoted (l : Local) (c : Conn) (st : CopyBoth) :
    ∀ a ∈ (CopyBoth.conclude l c st).2, a.unnoted = true := by
  unfold CopyBoth.conclude
  split
  · simp only
    cases st.forced with
    | true =>
      split
      · simp [Act.unnoted]
      · exact unnoted_cons rfl (release_unnoted false)
    | false =>
      split
      · simp
      · exact release_unnoted false
  · simp

/-! ### The steps -/

lemma outerStep_noticed {backend : Option Conn} {pc : PC}
    (h : outerStep opts conns l backend i = some r) : Noticed conns pc i r.2 := by
  unfold outerStep at h
  split at h
  · obtain ⟨t, -, rfl⟩ := Option.map_eq_some_iff.mp h
    exact .silent (unnoted_cons rfl (leave_unnoted _))
  · cases h; exact .silent (leave_unnoted _)
  · cases h; exact .silent (leave_unnoted _)
  · split at h <;> cases h
    · exact .silent unnoted_nil
    · exact .silent (beginBatch_unnoted l _ _ _)
  · cases h

lemma drainCheckStep_noticed {pc : PC} (h : drainCheckStep l msg i = some r) :
    Noticed conns pc i r.2 := by
  unfold drainCheckStep at h
  split at h <;> cases h
  · exact .silent (unnoted_cons rfl unnoted_nil)
  · exact .silent unnoted_nil

lemma acquireStep_noticed {pc : PC} (h : acquireStep opts conns nextID l msg i = some r) :
    Noticed conns pc i r.2 := by
  unfold acquireStep at h
  split at h
  · cases h; exact .silent (unnoted_cons rfl unnoted_nil)
  · cases h; exact .silent (unnoted_cons rfl (adopt_unnoted opts _ nextID l _ msg))
  · split at h <;> cases h
    · exact .silent (unnoted_cons rfl unnoted_nil)
    · exact .silent (unnoted_cons rfl unnoted_nil)
    · exact .silent (failQuery_unnoted l msg _ _)
    · exact .silent (failQuery_unnoted l msg _ _)
  · cases h

lemma checkStep_noticed (hpc : l.pc ∈ [.checkArm c msg, .checkFlush c msg, .checkRecv c msg])
    (h : checkStep opts conns nextID l c msg l.pc i = some r) : Noticed conns l.pc i r.2 := by
  generalize l.pc = pc at hpc h ⊢
  unfold checkStep at h
  split at h
  · cases h; exact .silent (unnoted_cons rfl (unnoted_cons rfl unnoted_nil))
  · cases h; exact .silent (unnoted_cons rfl unnoted_nil)
  · obtain ⟨rfl, rfl⟩ : _ = c ∧ _ = msg := by simpa using hpc
    cases h; exact .opens .checkFlush unnoted_nil
  · cases h; exact .silent (unnoted_cons rfl (unnoted_cons rfl (unnoted_cons rfl unnoted_nil)))
  · cases h; exact .silent (unnoted_cons rfl (unnoted_cons rfl (unnoted_cons rfl unnoted_nil)))
  · obtain ⟨rfl, rfl⟩ : _ = c ∧ _ = msg := by simpa using hpc
    split at h <;> cases h
    · exact .opens .checkRecv (unnoted_cons rfl (unnoted_cons rfl unnoted_nil))
    · refine .opens .checkRecv (unnoted_cons rfl (unnoted_cons rfl ?_))
      exact adopt_unnoted opts _ nextID l _ _
    · exact .opens .checkRecv unnoted_nil
  · cases h

lemma resetStep_noticed (hpc : l.pc ∈ [.resetArm c msg, .resetFlush c msg, .resetRecv c msg])
    (h : resetStep opts conns l c msg l.pc i = some r) : Noticed conns l.pc i r.2 := by
  generalize l.pc = pc at hpc h ⊢
  unfold resetStep at h
  split at h
  · cases h; exact .silent (unnoted_cons rfl (unnoted_cons rfl unnoted_nil))
  · cases h; exact .silent (adoptFailed_unnoted l c msg _)
  · obtain ⟨rfl, rfl⟩ : _ = c ∧ _ = msg := by simpa using hpc
    cases h; exact .opens .resetFlush unnoted_nil
  · cases h; exact .silent (unnoted_cons rfl (unnoted_cons rfl (adoptFailed_unnoted l c msg _)))
  · cases h; exact .silent (unnoted_cons rfl (unnoted_cons rfl (adoptFailed_unnoted l c msg _)))
  · obtain ⟨rfl, rfl⟩ : _ = c ∧ _ = msg := by simpa using hpc
    split at h <;> cases h
    · exact .opens .resetRecv (unnoted_cons rfl (adoptFailed_unnoted l _ _ _))
    · exact .opens .resetRecv (unnoted_cons rfl (replayParams_unnoted l _ _))
    · exact .opens .resetRecv unnoted_nil
  · cases h

lemma paramsStep_noticed (hpc : l.pc ∈ [.paramsFlush c msg, .paramsRecv c msg])
    (h : paramsStep conns l c msg l.pc i = some r) : Noticed conns l.pc i r.2 := by
  generalize l.pc = pc at hpc h ⊢
  unfold paramsStep at h
  split at h
  · obtain ⟨rfl, rfl⟩ : _ = c ∧ _ = msg := by simpa using hpc
    cases h; exact .opens .paramsFlush unnoted_nil
  · cases h; exact .silent (unnoted_cons rfl (adoptFailed_unnoted l c msg _))
  · cases h; exact .silent (unnoted_cons rfl (adoptFailed_unnoted l c msg _))
  · obtain ⟨rfl, rfl⟩ : _ = c ∧ _ = msg := by simpa using hpc
    split at h <;> cases h
    · exact .opens .paramsRecv (adoptFailed_unnoted l _ _ _)
    · exact .opens .paramsRecv (unnoted_cons rfl (beginBatch_unnoted l _ _ _))
    · exact .opens .paramsRecv unnoted_nil
  · cases h

lemma failStep_noticed {pc : PC} (h : failStep l pc i = some r) : Noticed conns pc i r.2 := by
  unfold failStep at h
  split at h
  · cases h; exact .silent unnoted_nil
  · split at h
    · cases h; exact .silent unnoted_nil
    · split at h <;> cases h
      · exact .silent (unnoted_cons rfl (unnoted_cons rfl unnoted_nil))
      · exact .silent unnoted_nil
  · cases h; exact .silent (unnoted_cons rfl unnoted_nil)
  · cases h

lemma batchStep_noticed (hpc : l.pc ∈ [.batch c, .feFlush c])
    (h : batchStep opts conns l c l.pc i = some r) : Noticed conns l.pc i r.2 := by
  generalize l.pc = pc at hpc h ⊢
  unfold batchStep at h
  split at h
  · cases h; exact .silent (leave_unnoted _)
  · split at h
    · cases h; exact .silent (leave_unnoted _)
    · split at h <;> cases h
      · rename_i hf
        exact .silent (forward_unnoted hf)
      · exact .silent (unnoted_cons rfl (release_unnoted _))
  · obtain rfl : _ = c := by simpa using hpc
    cases h
    refine .opens .feFlush ?_
    split
    · exact unnoted_cons rfl unnoted_nil
    · exact unnoted_nil
  · cases h; exact .silent (unnoted_cons rfl (release_unnoted _))
  · cases h

lemma replyStep_noticed (hpc : l.pc = .replies c ∨ ∃ m, l.pc = .clientFlush c m)
    (h : replyStep opts l c l.pc i = some r) : Noticed conns l.pc i r.2 := by
  generalize l.pc = pc at hpc h ⊢
  unfold replyStep at h
  split at h
  · obtain rfl : _ = c := by simpa using hpc
    cases h
    unfold onReply
    split
    · exact .opens .replies unnoted_nil
    · exact .opens .replies (unnoted_cons rfl unnoted_nil)
  · cases h; exact .silent (unnoted_cons rfl (release_unnoted _))
  · split at h <;> cases h
    exact .silent (unnoted_cons rfl (by simp [abandon, release, Act.unnoted]))
  · rename_i c' m
    obtain rfl : c' = c := by simpa using hpc
    cases h
    unfold afterReply
    split
    · exact .silent (unnoted_cons rfl (unnoted_cons rfl unnoted_nil))
    · exact .silent (unnoted_cons rfl (unnoted_cons rfl unnoted_nil))
    · rename_i st
      obtain ⟨acts, hacts, hunnoted⟩ := endBatch_ends { l with pending := 0 } c' st
      rw [hacts]
      have hbefore : ∀ b ∈ [Act.flushClient true, .setReadDeadline c' false], b.unnoted = true :=
        unnoted_cons rfl (unnoted_cons rfl unnoted_nil)
      exact .once hbefore .batchEnd hunnoted
    · exact .silent (unnoted_cons rfl unnoted_nil)
  · cases h; exact .silent (unnoted_cons rfl (release_unnoted _))
  · cases h

lemma copyInStep_noticed (hpc : (∃ n, l.pc = .copyIn c n) ∨ ∃ n, l.pc = .copyInFlush c n)
    (h : copyInStep conns l c l.pc i = some r) : Noticed conns l.pc i r.2 := by
  generalize l.pc = pc at hpc h ⊢
  unfold copyInStep at h
  split at h
  · cases h; exact .silent (release_unnoted _)
  · split at h <;> cases h <;> exact .silent (unnoted_cons rfl unnoted_nil)
  · obtain rfl : _ = c := by simpa using hpc
    cases h; exact .opens .copyInFlush unnoted_nil
  · cases h; exact .silent (unnoted_cons rfl (release_unnoted _))
  · cases h

lemma copyBothStep_noticed {st : CopyBoth} (h : copyBothStep conns l c st i = some r) :
    Noticed conns (.copyBoth c st) i r.2 := by
  unfold copyBothStep at h
  split at h
  · cases h
    refine .silent ?_
    unfold CopyBoth.onClient
    split <;> exact unnoted_cons rfl unnoted_nil
  · cases h; exact .silent (conclude_unnoted l c _)
  · rename_i err _
    cases h
    cases err with
    | none => exact .opens .pumpFlush (conclude_unnoted l c _)
    | some _ => exact .silent (unnoted_cons rfl (conclude_unnoted l c _))
  · cases h; exact .opens .pumpRecv (unnoted_cons rfl unnoted_nil)
  · cases h; exact .silent (unnoted_cons rfl (conclude_unnoted l c _))
  · cases h; exact .silent (unnoted_cons rfl (conclude_unnoted l c _))
  · split at h <;> cases h
    exact .silent (unnoted_cons rfl unnoted_nil)
  · cases h

/-- **A step makes itself noticed once**, if at all. -/
theorem step_noticed (h : step opts conns nextID l i = some r) : Noticed conns l.pc i r.2 := by
  unfold step at h
  split at h
  · exact outerStep_noticed h
  · exact drainCheckStep_noticed h
  · exact acquireStep_noticed h
  iterate 3
    · rename_i hpc
      exact checkStep_noticed (by rw [hpc]; simp) h
  iterate 3
    · rename_i hpc
      exact resetStep_noticed (by rw [hpc]; simp) h
  iterate 2
    · rename_i hpc
      exact paramsStep_noticed (by rw [hpc]; simp) h
  iterate 2
    · exact failStep_noticed h
  iterate 2
    · rename_i hpc
      exact batchStep_noticed (by rw [hpc]; simp) h
  · exact replyStep_noticed (.inl ‹_›) h
  · exact replyStep_noticed (.inr ⟨_, ‹_›⟩) h
  · exact copyInStep_noticed (.inl ⟨_, ‹_›⟩) h
  · exact copyInStep_noticed (.inr ⟨_, ‹_›⟩) h
  · rename_i hpc
    rw [hpc]
    exact copyBothStep_noticed h
  · cases h

end Relay

/-- What is of note meets the server as it is before the step. -/
lemma Moment.met {conns : Conn → BackendConn} {pc : PC} {i : Input} {c : Conn} {k : Caller}
    {acts : List Act} {b : Link} {m : Moment} (h : Relay.Noticed conns pc i acts)
    (hm : m ∈ along c b (acts.map fun a => (k, a))) (hnoted : m.act.unnoted = false) :
    Relay.Opens conns pc i m.act ∧ m.server = b.server := by
  have hunnoted : ∀ {acts : List Act} {b' : Link}, (∀ a ∈ acts, a.unnoted = true) →
      m ∉ along c b' (acts.map fun a => (k, a)) := by
    intro acts b' hacts hm'
    rw [hacts m.act (mem_along hm').2.1] at hnoted
    cases hnoted
  cases h with
  | silent h => exact absurd hm (hunnoted h)
  | @once before a after hbefore ha hafter =>
    induction before generalizing b with
    | nil =>
      rw [List.nil_append, List.map_cons, along] at hm
      split at hm
      · rcases List.mem_cons.mp hm with rfl | hm
        · exact ⟨ha, rfl⟩
        · exact absurd hm (hunnoted hafter)
      · exact absurd hm (hunnoted hafter)
    | cons a' before ih =>
      -- nothing before it has touched the server
      have ha' := hbefore a' List.mem_cons_self
      have ih := fun b' => ih (b := b') (fun a ha => hbefore a (List.mem_cons_of_mem a' ha))
      rw [List.cons_append, List.map_cons, along] at hm
      split at hm
      · rcases List.mem_cons.mp hm with rfl | hm
        · rw [ha'] at hnoted
          cases hnoted
        · obtain ⟨hopens, hserver⟩ := ih _ hm
          exact ⟨hopens, hserver.trans (Server.hear_of_unnoted ha' b.server)⟩
      · exact ih _ hm

/-! ## Runs with a record of the servers -/

/-- A world with servers, and for every connection the moments of it so far. -/
structure Witnessed where
  served : Served
  moments : Conn → List Moment

namespace Witnessed

/-- A step of the world; what it adds to the log is recorded with the servers it meets. -/
def step (opts : RuntimeOpts) (quiet : String → Bool) (v : Witnessed) (e : Event) :
    Option Witnessed :=
  (Served.step opts quiet v.served e).map fun w =>
    ⟨w, fun c => v.moments c ++
      Moment.along c (v.served.res c) (w.log.drop v.served.log.length)⟩

def start (mode : PoolMode) (params : Caller → List TrackedParam) (psLimit : Caller → ℤ) :
    Witnessed := ⟨Served.start mode params psLimit, fun _ => []⟩

def machine (opts : RuntimeOpts) (quiet : String → Bool) (mode : PoolMode)
    (params : Caller → List TrackedParam) : Machine Witnessed Event where
  init v := ∃ psLimit, v = start mode params psLimit
  step := step opts quiet

variable {opts : RuntimeOpts} {quiet : String → Bool} {mode : PoolMode}
  {params : Caller → List TrackedParam} {v v' : Witnessed} {C : Served → Event → Prop}

/-- Without the record it is a run of the world. -/
lemma reach_served (h : (machine opts quiet mode params).Reach (fun v e => C v.served e) v) :
    (Served.machine opts quiet mode params).Reach C v.served := by
  induction h with
  | init h0 =>
    obtain ⟨psLimit, rfl⟩ := h0
    exact .init ⟨psLimit, rfl⟩
  | step _ hC hs ih =>
    obtain ⟨w, hw, rfl⟩ := Option.map_eq_some_iff.mp hs
    exact .step ih hC hw

/-- What a step adds to the log: a session's acts, or nothing. -/
lemma log_step {w w' : Served} {e : Event} (hs : Served.step opts quiet w e = some w') :
    w'.log = w.log ∨ ∃ k i r, e = .world (.relay k i) ∧ w.Heard k i ∧
      Relay.step opts w.world.res w.shared (w.loc k) i = some r ∧
      w'.log = w.log ++ r.2.map fun a => (k, a) := by
  cases e with
  | server c mv =>
    obtain ⟨s, -, rfl⟩ := Option.map_eq_some_iff.mp hs
    exact .inl rfl
  | world a =>
    cases a with
    | relay k i =>
      simp only [Served.step] at hs
      split at hs
      · rename_i hok
        obtain ⟨r, hr, rfl⟩ := Option.map_eq_some_iff.mp hs
        exact .inr ⟨k, i, r, rfl, hok.2, hr, rfl⟩
      · cases hs
    | register k | dial c | retire c =>
      simp only [Served.step] at hs
      split at hs <;> cases hs
      exact .inl rfl

/-- The record repeats the log. -/
lemma map_entry_moments (h : (machine opts quiet mode params).Reach (fun v e => C v.served e) v)
    (c : Conn) : (v.moments c).map Moment.entry = about c v.served.log := by
  induction h with
  | init h0 =>
    obtain ⟨psLimit, rfl⟩ := h0
    rfl
  | step _ _ hs ih =>
    obtain ⟨w, hw, rfl⟩ := Option.map_eq_some_iff.mp hs
    simp only [List.map_append, Moment.map_entry_along, ih]
    rcases log_step hw with hlog | ⟨k, i, r, -, -, -, hlog⟩
    · simp [hlog, about]
    · simp [hlog, about]

/-- **The rule for moments**: what is shown of the moments that one step adds is true of all of
them. -/
theorem always {Φ : Conn → Moment → Prop}
    (hrelay : ∀ w k i r c m, (Served.machine opts quiet mode params).Reach C w →
      C w (.world (.relay k i)) → w.Heard k i →
      Relay.step opts w.world.res w.shared (w.loc k) i = some r →
      m ∈ Moment.along c (w.res c) (r.2.map fun a => (k, a)) → Φ c m)
    (h : (machine opts quiet mode params).Reach (fun v e => C v.served e) v) (c : Conn) :
    ∀ m ∈ v.moments c, Φ c m := by
  induction h with
  | init h0 =>
    obtain ⟨psLimit, rfl⟩ := h0
    simp [start]
  | @step v v' e hv hC hs ih =>
    obtain ⟨w, hw, rfl⟩ := Option.map_eq_some_iff.mp hs
    intro m hm
    rcases List.mem_append.mp hm with hm | hm
    · exact ih m hm
    rcases log_step hw with hlog | ⟨k, i, r, rfl, hheard, hr, hlog⟩
    · simp [hlog, Moment.along] at hm
    · rw [hlog, List.drop_left] at hm
      exact hrelay _ k i r c m (reach_served hv) hC hheard hr hm

end Witnessed

/-! ## Moments of orderly runs -/

/-- The sites of the proxy's own queries. -/
def Site.probes : Site → Bool
  | .health | .reset | .params => true
  | _ => false

/-- What the relay takes for granted of the servers it meets. -/
structure Moment.Calm (c : Conn) (m : Moment) : Prop where
  /-- A query of the proxy's own goes out alone, to a server that owes nothing. -/
  flushed : ∀ site sent, m.act = .flush c site sent → site.probes = true →
    sent.length = 1 ∧ m.server.Settled
  /-- The `ReadyForQuery` that ends it is the last thing that is owed. -/
  answered : ∀ site st how, m.act = .recv c site (.readyForQuery st) how → site.probes = true →
    (m.server.hear m.act).Settled
  /-- So is the one that ends a batch, and its status is the server's. -/
  ended : ∀ st, m.act = .batchEnd c st → m.server.Settled ∧ m.server.reported = st

section Calm

variable {opts : RuntimeOpts} {quiet : String → Bool} {mode : PoolMode}
  {params : Caller → List TrackedParam} {k : Caller} {c : Conn}

namespace Served

variable {w : Served} {msg : FrontendMsg}

/-- The outline at a point of the relay that has the connection in hand. -/
lemma tidyAt_of_hand (hw : (machine opts quiet mode params).Reach Orderly w)
    (hc : (w.loc k).hand = some c) :
    tidyAt quiet (fun _ => True) (w.loc k) (w.res c).conn.wbuf (w.res c).server := by
  have hplace : w.place c = .held k := ((steady_of_reach hw).exclusive k c).mpr hc
  have hasserts := (tidy_of_reach (upkeep_any opts quiet mode params) hw).asserts c
  rw [Outline.Asserts, hplace] at hasserts
  exact hasserts.2

/-- A query of the proxy's own is alone in the buffer. -/
lemma alone_of_flush (hw : (machine opts quiet mode params).Reach Orderly w)
    (hpc : (w.loc k).pc = .checkFlush c msg ∨ (w.loc k).pc = .resetFlush c msg ∨
      (w.loc k).pc = .paramsFlush c msg) :
    (w.res c).conn.wbuf.length = 1 ∧ (w.res c).server.Settled := by
  have hc : (w.loc k).hand = some c := by
    rcases hpc with h | h | h <;> simp [Local.hand, Local.grip, h, PC.grip, Grip.conn]
  have htidy := tidyAt_of_hand hw hc
  unfold tidyAt at htidy
  rcases hpc with h | h | h
  all_goals
    rw [h] at htidy
    obtain ⟨⟨src, sql, hbuf, -⟩, hsettled, -⟩ := htidy
    exact ⟨congrArg List.length hbuf, hsettled⟩

/-- With its `ReadyForQuery` nothing more is owed. -/
lemma settled_of_answer {st : Char} (hw : (machine opts quiet mode params).Reach Orderly w)
    (hpc : (w.loc k).pc = .checkRecv c msg ∨ (w.loc k).pc = .resetRecv c msg ∨
      (w.loc k).pc = .paramsRecv c msg) (hheard : w.Heard k (.reply (.readyForQuery st))) :
    Server.Settled { (w.res c).server with outbox := (w.res c).server.outbox.tail } := by
  have hc : (w.loc k).hand = some c := by
    rcases hpc with h | h | h <;> simp [Local.hand, Local.grip, h, PC.grip, Grip.conn]
  -- the reply that is read is the server's next one
  have hhead : (w.res c).server.outbox.head? = some (.readyForQuery st) := by
    obtain ⟨c', hmem, hhead⟩ := hheard
    obtain rfl : c = c' := by simpa [hc] using hmem
    exact hhead
  have htidy := tidyAt_of_hand hw hc
  unfold tidyAt at htidy
  rcases hpc with h | h | h <;> rw [h] at htidy <;> exact (htidy.2.read_ready hhead).1

/-- Nor at the end of a batch. -/
lemma settled_of_batchEnd {st : Char} (hw : (machine opts quiet mode params).Reach Orderly w)
    (hpc : (w.loc k).pc = .clientFlush c (.readyForQuery st)) :
    (w.res c).server.Settled ∧ (w.res c).server.reported = st := by
  have hc : (w.loc k).hand = some c := by simp [Local.hand, Local.grip, hpc, PC.grip, Grip.conn]
  have htidy := tidyAt_of_hand hw hc
  rw [tidyAt, hpc] at htidy
  exact htidy.2.1 st rfl

end Served

/-- **Orderly runs are calm.** -/
theorem Witnessed.calm {v : Witnessed}
    (h : (machine opts quiet mode params).Reach (fun v e => Orderly v.served e) v) (c : Conn) :
    ∀ m ∈ v.moments c, m.Calm c := by
  refine always (fun w k i r c m hw _ hheard hr hm => ?_) h c
  have hnoticed := Relay.step_noticed hr
  refine ⟨fun site sent hact hsite => ?_, fun site st how hact hsite => ?_, fun st hact => ?_⟩
  all_goals
    obtain ⟨hopens, hserver⟩ := Moment.met hnoticed hm (by rw [hact]; rfl)
    rw [hact] at hopens
    rw [hserver]
    generalize hpc : (w.loc k).pc = pc at hopens
  · cases hopens with
    | checkFlush => exact Served.alone_of_flush hw (.inl hpc)
    | resetFlush => exact Served.alone_of_flush hw (.inr (.inl hpc))
    | paramsFlush => exact Served.alone_of_flush hw (.inr (.inr hpc))
    | feFlush | copyInFlush | pumpFlush => cases hsite
  · rw [hact]
    cases hopens with
    | checkRecv => exact Served.settled_of_answer hw (.inl hpc) hheard
    | resetRecv => exact Served.settled_of_answer hw (.inr (.inl hpc)) hheard
    | paramsRecv => exact Served.settled_of_answer hw (.inr (.inr hpc)) hheard
    | replies | pumpRecv => cases hsite
  · cases hopens
    exact Served.settled_of_batchEnd hw hpc

end Calm

end Pgman
