import Pgman.Construction.Wire.Server

/-!
# One cycle of the protocol

What a server owes.  `Settled` says nothing: it has answered all it was sent, and everything
it sent has been read, asynchronous messages apart.  `InFlight` says at most one cycle: at most
one `ReadyForQuery` is still to come, and nothing after it.  Both are kept by whatever the
server does next, which is `InFlight.move` and `Settled.move`.

`Probing` is a cycle of the proxy's own, a single query: it ends with an error or with a
transaction status the connection may go back to the pool with.
-/

namespace Pgman

/-- Messages that make a server finish a cycle. -/
def FrontendMsg.endsCycle : FrontendMsg → Bool
  | .query _ | .sync | .functionCall => true
  | _ => false

/-- Messages that get no reply outside of COPY. -/
def FrontendMsg.isSilent : FrontendMsg → Bool
  | .flush | .copyData _ | .copyDone | .copyFail _ => true
  | _ => false

namespace Server

/-! ## What serving a message can do -/

/-- No `ReadyForQuery` among the messages. -/
def Unready (out : List BackendMsg) : Prop := ∀ m ∈ out, m.isReady = false

lemma Unready.append {out out' : List BackendMsg} (h : Unready out) (h' : Unready out') :
    Unready (out ++ out') := by
  intro m hm
  rcases List.mem_append.mp hm with hm | hm
  · exact h m hm
  · exact h' m hm

lemma unready_of_body {out : List BackendMsg} (h : out.all BackendMsg.isBody = true) :
    Unready out := by
  intro m hm
  have := List.all_eq_true.mp h m hm
  cases m <;> simp_all [BackendMsg.isBody, BackendMsg.isReady]

/-- The cycle has been finished, after some replies. -/
def Finished (s s' : Server) : Prop :=
  ∃ out st, Unready out ∧ s'.inbox = s.inbox ∧
    s'.outbox = s.outbox ++ out ++ [BackendMsg.readyForQuery st] ∧
    s'.phase = .ready ∧ s'.status = st ∧ s'.reported = st

/-- The cycle goes on, after some replies. -/
def Continued (s s' : Server) : Prop :=
  ∃ out, Unready out ∧ s'.inbox = s.inbox ∧ s'.outbox = s.outbox ++ out ∧ s'.reported = s.reported

/-- In a COPY that ends with a `ReadyForQuery`. -/
def Phase.Copying (p : Phase) : Prop := p = .copyIn true ∨ p = .copyBoth

variable {quiet : String → Bool} {s s' : Server} {v : Verdict} {m : FrontendMsg}

lemma finished_emit {out : List BackendMsg} (h : Unready out) (st : Char)
    (stmts : String → Option PrepStmtInfo) :
    Finished s (({ s with stmts := stmts }.emit out).finish st) :=
  ⟨out, st, h, rfl, rfl, rfl, rfl, rfl⟩

lemma unready_error (severity code message : String) :
    Unready [.errorResponse severity code message] := by
  simp [Unready, BackendMsg.isReady]

lemma continued_refl (s : Server) : Continued s s := ⟨[], by simp [Unready], rfl, by simp, rfl⟩

lemma serveQuery_effect {sql : String} (h : serveQuery quiet s sql v = some s') :
    Finished s s' ∨ Continued s s' := by
  unfold serveQuery at h
  split at h
  · split at h <;> cases h
    rename_i hok
    rw [Bool.and_eq_true] at hok
    exact .inl (finished_emit (unready_of_body hok.1) _ _)
  · split at h <;> cases h
    rename_i hok
    rw [Bool.and_eq_true] at hok
    exact .inl (finished_emit ((unready_of_body hok.1).append (unready_error _ _ _)) _ _)
  · split at h <;> cases h
    rename_i hok
    exact .inr ⟨_, (unready_of_body hok).append (by simp [Unready, BackendMsg.isReady]), rfl, rfl,
      rfl⟩
  · split at h <;> cases h
    rename_i hok
    exact .inr ⟨_, (unready_of_body hok).append (by simp [Unready, BackendMsg.isReady]), rfl, rfl,
      rfl⟩
  · cases h

lemma serveCycle_effect (h : serveCycle s v = some s') : Finished s s' := by
  unfold serveCycle at h
  split at h
  · split at h <;> cases h
    rename_i hok
    exact finished_emit (unready_of_body hok) _ s.stmts
  · cases h
    exact finished_emit (unready_error _ _ _) _ s.stmts
  · cases h

lemma unready_ack (m : FrontendMsg) : Unready (ack m) := by
  cases m <;> simp [ack, Unready, BackendMsg.isReady]

lemma serveExtended_effect (hp : s.phase = .ready) (h : serveExtended s m v = some s') :
    Continued s s' ∧ ¬Phase.Copying s'.phase := by
  unfold serveExtended at h
  split at h
  · split at h <;> cases h
    rename_i hok
    rw [Bool.and_eq_true] at hok
    exact ⟨⟨_, (unready_of_body hok.1).append (unready_ack m), rfl, rfl, rfl⟩,
      by simp [Phase.Copying, emit, hp]⟩
  · split at h <;> cases h
    rename_i hok
    exact ⟨⟨_, (unready_of_body hok).append (unready_error _ _ _), rfl, rfl, rfl⟩,
      by simp [Phase.Copying]⟩
  · split at h <;> cases h
    rename_i hok
    rw [Bool.and_eq_true] at hok
    exact ⟨⟨_, (unready_of_body hok.2).append (by simp [Unready, BackendMsg.isReady]), rfl, rfl,
      rfl⟩, by simp [Phase.Copying]⟩
  · cases h
    exact ⟨⟨_, unready_error _ _ _, rfl, rfl, rfl⟩, by simp [Phase.Copying]⟩
  · cases h

/-- Outside of COPY, a message that ends no cycle. -/
lemma serveReady_effect (hp : s.phase = .ready) (hm : m.endsCycle = false)
    (h : serveReady quiet s v m = some s') : Continued s s' ∧ ¬Phase.Copying s'.phase := by
  have hkeep : Continued s s ∧ ¬Phase.Copying s.phase :=
    ⟨continued_refl s, by simp [Phase.Copying, hp]⟩
  unfold serveReady at h
  split at h
  · simp [FrontendMsg.endsCycle] at hm
  · simp [FrontendMsg.endsCycle] at hm
  · simp [FrontendMsg.endsCycle] at hm
  · cases h; exact hkeep
  · cases h; exact hkeep
  · cases h; exact hkeep
  · cases h; exact hkeep
  · cases h; exact ⟨continued_refl s, by simp [Phase.Copying]⟩
  · cases h; exact ⟨⟨_, unready_error _ _ _, rfl, rfl, rfl⟩, by simp [Phase.Copying]⟩
  · exact serveExtended_effect hp h

lemma copyError_effect (s : Server) (simple : Bool) (code message : String) (st : Char) :
    (simple = true ∧ Finished s (s.copyError simple code message st)) ∨
    (Continued s (s.copyError simple code message st) ∧
      ¬Phase.Copying (s.copyError simple code message st).phase) := by
  cases simple
  · exact .inr ⟨⟨_, unready_error "ERROR" code message, rfl, rfl, rfl⟩,
      by simp [copyError, Phase.Copying]⟩
  · exact .inl ⟨rfl, finished_emit (unready_error _ _ _) _ s.stmts⟩

/-- During COPY: only a COPY of the simple protocol ends with a `ReadyForQuery`. -/
lemma serveCopyIn_effect {simple : Bool} (hp : s.phase = .copyIn simple)
    (h : serveCopyIn s simple v m = some s') :
    (simple = true ∧ Finished s s') ∨
    (Continued s s' ∧ (simple = false → ¬Phase.Copying s'.phase)) := by
  have hkeep : Continued s s ∧ (simple = false → ¬Phase.Copying s.phase) :=
    ⟨continued_refl s, fun hs => by simp [Phase.Copying, hp, hs]⟩
  have herr : ∀ code message st, (simple = true ∧ Finished s (s.copyError simple code message st)) ∨
      (Continued s (s.copyError simple code message st) ∧
        (simple = false → ¬Phase.Copying (s.copyError simple code message st).phase)) := by
    intro code message st
    rcases copyError_effect s simple code message st with h | h
    · exact .inl h
    · exact .inr ⟨h.1, fun _ => h.2⟩
  unfold serveCopyIn at h
  split at h
  · unfold serveCopyData at h
    split at h <;> cases h
    · exact .inr hkeep
    · exact herr _ _ _
  · unfold serveCopyDone at h
    split at h
    · split at h
      · rename_i hok
        split at h <;> cases h
        · rename_i hs
          exact .inl ⟨hs, finished_emit (unready_of_body hok) _ s.stmts⟩
        · exact .inr ⟨⟨_, unready_of_body hok, rfl, rfl, rfl⟩, by simp [Phase.Copying]⟩
      · cases h
    · cases h; exact herr _ _ _
    · split at h <;> cases h
      rename_i hok
      rw [Bool.and_eq_true] at hok
      exact .inr ⟨⟨_, (unready_of_body hok.2).append (by simp [Unready, BackendMsg.isReady]), rfl,
        rfl, rfl⟩, fun hs => by simp [hs] at hok⟩
    · cases h
  · cases h; exact .inr hkeep
  · cases h; exact .inr hkeep
  · cases h; exact .inr ⟨continued_refl s, by simp [Phase.Copying]⟩
  · unfold serveUnexpected at h
    split at h <;> cases h
    · exact herr _ _ _
    · exact .inr ⟨⟨_, unready_error _ _ _, rfl, rfl, rfl⟩, by simp [Phase.Copying]⟩

lemma serveCopyBoth_effect (h : serveCopyBoth s v m = some s') :
    Finished s s' ∨ Continued s s' := by
  have herr : ∀ code message st, Finished s (s.copyError true code message st) ∨
      Continued s (s.copyError true code message st) := by
    intro code message st
    rcases copyError_effect s true code message st with h | h
    · exact .inl h.2
    · exact .inr h.1
  unfold serveCopyBoth at h
  split at h
  · unfold serveCopyData at h
    split at h <;> cases h
    · exact .inr (continued_refl s)
    · exact herr _ _ _
  · exact .inl (serveCycle_effect h)
  · cases h; exact .inr (continued_refl s)
  · cases h; exact .inr (continued_refl s)
  · cases h; exact .inr (continued_refl s)
  · unfold serveUnexpected at h
    split at h <;> cases h
    · exact herr _ _ _
    · exact .inr ⟨_, unready_error _ _ _, rfl, rfl, rfl⟩

/-! ## Nothing owed -/

/-- Only messages that get no reply. -/
def Silent (ms : List FrontendMsg) : Prop := ∀ m ∈ ms, m.isSilent = true

/-- Only asynchronous messages. -/
def Notices (out : List BackendMsg) : Prop := ∀ m ∈ out, m.isNotice = true

lemma Notices.unready {out : List BackendMsg} (h : Notices out) : Unready out := by
  intro m hm
  have := h m hm
  cases m <;> simp_all [BackendMsg.isNotice, BackendMsg.isReady]

/-- The server owes no reply. -/
structure Settled (s : Server) : Prop where
  inbox : Silent s.inbox
  outbox : Notices s.outbox
  phase : s.phase = .ready
  status : s.status = s.reported

/-- A silent message outside of COPY changes nothing. -/
lemma serveReady_silent (hm : m.isSilent = true) (h : serveReady quiet s v m = some s') :
    s' = s := by
  cases m <;> simp_all [FrontendMsg.isSilent, serveReady]

/-- What a server outside of COPY with a silent inbox can do. -/
lemma move_idle {mv : ServerMove} (hp : s.phase = .ready) (hin : Silent s.inbox)
    (h : s.move quiet mv = some s') :
    Silent s'.inbox ∧ (∃ ns, Notices ns ∧ s'.outbox = s.outbox ++ ns) ∧ s'.phase = .ready ∧
      s'.status = s.status ∧ s'.reported = s.reported ∧ s'.stmts = s.stmts := by
  cases mv with
  | serve v =>
    simp only [move, serve, hp] at h
    split at h
    · cases h
    · rename_i m rest hmr
      have hrest : Silent rest := fun m' hm' => hin m' (by simp [hmr, hm'])
      have := serveReady_silent (hin m (by simp [hmr])) h
      subst this
      exact ⟨hrest, ⟨[], by simp [Notices], by simp⟩, rfl, rfl, rfl, rfl⟩
  | interrupt code message st => simp [move, hp] at h
  | speak m =>
    cases m <;> simp only [move, hp, reduceCtorEq] at h
    cases h
    exact ⟨hin, ⟨_, by simp [Notices, BackendMsg.isNotice], rfl⟩, hp, rfl, rfl, rfl⟩

lemma Settled.move {mv : ServerMove} (hs : s.Settled) (h : s.move quiet mv = some s') :
    s'.Settled ∧ s'.reported = s.reported := by
  obtain ⟨h1, ⟨ns, hns, h2⟩, h3, h4, h5, -⟩ := move_idle hs.phase hs.inbox h
  refine ⟨⟨h1, ?_, h3, ?_⟩, h5⟩
  · intro m hm
    rw [h2] at hm
    rcases List.mem_append.mp hm with hm | hm
    · exact hs.outbox m hm
    · exact hns m hm
  · rw [h4, h5, hs.status]

/-! ## At most one cycle owed -/

/-- At most one `ReadyForQuery` is to come, and nothing after it. -/
inductive InFlight (s : Server) : Prop
  /-- It has been sent. -/
  | answered (xs : List BackendMsg) (st : Char) (ns : List BackendMsg)
      (hout : s.outbox = xs ++ BackendMsg.readyForQuery st :: ns) (hxs : Unready xs)
      (hns : Notices ns)
      (hin : Silent s.inbox) (hphase : s.phase = .ready) (hstatus : s.status = st)
      (hreported : s.reported = st)
  /-- The message that ends the cycle has been taken. -/
  | working (hout : Unready s.outbox) (hin : Silent s.inbox)
  /-- The message that ends the cycle is in the inbox. -/
  | queued (ms : List FrontendMsg) (t : FrontendMsg) (rest : List FrontendMsg)
      (hin : s.inbox = ms ++ t :: rest) (hms : ∀ m ∈ ms, m.endsCycle = false)
      (ht : isTerminalMessage t = true) (hrest : Silent rest) (hout : Unready s.outbox)
      (hphase : ¬Phase.Copying s.phase)

lemma InFlight.of_finished (hin : Silent s.inbox) (hout : Unready s.outbox) (h : Finished s s') :
    s'.InFlight := by
  obtain ⟨out, st, hun, hi, ho, hp, hst, hr⟩ := h
  exact .answered (s.outbox ++ out) st [] (by simpa using ho) (hout.append hun) (by simp [Notices])
    (hi ▸ hin) hp hst hr

lemma Continued.unready (h : Continued s s') (hout : Unready s.outbox) : Unready s'.outbox := by
  obtain ⟨out, hun, -, ho, -⟩ := h
  rw [ho]
  exact hout.append hun

lemma InFlight.of_continued (hin : Silent s.inbox) (hout : Unready s.outbox)
    (h : Continued s s') : s'.InFlight := by
  have hun := h.unready hout
  obtain ⟨out, -, hi, -, -⟩ := h
  exact .working hun (hi ▸ hin)

lemma InFlight.of_effect (hin : Silent s.inbox) (hout : Unready s.outbox)
    (h : Finished s s' ∨ Continued s s') : s'.InFlight := by
  rcases h with h | h
  · exact .of_finished hin hout h
  · exact .of_continued hin hout h

/-- Serving a silent message, with only silent ones behind it. -/
lemma InFlight.serve_silent {rest : List FrontendMsg} (hin : s.inbox = m :: rest)
    (hm : m.isSilent = true) (hrest : Silent rest) (hout : Unready s.outbox)
    (h : serve quiet s v = some s') : s'.InFlight := by
  have hout' : Unready ({ s with inbox := rest } : Server).outbox := hout
  simp only [serve, hin] at h
  split at h
  · have := serveReady_silent hm h
    subst this
    exact .working hout hrest
  · have : s' = { s with inbox := rest } := by
      cases m <;> simp_all [FrontendMsg.isSilent, serveSkipping]
    subst this
    exact .working hout hrest
  · rename_i simple hp
    rcases serveCopyIn_effect (s := { s with inbox := rest }) hp h with h | h
    · exact .of_finished hrest hout' h.2
    · exact .of_continued hrest hout' h.1
  · exact .of_effect hrest hout' (serveCopyBoth_effect h)
  · cases h
    exact .working hout hrest

/-- Serving the message that ends the cycle. -/
lemma InFlight.serve_terminal {rest : List FrontendMsg} (hin : s.inbox = m :: rest)
    (hm : isTerminalMessage m = true) (hrest : Silent rest) (hout : Unready s.outbox)
    (hp : ¬Phase.Copying s.phase) (h : serve quiet s v = some s') : s'.InFlight := by
  have hout' : Unready ({ s with inbox := rest } : Server).outbox := hout
  simp only [serve, hin] at h
  split at h
  · cases m <;> simp only [isTerminalMessage, reduceCtorEq] at hm
    · exact .of_effect hrest hout' (serveQuery_effect h)
    · exact .of_finished hrest hout' (serveCycle_effect h)
  · cases m <;> simp only [isTerminalMessage, reduceCtorEq] at hm
    · -- a simple query is skipped too, and nothing ends the cycle any more
      cases h
      exact .working hout hrest
    · exact .of_finished hrest hout' (serveCycle_effect h)
  · rename_i simple hcopy
    cases simple
    · rcases serveCopyIn_effect (s := { s with inbox := rest }) hcopy h with h | h
      · simp at h
      · exact .of_continued hrest hout' h.1
    · exact absurd (.inl hcopy) hp
  · rename_i hcopy
    exact absurd (.inr hcopy) hp
  · cases h
    exact .working hout hrest

/-- Serving a message in front of the one that ends the cycle. -/
lemma serve_before {rest : List FrontendMsg} (hin : s.inbox = m :: rest)
    (hm : m.endsCycle = false) (hp : ¬Phase.Copying s.phase) (h : serve quiet s v = some s') :
    Continued { s with inbox := rest } s' ∧ ¬Phase.Copying s'.phase := by
  simp only [serve, hin] at h
  split at h
  · rename_i hready
    exact serveReady_effect (s := { s with inbox := rest }) hready hm h
  · rename_i hskip
    unfold serveSkipping at h
    split at h
    · simp [FrontendMsg.endsCycle] at hm
    · cases h; exact ⟨continued_refl _, by simp [Phase.Copying]⟩
    · cases h; exact ⟨continued_refl _, by simp [Phase.Copying, hskip]⟩
  · rename_i simple hcopy
    cases simple
    · rcases serveCopyIn_effect (s := { s with inbox := rest }) hcopy h with h | h
      · simp at h
      · exact ⟨h.1, h.2 rfl⟩
    · exact absurd (.inl hcopy) hp
  · rename_i hcopy
    exact absurd (.inr hcopy) hp
  · rename_i hdead
    cases h
    exact ⟨continued_refl _, hp⟩

lemma InFlight.serve (hs : s.InFlight) (h : Server.serve quiet s v = some s') : s'.InFlight := by
  cases hs with
  | answered xs st ns hout hxs hns hin hphase hstatus hreported =>
    have hmove : s.move quiet (.serve v) = some s' := h
    obtain ⟨h1, ⟨ns', hns', h2⟩, h3, h4, h5, -⟩ := move_idle hphase hin hmove
    refine .answered xs st (ns ++ ns') (by simp [h2, hout]) hxs (fun m hm => ?_) h1 h3
      (h4.trans hstatus) (h5.trans hreported)
    rcases List.mem_append.mp hm with hm | hm
    · exact hns m hm
    · exact hns' m hm
  | working hout hin =>
    cases hi : s.inbox with
    | nil => simp [Server.serve, hi] at h
    | cons m rest =>
      exact .serve_silent hi (hin m (by simp [hi])) (fun m' hm' => hin m' (by simp [hi, hm']))
        hout h
  | queued ms t rest hin hms ht hrest hout hphase =>
    cases ms with
    | nil => exact .serve_terminal hin ht hrest hout hphase h
    | cons m ms =>
      obtain ⟨hcont, hp⟩ := serve_before hin (hms m (by simp)) hphase h
      obtain ⟨out, hun, hi, ho, -⟩ := hcont
      refine .queued ms t rest hi (fun m' hm' => hms m' (by simp [hm'])) ht hrest ?_ hp
      rw [ho]
      exact hout.append hun

/-- What a server does without taking a message. -/
lemma move_unasked {mv : ServerMove} (hmv : ∀ v, mv ≠ .serve v) (h : s.move quiet mv = some s') :
    (Phase.Copying s.phase ∧ Finished s s') ∨
      (Continued s s' ∧ (¬Phase.Copying s.phase → ¬Phase.Copying s'.phase)) := by
  cases mv with
  | serve v => exact absurd rfl (hmv v)
  | interrupt code message st =>
    simp only [Server.move] at h
    split at h
    · rename_i simple hp
      cases h
      rcases copyError_effect s simple code message st with ⟨rfl, h⟩ | h
      · exact .inl ⟨.inl hp, h⟩
      · exact .inr ⟨h.1, fun _ => h.2⟩
    · rename_i hp
      cases h
      rcases copyError_effect s true code message st with h | h
      · exact .inl ⟨.inr hp, h.2⟩
      · exact .inr ⟨h.1, fun _ => h.2⟩
    · cases h
  | speak m =>
    simp only [Server.move] at h
    split at h
    · cases h
    · cases h
      exact .inr ⟨⟨_, by simp [Unready, BackendMsg.isReady], rfl, rfl, rfl⟩, id⟩
    · cases h
      exact .inr ⟨⟨_, by simp [Unready, BackendMsg.isReady], rfl, rfl, rfl⟩, id⟩
    · cases h
      exact .inr ⟨⟨_, by simp [Unready, BackendMsg.isReady], rfl, rfl, rfl⟩, id⟩
    · cases h

/-- **A cycle stays one cycle**, whatever the server does. -/
theorem InFlight.move {mv : ServerMove} (hs : s.InFlight) (h : s.move quiet mv = some s') :
    s'.InFlight := by
  by_cases hmv : ∃ v, mv = .serve v
  · obtain ⟨v, rfl⟩ := hmv
    exact hs.serve h
  · cases hs with
    | answered xs st ns hout hxs hns hin hphase hstatus hreported =>
      obtain ⟨h1, ⟨ns', hns', h2⟩, h3, h4, h5, -⟩ := move_idle hphase hin h
      refine .answered xs st (ns ++ ns') (by simp [h2, hout]) hxs (fun m hm => ?_) h1 h3
        (h4.trans hstatus) (h5.trans hreported)
      rcases List.mem_append.mp hm with hm | hm
      · exact hns m hm
      · exact hns' m hm
    | working hout hin =>
      rcases move_unasked (fun v hv => hmv ⟨v, hv⟩) h with h | h
      · exact .of_finished hin hout h.2
      · exact .of_continued hin hout h.1
    | queued ms t rest hin hms ht hrest hout hphase =>
      rcases move_unasked (fun v hv => hmv ⟨v, hv⟩) h with h | ⟨hcont, hp⟩
      · exact absurd h.1 hphase
      · have hun := hcont.unready hout
        obtain ⟨out, -, hi, -, -⟩ := hcont
        exact .queued ms t rest (hi.trans hin) hms ht hrest hun (hp hphase)

/-! ## Reading replies -/

variable {r : BackendMsg}

/-- Reading something else than the end of the cycle. -/
lemma InFlight.read (hs : s.InFlight) (hr : s.outbox.head? = some r) (hne : r.isReady = false) :
    InFlight { s with outbox := s.outbox.tail } := by
  cases hs with
  | answered xs st ns hout hxs hns hin hphase hstatus hreported =>
    cases xs with
    | nil =>
      simp only [hout, List.nil_append, List.head?_cons, Option.some.injEq] at hr
      simp [← hr, BackendMsg.isReady] at hne
    | cons x xs =>
      exact .answered xs st ns (by simp [hout]) (fun m hm => hxs m (by simp [hm])) hns hin hphase
        hstatus hreported
  | working hout hin =>
    exact .working (fun m hm => hout m (List.mem_of_mem_tail hm)) hin
  | queued ms t rest hin hms ht hrest hout hphase =>
    exact .queued ms t rest hin hms ht hrest (fun m hm => hout m (List.mem_of_mem_tail hm)) hphase

/-- Reading the end of the cycle leaves nothing owed. -/
lemma InFlight.read_ready {st : Char} (hs : s.InFlight)
    (hr : s.outbox.head? = some (.readyForQuery st)) :
    Settled { s with outbox := s.outbox.tail } ∧ s.reported = st := by
  have hmem : BackendMsg.readyForQuery st ∈ s.outbox := List.mem_of_mem_head? hr
  cases hs with
  | answered xs st' ns hout hxs hns hin hphase hstatus hreported =>
    cases xs with
    | nil =>
      simp only [hout, List.nil_append, List.head?_cons, Option.some.injEq,
        BackendMsg.readyForQuery.injEq] at hr
      exact ⟨⟨hin, by simpa [hout] using hns, hphase, hstatus.trans hreported.symm⟩,
        hreported.trans hr⟩
    | cons x xs =>
      have hx : x = .readyForQuery st := by simpa [hout] using hr
      have := hxs x (by simp)
      simp [hx, BackendMsg.isReady] at this
  | working hout hin => simpa [BackendMsg.isReady] using hout _ hmem
  | queued ms t rest hin hms ht hrest hout hphase => simpa [BackendMsg.isReady] using hout _ hmem

lemma Settled.inFlight (hs : s.Settled) : s.InFlight := .working hs.outbox.unready hs.inbox

/-! ## Sending messages -/

lemma endsCycle_of_silent {m : FrontendMsg} (h : m.isSilent = true) : m.endsCycle = false := by
  cases m <;> simp_all [FrontendMsg.isSilent, FrontendMsg.endsCycle]

/-- A whole batch is delivered to a server that owes nothing. -/
lemma Settled.deliver {ms : List FrontendMsg} {t : FrontendMsg} (hs : s.Settled)
    (hms : ∀ m ∈ ms, m.endsCycle = false) (ht : isTerminalMessage t = true) :
    InFlight { s with inbox := s.inbox ++ (ms ++ [t]) } := by
  refine .queued (s.inbox ++ ms) t [] (by simp) (fun m hm => ?_) ht (by simp [Silent])
    hs.outbox.unready (by simp [Phase.Copying, hs.phase])
  rcases List.mem_append.mp hm with hm | hm
  · exact endsCycle_of_silent (hs.inbox m hm)
  · exact hms m hm

/-- Copy messages during a cycle do not make it two. -/
lemma InFlight.deliver {ms : List FrontendMsg} (hs : s.InFlight) (hms : Silent ms) :
    InFlight { s with inbox := s.inbox ++ ms } := by
  have happ : ∀ {xs : List FrontendMsg}, Silent xs → Silent (xs ++ ms) := by
    intro xs hxs m hm
    rcases List.mem_append.mp hm with hm | hm
    · exact hxs m hm
    · exact hms m hm
  cases hs with
  | answered xs st ns hout hxs hns hin hphase hstatus hreported =>
    exact .answered xs st ns hout hxs hns (happ hin) hphase hstatus hreported
  | working hout hin => exact .working hout (happ hin)
  | queued ms' t rest hin hms' ht hrest hout hphase =>
    exact .queued ms' t (rest ++ ms) (by simp [hin]) hms' ht (happ hrest) hout hphase

/-! ## A quiet query -/

/-- The query keeps a property of the transaction status, as long as it succeeds. -/
def Keeps (quiet : String → Bool) (ok : Char → Prop) (sql : String) : Prop :=
  ∀ s st, statusAllowed quiet s sql false st = true → ok s.status → ok st

/-- A quiet query leaves an idle connection idle. -/
lemma keeps_idle {sql : String} (h : quiet sql = true) : Keeps quiet (· = 'I') sql := by
  intro s st hst hok
  simp_all [statusAllowed]

/-- A quiet query that succeeds does not fail a transaction. -/
lemma keeps_unfailed {sql : String} (h : quiet sql = true) : Keeps quiet (· ≠ 'E') sql := by
  intro s st hst hok
  simp_all [statusAllowed]

variable {ok : Char → Prop}

/-- A single query of the proxy's own is under way. -/
inductive Probing (quiet : String → Bool) (ok : Char → Prop) (s : Server) : Prop
  | answered (xs : List BackendMsg) (st : Char) (ns : List BackendMsg)
      (hout : s.outbox = xs ++ BackendMsg.readyForQuery st :: ns) (hxs : Unready xs)
      (hns : Notices ns)
      (hin : Silent s.inbox) (hphase : s.phase = .ready) (hstatus : s.status = st)
      (hreported : s.reported = st) (hok : ok st ∨ ∃ m ∈ xs, m.isError = true)
  | working (hout : Unready s.outbox) (hin : s.inbox = [])
  | queued (ms : List FrontendMsg) (sql : String) (hin : s.inbox = ms ++ [FrontendMsg.query sql])
      (hms : Silent ms) (hsql : Keeps quiet ok sql) (hout : Unready s.outbox)
      (hphase : s.phase = .ready) (hok : ok s.status)

lemma Settled.probe {sql : String} (hs : s.Settled) (hsql : Keeps quiet ok sql)
    (hok : ok s.reported) :
    Probing quiet ok { s with inbox := s.inbox ++ [FrontendMsg.query sql] } :=
  .queued s.inbox sql rfl hs.inbox hsql hs.outbox.unready hs.phase (hs.status ▸ hok)

/-- Serving the query itself. -/
lemma Probing.of_query {sql : String} (hsql : Keeps quiet ok sql) (hin : s.inbox = [])
    (hout : Unready s.outbox) (hok : ok s.status) (h : serveQuery quiet s sql v = some s') :
    s'.Probing quiet ok := by
  unfold serveQuery at h
  split at h
  · split at h <;> cases h
    rename_i out st drops hb
    rw [Bool.and_eq_true] at hb
    exact .answered (s.outbox ++ out) st [] rfl (hout.append (unready_of_body hb.1))
      (by simp [Notices]) (by simp [hin, Silent, emit, finish]) rfl rfl rfl
      (.inl (hsql s st hb.2 hok))
  · split at h <;> cases h
    rename_i out code message st hb
    rw [Bool.and_eq_true] at hb
    refine .answered (s.outbox ++ (out ++ [BackendMsg.errorResponse "ERROR" code message])) st []
      rfl
      (hout.append ((unready_of_body hb.1).append (unready_error _ _ _)))
      (by simp [Notices]) (by simp [hin, Silent, emit, finish]) rfl rfl rfl (.inr ?_)
    exact ⟨.errorResponse "ERROR" code message, by simp, rfl⟩
  · split at h <;> cases h
    rename_i hb
    exact .working (hout.append ((unready_of_body hb).append
      (by simp [Unready, BackendMsg.isReady]))) hin
  · split at h <;> cases h
    rename_i hb
    exact .working (hout.append ((unready_of_body hb).append
      (by simp [Unready, BackendMsg.isReady]))) hin
  · cases h

/-- A query that turned out to be a COPY, which nobody feeds, can only fail. -/
lemma Probing.of_unasked {mv : ServerMove} (hin : s.inbox = []) (hout : Unready s.outbox)
    (h : s.move quiet mv = some s') : s'.Probing quiet ok := by
  have herr : ∀ simple code message st, (s.copyError simple code message st).Probing quiet ok := by
    intro simple code message st
    cases simple
    · exact .working (hout.append (unready_error _ _ _)) hin
    · exact .answered (s.outbox ++ [BackendMsg.errorResponse "ERROR" code message]) st [] rfl
        (hout.append (unready_error _ _ _)) (by simp [Notices])
        (by simp [hin, Silent, copyError, emit, finish]) rfl rfl rfl
        (.inr ⟨.errorResponse "ERROR" code message, by simp, rfl⟩)
  cases mv with
  | serve v => simp [Server.move, Server.serve, hin] at h
  | interrupt code message st =>
    simp only [Server.move] at h
    split at h <;> cases h
    · exact herr _ _ _ _
    · exact herr _ _ _ _
  | speak m =>
    simp only [Server.move] at h
    split at h <;> cases h <;>
      exact .working (hout.append (by simp [Unready, BackendMsg.isReady])) hin

theorem Probing.move {mv : ServerMove} (hs : s.Probing quiet ok)
    (h : s.move quiet mv = some s') : s'.Probing quiet ok := by
  cases hs with
  | answered xs st ns hout hxs hns hin hphase hstatus hreported hok =>
    obtain ⟨h1, ⟨ns', hns', h2⟩, h3, h4, h5, -⟩ := move_idle hphase hin h
    refine .answered xs st (ns ++ ns') (by simp [h2, hout]) hxs (fun m hm => ?_) h1 h3
      (h4.trans hstatus) (h5.trans hreported) hok
    rcases List.mem_append.mp hm with hm | hm
    · exact hns m hm
    · exact hns' m hm
  | working hout hin => exact .of_unasked hin hout h
  | queued ms sql hin hms hsql hout hphase hok =>
    cases mv with
    | serve v =>
      simp only [Server.move, Server.serve, hin] at h
      cases ms with
      | nil =>
        simp only [List.nil_append, hphase] at h
        exact .of_query (s := { s with inbox := [] }) hsql rfl hout hok h
      | cons m ms =>
        simp only [List.cons_append, hphase] at h
        have := serveReady_silent (hms m (by simp)) h
        subst this
        exact .queued ms sql rfl (fun m' hm' => hms m' (by simp [hm'])) hsql hout rfl hok
    | interrupt code message st => simp [Server.move, hphase] at h
    | speak m =>
      cases m <;> simp only [Server.move, hphase, reduceCtorEq] at h
      cases h
      exact .queued ms sql hin hms hsql (hout.append (by simp [Unready, BackendMsg.isReady]))
        hphase hok

lemma Probing.read (hs : s.Probing quiet ok) (hr : s.outbox.head? = some r)
    (hne : r.isReady = false) (herr : r.isError = false) :
    Probing quiet ok { s with outbox := s.outbox.tail } := by
  cases hs with
  | answered xs st ns hout hxs hns hin hphase hstatus hreported hok =>
    cases xs with
    | nil =>
      simp only [hout, List.nil_append, List.head?_cons, Option.some.injEq] at hr
      simp [← hr, BackendMsg.isReady] at hne
    | cons x xs =>
      have hx : x = r := by simpa [hout] using hr
      refine .answered xs st ns (by simp [hout]) (fun m hm => hxs m (by simp [hm])) hns hin hphase
        hstatus hreported ?_
      rcases hok with hok | ⟨m, hm, he⟩
      · exact .inl hok
      · rcases List.mem_cons.mp hm with rfl | hm
        · simp [hx, herr] at he
        · exact .inr ⟨m, hm, he⟩
  | working hout hin => exact .working (fun m hm => hout m (List.mem_of_mem_tail hm)) hin
  | queued ms sql hin hms hsql hout hphase hok =>
    exact .queued ms sql hin hms hsql (fun m hm => hout m (List.mem_of_mem_tail hm)) hphase hok

/-- A probe that ends without an error ends with a status that is kept. -/
lemma Probing.read_ready {st : Char} (hs : s.Probing quiet ok)
    (hr : s.outbox.head? = some (.readyForQuery st)) :
    Settled { s with outbox := s.outbox.tail } ∧ ok s.reported := by
  have hmem : BackendMsg.readyForQuery st ∈ s.outbox := List.mem_of_mem_head? hr
  cases hs with
  | answered xs st' ns hout hxs hns hin hphase hstatus hreported hok =>
    cases xs with
    | nil =>
      refine ⟨⟨hin, by simpa [hout] using hns, hphase, hstatus.trans hreported.symm⟩, ?_⟩
      rw [hreported]
      simpa using hok
    | cons x xs =>
      have hx : x = .readyForQuery st := by simpa [hout] using hr
      have := hxs x (by simp)
      simp [hx, BackendMsg.isReady] at this
  | working hout hin => simpa [BackendMsg.isReady] using hout _ hmem
  | queued ms sql hin hms hsql hout hphase hok => simpa [BackendMsg.isReady] using hout _ hmem

end Server

end Pgman
