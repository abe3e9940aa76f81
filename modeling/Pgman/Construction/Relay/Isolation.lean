import Mathlib.Data.List.Induction
import Pgman.Construction.Relay.Moments
import Pgman.Construction.Relay.Steady

/-!
# Session isolation, as the relay sees it

Sessions take turns on a connection, and the scrub between two turns is deferred: a session
gives its connection back as it is, signed with its id, and the next one that is not the
signer runs `server_reset_query` and replays its own parameters before it forwards anything.

The argument is a proof outline for connections.  Its ghost state is, for every session `k`,
what has happened to the connection since another session than `k` last sent it a client
message.  A connection that `k` works on has been scrubbed for `k` since then (`Ready`), and a
connection in the pool has been scrubbed for its signer.

All of this is about what the sessions do, and no server has a part in it.  A round trip is here
what the relay takes for one: whether the `ReadyForQuery` that it reads answers the query that it
has sent is a question about the server.
-/

namespace Pgman

/-! ## What a scrub is -/

/-- `k` sends `sql` on `c`, flushes it, and reads replies up to the first `ReadyForQuery`, none
of them an error. -/
def LogTrip (k : Caller) (c : Conn) (src : Source) (site : Site) (sql : String)
    (es : List (Caller × Act)) : Prop :=
  ∃ sent replies st,
    es = (k, .send c src (.query sql)) :: (k, .flush c site sent) :: replies ++
      [(k, .recv c site (.readyForQuery st) .consume)] ∧
    (src, FrontendMsg.query sql) ∈ sent ∧
    ∀ e ∈ replies, ∃ m : BackendMsg, e = (k, Act.recv c site m .consume) ∧ m.isError = false ∧
      m.isReady = false

/-- The reset query made its round trip, and the statement record was emptied after it. -/
def LogPurged (k : Caller) (c : Conn) (resetQuery : String) (es : List (Caller × Act)) : Prop :=
  ∃ x reset y, es = x ++ reset ++ y ∧ LogTrip k c .reset .reset resetQuery reset ∧
    (k, .clearStmts c) ∈ y

/-- After a purge, the parameters of `k`, if it has any, made their round trip. -/
def LogScrubbed (k : Caller) (c : Conn) (resetQuery : String) (ps : List TrackedParam)
    (es : List (Caller × Act)) : Prop :=
  ∃ purge replay rest, es = purge ++ replay ++ rest ∧ LogPurged k c resetQuery purge ∧
    (ps ≠ [] → LogTrip k c .params .params (Relay.setBatch ps) replay)

/-- A client message is handed to the connection's `Frontend`. -/
def Act.isClient : Act → Bool
  | .send _ .client _ => true
  | _ => false

/-- A reply is forwarded to the client. -/
def Act.isForward : Act → Bool
  | .recv _ _ _ .forward => true
  | _ => false

/-- The reset or the replay has failed. -/
def Act.failsAdoption : Act → Bool
  | .recv _ .reset m _ | .recv _ .params m _ => m.isError
  | .flushErr _ .reset | .flushErr _ .params | .recvErr _ .reset | .recvErr _ .params
  | .adoptFail _ => true
  | _ => false

lemma LogScrubbed.append {k : Caller} {c : Conn} {q : String} {ps : List TrackedParam}
    {es : List (Caller × Act)} (h : LogScrubbed k c q ps es) (es' : List (Caller × Act)) :
    LogScrubbed k c q ps (es ++ es') := by
  obtain ⟨purge, replay, rest, rfl, hpurge, htrip⟩ := h
  exact ⟨purge, replay, rest ++ es', by simp, hpurge, htrip⟩

lemma LogScrubbed.prepend {k : Caller} {c : Conn} {q : String} {ps : List TrackedParam}
    {es : List (Caller × Act)} (h : LogScrubbed k c q ps es) (es' : List (Caller × Act)) :
    LogScrubbed k c q ps (es' ++ es) := by
  obtain ⟨purge, replay, rest, rfl, ⟨x, reset, y, rfl, hreset, hclear⟩, htrip⟩ := h
  exact ⟨es' ++ x ++ reset ++ y, replay, rest, by simp,
    ⟨es' ++ x, reset, y, by simp, hreset, hclear⟩, htrip⟩

/-! ## A round trip in progress -/

section Trips

variable {k : Caller} {c : Conn} {src : Source} {site : Site} {sql : String}
  {P : List (Caller × Act) → Prop} {es : List (Caller × Act)}

/-- The query has just been buffered, after something with `P`. -/
def Asked (P : List (Caller × Act) → Prop) (k : Caller) (c : Conn) (src : Source) (sql : String)
    (es : List (Caller × Act)) : Prop :=
  ∃ x, es = x ++ [(k, Act.send c src (.query sql))] ∧ P x

/-- The query has been flushed, and its replies so far are fine. -/
def Awaiting (P : List (Caller × Act) → Prop) (k : Caller) (c : Conn) (src : Source) (site : Site)
    (sql : String) (es : List (Caller × Act)) : Prop :=
  ∃ x sent replies,
    es = x ++ (k, Act.send c src (.query sql)) :: (k, .flush c site sent) :: replies ∧ P x ∧
    (src, FrontendMsg.query sql) ∈ sent ∧
    ∀ e ∈ replies, ∃ m : BackendMsg, e = (k, Act.recv c site m .consume) ∧ m.isError = false ∧
      m.isReady = false

/-- The round trip is complete. -/
def Answered (P : List (Caller × Act) → Prop) (k : Caller) (c : Conn) (src : Source) (site : Site)
    (sql : String) (es : List (Caller × Act)) : Prop :=
  ∃ x trip, es = x ++ trip ∧ P x ∧ LogTrip k c src site sql trip

lemma Asked.flush {sent : List (Source × FrontendMsg)} (hsent : (src, .query sql) ∈ sent)
    (h : Asked P k c src sql es) :
    Awaiting P k c src site sql (es ++ [(k, Act.flush c site sent)]) := by
  obtain ⟨x, rfl, hx⟩ := h
  exact ⟨x, sent, [], by simp, hx, hsent, by simp⟩

lemma Awaiting.recv {m : BackendMsg} (herr : m.isError = false) (hready : m.isReady = false)
    (h : Awaiting P k c src site sql es) :
    Awaiting P k c src site sql (es ++ [(k, Act.recv c site m .consume)]) := by
  obtain ⟨x, sent, replies, rfl, hx, hsent, hreplies⟩ := h
  refine ⟨x, sent, replies ++ [(k, Act.recv c site m .consume)], by simp, hx, hsent, fun e he => ?_⟩
  rcases List.mem_append.mp he with he | he
  · exact hreplies e he
  · exact ⟨m, by simpa using he, herr, hready⟩

lemma Awaiting.ready (st : Char) (h : Awaiting P k c src site sql es) :
    Answered P k c src site sql (es ++ [(k, Act.recv c site (.readyForQuery st) .consume)]) := by
  obtain ⟨x, sent, replies, rfl, hx, hsent, hreplies⟩ := h
  exact ⟨x, _, by simp, hx, sent, replies, st, rfl, hsent, hreplies⟩

end Trips

/-! ## The ghost state -/

/-- Whether an adoption has failed, and what became of the connection. -/
inductive Condition
  | sound
  | failed
  | discarded
  deriving DecidableEq, Repr

def Condition.next : Condition → Act → Condition
  | .sound, a => if a.failsAdoption then .failed else .sound
  | .failed, .discard _ => .discarded
  | s, _ => s

/-- The trail of a connection. -/
structure Trail where
  /-- What has happened since another session sent a client message; `none` if none did. -/
  foreign : Caller → Option (List (Caller × Act))
  /-- The session that signed last. -/
  owner : Option Caller
  condition : Condition

namespace Trail

def start : Trail := ⟨fun _ => none, none, .sound⟩

def next (s : Trail) (e : Caller × Act) : Trail where
  foreign k := if k ≠ e.1 ∧ e.2.isClient then some [] else (s.foreign k).map (· ++ [e])
  owner := match e.2 with
    | .setOwner _ _ => some e.1
    | _ => s.owner
  condition := s.condition.next e.2

/-- `φ` is true of what has happened since another session than `k` was served. -/
def Since (s : Trail) (k : Caller) (φ : List (Caller × Act) → Prop) : Prop :=
  ∀ es, s.foreign k = some es → φ es

variable {s : Trail} {k k' : Caller} {a : Act} {φ ψ : List (Caller × Act) → Prop}

lemma Since.next (h : s.Since k φ) (hφ : ∀ es, φ es → ψ (es ++ [(k', a)]))
    (hk : k = k' ∨ a.isClient = false) : (s.next (k', a)).Since k ψ := by
  intro es hes
  have hkeep : ¬(k ≠ k' ∧ a.isClient = true) := by
    rcases hk with rfl | hk
    · simp
    · simp [hk]
  simp only [Trail.next, if_neg hkeep, Option.map_eq_some_iff] at hes
  obtain ⟨es', hes', rfl⟩ := hes
  exact hφ es' (h es' hes')

lemma Since.self (h : s.Since k φ) (hφ : ∀ es, φ es → ψ (es ++ [(k, a)])) :
    (s.next (k, a)).Since k ψ :=
  h.next hφ (.inl rfl)

end Trail

/-! ## The outline -/

section Outline

variable (q : String) (params : Caller → List TrackedParam)

/-- LogScrubbed for `k` since it last served another session. -/
def Ready (k : Caller) (s : Trail) : Prop :=
  s.Since k fun es => ∃ c, LogScrubbed k c q (params k) es

/-- A connection that nobody works on: clean if unsigned, else ready for its signer. -/
def Vacant (s : Trail) : Prop :=
  s.condition = .sound ∧ (s.owner = none → ∀ k, s.foreign k = none) ∧
    ∀ k, s.owner = some k → Ready q params k s

/-- A connection that `k` may forward to. -/
def Serving (k : Caller) (s : Trail) : Prop := s.condition = .sound ∧ Ready q params k s

/-- The trail of a connection at each point of the program. -/
def trailAt (k : Caller) (l : Local) (b : BackendConn) (s : Trail) : Prop :=
  match l.pc with
  | .checkArm _ _ | .checkFlush _ _ | .checkRecv _ _ => Vacant q params s
  | .resetArm _ _ => s.condition = .sound
  | .resetFlush c _ =>
      s.condition = .sound ∧ (.reset, .query q) ∈ b.wbuf ∧
        s.Since k (Asked (fun _ => True) k c .reset q)
  | .resetRecv c _ =>
      s.condition = .sound ∧ s.Since k (Awaiting (fun _ => True) k c .reset .reset q)
  | .paramsFlush c _ =>
      s.condition = .sound ∧ (.params, .query (Relay.setBatch (params k))) ∈ b.wbuf ∧
        s.Since k (Asked (LogPurged k c q) k c .params (Relay.setBatch (params k)))
  | .paramsRecv c _ =>
      s.condition = .sound ∧
        s.Since k (Awaiting (LogPurged k c q) k c .params .params (Relay.setBatch (params k)))
  | _ => Serving q params k s

/-- The outline: clients and their replies only meet a connection scrubbed for them, and
nothing fails on a connection that has been discarded. -/
def isolation : Outline Caller Local BackendConn Act Trail where
  init := .start
  next := Trail.next
  good s e :=
    (e.2.isClient = true ∨ e.2.isForward = true → Serving q params e.1 s) ∧
      (e.2.failsAdoption = true → s.condition ≠ .discarded)
  free _ s := Vacant q params s
  held := trailAt q params
  gone _ s := s.condition ≠ .failed

variable {q params} {k k' : Caller} {l l' : Local} {c : Conn} {a : Act} {b : BackendConn}
  {s : Trail} {p : Place Caller} {msg : FrontendMsg} {acts : List Act}

/-- What a step on `c` has to show. -/
abbrev Isolates (q : String) (params : Caller → List TrackedParam) (k : Caller) (l : Local)
    (acts : List Act) (c : Conn) (p : Place Caller) (b : BackendConn) (s : Trail) : Prop :=
  Outline.LocalStep relaySem (isolation q params) Local.hand k l acts c p b s

lemma good_of_quiet (h1 : a.isClient = false) (h2 : a.isForward = false)
    (h3 : a.failsAdoption = false) : (isolation q params).good s (k, a) := by
  simp [isolation, h1, h2, h3]

lemma good_of_kept (h1 : a.isClient = false) (h2 : a.isForward = false)
    (hs : s.condition ≠ .discarded) : (isolation q params).good s (k, a) := by
  simp [isolation, h1, h2, hs]

/-- Only a discard discards. -/
lemma kept_next (hs : s.condition ≠ .discarded) (ha : ∀ c, a ≠ .discard c) :
    (s.next (k, a)).condition ≠ .discarded := by
  simp only [Trail.next]
  cases hc : s.condition with
  | sound => simp only [Condition.next]; split <;> simp
  | failed => cases a <;> simp_all [Condition.next]
  | discarded => exact absurd hc hs

lemma Serving.good (h : Serving q params k s) : (isolation q params).good s (k, a) :=
  ⟨fun _ => h, fun _ => by simp [h.1]⟩

lemma Ready.next (h : Ready q params k s) (hk : k = k' ∨ a.isClient = false) :
    Ready q params k (s.next (k', a)) :=
  Trail.Since.next h (fun _ ⟨c, hes⟩ => ⟨c, hes.append _⟩) hk

lemma sound_next (h : s.condition = .sound) (ha : a.failsAdoption = false) :
    (s.next (k, a)).condition = .sound := by
  simp [Trail.next, Condition.next, h, ha]

lemma Serving.next (h : Serving q params k s) (ha : a.failsAdoption = false) :
    Serving q params k (s.next (k, a)) :=
  ⟨sound_next h.1 ha, h.2.next (.inl rfl)⟩

/-- A failure that is followed by a discard leaves nothing to clean up. -/
lemma discard_ne_failed : (s.next (k, .discard c)).condition ≠ .failed := by
  simp only [Trail.next]
  cases s.condition <;> simp [Condition.next, Act.failsAdoption]

/-- Execute acts of a session that is being served. -/
lemma Serving.run (h : Serving q params k s)
    (hacts : ∀ a ∈ acts, a.on = none ∨ a.on = some c ∧ a.lease = none ∧ a.failsAdoption = false)
    {acts' : List Act}
    (hrest : ∀ b s, Serving q params k s → Isolates q params k l acts' c p b s) :
    Isolates q params k l (acts ++ acts') c p b s := by
  refine Outline.LocalStep.run (I := fun _ s => Serving q params k s) h (fun a ha => ?_) hrest
  rcases hacts a ha with hon | ⟨hon, hlease, hfail⟩
  · exact .inl hon
  · exact .inr ⟨hon, hlease, fun _ s hs => ⟨hs.good, hs.next hfail⟩⟩

/-- `release(true)`, from the signature on. -/
lemma Serving.giveBack (id : ℕ) (h : Serving q params k s) (hl : l.hand = none) :
    Isolates q params k l [.setOwner c id, .release c] c (.held k) b s := by
  refine .cons rfl h.good (.cons rfl (h.next rfl).good (.returns hl ?_))
  have hserving := (h.next (a := .setOwner c id) rfl).next (a := .release c) rfl
  refine ⟨hserving.1, fun ho => by simp [Trail.next, isolation] at ho, fun k' hk' => ?_⟩
  have hk : k = k' := by simpa [Trail.next, isolation] using hk'
  exact hk ▸ hserving.2

/-- `release(false)`. -/
lemma Serving.giveUp (h : Serving q params k s) (hl : l.hand = none) :
    Isolates q params k l [.discard c] c (.held k) b s :=
  .cons rfl h.good (.drops hl discard_ne_failed)

lemma Serving.release (reusable : Bool) (h : Serving q params k s) (hl : l'.hand = none) :
    Isolates q params k l' (Relay.release l c reusable) c (.held k) b s := by
  refine .cons rfl h.good ?_
  cases reusable
  · exact (h.next rfl).giveUp hl
  · exact (h.next rfl).giveBack _ hl

/-! ## The pieces of the loop -/

variable {opts : RuntimeOpts} {stmts : BackendPSCache} {r : Local × List Act}

lemma Serving.forward (h : Serving q params k s) (hr : Relay.forward l c stmts msg = .ok r) :
    Isolates q params k r.1 r.2 c (.held k) b s := by
  unfold Relay.forward at hr
  split at hr <;> cases hr
  rw [← List.append_nil (List.map _ _ ++ _)]
  refine h.run (fun a ha => .inr ?_) (fun b s hs => .keeps ?_)
  · simp only [List.mem_append, List.mem_map, List.mem_cons, List.not_mem_nil, or_false] at ha
    rcases ha with ⟨m, -, rfl⟩ | rfl | rfl <;> exact ⟨rfl, rfl, rfl⟩
  · simp only [isolation, trailAt]
    cases isTerminalMessage msg <;> exact hs

lemma Serving.beginBatch (h : Serving q params k s) :
    Isolates q params k (Relay.beginBatch l c stmts msg).1 (Relay.beginBatch l c stmts msg).2 c
      (.held k) b s := by
  unfold Relay.beginBatch
  split
  · rename_i hr
    exact h.forward hr
  · exact .skip rfl (h.release _ rfl)

lemma Serving.adopted (h : Serving q params k s) :
    Isolates q params k (Relay.adopted l c msg).1 (Relay.adopted l c msg).2 c (.held k) b s :=
  .cons rfl h.good (h.next rfl).beginBatch

/-- After the reset, or without one if nobody has used the connection. -/
lemma replayParams_isolates (hps : l.sess.trackedParams = params k) (hsound : s.condition = .sound)
    (hreset : s.Since k fun es => ∃ x reset y, es = x ++ reset ++ y ∧
      LogTrip k c .reset .reset q reset) :
    Isolates q params k (Relay.replayParams l c msg).1 (Relay.replayParams l c msg).2 c
      (.held k) b s := by
  have hpurged : (s.next (k, .clearStmts c)).Since k (LogPurged k c q) :=
    hreset.self (fun es ⟨x, reset, y, hes, htrip⟩ =>
      ⟨x, reset, y ++ [(k, Act.clearStmts c)], by simp [hes], htrip, by simp⟩)
  unfold Relay.replayParams
  split
  · rename_i hempty
    have hnil : params k = [] := by simpa [hps] using hempty
    refine .cons rfl (good_of_quiet rfl rfl rfl) (Serving.adopted ?_)
    refine ⟨sound_next hsound rfl, fun es hes => ⟨c, es, [], [], by simp, hpurged es hes, ?_⟩⟩
    exact fun hne => absurd hnil hne
  · refine .cons rfl (good_of_quiet rfl rfl rfl)
      (.cons rfl (good_of_quiet rfl rfl rfl) (.keeps ?_))
    refine ⟨sound_next (sound_next hsound rfl) rfl, ?_, ?_⟩
    · simp [relaySem, BackendConn.after, hps]
    · exact hpurged.self (fun es hes => ⟨es, by simp [hps], hes⟩)

/-- `adoptBackend` on a connection from the pool, whose tag has been read from `b₀`. -/
lemma Vacant.adoptAs {b₀ : BackendConn} (hq : opts.serverResetQuery = q) (hne : q ≠ "")
    (hps : l.sess.trackedParams = params k) (h : Vacant q params s)
    (hsame : b₀.stateOwner = l.sess.id → s.owner = some k)
    (hnobody : b₀.stateOwner = 0 → s.owner = none) :
    Isolates q params k (Relay.adoptAs opts b₀ l c msg).1 (Relay.adoptAs opts b₀ l c msg).2 c
      (.held k) b s := by
  unfold Relay.adoptAs
  split
  · rename_i hskip
    exact Serving.beginBatch ⟨h.1, h.2.2 k (hsame hskip.2)⟩
  · split
    · exact .keeps h.1
    · rename_i hclean
      have h0 : b₀.stateOwner = 0 := by
        by_contra h0
        exact hclean ⟨h0, hq ▸ hne⟩
      -- nobody has used the connection, so there is nothing to scrub
      have hnone := h.2.1 (hnobody h0) k
      exact replayParams_isolates hps h.1 (fun es hes => by simp [hnone] at hes)

lemma adoptFailed_isolates (err : String) (hs : s.condition ≠ .discarded) :
    Isolates q params k (Relay.adoptFailed l c msg err).1 (Relay.adoptFailed l c msg err).2 c
      (.held k) b s := by
  obtain ⟨-, hacts, hgrip⟩ := Relay.failQuery_idle l msg "08006"
    ("backend could not be prepared for this session: " ++ err)
  have hhand : (Relay.adoptFailed l c msg err).1.hand = none := by
    simp only [Relay.adoptFailed, Local.hand, hgrip, Grip.conn]
  refine .cons rfl (good_of_kept rfl rfl hs) (.cons rfl (good_of_quiet rfl rfl rfl) ?_)
  exact .idle hacts (.drops hhand discard_ne_failed)

/-! ## The steps -/

variable {conns : Conn → BackendConn} {nextID : ℕ} {i : Input}

lemma resetStep_isolates (hq : opts.serverResetQuery = q) (hps : l.sess.trackedParams = params k)
    (hg : l.pc.grip = .holding c) (hb : conns c = b) (hs : trailAt q params k l b s)
    (h : Relay.resetStep opts conns l c msg l.pc i = some r) :
    Isolates q params k r.1 r.2 c (.held k) b s := by
  have hfail : ∀ (a : Act) err, s.condition = .sound → a.on = some c → a.lease = none →
      a.isClient = false → a.isForward = false → let f := Relay.adoptFailed l c msg err
      Isolates q params k f.1 ([a, .setDeadline c false] ++ f.2) c (.held k) b s := by
    intro a err hsound hon hlease h1 h2
    have hs : s.condition ≠ .discarded := by simp [hsound]
    have ha : ∀ c, a ≠ .discard c := by rintro c rfl; simp [Act.lease] at hlease
    refine .cons hon (good_of_kept h1 h2 hs) (.cons rfl (good_of_quiet rfl rfl rfl) ?_)
    rw [show relaySem.lease a = none from hlease]
    exact adoptFailed_isolates err (kept_next (kept_next hs ha) (by simp))
  unfold Relay.resetStep at h
  split at h <;> rename_i hpc <;> simp only [hpc, trailAt, PC.grip, Grip.holding.injEq] at hs hg
  · cases h
    refine .cons rfl (good_of_quiet rfl rfl rfl) (.cons rfl (good_of_quiet rfl rfl rfl) (.keeps ?_))
    have hany : (s.next (k, .setDeadline c true)).Since k fun _ => True := fun _ _ => trivial
    refine ⟨sound_next (sound_next hs rfl) rfl, ?_, hany.self (fun es _ => ⟨es, ?_, trivial⟩)⟩
    · simp [relaySem, BackendConn.after, hq]
    · rw [hq]
  · cases h; exact adoptFailed_isolates _ (by simp [hs])
  · cases h
    subst hg
    refine .cons rfl (good_of_quiet rfl rfl rfl) (.keeps ⟨sound_next hs.1 rfl, ?_⟩)
    exact hs.2.2.self (fun es hes => hes.flush (hb ▸ hs.2.1))
  · cases h; exact hfail _ _ hs.1 rfl rfl rfl rfl
  · cases h; exact hfail _ _ hs.1 rfl rfl rfl rfl
  · subst hg
    split at h <;> cases h
    · exact hfail _ _ hs.1 rfl rfl rfl rfl
    · rename_i st
      refine .cons rfl (good_of_quiet rfl rfl rfl) (.cons rfl (good_of_quiet rfl rfl rfl) ?_)
      refine replayParams_isolates hps (sound_next (sound_next hs.1 rfl) rfl) ?_
      have htrip := hs.2.self (fun es hes => hes.ready st)
      refine htrip.self fun es hes => ?_
      obtain ⟨x, trip, hes, -, ht⟩ := hes
      exact ⟨x, trip, _, congrArg (· ++ _) hes, ht⟩
    · rename_i herr hready
      have h1 := BackendMsg.isError_eq_false herr
      have h2 := BackendMsg.isReady_eq_false hready
      refine .cons rfl (good_of_quiet rfl rfl h1) (.keeps ⟨sound_next hs.1 h1, ?_⟩)
      exact hs.2.self (fun es hes => hes.recv h1 h2)
  · cases h

lemma paramsStep_isolates (hg : l.pc.grip = .holding c) (hb : conns c = b)
    (hs : trailAt q params k l b s) (h : Relay.paramsStep conns l c msg l.pc i = some r) :
    Isolates q params k r.1 r.2 c (.held k) b s := by
  have hfail : ∀ (a : Act) err, s.condition = .sound → a.on = some c → a.lease = none →
      a.isClient = false → a.isForward = false → let f := Relay.adoptFailed l c msg err
      Isolates q params k f.1 (a :: f.2) c (.held k) b s := by
    intro a err hsound hon hlease h1 h2
    have hs : s.condition ≠ .discarded := by simp [hsound]
    have ha : ∀ c, a ≠ .discard c := by rintro c rfl; simp [Act.lease] at hlease
    refine .cons hon (good_of_kept h1 h2 hs) ?_
    rw [show relaySem.lease a = none from hlease]
    exact adoptFailed_isolates err (kept_next hs ha)
  unfold Relay.paramsStep at h
  split at h <;> rename_i hpc <;> simp only [hpc, trailAt, PC.grip, Grip.holding.injEq] at hs hg
  · cases h
    subst hg
    refine .cons rfl (good_of_quiet rfl rfl rfl) (.keeps ⟨sound_next hs.1 rfl, ?_⟩)
    exact hs.2.2.self (fun es hes => hes.flush (hb ▸ hs.2.1))
  · cases h; exact hfail _ _ hs.1 rfl rfl rfl rfl
  · cases h; exact hfail _ _ hs.1 rfl rfl rfl rfl
  · subst hg
    split at h <;> cases h
    · exact hfail _ _ hs.1 rfl rfl rfl rfl
    · rename_i st
      refine .cons rfl (good_of_quiet rfl rfl rfl) (Serving.adopted ⟨sound_next hs.1 rfl, ?_⟩)
      have htrip := hs.2.self (fun es hes => hes.ready st)
      intro es hes
      obtain ⟨x, trip, rfl, hx, ht⟩ := htrip es hes
      exact ⟨_, x, trip, [], by simp, hx, fun _ => ht⟩
    · rename_i herr hready
      have h1 := BackendMsg.isError_eq_false herr
      have h2 := BackendMsg.isReady_eq_false hready
      refine .cons rfl (good_of_quiet rfl rfl h1) (.keeps ⟨sound_next hs.1 h1, ?_⟩)
      exact hs.2.self (fun es hes => hes.recv h1 h2)
  · cases h

lemma Serving.outerStep (h : Serving q params k s)
    (hr : Relay.outerStep opts conns l (some c) i = some r) :
    Isolates q params k r.1 r.2 c (.held k) b s := by
  unfold Relay.outerStep at hr
  split at hr
  · obtain ⟨t, -, rfl⟩ := Option.map_eq_some_iff.mp hr
    exact .skip rfl (h.release _ rfl)
  · cases hr; exact h.release _ rfl
  · cases hr; exact h.release _ rfl
  · cases hr; exact h.beginBatch
  · cases hr

lemma Serving.batchStep (h : Serving q params k s)
    (hr : Relay.batchStep opts conns l c (.batch c) i = some r) :
    Isolates q params k r.1 r.2 c (.held k) b s := by
  unfold Relay.batchStep at hr
  split at hr
  · cases hr; exact h.release _ rfl
  · split at hr
    · cases hr; exact h.release _ rfl
    · split at hr <;> cases hr
      · rename_i hf
        exact h.forward hf
      · exact .skip rfl (h.release _ rfl)
  · simp_all
  · simp_all
  · cases hr

lemma plain_harmless (ha : a.plain c i) :
    a.on = none ∨ a.on = some c ∧ a.lease = none ∧ a.failsAdoption = false := by
  have hfail : a.failsAdoption = false := by
    cases a with
    | recv c' site m fate => rcases ha.2.2 with rfl | rfl <;> rfl
    | flushErr c' site => rcases ha.2 with rfl | rfl | rfl <;> rfl
    | recvErr c' site => rcases ha.2 with rfl | rfl | rfl <;> rfl
    | adoptFail c' => exact ha.elim
    | _ => rfl
  rcases ha.on with hon | ⟨hon, hlease⟩
  · exact .inl hon
  · exact .inr ⟨hon, hlease, hfail⟩

/-- Nothing has failed on a connection in hand. -/
lemma trailAt_sound (h : trailAt q params k l b s) : s.condition = .sound := by
  unfold trailAt at h
  split at h
  · exact h.1
  · exact h.1
  · exact h.1
  · exact h
  · exact h.1
  · exact h.1
  · exact h.1
  · exact h.1
  · exact h.1

lemma trailAt_of_service (hpc : l.pc.service = some c) :
    trailAt q params k l b s ↔ Serving q params k s := by
  unfold PC.service at hpc
  unfold trailAt
  cases hl : l.pc <;> simp_all

lemma Serving.service (h : Serving q params k s) (hr : Relay.ServiceEnd l.sess c i r) :
    Isolates q params k r.1 r.2 c (.held k) b s := by
  cases hr with
  | stay _ hacts hpc =>
    rw [← List.append_nil r.2]
    refine h.run (fun a ha => plain_harmless (hacts a ha)) (fun b s hs => .keeps ?_)
    rcases hpc with hpc | hpc
    · exact (trailAt_of_service hpc).mpr hs
    · simpa only [isolation, trailAt, hpc] using hs
  | back _ acts hacts h2 hpc =>
    rw [h2]
    exact h.run (fun a ha => plain_harmless (hacts a ha))
      (fun b s hs => hs.giveBack _ (Relay.hand_of_end (.inr hpc)))
  | drop _ acts tail hacts htail h2 hpc =>
    rw [h2]
    refine h.run (fun a ha => plain_harmless (hacts a ha)) (fun b s hs => ?_)
    exact .cons rfl (good_of_quiet rfl rfl rfl)
      (.idle htail (.drops (Relay.hand_of_end hpc) discard_ne_failed))

/-- Vacant, with a given signer. -/
def VacantOf (q : String) (params : Caller → List TrackedParam) (o : Option Caller) (s : Trail) :
    Prop := Vacant q params s ∧ s.owner = o

/-- Acts that neither serve a client nor sign leave a connection vacant. -/
lemma VacantOf.next {o : Option Caller} (h : VacantOf q params o s) (h1 : a.isClient = false)
    (h2 : a.failsAdoption = false) (h3 : ∀ c id, a ≠ .setOwner c id) :
    VacantOf q params o (s.next (k, a)) := by
  obtain ⟨⟨hsound, hnone, hready⟩, ho⟩ := h
  have howner : (s.next (k, a)).owner = s.owner := by
    cases a <;> simp_all [Trail.next]
  refine ⟨⟨sound_next hsound h2, fun h k' => ?_, fun k' h => ?_⟩, howner.trans ho⟩
  · rw [howner] at h
    simp [Trail.next, h1, hnone h k']
  · rw [howner] at h
    exact (hready k' h).next (.inr h1)

lemma probes_harmless (ha : a.probes c) : a.isClient = false ∧ a.isForward = false ∧
    a.failsAdoption = false ∧ ∀ c id, a ≠ .setOwner c id := by
  unfold Act.probes at ha
  split at ha <;> simp_all [Act.isClient, Act.isForward, Act.failsAdoption]

/-- Execute a part of a health check. -/
lemma VacantOf.run {o : Option Caller} (h : VacantOf q params o s)
    (hacts : ∀ a ∈ acts, a.probes c) {acts' : List Act}
    (hrest : ∀ b s, VacantOf q params o s → Isolates q params k l acts' c p b s) :
    Isolates q params k l (acts ++ acts') c p b s := by
  refine Outline.LocalStep.run (I := fun _ s => VacantOf q params o s) h (fun a ha => ?_) hrest
  obtain ⟨h1, h2, h3, h4⟩ := probes_harmless (hacts a ha)
  obtain ⟨hon, hlease⟩ := (hacts a ha).on
  exact .inr ⟨hon, hlease, fun _ s hs => ⟨good_of_quiet h1 h2 h3, hs.next h1 h3 h4⟩⟩

lemma trailAt_of_checking (hg : l.grip = .checking c) (h : Vacant q params s) :
    trailAt q params k l b s := by
  unfold Local.grip at hg
  unfold trailAt
  cases hpc : l.pc with
  | outer backend => cases backend <;> simp [hpc, PC.grip] at hg
  | checkArm c' m => exact h
  | checkFlush c' m => exact h
  | checkRecv c' m => exact h
  | _ => simp [hpc, PC.grip] at hg

lemma vacant_of_checking (hg : l.grip = .checking c) (h : trailAt q params k l b s) :
    Vacant q params s := by
  unfold Local.grip at hg
  unfold trailAt at h
  cases hpc : l.pc with
  | outer backend => cases backend <;> simp [hpc, PC.grip] at hg
  | checkArm c' m => simpa only [hpc] using h
  | checkFlush c' m => simpa only [hpc] using h
  | checkRecv c' m => simpa only [hpc] using h
  | _ => simp [hpc, PC.grip] at hg

end Outline

/-! ## The system -/

section System

variable {opts : RuntimeOpts} {mode : PoolMode} {params : Caller → List TrackedParam} {w : World}

/-- The trail's signer is the log's. -/
lemma ghost_owner (q : String) (params : Caller → List TrackedParam) (c : Conn)
    (log : List (Caller × Act)) :
    ((isolation q params).ghost relaySem c log).owner = World.lastOwner c log := by
  induction log using List.reverseRecOn with
  | nil => rfl
  | append_singleton log e ih =>
    obtain ⟨k, a⟩ := e
    have hghost := (isolation q params).ghost_append (S := relaySem) k c log [a]
    simp only [List.map_cons, List.map_nil] at hghost
    rw [hghost, Outline.after_cons, Outline.after_nil]
    simp only [World.lastOwner, List.foldl_append, List.foldl_cons, List.foldl_nil]
    rw [show log.foldl _ none = World.lastOwner c log from rfl, ← ih]
    generalize (isolation q params).ghost relaySem c log = s
    cases a with
    | setOwner c' id =>
      by_cases hc : c' = c
      · simp [relaySem, Act.on, hc, isolation, Trail.next]
      · simp [relaySem, Act.on, hc]
    | _ => simp only [isolation, Trail.next]; split <;> rfl

/-- `adoptBackend` in a world: the tag tells the signer. -/
lemma adopt_isolates {k : Caller} {c : Conn} {msg : FrontendMsg} {b : BackendConn} {s : Trail}
    (hw : w.Steady mode params) (hne : opts.serverResetQuery ≠ "")
    (h : VacantOf opts.serverResetQuery params (World.lastOwner c w.log) s) :
    let a := Relay.adopt opts (w.res c) w.shared (w.loc k) c msg
    Isolates opts.serverResetQuery params k a.1 a.2 c (.held k) b s := by
  intro a
  have htag := hw.tagged c
  unfold World.Tagged at htag
  have hid := Relay.ensureID_id_ne_zero w.shared (w.loc k)
  have hps : (Relay.ensureID w.shared (w.loc k)).1.sess.trackedParams = params k := by
    rw [← hw.tracked k]
    unfold Relay.ensureID
    split <;> rfl
  have hmain : Isolates opts.serverResetQuery params k a.1
      (Relay.adoptAs opts (w.res c) (Relay.ensureID w.shared (w.loc k)).1 c msg).2 c
      (.held k) b s := by
    refine h.1.adoptAs rfl hne hps (fun hsame => ?_) (fun hnobody => ?_)
    · cases ho : World.lastOwner c w.log with
      | none => simp [ho, hsame, hid] at htag
      | some k' =>
        simp only [ho] at htag
        rw [h.2, ho]
        -- ids are unique, and a fresh one is nobody's tag
        have := hw.issued k'
        unfold Relay.ensureID at hsame
        split at hsame
        · simp only at hsame
          omega
        · rw [hw.unique k' k (htag.1.symm.trans hsame) htag.2]
    · cases ho : World.lastOwner c w.log with
      | none => exact h.2.trans ho
      | some k' =>
        simp only [ho] at htag
        omega
  have hissue : ∀ acts, Isolates opts.serverResetQuery params k a.1 acts c (.held k) b s →
      Isolates opts.serverResetQuery params k a.1
        ((Relay.ensureID w.shared (w.loc k)).2 ++ acts) c (.held k) b s := by
    intro acts hacts
    unfold Relay.ensureID
    split
    · exact .skip rfl hacts
    · exact hacts
  exact hissue _ hmain

/-- A step that works on the connection in hand. -/
lemma holding_isolates {k : Caller} {c : Conn} {i : Input} {r : Local × List Act} {s : Trail}
    (hw : w.Steady mode params) (hg : (w.loc k).grip = .holding c)
    (hs : trailAt opts.serverResetQuery params k (w.loc k) (w.res c) s)
    (hr : Relay.step opts w.res w.shared (w.loc k) i = some r) :
    Isolates opts.serverResetQuery params k r.1 r.2 c (.held k) (w.res c) s := by
  cases Relay.working_step hg hr with
  | outer hpc h =>
    simp only [trailAt, hpc] at hs
    exact hs.outerStep h
  | reset msg _ h => exact resetStep_isolates rfl (hw.tracked k) hg rfl hs h
  | params msg _ h => exact paramsStep_isolates hg rfl hs h
  | batch hpc h =>
    simp only [trailAt, hpc] at hs
    exact hs.batchStep h
  | service hpc h => exact ((trailAt_of_service hpc).mp hs).service h

/-- A step without a connection in hand, on the one its `Acquire` checks or brings. -/
lemma approach_isolates {k : Caller} {c : Conn} {i : Input} {r : Local × List Act} {s : Trail}
    {p : Place Caller} (hw : w.Steady mode params) (hne : opts.serverResetQuery ≠ "")
    (hs : VacantOf opts.serverResetQuery params (World.lastOwner c w.log) s)
    (hp : (w.loc k).grip = .checking c ∧ p = .held k ∨
      (w.loc k).grip = .loose ∧ p = .pooled ∧ i.conn = some c)
    (hr : Relay.Approach opts w.res w.shared (w.loc k) i r) :
    Isolates opts.serverResetQuery params k r.1 r.2 c p (w.res c) s := by
  cases hr with
  | idle hg _ hacts hloose =>
    rcases hp with ⟨hg', -⟩ | ⟨-, rfl, -⟩
    · simp [hg] at hg'
    · exact .idle hacts (.returns (by simp [Local.hand, hloose, Grip.conn]) hs.1)
  | pop c' msg hg hi hr =>
    subst hr hi
    rcases hp with ⟨hg', -⟩ | ⟨-, rfl, hc⟩
    · simp [hg] at hg'
    · obtain rfl : c' = c := by simpa [Input.conn] using hc
      exact .cons rfl (good_of_quiet rfl rfl rfl) (.keeps (hs.next rfl rfl (by simp)).1)
  | acquire c' msg hg hi hr =>
    subst hr hi
    rcases hp with ⟨hg', -⟩ | ⟨-, rfl, hc⟩
    · simp [hg] at hg'
    · obtain rfl : c' = c := by simpa [Input.conn] using hc
      exact .cons rfl (good_of_quiet rfl rfl rfl)
        (adopt_isolates hw hne (hs.next rfl rfl (by simp)))
  | probe c' hg _ hacts hchecking =>
    rcases hp with ⟨hg', rfl⟩ | ⟨hg', -⟩
    · obtain rfl : c' = c := by simpa [hg] using hg'
      rw [← List.append_nil r.2]
      exact hs.run hacts (fun b s hs => .keeps (trailAt_of_checking hchecking hs.1))
    · simp [hg] at hg'
  | reject c' acts hg _ hacts h2 hloose =>
    rcases hp with ⟨hg', rfl⟩ | ⟨hg', -⟩
    · obtain rfl : c' = c := by simpa [hg] using hg'
      rw [h2]
      refine hs.run hacts (fun b s hs => .cons rfl (good_of_quiet rfl rfl rfl) (.drops ?_ ?_))
      · simp [Local.hand, hloose, Grip.conn]
      · have hsound : (s.next (k, .retire c')).condition = .sound := sound_next hs.1.1 rfl
        exact fun hfailed => by simp [isolation, hsound] at hfailed
    · simp [hg] at hg'
  | passed c' msg acts hg hacts hr =>
    subst hr
    rcases hp with ⟨hg', rfl⟩ | ⟨hg', -⟩
    · obtain rfl : c' = c := by simpa [hg] using hg'
      exact hs.run hacts (fun b s hs => .cons rfl (good_of_quiet rfl rfl rfl)
        (adopt_isolates hw hne (hs.next rfl rfl (by simp))))
    · simp [hg] at hg'

theorem isolation_holds (hne : opts.serverResetQuery ≠ "")
    (h : (World.machine opts mode params).Reachable w) :
    (isolation opts.serverResetQuery params).Holds relaySem w := by
  refine World.outline_rule ?_ ?_ ?_ ?_ ?_ h
  · exact ⟨rfl, fun _ _ => rfl, fun k hk => by simp [isolation, Trail.start] at hk⟩
  · intro b s hs
    simp [isolation, hs.1]
  · intro w k b s _ hs
    simpa [isolation, trailAt, World.register] using hs
  · intro w k i r c hreach _ hr hhand hs
    have hw := World.steady_of_reach hreach
    cases hg : (w.loc k).grip with
    | loose => simp [Local.hand, hg, Grip.conn] at hhand
    | checking c' =>
      obtain rfl : c' = c := by simpa [Local.hand, hg, Grip.conn] using hhand
      have hvacant := vacant_of_checking hg hs
      exact approach_isolates hw hne ⟨hvacant, ghost_owner _ _ _ _⟩ (.inl ⟨hg, rfl⟩)
        (Relay.approach_step (by simp [hg]) hr)
    | holding c' =>
      obtain rfl : c' = c := by simpa [Local.hand, hg, Grip.conn] using hhand
      exact holding_isolates hw hg hs hr
  · intro w k i r c hreach _ hr hhand hconn _ hs
    have hw := World.steady_of_reach hreach
    have hloose : (w.loc k).grip = .loose := by
      cases hg : (w.loc k).grip <;> simp_all [Local.hand, Grip.conn]
    exact approach_isolates hw hne ⟨hs, ghost_owner _ _ _ _⟩ (.inr ⟨hloose, rfl, hconn⟩)
      (Relay.approach_step (by simp [hloose]) hr)

/-! ## Reading the log -/

/-- What isolation means for the log of a world. -/
structure LogIsolated (q : String) (params : Caller → List TrackedParam) (w : World) : Prop where
  /-- Between a client message of one session and a later client message of another, or a reply
  forwarded to it, the connection has been scrubbed for the latter. -/
  scrubbed : ∀ c A m mid B (a : Act) pre post,
    w.log = pre ++ (A, Act.send c .client m) :: mid ++ (B, a) :: post → A ≠ B → a.on = some c →
    a.isClient = true ∨ a.isForward = true → LogScrubbed B c q (params B) (about c mid)
  /-- A connection on which the scrub failed is discarded and carries no client message again. -/
  discarded : ∀ c k (a : Act) pre post, w.log = pre ++ (k, a) :: post → a.on = some c →
    a.failsAdoption = true →
    w.place c = .gone ∧ (∃ k', (k', Act.discard c) ∈ post) ∧
      ∀ k' m, (k', Act.send c .client m) ∉ post

section Reading

variable (q : String) (params : Caller → List TrackedParam) {c : Conn}

lemma ghost_snoc (c : Conn) (log : List (Caller × Act)) (e : Caller × Act) :
    (isolation q params).ghost relaySem c (log ++ [e]) =
      if e.2.on = some c then ((isolation q params).ghost relaySem c log).next e
      else (isolation q params).ghost relaySem c log := by
  simp only [Outline.ghost, List.foldl_append, List.foldl_cons, List.foldl_nil]
  rfl

/-- After a client message of `A`, the trail of any other session has begun. -/
lemma foreign_after {A B : Caller} (hAB : A ≠ B) (m : FrontendMsg) (pre mid : List (Caller × Act)) :
    ∃ x es, about c mid = x ++ es ∧
      ((isolation q params).ghost relaySem c
        (pre ++ (A, Act.send c .client m) :: mid)).foreign B = some es := by
  induction mid using List.reverseRecOn with
  | nil =>
    refine ⟨[], [], rfl, ?_⟩
    rw [ghost_snoc]
    simp [Act.on, Trail.next, Act.isClient, Ne.symm hAB]
  | append_singleton mid e ih =>
    obtain ⟨x, es, habout, hforeign⟩ := ih
    rw [show pre ++ (A, Act.send c .client m) :: (mid ++ [e]) =
      (pre ++ (A, Act.send c .client m) :: mid) ++ [e] by simp, ghost_snoc]
    by_cases hon : e.2.on = some c
    · rw [if_pos hon]
      by_cases hk : B ≠ e.1 ∧ e.2.isClient = true
      · exact ⟨about c (mid ++ [e]), [], by simp, by simp [Trail.next, hk]⟩
      · refine ⟨x, es ++ [e], ?_, ?_⟩
        · simp [about, List.filter_append, hon, show mid.filter _ = _ from habout]
        · simp [Trail.next, hk, hforeign]
    · rw [if_neg hon]
      refine ⟨x, es, ?_, hforeign⟩
      simpa [about, List.filter_append, hon] using habout

/-- What has failed does not become sound again, and only a discard ends the failure. -/
lemma failed_after (post : List (Caller × Act)) {pre : List (Caller × Act)} {e : Caller × Act}
    (hs : ((isolation q params).ghost relaySem c pre).condition ≠ .discarded)
    (hon : e.2.on = some c) (he : e.2.failsAdoption = true) :
    ((isolation q params).ghost relaySem c (pre ++ e :: post)).condition = .failed ∨
    ((isolation q params).ghost relaySem c (pre ++ e :: post)).condition = .discarded ∧
      ∃ k, (k, .discard c) ∈ post := by
  induction post using List.reverseRecOn with
  | nil =>
    left
    rw [ghost_snoc, if_pos hon]
    simp only [Trail.next]
    generalize (Trail.condition _) = s at hs ⊢
    cases s with
    | sound => simp [Condition.next, he]
    | failed =>
      have : ∀ c', e.2 ≠ .discard c' := by
        intro c' h
        simp [h, Act.failsAdoption] at he
      cases h : e.2 <;> simp_all [Condition.next]
    | discarded => exact absurd rfl hs
  | append_singleton post e' ih =>
    rw [show pre ++ e :: (post ++ [e']) = (pre ++ e :: post) ++ [e'] by simp, ghost_snoc]
    by_cases hon' : e'.2.on = some c
    · rw [if_pos hon']
      simp only [Trail.next]
      rcases ih with ih | ⟨ih, k, hk⟩
      · rw [ih]
        by_cases hd : e'.2 = .discard c
        · exact .inr ⟨by simp [hd, Condition.next], e'.1, by simp [← hd]⟩
        · left
          cases h : e'.2 <;> simp_all [Condition.next, Act.on]
      · rw [ih]
        exact .inr ⟨by simp [Condition.next], k, by simp [hk]⟩
    · rw [if_neg hon']
      rcases ih with ih | ⟨ih, k, hk⟩
      · exact .inl ih
      · exact .inr ⟨ih, k, by simp [hk]⟩

end Reading

/-- A connection that is not sound is gone, and has been discarded. -/
lemma gone_of_unsound {c : Conn} (hold : (isolation opts.serverResetQuery params).Holds relaySem w)
    (hns : ((isolation opts.serverResetQuery params).ghost relaySem c w.log).condition ≠ .sound) :
    w.place c = .gone ∧
      ((isolation opts.serverResetQuery params).ghost relaySem c w.log).condition ≠ .failed := by
  have hasserts := hold.asserts c
  unfold Outline.Asserts at hasserts
  cases hp : w.place c with
  | fresh => simp only [hp] at hasserts; exact absurd hasserts.1 hns
  | pooled => simp only [hp] at hasserts; exact absurd hasserts.1 hns
  | held k' =>
    simp only [hp] at hasserts
    exact absurd (trailAt_sound hasserts) hns
  | gone => simp only [hp] at hasserts; exact ⟨rfl, hasserts⟩

/-- **Isolation in the log.**  With a non-empty `server_reset_query`, in every mode, with any number
of sessions and connections and whatever the pool assigns. -/
theorem World.logIsolated_of_reach (hne : opts.serverResetQuery ≠ "")
    (h : (World.machine opts mode params).Reachable w) :
    LogIsolated opts.serverResetQuery params w := by
  have hold := isolation_holds hne h
  refine ⟨?_, ?_⟩
  · intro c A m mid B a pre post hlog hAB hon ha
    have hgood := hold.good (pre ++ (A, Act.send c .client m) :: mid) (B, a) post (by simp [hlog])
      c hon
    obtain ⟨x, es, habout, hforeign⟩ := foreign_after opts.serverResetQuery params (c := c) hAB
      m pre mid
    obtain ⟨c', hscrub⟩ := (hgood.1 ha).2 es hforeign
    have hmid := hscrub.prepend x
    rw [← habout] at hmid
    -- all of this happened on `c`
    have hc : c' = c := by
      obtain ⟨purge, replay, rest, heq, ⟨_, _, y, rfl, _, hclear⟩, _⟩ := hmid
      have hmem : (B, Act.clearStmts c') ∈ about c mid := by simp [heq, hclear]
      simpa [about, Act.on] using (List.mem_filter.mp hmem).2
    exact hc ▸ hmid
  · intro c k a pre post hlog hon ha
    have hgood := hold.good pre (k, a) post hlog c hon
    have hkept : ((isolation opts.serverResetQuery params).ghost relaySem c pre).condition ≠
        .discarded := hgood.2 ha
    have hfailed := fun post' =>
      failed_after opts.serverResetQuery params post' (e := (k, a)) hkept hon ha
    obtain ⟨hplace, hdone⟩ := gone_of_unsound (c := c) hold (by
      rw [hlog]
      rcases hfailed post with h | ⟨h, -⟩ <;> simp [h])
    refine ⟨hplace, ?_, fun k' m hmem => ?_⟩
    · rcases hfailed post with h | ⟨-, hd⟩
      · exact absurd (hlog ▸ h) hdone
      · exact hd
    · obtain ⟨post₁, post₂, rfl⟩ := List.append_of_mem hmem
      have hserve := (hold.good (pre ++ (k, a) :: post₁) (k', .send c .client m) post₂
        (by simp [hlog]) c rfl).1 (.inl rfl)
      rcases hfailed post₁ with h | ⟨h, -⟩ <;> simp [h, Serving] at hserve

end System

end Pgman
