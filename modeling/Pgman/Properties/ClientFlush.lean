import Mathlib.Algebra.GroupWithZero.Nat
import Pgman.Construction.Relay.Attempt
import Pgman.Construction.Relay.Steady

/-!
# Everything is flushed before the relay reads the client

Replies gather in the client's write buffer, and `flushClient` writes them at the threshold, before
a COPY and at the end of a batch.  The comment at `pending` states what has to come of it: the relay
never blocks reading from the client while something is pending.

The diary of a session keeps the replies passed to `Send`, those that have been written, and those
in the buffer.  A write that fails loses what was in the buffer, as `pgproto3` does, which empties
it whatever the outcome.  Everywhere but in one place such a failure ends the session.  In
`relayCopyBoth` a failure of the backend pump is dropped if the client pump has already ended well:
the exchange then counts as a success, the session goes on, and the reply is lost
(`dropped_write_is_forgotten`).  In runs without that, everything is flushed
(`flushed_before_client_reads`).
-/

namespace Pgman

/-! ## The client's write buffer -/

/-- The replies passed to `Send`, those written to the client, and those in the write buffer. -/
structure Outbox where
  sent : List BackendMsg
  written : List BackendMsg
  buffer : List BackendMsg
  deriving DecidableEq, Repr

/-- The counted size of replies. -/
def countedSize (rs : List BackendMsg) : ℕ := (rs.map replyEncodedSize).sum

lemma countedSize_append (rs rs' : List BackendMsg) :
    countedSize (rs ++ rs') = countedSize rs + countedSize rs' := by
  simp [countedSize]

lemma countedSize_singleton (r : BackendMsg) : countedSize [r] = replyEncodedSize r := by
  simp [countedSize]

namespace Outbox

def next (s : Outbox) : Act → Outbox
  | .toClient r => { s with sent := s.sent ++ [r], buffer := s.buffer ++ [r] }
  | .flushClient true => { s with written := s.written ++ s.buffer, buffer := [] }
  | .flushClient false => { s with buffer := [] }
  | _ => s

/-- Nothing has been lost so far. -/
def Whole (s : Outbox) : Prop := s.sent = s.written ++ s.buffer

/-- Everything has been written. -/
def Flushed (s : Outbox) : Prop := s.written = s.sent ∧ s.buffer = []

/-- All but the last reply in the buffer stay below the threshold. -/
def Bounded (s : Outbox) : Prop :=
  ∀ r, s.buffer.getLast? = some r → countedSize s.buffer < clientFlushThreshold + replyEncodedSize r

lemma Flushed.whole {s : Outbox} (h : s.Flushed) : s.Whole := by
  rw [Whole, h.1, h.2, List.append_nil]

lemma Flushed.bounded {s : Outbox} (h : s.Flushed) : s.Bounded := by
  intro r hr
  simp [h.2] at hr

/-- A write of a whole outbox. -/
lemma Whole.flushed {s : Outbox} (h : s.Whole) : (s.next (.flushClient true)).Flushed :=
  ⟨h.symm, rfl⟩

lemma Whole.toClient {s : Outbox} (h : s.Whole) (r : BackendMsg) :
    (s.next (.toClient r)).Whole := by
  show s.sent ++ [r] = s.written ++ (s.buffer ++ [r])
  rw [h, List.append_assoc]

end Outbox

/-- Acts that leave the client's write buffer alone. -/
def Act.offline : Act → Bool
  | .toClient _ | .flushClient _ => false
  | _ => true

/-- The outbox during COPY BOTH: the backend pump flushes every reply, or fails. -/
def Outbox.Pumped (s : Outbox) (st : CopyBoth) : Prop :=
  match st.backendPump with
  | .reading => s.Flushed
  | .flushing r => s.Whole ∧ s.buffer = [r]
  | .ended => s.Flushed ∨ st.first = some false ∧ s.buffer = []

/-- The outbox of a session, by program point and count of pending bytes. -/
def Outbox.At (s : Outbox) (pc : PC) (pending : ℕ) : Prop :=
  match pc with
  | .done => True
  | .replies _ => s.Whole ∧ pending = countedSize s.buffer ∧ pending < clientFlushThreshold
  | .clientFlush _ r =>
    s.Whole ∧ pending = countedSize s.buffer ∧
      ∃ rs, s.buffer = rs ++ [r] ∧ countedSize rs < clientFlushThreshold
  | .failFlush =>
    s.Whole ∧ pending = 0 ∧ ∃ code message,
      s.buffer = [.errorResponse "ERROR" code message, .readyForQuery 'I']
  | .copyBoth _ st => pending = 0 ∧ s.Pumped st
  | _ => pending = 0 ∧ s.Flushed

def outboxDiary : Diary Local Act Outbox where
  init := ⟨[], [], []⟩
  next := Outbox.next
  good _ _ := True
  at' l s := s.At l.pc l.pending

/-- The outbox of session `k`. -/
def outbox (k : Caller) (log : List (Caller × Act)) : Outbox := outboxDiary.ghost k log

/-! ## The condition -/

/-- A write of the backend pump fails only where the exchange fails with it. -/
def NoWriteDropped (w : World) : Happening → Prop
  | .relay k (.flushClient false) =>
    match (w.loc k).pc with
    | .copyBoth _ st => st.first ≠ some true
    | _ => True
  | _ => True

instance (w : World) (a : Happening) : Decidable (NoWriteDropped w a) := by
  unfold NoWriteDropped
  split
  · split <;> infer_instance
  · infer_instance

/-! ## One step -/

section Steps

variable {opts : RuntimeOpts} {conns : Conn → BackendConn} {nextID : ℕ} {l : Local} {c : Conn}
  {m : FrontendMsg} {i : Input} {r : Local × List Act} {s : Outbox}

/-- What is asserted of the outcome of a step. -/
def OutboxAfter (s : Outbox) (r : Local × List Act) : Prop :=
  (r.2.foldl Outbox.next s).At r.1.pc r.1.pending

lemma offline_of_aside {a : Act} (h : a.aside) : a.offline = true := by
  cases a with
  | toClient | flushClient => exact h.elim
  | _ => rfl

lemma offline_of_enters {a : Act} (h : a.enters) : a.offline = true := by
  cases a with
  | toClient | flushClient => exact h.elim
  | _ => rfl

lemma next_offline {acts : List Act} (hacts : ∀ a ∈ acts, a.offline = true) (s : Outbox) :
    acts.foldl Outbox.next s = s := by
  induction acts with
  | nil => rfl
  | cons a acts ih =>
    have ha : s.next a = s := by
      have := hacts a (by simp)
      cases a with
      | toClient | flushClient => cases this
      | _ => rfl
    rw [List.foldl_cons, ha]
    exact ih fun a' ha' => hacts a' (by simp [ha'])

/-- With a message in want of a backend, nothing is buffered. -/
lemma Outbox.at_of_msg {pc : PC} {pending : ℕ} (hm : pc.msg = some m) :
    s.At pc pending ↔ pending = 0 ∧ s.Flushed := by
  cases pc <;> first | exact Iff.rfl | cases hm

/-- Acts that leave the buffer alone change nothing in front. -/
lemma OutboxAfter.prepend {acts : List Act} (hacts : ∀ a ∈ acts, a.offline = true)
    (h : OutboxAfter s r) : OutboxAfter s (r.1, acts ++ r.2) := by
  rwa [OutboxAfter, List.foldl_append, next_offline hacts]

lemma OutboxAfter.cons {a : Act} (h : OutboxAfter s r) (ha : a.offline = true) :
    OutboxAfter s (r.1, a :: r.2) :=
  h.prepend (show ∀ a' ∈ [a], a'.offline = true by simpa using ha)

lemma outboxAfter_done (hpc : r.1.pc = .done) : OutboxAfter s r := by
  rw [OutboxAfter, hpc]
  trivial

lemma reportFailure_outbox (hs : s.Flushed) (hp : l.pending = 0) (code message : String) :
    OutboxAfter s (Relay.reportFailure l code message) := by
  refine ⟨(hs.whole.toClient _).toClient _, hp, code, message, ?_⟩
  show s.buffer ++ [_] ++ [_] = _
  rw [hs.2]
  rfl

lemma failQuery_outbox (hs : s.Flushed) (hp : l.pending = 0) (m : FrontendMsg)
    (code message : String) : OutboxAfter s (Relay.failQuery l m code message) := by
  unfold Relay.failQuery
  split
  · exact reportFailure_outbox hs hp code message
  · exact ⟨hp, hs⟩

/-- A message enters a batch, or the relay is back in the batch loop. -/
lemma entered_outbox (hs : s.Flushed) (hp : r.1.pending = 0)
    (hpc : r.1.pc = if isTerminalMessage m then .feFlush c else .batch c)
    (hacts : ∀ a ∈ r.2, a.offline = true) : OutboxAfter s r := by
  rw [OutboxAfter, next_offline hacts, hpc]
  split <;> exact ⟨hp, hs⟩

lemma adopts_outbox {pend : ℕ} (hs : s.Flushed) (hp : pend = 0) (h : Relay.Adopts pend m r) :
    OutboxAfter s r := by
  cases h with
  | waits hacts hpc hpend =>
    rw [OutboxAfter, next_offline (fun a ha => offline_of_aside (hacts a ha)), Outbox.at_of_msg hpc]
    exact ⟨hpend.trans hp, hs⟩
  | begins c acts entry hr hacts hentry hpc hpend =>
    refine entered_outbox hs (hpend.trans hp) hpc fun a ha => ?_
    rw [hr] at ha
    rcases List.mem_append.mp ha with ha | ha
    · exact offline_of_aside (hacts a ha)
    · exact offline_of_enters (hentry a ha)
  | ceiling _ hpc => exact outboxAfter_done hpc

/-- A session that wants a backend. -/
lemma attempt_outbox (hs : s.Flushed) (hp : l.pending = 0) (h : Relay.Attempt l m i r) :
    OutboxAfter s r := by
  cases h with
  | adopts _ hadopts => exact adopts_outbox hs hp hadopts
  | shutdown _ hpc => exact outboxAfter_done hpc
  | refused err text code message _ hr => exact hr ▸ failQuery_outbox hs hp m code message
  | unfit c acts code message _ hacts hr =>
    rw [hr]
    refine (failQuery_outbox hs hp m code message).prepend fun a ha => ?_
    simp only [List.mem_append, List.mem_cons, List.not_mem_nil, or_false] at ha
    rcases ha with ha | rfl | rfl
    · exact offline_of_aside (hacts a ha)
    · rfl
    · rfl

lemma outerStep_outbox {backend : Option Conn} (hs : s.Flushed) (hp : l.pending = 0)
    (h : Relay.outerStep opts conns l backend i = some r) : OutboxAfter s r := by
  unfold Relay.outerStep at h
  split at h
  · obtain ⟨t, -, rfl⟩ := Option.map_eq_some_iff.mp h
    exact outboxAfter_done rfl
  · cases h
    exact outboxAfter_done rfl
  · cases h
    exact outboxAfter_done rfl
  · split at h <;> cases h
    · exact ⟨hp, hs⟩
    · exact adopts_outbox hs hp (Relay.beginBatch_adopts l _ _ _)
  · cases h

lemma drain_outbox {code message : String} (hs : s.Flushed) (hp : l.pending = 0)
    (h : Relay.failStep l (.drain code message) i = some r) : OutboxAfter s r := by
  unfold Relay.failStep at h
  split at h
  · cases h
    exact outboxAfter_done rfl
  · split at h
    · cases h
      exact outboxAfter_done rfl
    · split at h <;> cases h
      · exact reportFailure_outbox hs hp _ _
      · exact ⟨hp, hs⟩
  · next heq => cases heq
  · cases h

lemma failFlush_outbox (hs : s.Whole) (hp : l.pending = 0)
    (h : Relay.failStep l .failFlush i = some r) : OutboxAfter s r := by
  unfold Relay.failStep at h
  split at h
  · next heq => cases heq
  · next heq => cases heq
  · next ok _ =>
    cases h
    cases ok with
    | true => exact ⟨hp, hs.flushed⟩
    | false => exact outboxAfter_done rfl
  · cases h

/-- Back in the reply loop, with nothing buffered. -/
lemma Outbox.Flushed.at_replies (hs : s.Flushed) (c : Conn) : s.At (.replies c) 0 := by
  refine ⟨hs.whole, ?_, by decide⟩
  rw [hs.2]
  rfl

lemma batchStep_outbox {pc : PC} (hs : s.Flushed) (hp : l.pending = 0)
    (h : Relay.batchStep opts conns l c pc i = some r) : OutboxAfter s r := by
  unfold Relay.batchStep at h
  split at h
  · cases h
    exact outboxAfter_done rfl
  · split at h
    · cases h
      exact outboxAfter_done rfl
    · split at h <;> cases h
      · next hf =>
        obtain ⟨hentry, hpc, hpend⟩ := Relay.forward_enters hf
        exact entered_outbox hs (hpend.trans hp) hpc fun a ha => offline_of_enters (hentry a ha)
      · exact outboxAfter_done rfl
  · cases h
    rw [OutboxAfter, next_offline (by split <;> simp [Act.offline]), hp]
    exact hs.at_replies c
  · cases h
    exact outboxAfter_done rfl
  · cases h

/-- After a flush: the next phase starts with nothing buffered. -/
lemma afterReply_outbox (hs : s.Flushed) (hp : l.pending = 0) (c : Conn) (m : BackendMsg) :
    OutboxAfter s (Relay.afterReply l c m) := by
  have hend : ∀ st, OutboxAfter s (Relay.endBatch l c st) := by
    intro st
    have hrelease : ∀ (l : Local) (reusable : Bool), ∀ a ∈ [Act.setReadDeadline c false,
        .batchEnd c st] ++ Relay.release l c reusable, a.offline = true := by
      intro l reusable
      cases reusable <;> simp [Relay.release, Act.offline]
    unfold Relay.endBatch
    simp only
    split
    · rw [OutboxAfter, next_offline (hrelease _ _)]
      exact ⟨hp, hs⟩
    · exact ⟨hp, hs⟩
    · split
      · rw [OutboxAfter, next_offline (hrelease _ _)]
        exact ⟨hp, hs⟩
      · exact ⟨hp, hs⟩
  unfold Relay.afterReply
  split
  · exact ⟨hp, hs⟩
  · exact ⟨hp, hs⟩
  · exact hend _
  · rw [OutboxAfter, hp]
    exact hs.at_replies c

/-- A reply is buffered. -/
lemma onReply_outbox (hs : s.At (.replies c) l.pending) (m : BackendMsg) :
    OutboxAfter s (Relay.onReply l c m) := by
  obtain ⟨hw, hp, hlt⟩ := hs
  have hsize : l.pending + replyEncodedSize m = countedSize (s.buffer ++ [m]) := by
    rw [countedSize_append, countedSize_singleton, hp]
  unfold Relay.onReply
  split
  · exact ⟨hw, hp, hlt⟩
  · unfold OutboxAfter
    simp only
    split
    · exact ⟨hw.toClient m, hsize, s.buffer, rfl, hp ▸ hlt⟩
    · next hno =>
      simp only [Bool.or_eq_true, decide_eq_true_eq, not_or] at hno
      exact ⟨hw.toClient m, hsize, Nat.not_le.mp hno.1⟩

lemma replyStep_outbox {pc : PC} (hs : s.At pc l.pending) (hc : pc.service = some c)
    (h : Relay.replyStep opts l c pc i = some r) : OutboxAfter s r := by
  unfold Relay.replyStep at h
  split at h
  · cases h
    cases hc
    exact onReply_outbox hs _
  · cases h
    exact outboxAfter_done rfl
  · split at h <;> cases h
    exact outboxAfter_done rfl
  · cases h
    have hw : (s.next (.flushClient true)).Flushed := Outbox.Whole.flushed hs.1
    exact afterReply_outbox hw rfl c _
  · cases h
    exact outboxAfter_done rfl
  · cases h

lemma copyInStep_outbox {pc : PC} (hs : s.Flushed) (hp : l.pending = 0)
    (h : Relay.copyInStep conns l c pc i = some r) : OutboxAfter s r := by
  unfold Relay.copyInStep at h
  split at h
  · cases h
    exact outboxAfter_done rfl
  · split at h <;> cases h
    · exact ⟨hp, hs⟩
    · unfold OutboxAfter
      simp only
      split <;> exact ⟨hp, hs⟩
    · exact ⟨hp, hs⟩
    · exact ⟨hp, hs⟩
    · exact ⟨hp, hs⟩
  · next next' =>
    cases h
    cases next' with
    | none =>
      rw [OutboxAfter, hp]
      exact hs.at_replies c
    | some n => exact ⟨hp, hs⟩
  · cases h
    exact outboxAfter_done rfl
  · cases h

/-- The client pump's part leaves the outbox as it is. -/
lemma Outbox.Pumped.clientPump {st : CopyBoth} (hs : s.Pumped st) (pump : ClientPump) :
    s.Pumped { st with clientPump := pump } := hs

/-- The first result stands. -/
lemma Outbox.Pumped.report {st : CopyBoth} (hs : s.Pumped st) (ok : Bool) :
    s.Pumped (st.report ok) := by
  unfold Outbox.Pumped CopyBoth.report at *
  simp only
  split at hs
  · next hb => simpa only [hb] using hs
  · next hb => simpa only [hb] using hs
  · refine hs.imp_right fun ⟨hfirst, hbuf⟩ => ⟨?_, hbuf⟩
    rw [hfirst]
    rfl

lemma Outbox.Pumped.onFlush {st : CopyBoth} (hs : s.Pumped st) (what : PumpFlush) (ok : Bool) :
    s.Pumped (st.onFlush what ok) := by
  unfold CopyBoth.onFlush
  split
  · exact hs
  · exact Outbox.Pumped.report hs true
  · exact Outbox.Pumped.report hs _

lemma conclude_outbox {st : CopyBoth} (hs : s.Pumped st) (hp : l.pending = 0) (c : Conn) :
    OutboxAfter s (CopyBoth.conclude l c st) := by
  unfold CopyBoth.conclude
  split
  · next hb =>
    simp only
    split
    · -- the exchange counts as a success, so nothing has been lost
      next hfirst =>
      have hflushed : s.Flushed := by
        unfold Outbox.Pumped at hs
        simp only [hb] at hs
        rcases hs with hs | ⟨hno, -⟩
        · exact hs
        · rw [hfirst] at hno
          cases hno
      rw [OutboxAfter, next_offline (by split <;> simp [Act.offline]), hp]
      exact hflushed.at_replies c
    · exact outboxAfter_done rfl
  · exact ⟨hp, hs⟩

/-- The backend pump's write has ended. -/
lemma onClientFlush_outbox {st : CopyBoth} {m : BackendMsg} {ok : Bool}
    (hs : s.Whole) (hok : ok = false → st.first ≠ some true) :
    (s.next (.flushClient ok)).Pumped (st.onClientFlush m ok) := by
  cases ok with
  | true =>
    unfold CopyBoth.onClientFlush
    split
    · exact .inl hs.flushed
    · exact hs.flushed
    · next hno => cases hno
  | false =>
    have hend : st.onClientFlush m false = { st with backendPump := .ended }.report false := by
      unfold CopyBoth.onClientFlush
      split
      · next hno => cases hno
      · next hno => cases hno
      · rfl
    rw [hend]
    refine .inr ⟨?_, rfl⟩
    have hne := hok rfl
    show (st.first <|> some false) = some false
    match hf : st.first with
    | none => rfl
    | some false => rfl
    | some true => exact absurd hf hne

lemma copyBothStep_outbox {st : CopyBoth} (hs : s.Pumped st) (hp : l.pending = 0)
    (hok : i = .flushClient false → st.first ≠ some true)
    (h : Relay.copyBothStep conns l c st i = some r) : OutboxAfter s r := by
  unfold Relay.copyBothStep at h
  split at h
  · -- the client pump reads a message
    cases h
    unfold CopyBoth.onClient
    split <;> exact ⟨hp, hs⟩
  · cases h
    exact conclude_outbox ((hs.clientPump .ended).report false) hp c
  · cases h
    refine (conclude_outbox (hs.onFlush _ _) hp c).cons ?_
    split <;> rfl
  · -- the backend pump reads a reply
    next m hb =>
    cases h
    simp only [Outbox.Pumped, hb] at hs
    refine ⟨hp, hs.whole.toClient m, ?_⟩
    show s.buffer ++ [m] = [m]
    rw [hs.2, List.nil_append]
  · next hb =>
    cases h
    simp only [Outbox.Pumped, hb] at hs
    have hended : s.Pumped { st with backendPump := .ended } := .inl hs
    exact (conclude_outbox (hended.report false) hp c).cons rfl
  · next m ok hb =>
    cases h
    simp only [Outbox.Pumped, hb] at hs
    exact conclude_outbox (onClientFlush_outbox hs.1 fun hno => hok (by rw [hno])) hp c
  · split at h <;> cases h
    exact ⟨hp, hs⟩
  · cases h

/-- **One step of a session.** -/
theorem step_outbox (hs : s.At l.pc l.pending)
    (hok : ∀ c st, l.pc = .copyBoth c st → i = .flushClient false → st.first ≠ some true)
    (h : Relay.step opts conns nextID l i = some r) : OutboxAfter s r := by
  cases hm : l.pc.msg with
  | some m =>
    obtain ⟨hp, hflushed⟩ := (Outbox.at_of_msg hm).mp hs
    exact attempt_outbox hflushed hp (Relay.attempt_step hm h)
  | none =>
    unfold Relay.step at h
    cases hpc : l.pc with
    | outer backend => simp only [hpc] at hs h; exact outerStep_outbox hs.2 hs.1 h
    | drain code message => simp only [hpc] at hs h; exact drain_outbox hs.2 hs.1 h
    | failFlush => simp only [hpc] at hs h; exact failFlush_outbox hs.1 hs.2.1 h
    | batch c | feFlush c => simp only [hpc] at hs h; exact batchStep_outbox hs.2 hs.1 h
    | replies c | clientFlush c m => simp only [hpc] at hs h; exact replyStep_outbox hs rfl h
    | copyIn c n | copyInFlush c n => simp only [hpc] at hs h; exact copyInStep_outbox hs.2 hs.1 h
    | copyBoth c st =>
      have hfirst := hok c st hpc
      simp only [hpc] at hs h
      exact copyBothStep_outbox hs.2 hs.1 hfirst h
    | done => simp only [hpc] at h; cases h
    | _ => rw [hpc] at hm; cases hm

end Steps

/-! ## The main result -/

section Main

variable {opts : RuntimeOpts} {mode : PoolMode} {params : Caller → List TrackedParam} {w : World}

lemma outbox_holds (h : (World.machine opts mode params).Reach NoWriteDropped w) :
    outboxDiary.Holds w := by
  refine World.diary_rule (fun _ _ _ => ⟨rfl, rfl, rfl⟩) (fun w k s _ hs => ?_)
    (fun w k i r s _ hC hr hs => ⟨Diary.goodRun_of_good fun _ _ => trivial,
      step_outbox hs (fun c st hpc hi => ?_) hr⟩) h
  · simpa [World.register, outboxDiary] using hs
  · subst hi
    simpa [NoWriteDropped, hpc] using hC

/-- Where the relay starts to read the client: in the outer loop, the batch loop, the drain of a
failed query and COPY IN, and where it hands over to the two pumps of COPY BOTH. -/
def PC.turnsToClient : PC → Bool
  | .outer _ | .batch _ | .drain _ _ | .copyIn _ _ => true
  | .copyBoth _ st => st = CopyBoth.start
  | _ => false

lemma Outbox.At.atRest {s : Outbox} {pc : PC} {pending : ℕ} (h : s.At pc pending)
    (hpc : pc.turnsToClient = true) : pending = 0 ∧ s.Flushed := by
  cases pc with
  | outer | batch | drain | copyIn => exact h
  | copyBoth c st =>
    have hst : st = CopyBoth.start := by simpa [PC.turnsToClient] using hpc
    subst hst
    exact h
  | _ => cases hpc

lemma Outbox.bounded_append {s : Outbox} (rs : List BackendMsg) {r : BackendMsg}
    (hbuf : s.buffer = rs ++ [r]) (hrs : countedSize rs < clientFlushThreshold) : s.Bounded := by
  intro r' hr'
  rw [hbuf, List.getLast?_append, List.getLast?_singleton] at hr'
  obtain rfl : r = r' := by simpa using hr'
  rw [hbuf, countedSize_append, countedSize_singleton]
  omega

lemma Outbox.bounded_of_lt {s : Outbox} (h : countedSize s.buffer < clientFlushThreshold) :
    s.Bounded := fun _ _ => Nat.lt_add_right _ h

lemma Outbox.At.bounded {s : Outbox} {pc : PC} {pending : ℕ} (h : s.At pc pending)
    (hpc : pc ≠ .done) : s.Bounded := by
  have hpos : countedSize [] < clientFlushThreshold := by decide
  cases pc with
  | done => exact absurd rfl hpc
  | replies c => exact bounded_of_lt (h.2.1 ▸ h.2.2)
  | clientFlush c r =>
    obtain ⟨-, -, rs, hbuf, hrs⟩ := h
    exact bounded_append rs hbuf hrs
  | failFlush =>
    obtain ⟨-, -, code, message, hbuf⟩ := h
    have hone : countedSize [.errorResponse "ERROR" code message] < clientFlushThreshold := by
      simp [countedSize, replyEncodedSize, clientFlushThreshold]
    exact bounded_append [_] hbuf hone
  | copyBoth c st =>
    obtain ⟨-, h⟩ := h
    unfold Outbox.Pumped at h
    split at h
    · exact h.bounded
    · exact bounded_append [] h.2 hpos
    · rcases h with h | ⟨-, hbuf⟩
      · exact h.bounded
      · exact bounded_of_lt (hbuf ▸ hpos)
  | _ => exact h.2.bounded

/-- **Everything is flushed before the relay reads the client**, in every run in which no write of a
backend pump fails after the client pump has ended well.  Where the relay turns to the client,
nothing is pending and every reply passed to `Send` has been written, in order; as long as the
session runs, what is buffered exceeds the threshold by less than its last reply, and in the reply
loop the pending count is the counted size of the buffer. -/
theorem flushed_before_client_reads (h : (World.machine opts mode params).Reach NoWriteDropped w)
    (k : Caller) :
    ((w.loc k).pc.turnsToClient = true →
      (w.loc k).pending = 0 ∧ (outbox k w.log).written = (outbox k w.log).sent ∧
        (outbox k w.log).buffer = []) ∧
    ((w.loc k).pc ≠ .done → (outbox k w.log).Bounded) ∧
    (∀ c, (w.loc k).pc = .replies c ∨ (∃ r, (w.loc k).pc = .clientFlush c r) →
      (w.loc k).pending = countedSize (outbox k w.log).buffer) := by
  have hat : (outbox k w.log).At (w.loc k).pc (w.loc k).pending := (outbox_holds h).asserts k
  refine ⟨fun hpc => hat.atRest hpc, fun hpc => hat.bounded hpc, fun c hpc => ?_⟩
  rcases hpc with hpc | ⟨r, hpc⟩
  · rw [hpc] at hat
    exact hat.2.1
  · rw [hpc] at hat
    exact hat.2.1

end Main

/-- A replication stream that the client ends, up to the point where the client pump has ended and
the backend pump has read the server's own `CopyDone`. -/
def endedStream : List Happening :=
  [.dial 7, .relay 1 (.client (.query "START_REPLICATION")), .relay 1 (.draining false),
    .relay 1 (.acquired 7), .relay 1 (.feFlush none), .relay 1 (.reply .copyBothResponse),
    .relay 1 (.flushClient true), .relay 1 (.client .copyDone), .relay 1 (.feFlush none),
    .relay 1 (.reply .copyDone)]

/-- The stream ends, all of it is written, and the session is back at its client. -/
theorem flushed_before_client_reads_after_stream :
    let opts : RuntimeOpts := ⟨"DISCARD ALL", true, 0, 0, 0⟩
    ∃ w : World, (World.machine opts .transaction (fun _ => [])).Reach NoWriteDropped w ∧
      (w.loc 1).pc = .outer none ∧
      (outbox 1 w.log).sent = [.copyBothResponse, .copyDone, .readyForQuery 'I'] ∧
      (outbox 1 w.log).written = (outbox 1 w.log).sent := by
  intro opts
  have hrun : (((World.machine opts .transaction (fun _ => [])).guarded NoWriteDropped).run
      (World.start .transaction (fun _ => []) (fun _ => 0))
      (endedStream ++ [Happening.relay 1 (.flushClient true), .relay 1 .grace,
        .relay 1 (.replyErr "i/o"),
        .relay 1 (.reply (.readyForQuery 'I')), .relay 1 (.flushClient true)])).map
        (fun w => ((w.loc 1).pc, (outbox 1 w.log).sent)) =
      some (.outer none, [.copyBothResponse, .copyDone, .readyForQuery 'I']) := by decide
  obtain ⟨w, hw, hview⟩ := Option.map_eq_some_iff.mp hrun
  simp only [Prod.mk.injEq] at hview
  obtain ⟨hpc, hsent⟩ := hview
  have h0 : (World.machine opts .transaction (fun _ => [])).init
      (World.start .transaction (fun _ => []) (fun _ => 0)) := ⟨_, rfl⟩
  have hreach := Machine.reach_of_guarded_run h0 hw
  refine ⟨w, hreach, hpc, hsent, ?_⟩
  exact ((flushed_before_client_reads hreach 1).1 (by rw [hpc]; rfl)).2.1

/-- The client pump has ended well when the write of the server's `CopyDone` times out.  The
exchange counts as a success, the rest of the replies is written, and the relay reads the client's
next command: the `CopyDone` was passed to `Send` and never written. -/
theorem dropped_write_is_forgotten :
    let opts : RuntimeOpts := ⟨"DISCARD ALL", true, 0, 0, 0⟩
    ∃ w : World, (World.machine opts .transaction (fun _ => [])).Reachable w ∧
      (w.loc 1).pc = .outer none ∧ (w.loc 1).pc.turnsToClient = true ∧
      outbox 1 w.log = ⟨[.copyBothResponse, .copyDone, .commandComplete "COPY 0",
        .readyForQuery 'I'], [.copyBothResponse, .commandComplete "COPY 0", .readyForQuery 'I'],
        []⟩ := by
  intro opts
  have hrun : ((World.machine opts .transaction (fun _ => [])).run
      (World.start .transaction (fun _ => []) (fun _ => 0))
      (endedStream ++ [Happening.relay 1 (.flushClient false),
        .relay 1 (.reply (.commandComplete "COPY 0")), .relay 1 (.reply (.readyForQuery 'I')),
        .relay 1 (.flushClient true)])).map (fun w => ((w.loc 1).pc, outbox 1 w.log)) =
      some (.outer none, ⟨[.copyBothResponse, .copyDone, .commandComplete "COPY 0",
        .readyForQuery 'I'], [.copyBothResponse, .commandComplete "COPY 0", .readyForQuery 'I'],
        []⟩) := by decide
  obtain ⟨w, hw, hview⟩ := Option.map_eq_some_iff.mp hrun
  simp only [Prod.mk.injEq] at hview
  obtain ⟨hpc, hbox⟩ := hview
  exact ⟨w, Machine.reach_of_run ⟨_, rfl⟩ hw, hpc, by rw [hpc]; rfl, hbox⟩

end Pgman
