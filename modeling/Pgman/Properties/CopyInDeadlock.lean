import Pgman.Construction.Relay.Served
import Pgman.Construction.Wire.Cycle

/-!
# COPY IN and its deadlock

`relayCopyIn` passes the client's copy stream on and hands back to the reply loop at the message
that ends it.  After a COPY of the simple protocol the backend then answers and finishes with its
`ReadyForQuery`.  In the extended protocol it does not: the `Sync` that ended the batch reached it
in copy-in mode, where it is ignored, and the backend waits for the `Sync` that the client sends
after the copy.  The relay does not read that one while it waits for the backend.

`copyIn_deadlock_free_iff` says that this is the whole difference: from the moment a server enters
copy-in mode to the end of the exchange, a deadlock is out of reach if and only if the COPY was
started by a simple `Query`.

What carries the positive half is `Provided`: at every point of the exchange the server has sent
its `ReadyForQuery`, or is still copying and has, or is about to get, what it needs to go on.
-/

namespace Pgman

/-! ## Waiting for each other -/

/-- The server has nothing to do and nothing to say, and would answer `m`. -/
def Server.Awaits (quiet : String → Bool) (s : Server) (m : FrontendMsg) : Prop :=
  s.inbox = [] ∧ s.outbox = [] ∧
    ∃ v t, serve quiet { s with inbox := [m] } v = some t ∧ t.outbox ≠ []

/-- Session `k` waits for a server that waits for something its client has sent: `rest` is what the
client has sent and the relay has not read. -/
def Served.Deadlocked (quiet : String → Bool) (w : Served) (k : Caller)
    (rest : List FrontendMsg) : Prop :=
  ∃ c, (w.loc k).pc = .replies c ∧ ∃ m ∈ rest, (w.res c).server.Awaits quiet m

/-- The messages of a COPY IN: the copy stream, the two that are ignored in it, and the end of the
connection. -/
def FrontendMsg.inCopy : FrontendMsg → Bool
  | .copyData _ | .copyDone | .copyFail _ | .flush | .sync | .terminate => true
  | _ => false

def FrontendMsg.endsCopy : FrontendMsg → Bool
  | .copyDone | .copyFail _ => true
  | _ => false

/-- The exchange of session `k` on `c` is going on, and its client keeps to the copy protocol. -/
def DuringCopy (k : Caller) (c : Conn) (w : Served) (e : Event) : Prop :=
  (w.loc k).pc.service = some c ∧
    ∀ m, e = .world (.relay k (.client m)) → m.inCopy = true

/-- The session has sent a batch, and the server has just entered copy-in mode on it.  Behind a
simple `Query` there is nothing left to take; behind an `Execute` there is the batch's `Sync`. -/
structure CopyStart (w : Served) (k : Caller) (c : Conn) (simple : Bool) : Prop where
  pc : (w.loc k).pc = .replies c
  wbuf : (w.res c).conn.wbuf = []
  phase : (w.res c).server.phase = .copyIn simple
  inbox : (w.res c).server.inbox = if simple then [] else [.sync]
  outbox : ∃ out : List BackendMsg, (w.res c).server.outbox = out ++ [BackendMsg.copyInResponse] ∧
    ∀ m ∈ out, m.isReady = false ∧ m ≠ .copyInResponse ∧ m ≠ .copyBothResponse

/-! ## The server's side -/

namespace Server

/-- The server is gone, or its `ReadyForQuery` is on the way. -/
def Going (s : Server) : Prop := s.phase = .dead ∨ ∃ st, BackendMsg.readyForQuery st ∈ s.outbox

/-- Only messages of a COPY to take, and no COPY BOTH announced. -/
structure Copyish (s : Server) : Prop where
  inbox : ∀ m ∈ s.inbox, m.inCopy = true
  outbox : BackendMsg.copyBothResponse ∉ s.outbox

/-- Copying for a simple `Query`. -/
def Copies (s : Server) : Prop := s.phase = .copyIn true

/-- Copying for a simple `Query`, with the copy's end to take or the next copy announced. -/
def Concludes (s : Server) : Prop :=
  s.Copies ∧ (BackendMsg.copyInResponse ∈ s.outbox ∨ ∃ m ∈ s.inbox, m.endsCopy = true)

variable {quiet : String → Bool} {s s' : Server} {v : Verdict} {m : FrontendMsg}
  {rest : List FrontendMsg}

/-- What the server says comes behind what it has said, and announces no COPY BOTH. -/
def Says (s s' : Server) : Prop :=
  ∃ out, s'.outbox = s.outbox ++ out ∧ BackendMsg.copyBothResponse ∉ out

lemma Says.refl (s : Server) : Says s s := ⟨[], by simp⟩

lemma Says.mem (h : Says s s') {r : BackendMsg} (hr : r ∈ s.outbox) : r ∈ s'.outbox := by
  obtain ⟨out, hout, -⟩ := h
  simp [hout, hr]

lemma not_copyBoth_of_body {out : List BackendMsg} (h : out.all BackendMsg.isBody = true) :
    BackendMsg.copyBothResponse ∉ out := by
  intro hmem
  simpa [BackendMsg.isBody] using List.all_eq_true.mp h _ hmem

lemma says_cycle (h : serveCycle s v = some s') : s'.inbox = s.inbox ∧ Says s s' := by
  unfold serveCycle at h
  split at h
  · split at h <;> cases h
    rename_i hok
    refine ⟨rfl, _, List.append_assoc _ _ _, ?_⟩
    simpa using not_copyBoth_of_body hok
  · cases h
    exact ⟨rfl, _, List.append_assoc _ _ _, by simp⟩
  · cases h

lemma says_copyError (s : Server) (simple : Bool) (code message : String) (st : Char) :
    (s.copyError simple code message st).inbox = s.inbox ∧
      Says s (s.copyError simple code message st) := by
  cases simple
  · exact ⟨rfl, _, rfl, by simp⟩
  · exact ⟨rfl, _, List.append_assoc _ _ _, by simp⟩

lemma says_copyData {simple : Bool} (h : serveCopyData s simple v = some s') :
    s'.inbox = s.inbox ∧ Says s s' := by
  unfold serveCopyData at h
  split at h <;> cases h
  · exact ⟨rfl, .refl s⟩
  · exact says_copyError _ _ _ _ _

lemma says_copyDone {simple : Bool} (h : serveCopyDone s simple v = some s') :
    s'.inbox = s.inbox ∧ Says s s' := by
  unfold serveCopyDone at h
  split at h
  · split at h
    · rename_i hok
      split at h <;> cases h
      · refine ⟨rfl, _, List.append_assoc _ _ _, ?_⟩
        simpa using not_copyBoth_of_body hok
      · exact ⟨rfl, _, rfl, not_copyBoth_of_body hok⟩
    · cases h
  · cases h; exact says_copyError _ _ _ _ _
  · split at h <;> cases h
    rename_i hok
    rw [Bool.and_eq_true] at hok
    refine ⟨rfl, _, rfl, ?_⟩
    simpa using not_copyBoth_of_body hok.2
  · cases h

lemma says_unexpected {simple : Bool} (h : serveUnexpected s simple v = some s') :
    s'.inbox = s.inbox ∧ Says s s' := by
  unfold serveUnexpected at h
  split at h <;> cases h
  · exact says_copyError _ _ _ _ _
  · exact ⟨rfl, _, rfl, by simp⟩

/-- Taking a message of a COPY, whatever the server is in the middle of. -/
lemma says_serve (hin : s.inbox = m :: rest) (hm : m.inCopy = true)
    (h : serve quiet s v = some s') : s'.inbox = rest ∧ Says s s' := by
  simp only [serve, hin] at h
  split at h
  · cases m <;> simp only [FrontendMsg.inCopy, reduceCtorEq] at hm <;> simp only [serveReady] at h
    case sync => exact says_cycle (s := { s with inbox := rest }) h
    all_goals cases h; exact ⟨rfl, .refl s⟩
  · cases m <;> simp only [FrontendMsg.inCopy, reduceCtorEq] at hm <;>
      simp only [serveSkipping] at h
    case sync => exact says_cycle (s := { s with inbox := rest }) h
    all_goals cases h; exact ⟨rfl, .refl s⟩
  · cases m <;> simp only [FrontendMsg.inCopy, reduceCtorEq] at hm <;> simp only [serveCopyIn] at h
    case copyData => exact says_copyData (s := { s with inbox := rest }) h
    case copyDone => exact says_copyDone (s := { s with inbox := rest }) h
    case copyFail => exact says_unexpected (s := { s with inbox := rest }) h
    all_goals cases h; exact ⟨rfl, .refl s⟩
  · cases m <;> simp only [FrontendMsg.inCopy, reduceCtorEq] at hm <;>
      simp only [serveCopyBoth] at h
    case copyData => exact says_copyData (s := { s with inbox := rest }) h
    case copyDone => exact says_cycle (s := { s with inbox := rest }) h
    case copyFail => exact says_unexpected (s := { s with inbox := rest }) h
    all_goals cases h; exact ⟨rfl, .refl s⟩
  · cases h; exact ⟨rfl, .refl s⟩

lemma going_finish (s : Server) (st : Char) : (s.finish st).Going := .inr ⟨st, by simp [finish]⟩

/-- Taking a message of a COPY, while copying for a simple `Query`. -/
lemma Copies.serve (hs : s.Copies) (hin : s.inbox = m :: rest) (hm : m.inCopy = true)
    (h : Server.serve quiet s v = some s') :
    s'.Going ∨ s'.Copies ∧ (m.endsCopy = true → BackendMsg.copyInResponse ∈ s'.outbox) := by
  have herr : ∀ (t : Server) code message st, (t.copyError true code message st).Going :=
    fun t code message st => going_finish _ st
  have hunexpected : serveUnexpected { s with inbox := rest } true v = some s' → s'.Going := by
    intro h
    unfold serveUnexpected at h
    split at h <;> cases h
    · exact herr _ _ _ _
    · exact .inl rfl
  simp only [Server.serve, hin, show s.phase = .copyIn true from hs] at h
  cases m <;> simp only [FrontendMsg.inCopy, reduceCtorEq] at hm <;> simp only [serveCopyIn] at h
  case copyData =>
    unfold serveCopyData at h
    split at h <;> cases h
    · exact .inr ⟨rfl, by simp [FrontendMsg.endsCopy]⟩
    · exact .inl (herr _ _ _ _)
  case copyDone =>
    unfold serveCopyDone at h
    split at h
    · split at h <;> cases h
      exact .inl (going_finish _ _)
    · cases h; exact .inl (herr _ _ _ _)
    · split at h <;> cases h
      exact .inr ⟨rfl, fun _ => by simp [emit]⟩
    · cases h
  case copyFail => exact .inl (hunexpected h)
  case terminate => cases h; exact .inl (.inl rfl)
  all_goals cases h; exact .inr ⟨rfl, by simp [FrontendMsg.endsCopy]⟩

/-- What a server does on its own, as far as a COPY is concerned. -/
lemma Copyish.move {mv : ServerMove} (hs : s.Copyish) (h : s.move quiet mv = some s') :
    s'.Copyish ∧ (s.Going → s'.Going) ∧ (s.Copies → s'.Going ∨ s'.Copies) ∧
      (s.Concludes → s'.Going ∨ s'.Concludes) := by
  have hspeak : s'.inbox ⊆ s.inbox ∧ Says s s' → s'.Copyish := by
    rintro ⟨hin, out, hout, hno⟩
    refine ⟨fun m hm => hs.inbox m (hin hm), ?_⟩
    simp [hout, hs.outbox, hno]
  cases mv with
  | serve v =>
    cases hin : s.inbox with
    | nil => simp [Server.move, Server.serve, hin] at h
    | cons m rest =>
      have hm := hs.inbox m (by simp [hin])
      obtain ⟨hrest, hsaid⟩ := says_serve hin hm h
      refine ⟨hspeak ⟨by simp [hrest, hin], hsaid⟩, ?_, fun hc => ?_, ?_⟩
      · rintro (hdead | ⟨st, hst⟩)
        · simp only [Server.move, Server.serve, hin, hdead] at h
          cases h
          exact .inl rfl
        · exact .inr ⟨st, hsaid.mem hst⟩
      · exact (hc.serve hin hm h).imp_right And.left
      · rintro ⟨hc, hnext⟩
        rcases hc.serve hin hm h with hgo | ⟨hc', hend⟩
        · exact .inl hgo
        · refine .inr ⟨hc', ?_⟩
          rcases hnext with hnext | ⟨m', hm', hends⟩
          · exact .inl (hsaid.mem hnext)
          · -- the end of the copy has been taken, or is still to be
            rw [hin] at hm'
            rcases List.mem_cons.mp hm' with rfl | hm'
            · exact .inl (hend hends)
            · exact .inr ⟨m', hrest ▸ hm', hends⟩
  | interrupt code message st =>
    simp only [Server.move] at h
    have herr : ∀ simple, (s.phase = .copyIn simple ∨ s.phase = .copyBoth) →
        s' = s.copyError simple code message st → s'.Copyish ∧ (s.Going → s'.Going) ∧
          (s.Copies → s'.Going) := by
      rintro simple hp rfl
      obtain ⟨h1, h2⟩ := says_copyError s simple code message st
      refine ⟨hspeak ⟨by simp [h1], h2⟩, ?_, fun hc => ?_⟩
      · rintro (hdead | ⟨st', hst'⟩)
        · simp [hdead] at hp
        · exact .inr ⟨st', h2.mem hst'⟩
      · obtain rfl : simple = true := by simpa [show s.phase = _ from hc] using hp
        exact going_finish _ st
    split at h
    · rename_i simple hp
      cases h
      obtain ⟨h1, h2, h3⟩ := herr simple (.inl hp) rfl
      exact ⟨h1, h2, fun hc => .inl (h3 hc), fun hc => .inl (h3 hc.1)⟩
    · rename_i hp
      cases h
      obtain ⟨h1, h2, h3⟩ := herr true (.inr hp) rfl
      exact ⟨h1, h2, fun hc => .inl (h3 hc), fun hc => .inl (h3 hc.1)⟩
    · cases h
  | speak r =>
    have hsame : s'.inbox = s.inbox ∧ s'.phase = s.phase ∧ Says s s' := by
      simp only [Server.move] at h
      split at h
      · cases h
      · cases h; exact ⟨rfl, rfl, _, rfl, by simp⟩
      · cases h; exact ⟨rfl, rfl, _, rfl, by simp⟩
      · cases h; exact ⟨rfl, rfl, _, rfl, by simp⟩
      · cases h
    obtain ⟨hin, hphase, hsaid⟩ := hsame
    have hcopies : s.Copies → s'.Copies := fun hc => hphase.trans hc
    refine ⟨hspeak ⟨by simp [hin], hsaid⟩, ?_, fun hc => .inr (hcopies hc), ?_⟩
    · rintro (hdead | ⟨st, hst⟩)
      · exact .inl (hphase.trans hdead)
      · exact .inr ⟨st, hsaid.mem hst⟩
    · rintro ⟨hc, hnext⟩
      exact .inr ⟨hcopies hc, hnext.imp hsaid.mem (fun h => hin ▸ h)⟩

end Server

/-! ## The relay's side -/

/-- At a point of the exchange: the server's `ReadyForQuery` is on the way, or it is copying and
has, or is to get, what it needs to go on. -/
def Provided (pc : PC) (b : Link) : Prop :=
  match pc with
  | .replies _ => b.server.Going ∨ b.server.Concludes
  | .clientFlush _ r =>
      r ≠ .copyBothResponse ∧ (r.isReady = false → b.server.Going ∨ b.server.Concludes ∨
        r = .copyInResponse ∧ b.server.Copies)
  | .copyIn _ _ | .copyInFlush _ (some _) => b.server.Going ∨ b.server.Copies
  | .copyInFlush _ none =>
      b.server.Going ∨ b.server.Copies ∧ ∃ e ∈ b.conn.wbuf, e.2.endsCopy = true
  | _ => False

/-- The exchange so far: only messages of a COPY, and the server provided for. -/
structure Fed (pc : PC) (b : Link) : Prop where
  wbuf : ∀ e ∈ b.conn.wbuf, e.2.inCopy = true
  server : b.server.Copyish
  provided : Provided pc b

variable {opts : RuntimeOpts} {quiet : String → Bool} {mode : PoolMode}
  {params : Caller → List TrackedParam} {l : Local} {c : Conn} {i : Input} {r : Local × List Act}
  {b : Link} {conns : Conn → BackendConn}

lemma Fed.move {pc : PC} {mv : ServerMove} {t : Server} (h : Fed pc b)
    (ht : b.server.move quiet mv = some t) : Fed pc ⟨b.conn, t⟩ := by
  obtain ⟨hcopyish, hgoing, hcopies, hconcludes⟩ := h.server.move ht
  refine ⟨h.wbuf, hcopyish, ?_⟩
  have hp := h.provided
  unfold Provided at hp ⊢
  split at hp
  · exact hp.elim (fun h => .inl (hgoing h)) hconcludes
  · refine ⟨hp.1, fun hr => ?_⟩
    rcases hp.2 hr with h | h | ⟨hcir, h⟩
    · exact .inl (hgoing h)
    · exact (hconcludes h).imp_right .inl
    · exact (hcopies h).imp_right fun h => .inr ⟨hcir, h⟩
  · exact hp.elim (fun h => .inl (hgoing h)) hcopies
  · exact hp.elim (fun h => .inl (hgoing h)) hcopies
  · rcases hp with h | ⟨h, hend⟩
    · exact .inl (hgoing h)
    · exact (hcopies h).imp_right fun h => ⟨h, hend⟩
  · exact hp

/-- The relay reads a reply. -/
lemma Fed.read {m : BackendMsg} (h : Fed (.replies c) b) (hm : b.server.outbox.head? = some m) :
    m ≠ .copyBothResponse ∧ Server.Copyish { b.server with outbox := b.server.outbox.tail } ∧
      (m.isReady = false → Server.Going { b.server with outbox := b.server.outbox.tail } ∨
        Server.Concludes { b.server with outbox := b.server.outbox.tail } ∨
          m = .copyInResponse ∧
            Server.Copies { b.server with outbox := b.server.outbox.tail }) := by
  obtain ⟨rest, hout⟩ : ∃ rest, b.server.outbox = m :: rest :=
    ⟨_, (List.cons_head?_tail hm).symm⟩
  have hno := h.server.outbox
  rw [hout] at hno
  refine ⟨fun heq => hno (by simp [heq]), ⟨h.server.inbox, fun hmem => hno ?_⟩, fun hready => ?_⟩
  · rw [hout] at hmem
    exact List.mem_cons_of_mem _ hmem
  · rcases h.provided with (hdead | ⟨st, hst⟩) | ⟨hcopies, hnext⟩
    · exact .inl (.inl hdead)
    · -- what has been read is not the `ReadyForQuery`
      rw [hout] at hst
      rcases List.mem_cons.mp hst with rfl | hst
      · simp [BackendMsg.isReady] at hready
      · exact .inl (.inr ⟨st, by simpa [hout] using hst⟩)
    · rcases hnext with hnext | hend
      · rw [hout] at hnext
        rcases List.mem_cons.mp hnext with rfl | hnext
        · exact .inr (.inr ⟨rfl, hcopies⟩)
        · exact .inr (.inl ⟨hcopies, .inl (by simpa [hout] using hnext)⟩)
      · exact .inr (.inl ⟨hcopies, .inr hend⟩)

/-- What the acts of a step make of the link, one act at a time. -/
lemma resAfter_on {a : Act} {acts : List Act} (h : a.on = some c) :
    servedSem.resAfter c b (a :: acts) = servedSem.resAfter c (b.after a) acts := by
  rw [servedSem.resAfter_cons, if_pos (show servedSem.on a = some c from h)]
  rfl

lemma resAfter_skip {a : Act} {acts : List Act} (h : a.on = none) :
    servedSem.resAfter c b (a :: acts) = servedSem.resAfter c b acts := by
  rw [servedSem.resAfter_cons, if_neg (by simp [servedSem, h])]

lemma onReply_fed {m : BackendMsg} (h : Fed (.replies c) b) (hm : b.server.outbox.head? = some m) :
    Fed (Relay.onReply l c m).1.pc (servedSem.resAfter c b (Relay.onReply l c m).2) := by
  obtain ⟨hboth, hcopyish, hnext⟩ := h.read hm
  unfold Relay.onReply
  split
  · rename_i sw hsw
    have hplain : m.isReady = false ∧ m ≠ .copyInResponse :=
      Relay.plain_of_swallowReply hsw
    rw [resAfter_on rfl]
    refine ⟨h.wbuf, hcopyish, ?_⟩
    rcases hnext hplain.1 with h | h | h
    · exact .inl h
    · exact .inr h
    · exact absurd h.1 hplain.2
  · rw [resAfter_on rfl, resAfter_skip rfl]
    refine ⟨h.wbuf, hcopyish, ?_⟩
    by_cases hflush : (decide (clientFlushThreshold ≤ l.pending + replyEncodedSize m) ||
        Relay.forcesFlush m) = true
    · simp only [hflush, if_true]
      exact ⟨hboth, hnext⟩
    · have hplain : m.isReady = false ∧ m ≠ .copyInResponse :=
        Relay.plain_of_not_forcesFlush (Bool.or_eq_false_iff.mp (eq_false_of_ne_true hflush)).2
      simp only [hflush]
      rcases hnext hplain.1 with h | h | h
      · exact .inl h
      · exact .inr h
      · exact absurd h.1 hplain.2

lemma afterReply_fed {m : BackendMsg} (h : Fed (.clientFlush c m) b)
    (hstay : (Relay.afterReply l c m).1.pc.service = some c) :
    Fed (Relay.afterReply l c m).1.pc (servedSem.resAfter c b (Relay.afterReply l c m).2) := by
  obtain ⟨hboth, hnext⟩ := h.provided
  unfold Relay.afterReply at hstay ⊢
  split
  · rw [resAfter_on rfl]
    refine ⟨h.wbuf, h.server, ?_⟩
    rcases hnext rfl with h | h | h
    · exact .inl h
    · exact .inr h.1
    · exact .inr h.2
  · exact absurd rfl hboth
  · simp only [Relay.endBatch] at hstay
    split at hstay
    · simp [PC.service] at hstay
    · simp [PC.service] at hstay
    · split at hstay <;> simp [PC.service] at hstay
  · rename_i hcir _ hready
    refine ⟨h.wbuf, h.server, ?_⟩
    rcases hnext (BackendMsg.isReady_eq_false hready) with h | h | h
    · exact .inl h
    · exact .inr h
    · exact absurd h.1 hcir

lemma replyStep_fed {pc : PC} (h : Fed pc b)
    (hheard : ∀ m, i = .reply m → b.server.outbox.head? = some m)
    (hpc : pc = .replies c ∨ ∃ m, pc = .clientFlush c m)
    (hr : Relay.replyStep opts l c pc i = some r) (hstay : r.1.pc.service = some c) :
    Fed r.1.pc (servedSem.resAfter c b r.2) := by
  unfold Relay.replyStep at hr
  split at hr
  · cases hr
    obtain rfl : _ = c := by simpa using hpc
    exact onReply_fed h (hheard _ rfl)
  · cases hr; simp [Relay.abandon, PC.service] at hstay
  · split at hr <;> cases hr
    simp [Relay.abandon, PC.service] at hstay
  · cases hr
    rw [resAfter_skip rfl]
    obtain rfl : _ = c := by simpa using hpc
    exact afterReply_fed h hstay
  · cases hr; simp [Relay.abandon, PC.service] at hstay
  · cases hr

/-- A message of a COPY joins the write buffer. -/
lemma inCopy_snoc {buf : List (Source × FrontendMsg)} (src : Source) {m : FrontendMsg}
    (h : ∀ e ∈ buf, e.2.inCopy = true) (hm : m.inCopy = true) :
    ∀ e ∈ buf ++ [(src, m)], e.2.inCopy = true := by
  intro e he
  rcases List.mem_append.mp he with he | he
  · exact h e he
  · obtain rfl := List.mem_singleton.mp he
    exact hm

/-- A flush hands the write buffer over. -/
lemma Server.Copyish.hear {t : Server} (h : t.Copyish) (c : Conn) (site : Site)
    {buf : List (Source × FrontendMsg)} (hbuf : ∀ e ∈ buf, e.2.inCopy = true) :
    (t.hear (.flush c site buf)).Copyish := by
  refine ⟨fun m hm => ?_, h.outbox⟩
  rcases List.mem_append.mp hm with hm | hm
  · exact h.inbox m hm
  · obtain ⟨e, he, rfl⟩ := List.mem_map.mp hm
    exact hbuf e he

lemma copyInStep_fed {pc : PC} (h : Fed pc b) (hb : conns c = b.conn)
    (hclient : ∀ m, i = .client m → m.inCopy = true)
    (hpc : (∃ n, pc = .copyIn c n) ∨ ∃ next, pc = .copyInFlush c next)
    (hr : Relay.copyInStep conns l c pc i = some r) (hstay : r.1.pc.service = some c) :
    Fed r.1.pc (servedSem.resAfter c b r.2) := by
  unfold Relay.copyInStep at hr
  split at hr
  · cases hr; simp [Relay.abandon, PC.service] at hstay
  · rename_i pending msg
    have hmsg := hclient msg rfl
    have hp := h.provided
    simp only [Provided] at hp
    have hend : ∀ src (m : FrontendMsg), m.endsCopy = true → ∃ e ∈ b.conn.wbuf ++ [(src, m)],
        e.2.endsCopy = true := fun src m hm => ⟨(src, m), by simp, hm⟩
    split at hr <;> cases hr <;> rw [resAfter_on rfl]
    · exact ⟨inCopy_snoc _ h.wbuf rfl, h.server, hp.imp_right fun hc => ⟨hc, hend _ _ rfl⟩⟩
    · rename_i data
      refine ⟨inCopy_snoc _ h.wbuf rfl, h.server, ?_⟩
      by_cases hfull : 32 ≤ pending + 1
      · simp only [hfull, if_true]
        exact hp
      · simp only [hfull, if_false]
        exact hp
    · exact ⟨inCopy_snoc _ h.wbuf rfl, h.server, hp.imp_right fun hc => ⟨hc, hend _ _ rfl⟩⟩
    · exact ⟨inCopy_snoc _ h.wbuf rfl, h.server, hp.imp_right fun hc => ⟨hc, hend _ _ rfl⟩⟩
    · exact ⟨inCopy_snoc _ h.wbuf hmsg, h.server, hp⟩
  · rename_i next
    cases hr
    rw [resAfter_on rfl, hb]
    refine ⟨by simp [Link.after, BackendConn.after], h.server.hear c .copyIn h.wbuf, ?_⟩
    have hp := h.provided
    cases next with
    | some n => exact hp
    | none =>
      refine hp.imp_right ?_
      rintro ⟨hc, e, he, hends⟩
      refine ⟨hc, .inr ⟨e.2, ?_, hends⟩⟩
      exact List.mem_append.mpr (.inr (List.mem_map_of_mem he))
  · cases hr; simp [Relay.abandon, PC.service] at hstay
  · cases hr

/-- A step of the session keeps the exchange fed. -/
lemma Fed.relay {nextID : ℕ} (h : Fed l.pc b) (hc : l.pc.service = some c) (hb : conns c = b.conn)
    (hheard : ∀ m, i = .reply m → b.server.outbox.head? = some m)
    (hclient : ∀ m, i = .client m → m.inCopy = true)
    (hr : Relay.step opts conns nextID l i = some r) (hstay : r.1.pc.service = some c) :
    Fed r.1.pc (servedSem.resAfter c b r.2) := by
  have hp := h.provided
  unfold Relay.step at hr
  cases hpc : l.pc <;> simp only [hpc, PC.service, Option.some.injEq, reduceCtorEq] at hc hr h
  case feFlush => simp [hpc, Provided] at hp
  case replies => exact hc ▸ replyStep_fed h hheard (.inl rfl) hr (hc ▸ hstay)
  case clientFlush => exact hc ▸ replyStep_fed h hheard (.inr ⟨_, rfl⟩) hr (hc ▸ hstay)
  case copyIn => exact hc ▸ copyInStep_fed h (hc ▸ hb) hclient (.inl ⟨_, rfl⟩) hr (hc ▸ hstay)
  case copyInFlush => exact hc ▸ copyInStep_fed h (hc ▸ hb) hclient (.inr ⟨_, rfl⟩) hr (hc ▸ hstay)
  case copyBoth => simp [hpc, Provided] at hp

/-! ## Runs -/

variable {w w' : Served} {k : Caller}

lemma hand_of_service (h : l.pc.service = some c) : l.hand = some c := by
  cases hl : l.pc <;> simp_all [PC.service, Local.hand, Local.grip, PC.grip, Grip.conn]

/-- The exchange, as far as it has got. -/
structure CopyExchange (k : Caller) (c : Conn) (w : Served) : Prop where
  on : (w.loc k).pc.service = none ∨ (w.loc k).pc.service = some c
  fed : (w.loc k).pc.service = some c → Fed (w.loc k).pc (w.res c)

lemma CopyExchange.step {e : Event} (h : CopyExchange k c w)
    (hw : (Served.machine opts quiet mode params).Reachable w) (hC : DuringCopy k c w e)
    (hs : Served.step opts quiet w e = some w') : CopyExchange k c w' := by
  have hfed := h.fed hC.1
  have hhand := hand_of_service hC.1
  cases Served.link_step hw hhand hs with
  | relay i r he hheard hr hloc hres =>
    subst he
    have hheard' : ∀ m, i = .reply m → (w.res c).server.outbox.head? = some m := by
      rintro m rfl
      obtain ⟨c', hc', hm⟩ := hheard
      have : c' = c := by simpa [hhand, eq_comm] using hc'
      rwa [← this]
    refine ⟨?_, fun hstay => ?_⟩
    · rw [hloc]
      cases Relay.service_step hC.1 hr with
      | stay _ _ hpc =>
        rcases hpc with hpc | hpc
        · exact .inr hpc
        · exact .inl (by rw [hpc]; rfl)
      | back _ _ _ _ hpc => exact .inl (by rw [hpc]; rfl)
      | drop _ _ _ _ _ _ hpc => exact .inl (by rcases hpc with hpc | hpc <;> rw [hpc] <;> rfl)
    · rw [hloc] at hstay ⊢
      rw [hres]
      exact hfed.relay hC.1 rfl hheard' (fun m hm => hC.2 m (by rw [hm])) hr hstay
  | server mv t _ ht hloc hres =>
    refine ⟨by rw [hloc]; exact h.on, fun _ => ?_⟩
    rw [hloc, hres]
    exact hfed.move ht
  | other hpc hres =>
    refine ⟨by rw [hpc]; exact h.on, fun _ => ?_⟩
    rw [hpc, hres]
    exact hfed

/-- **No deadlock while the exchange is fed.** -/
theorem CopyExchange.not_deadlocked (h : CopyExchange k c w) (rest : List FrontendMsg) :
    ¬w.Deadlocked quiet k rest := by
  rintro ⟨c', hpc, m, -, hin, hout, v, t, ht, hne⟩
  have hc : c' = c := by
    have := h.on
    simpa [hpc, PC.service] using this
  subst hc
  have hp := (h.fed (by rw [hpc]; rfl)).provided
  simp only [hpc, Provided] at hp
  rcases hp with (hdead | ⟨st, hst⟩) | ⟨-, hcir | ⟨m', hm', -⟩⟩
  · simp only [Server.serve, hdead] at ht
    cases ht
    exact hne hout
  · simp [hout] at hst
  · simp [hout] at hcir
  · simp [hin] at hm'

/-- A COPY of the simple protocol starts out fed. -/
lemma CopyStart.exchange (h : CopyStart w k c true) : CopyExchange k c w := by
  refine ⟨.inr (by rw [h.pc]; rfl), fun _ => ?_⟩
  obtain ⟨out, hout, hplain⟩ := h.outbox
  rw [h.pc]
  refine ⟨by simp [h.wbuf], ⟨by simp [h.inbox], ?_⟩, .inr ⟨h.phase, .inl (by simp [hout])⟩⟩
  simp only [hout, List.mem_append, List.mem_singleton, reduceCtorEq, or_false]
  exact fun hmem => (hplain _ hmem).2.2 rfl

/-! ## The deadlock -/

section Deadlock

variable {t : Server} {buf : List (Source × FrontendMsg)} {pc : PC}
variable (opts quiet mode params)

/-- Where the session is, and what its link holds. -/
structure At (w : Served) (k : Caller) (c : Conn) (pc : PC) (buf : List (Source × FrontendMsg))
    (t : Server) : Prop where
  pc : (w.loc k).pc = pc
  wbuf : (w.res c).conn.wbuf = buf
  server : (w.res c).server = t

/-- The states of one exchange. -/
def During (opts : RuntimeOpts) (quiet : String → Bool) (mode : PoolMode)
    (params : Caller → List TrackedParam) (k : Caller) (c : Conn) (w w' : Served) : Prop :=
  ((Served.machine opts quiet mode params).startingAt w).Reach (DuringCopy k c) w'

variable {opts quiet mode params} in
lemma During.trans {w₁ w₂ w₃ : Served} (h : During opts quiet mode params k c w₁ w₂)
    (h' : During opts quiet mode params k c w₂ w₃) : During opts quiet mode params k c w₁ w₃ :=
  Machine.Reach.trans h h' fun _ _ h => h

/-- One more step of the session. -/
lemma At.relay (h : At w k c pc buf t) (hc : pc.service = some c) (hi : i.conn = none)
    (hheard : ∀ m, i = .reply m → t.outbox.head? = some m)
    (hclient : ∀ m, i = .client m → m.inCopy = true)
    (hr : Relay.step opts w.world.res w.shared (w.loc k) i = some r) :
    ∃ w', During opts quiet mode params k c w w' ∧ w'.loc k = r.1 ∧
      w'.res c = servedSem.resAfter c (w.res c) r.2 := by
  have hservice : (w.loc k).pc.service = some c := by rw [h.pc]; exact hc
  have hadmits : w.world.Admits i := fun c hc => by simp [hi] at hc
  have hheard' : w.Heard k i := by
    unfold Served.Heard
    split
    · rename_i m
      exact ⟨c, hand_of_service hservice, by rw [h.server]; exact hheard m rfl⟩
    · trivial
  have hstep : Served.step opts quiet w (.world (.relay k i)) =
      some (w.perform servedSem k r.1 r.2) := by
    simp only [Served.step, if_pos (And.intro hadmits hheard'), hr, Option.map_some]
  refine ⟨w.perform servedSem k r.1 r.2, (Machine.Reach.init rfl).step (i := .world (.relay k i))
    ⟨hservice, fun m hm => ?_⟩ hstep, by simp [Leased.perform], rfl⟩
  injection hm with hm
  injection hm with _ hm
  exact hclient m hm

/-- One more move of the server. -/
lemma At.server_move {mv : ServerMove} {t' : Server} (h : At w k c pc buf t)
    (hc : pc.service = some c) (ht : t.move quiet mv = some t') :
    ∃ w', During opts quiet mode params k c w w' ∧ At w' k c pc buf t' := by
  have hstep : Served.step opts quiet w (.server c mv) =
      some { w with res := Function.update w.res c ⟨(w.res c).conn, t'⟩ } := by
    simp only [Served.step, h.server, ht, Option.map_some]
  refine ⟨_, (Machine.Reach.init rfl).step (i := .server c mv)
    ⟨by rw [h.pc]; exact hc, fun m hm => by cases hm⟩ hstep, h.pc, ?_, ?_⟩
  · simpa using h.wbuf
  · simp

/-- What reading a reply does to the link, and where it can lead. -/
lemma onReply_link (l : Local) (c : Conn) (m : BackendMsg) (b : Link) :
    ((Relay.onReply l c m).1.pc = .replies c ∧ Relay.forcesFlush m = false ∨
        (Relay.onReply l c m).1.pc = .clientFlush c m) ∧
      servedSem.resAfter c b (Relay.onReply l c m).2 =
        ⟨b.conn, { b.server with outbox := b.server.outbox.tail }⟩ := by
  unfold Relay.onReply
  split
  · rename_i sw hsw
    refine ⟨.inl ⟨rfl, ?_⟩, resAfter_on rfl⟩
    cases m with
    | parseComplete | closeComplete => rfl
    | _ => cases hsw
  · refine ⟨?_, by rw [resAfter_on rfl, resAfter_skip rfl]; rfl⟩
    simp only
    split
    · exact .inr rfl
    · rename_i hno
      exact .inl ⟨rfl, (Bool.not_eq_true _).mp fun hforce => hno (by simp [hforce])⟩

/-- The session reads one reply. -/
lemma At.read {m : BackendMsg} {rest : List BackendMsg} (h : At w k c (.replies c) buf t)
    (hm : t.outbox = m :: rest) :
    ∃ w', During opts quiet mode params k c w w' ∧
      (At w' k c (.replies c) buf { t with outbox := rest } ∧ Relay.forcesFlush m = false ∨
        At w' k c (.clientFlush c m) buf { t with outbox := rest }) := by
  obtain ⟨hpc, hlink⟩ := onReply_link (w.loc k) c m (w.res c)
  have hr : Relay.step opts w.world.res w.shared (w.loc k) (.reply m) =
      some (Relay.onReply (w.loc k) c m) := by
    simp only [Relay.step, h.pc, Relay.replyStep]
  obtain ⟨w', hw', hloc, hres⟩ := h.relay opts quiet mode params rfl rfl
    (fun m' hm' => by injection hm' with hm'; simp [hm, hm']) (fun _ hm' => by cases hm') hr
  have hbuf : (w'.res c).conn.wbuf = buf := by rw [hres, hlink]; exact h.wbuf
  have hserver : (w'.res c).server = { t with outbox := rest } := by
    rw [hres, hlink, h.server, hm]
    rfl
  refine ⟨w', hw', ?_⟩
  rcases hpc with ⟨hpc, hno⟩ | hpc
  · exact .inl ⟨⟨by rw [hloc, hpc], hbuf, hserver⟩, hno⟩
  · exact .inr ⟨by rw [hloc, hpc], hbuf, hserver⟩

/-- A client buffer that has filled up is flushed. -/
lemma At.flushClient {m : BackendMsg} (h : At w k c (.clientFlush c m) buf t)
    (hpc : ∀ l, (Relay.afterReply l c m).1.pc = pc)
    (hlink : ∀ l b, (servedSem.resAfter c b (Relay.afterReply l c m).2).conn.wbuf = b.conn.wbuf ∧
      (servedSem.resAfter c b (Relay.afterReply l c m).2).server = b.server) :
    ∃ w', During opts quiet mode params k c w w' ∧ At w' k c pc buf t := by
  obtain ⟨w', hw', hloc, hres⟩ := h.relay opts quiet mode params (i := .flushClient true) rfl rfl
    (fun _ hm => by cases hm) (fun _ hm => by cases hm)
    (by simp only [Relay.step, h.pc, Relay.replyStep]; rfl)
  rw [resAfter_skip rfl] at hres
  exact ⟨w', hw', by rw [hloc]; exact hpc _, by rw [hres, (hlink _ _).1, h.wbuf],
    by rw [hres, (hlink _ _).2, h.server]⟩

lemma afterReply_plain (l : Local) (c : Conn) {m : BackendMsg} (hready : m.isReady = false)
    (hcir : m ≠ .copyInResponse) (hboth : m ≠ .copyBothResponse) :
    Relay.afterReply l c m = ({ l with pc := .replies c }, []) := by
  cases m with
  | copyInResponse => exact absurd rfl hcir
  | copyBothResponse => exact absurd rfl hboth
  | readyForQuery => cases hready
  | _ => rfl

/-- The session reads what is in front of the announcement of a COPY, or of nothing. -/
lemma At.readAll {out rest : List BackendMsg} (h : At w k c (.replies c) buf t)
    (hout : t.outbox = out ++ rest)
    (hplain : ∀ m ∈ out, m.isReady = false ∧ m ≠ .copyInResponse ∧ m ≠ .copyBothResponse) :
    ∃ w', During opts quiet mode params k c w w' ∧
      At w' k c (.replies c) buf { t with outbox := rest } := by
  induction out generalizing w t with
  | nil =>
    refine ⟨w, .init rfl, h.pc, h.wbuf, h.server.trans ?_⟩
    rw [← show t.outbox = rest from hout]
  | cons m out ih =>
    obtain ⟨hready, hcir, hboth⟩ := hplain m (by simp)
    have hafter := fun l => afterReply_plain l c hready hcir hboth
    have hrest : ∀ w₁, At w₁ k c (.replies c) buf { t with outbox := out ++ rest } →
        ∃ w', During opts quiet mode params k c w₁ w' ∧
          At w' k c (.replies c) buf { t with outbox := rest } :=
      fun w₁ h₁ => ih (t := { t with outbox := out ++ rest }) h₁ rfl
        (fun m' hm' => hplain m' (by simp [hm']))
    obtain ⟨w₁, hw₁, ⟨h₁, -⟩ | h₁⟩ := h.read opts quiet mode params hout
    · obtain ⟨w', hw', h'⟩ := hrest w₁ h₁
      exact ⟨w', hw₁.trans hw', h'⟩
    · obtain ⟨w₂, hw₂, h₂⟩ := h₁.flushClient opts quiet mode params
        (fun l => by rw [hafter]) (fun l b => by rw [hafter]; exact ⟨rfl, rfl⟩)
      obtain ⟨w', hw', h'⟩ := hrest w₂ h₂
      exact ⟨w', (hw₁.trans hw₂).trans hw', h'⟩

/-- **A COPY of the extended protocol deadlocks.**  The client ends the copy and sends its `Sync`;
the server has taken the end of the copy and waits for the `Sync`, and the relay, which has not
read it, waits for the server. -/
theorem CopyStart.deadlock (h : CopyStart w k c false) :
    ∃ w', During opts quiet mode params k c w w' ∧ w'.Deadlocked quiet k [.sync] := by
  obtain ⟨out, hout, hplain⟩ := h.outbox
  have h₀ : At w k c (.replies c) [] (w.res c).server := ⟨h.pc, h.wbuf, rfl⟩
  -- up to the announcement of the COPY, and into `relayCopyIn`
  obtain ⟨w₁, hw₁, h₁⟩ := h₀.readAll opts quiet mode params hout hplain
  obtain ⟨w₂, hw₂, ⟨-, hno⟩ | h₂⟩ := h₁.read opts quiet mode params rfl
  · simp [Relay.forcesFlush] at hno
  have hentry : ∀ l, (Relay.afterReply l c .copyInResponse).1.pc = .copyIn c 0 := fun _ => rfl
  have hlink : ∀ b : Link, servedSem.resAfter c b [.setReadDeadline c false] =
      b.after (.setReadDeadline c false) := fun b => resAfter_on rfl
  obtain ⟨w₃, hw₃, h₃⟩ := h₂.flushClient opts quiet mode params hentry
    (fun _ b => by simp only [Relay.afterReply, hlink]; exact ⟨rfl, rfl⟩)
  -- the server ignores the batch's `Sync`
  have hsync : Server.move quiet { (w.res c).server with outbox := [] } (.serve (.done [] 'I' [])) =
      some { (w.res c).server with outbox := [], inbox := [] } := by
    simp [Server.move, Server.serve, h.inbox, h.phase, Server.serveCopyIn]
  obtain ⟨w₄, hw₄, h₄⟩ := h₃.server_move opts quiet mode params rfl hsync
  -- the client ends the copy
  obtain ⟨w₅, hw₅, hloc₅, hres₅⟩ := h₄.relay opts quiet mode params (i := .client .copyDone) rfl rfl
    (fun _ hm => by cases hm) (fun _ hm => by cases hm; rfl)
    (by simp only [Relay.step, h₄.pc, Relay.copyInStep]; rfl)
  rw [resAfter_on rfl] at hres₅
  have h₅ : At w₅ k c (.copyInFlush c none) [(.client, .copyDone)]
      { (w.res c).server with outbox := [], inbox := [] } :=
    ⟨by rw [hloc₅], by rw [hres₅]; exact congrArg (· ++ [_]) h₄.wbuf,
      by rw [hres₅]; exact h₄.server⟩
  obtain ⟨w₆, hw₆, hloc₆, hres₆⟩ := h₅.relay opts quiet mode params (i := .feFlush none) rfl rfl
    (fun _ hm => by cases hm) (fun _ hm => by cases hm)
    (by simp only [Relay.step, h₅.pc, Relay.copyInStep]; rfl)
  have h₆ : At w₆ k c (.replies c) []
      { (w.res c).server with outbox := [], inbox := [.copyDone] } := by
    rw [resAfter_on rfl] at hres₆
    refine ⟨by rw [hloc₆], by rw [hres₆]; rfl, ?_⟩
    rw [hres₆]
    simp [Link.after, Server.hear, h₅.server, Served.world, h₅.wbuf]
  -- the server takes the end of the copy, and the relay reads what it says
  have hdone : Server.move quiet { (w.res c).server with outbox := [], inbox := [.copyDone] }
      (.serve (.done [.commandComplete "COPY 1"] 'I' [])) =
      some { (w.res c).server with
        outbox := [.commandComplete "COPY 1"], inbox := [], phase := .ready, status := 'I' } := by
    simp [Server.move, Server.serve, h.phase, Server.serveCopyIn, Server.serveCopyDone,
      Server.emit, BackendMsg.isBody]
  obtain ⟨w₇, hw₇, h₇⟩ := h₆.server_move opts quiet mode params rfl hdone
  have hsaid := (List.append_nil [BackendMsg.commandComplete "COPY 1"]).symm
  obtain ⟨w₈, hw₈, h₈⟩ := h₇.readAll opts quiet mode params hsaid (by simp [BackendMsg.isReady])
  refine ⟨w₈, ((((((hw₁.trans hw₂).trans hw₃).trans hw₄).trans hw₅).trans hw₆).trans hw₇).trans hw₈,
    c, h₈.pc, .sync, by simp, ?_⟩
  rw [h₈.server]
  exact ⟨rfl, rfl, .done [] 'I' [], _, rfl, by simp [Server.finish]⟩

end Deadlock

/-! ## The main result -/

/-- **COPY IN is free of deadlocks exactly in the simple protocol.**  From the moment a server
enters copy-in mode on the batch of a session, through every stream the client can send and whatever
the server and everybody else do: the relay never waits for a server that waits for a message the
client has sent, if and only if the COPY was started by a simple `Query`. -/
theorem copyIn_deadlock_free_iff {simple : Bool}
    (hw : (Served.machine opts quiet mode params).Reachable w) (h : CopyStart w k c simple) :
    (∀ w' rest, ((Served.machine opts quiet mode params).startingAt w).Reach (DuringCopy k c) w' →
      ¬w'.Deadlocked quiet k rest) ↔ simple = true := by
  constructor
  · intro hfree
    cases simple with
    | true => rfl
    | false =>
      obtain ⟨w', hw', hdead⟩ := h.deadlock opts quiet mode params
      exact absurd hdead (hfree w' _ hw')
  · rintro rfl w' rest hw'
    have hexch : CopyExchange k c w' :=
      hw'.invariant_startingAt hw h.exchange fun _ _ _ hr hI hC hs => hI.step hr hC hs
    exact hexch.not_deadlocked rest

/-- No timeouts, and connections scrubbed between sessions. -/
def copyOpts : RuntimeOpts := ⟨"DISCARD ALL", true, 0, 0, 0⟩

/-- A COPY started by a simple `Query`. -/
theorem copyIn_deadlock_free_query :
    ∃ w, (Served.machine copyOpts (fun _ => false) .transaction fun _ => []).Reachable w ∧
      CopyStart w 0 3 true ∧
      ∀ w' rest, ((Served.machine copyOpts (fun _ => false) .transaction
        fun _ => []).startingAt w).Reach (DuringCopy 0 3) w' →
        ¬w'.Deadlocked (fun _ => false) 0 rest := by
  have hrun : ((Served.machine copyOpts (fun _ => false) .transaction fun _ => []).run
      (Served.start .transaction (fun _ => []) fun _ => 0)
      [.world (.dial 3), .world (.relay 0 (.client (.query "COPY t FROM STDIN"))),
        .world (.relay 0 (.draining false)), .world (.relay 0 (.acquired 3)),
        .world (.relay 0 (.feFlush none)), .server 3 (.serve (.copyIn []))]).map
      (fun w => decide ((w.loc 0).pc = .replies 3 ∧ (w.res 3).conn.wbuf = [] ∧
        (w.res 3).server.phase = .copyIn true ∧ (w.res 3).server.inbox = [] ∧
        (w.res 3).server.outbox = [.copyInResponse])) = some true := by decide
  obtain ⟨w, hw, hview⟩ := Option.map_eq_some_iff.mp hrun
  obtain ⟨hpc, hbuf, hphase, hin, hout⟩ := of_decide_eq_true hview
  have hreach : (Served.machine copyOpts (fun _ => false) .transaction fun _ => []).Reachable w :=
    Machine.reach_of_run ⟨fun _ => 0, rfl⟩ hw
  have hstart : CopyStart w 0 3 true := ⟨hpc, hbuf, hphase, hin, [], hout, by simp⟩
  exact ⟨w, hreach, hstart, (copyIn_deadlock_free_iff hreach hstart).mpr rfl⟩

/-- **The deadlock.**  The client sends `Parse`, `Bind`, `Execute` and `Sync`, and, once invited,
its data, `CopyDone` and the `Sync` that the protocol asks for.  The relay waits for the server's
`ReadyForQuery`, the server for that `Sync`. -/
theorem extended_copy_deadlocks :
    ∃ w, (Served.machine copyOpts (fun _ => false) .transaction fun _ => []).Reachable w ∧
      w.Deadlocked (fun _ => false) 0 [.sync] := by
  have hrun : ((Served.machine copyOpts (fun _ => false) .transaction fun _ => []).run
      (Served.start .transaction (fun _ => []) fun _ => 0)
      [.world (.dial 3), .world (.relay 0 (.client (.parse "" "COPY t FROM STDIN" []))),
        .world (.relay 0 (.draining false)), .world (.relay 0 (.acquired 3)),
        .world (.relay 0 (.client (.bind "" ""))), .world (.relay 0 (.client (.execute ""))),
        .world (.relay 0 (.client .sync)), .world (.relay 0 (.feFlush none)),
        .server 3 (.serve (.done [] 'I' [])), .server 3 (.serve (.done [] 'I' [])),
        .server 3 (.serve (.copyIn [])), .server 3 (.serve (.done [] 'I' [])),
        .world (.relay 0 (.reply .parseComplete)), .world (.relay 0 (.reply .bindComplete)),
        .world (.relay 0 (.reply .copyInResponse)), .world (.relay 0 (.flushClient true)),
        .world (.relay 0 (.client (.copyData "1"))), .world (.relay 0 (.client .copyDone)),
        .world (.relay 0 (.feFlush none)), .server 3 (.serve (.done [] 'I' [])),
        .server 3 (.serve (.done [.commandComplete "COPY 1"] 'I' [])),
        .world (.relay 0 (.reply (.commandComplete "COPY 1")))]).map
      (fun w => decide ((w.loc 0).pc = .replies 3 ∧ (w.res 3).server.inbox = [] ∧
        (w.res 3).server.outbox = [] ∧ (w.res 3).server.phase = .ready)) = some true := by
    decide
  obtain ⟨w, hw, hview⟩ := Option.map_eq_some_iff.mp hrun
  obtain ⟨hpc, hin, hout, hphase⟩ := of_decide_eq_true hview
  refine ⟨w, Machine.reach_of_run ⟨fun _ => 0, rfl⟩ hw, 3, hpc, .sync, by simp, hin, hout,
    .done [] 'I' [], ?_⟩
  simp [Server.serve, hphase, Server.serveReady, Server.serveCycle, Server.finish]

end Pgman
