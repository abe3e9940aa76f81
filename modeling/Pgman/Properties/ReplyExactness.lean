import Pgman.Construction.Relay.Engagement
import Pgman.Construction.Relay.Replay
import Pgman.Construction.Relay.Steady
import Pgman.Construction.Relay.Swallow

/-!
# The reply stream of a batch

The diary of a session's batch: what has gone out on the wire, by whose initiative, and what
has become of the replies.  Along every run the fates of the replies are those of the two
counters, started with the number of messages injected into the batch.  With the count of
`Construction/Relay/Swallow.lean`, exactly the acknowledgements of the injected messages are
withheld from the client if and only if no acknowledged message of the client comes before an
injected one of the same kind.
-/

namespace Pgman

/-! ## The diary of a batch -/

/-- A batch so far: what was sent, what became of the replies, what the client was sent since the
first message, and whether there has been a COPY BOTH. -/
structure Exchange where
  wire : List (Source × FrontendMsg)
  replies : List (BackendMsg × Fate)
  delivered : List BackendMsg
  copied : Bool

namespace Exchange

def empty : Exchange := ⟨[], [], [], false⟩

def next (x : Exchange) : Act → Exchange
  | .send _ src m =>
      if src = .client ∨ src = .inject ∨ src = .synth then { x with wire := x.wire ++ [(src, m)] }
      else x
  | .recv _ .reply r fate => { x with replies := x.replies ++ [(r, fate)] }
  | .recv _ .copyBoth _ _ => { x with copied := true }
  | .toClient m => if x.wire = [] then x else { x with delivered := x.delivered ++ [m] }
  | .batchEnd _ _ => empty
  | _ => x

/-- The replies that are forwarded. -/
def forwarded (x : Exchange) : List BackendMsg :=
  (x.replies.filter fun e => e.2 = .forward).map Prod.fst

/-- The replies so far have had the fates of the counters, and those forwarded have reached the
client. -/
structure Settled (x : Exchange) : Prop where
  fates : x.replies.map Prod.snd =
    Relay.fates (Relay.injectedAcks x.wire) (x.replies.map Prod.fst)
  delivered : x.copied = false → x.delivered = x.forwarded

/-- Reading the replies of a batch, with the counters at `s`. -/
structure Counted (x : Exchange) (s : PsSwallow) : Prop extends x.Settled where
  sent : x.wire ≠ []
  left : x.replies.foldl (fun s e => (Relay.swallowReply s e.1).getD s)
    (Relay.injectedAcks x.wire) = s

/-- Gathering a batch, with the counters at `s`. -/
structure Gathered (x : Exchange) (s : PsSwallow) : Prop where
  replies : x.replies = []
  delivered : x.delivered = []
  count : Relay.injectedAcks x.wire = s

end Exchange

/-- Where the relay is with the batch. -/
def exchangeAt (l : Local) (x : Exchange) : Prop :=
  match l.pc with
  | .batch _ | .feFlush _ => x.Gathered l.swallow ∧ x.wire ≠ []
  | .replies _ | .clientFlush _ _ | .copyIn _ _ | .copyInFlush _ _ | .copyBoth _ _ =>
      x.Counted l.swallow
  | .done => True
  | _ => x = .empty

/-- Reading replies, COPY included. -/
def PC.answering : PC → Bool
  | .replies _ | .clientFlush _ _ | .copyIn _ _ | .copyInFlush _ _ | .copyBoth _ _ => true
  | _ => false

lemma exchangeAt_of_counted {l : Local} {x : Exchange} (hl : l.pc.answering = true)
    (h : x.Counted l.swallow) : exchangeAt l x := by
  unfold exchangeAt
  split <;> simp_all [PC.answering]

/-- When a batch ends, all its replies have been dealt with. -/
def exchangeDiary : Diary Local Act Exchange where
  init := .empty
  next := Exchange.next
  good x a := ∀ c st, a = .batchEnd c st → x.Settled
  at' := exchangeAt

namespace Exchange

variable {x : Exchange} {s : PsSwallow} {l l' : Local} {c : Conn} {a : Act} {acts : List Act}
  {r : Local × List Act}

/-- A step of the diary. -/
abbrev Step (x : Exchange) (l : Local) (acts : List Act) : Prop :=
  exchangeDiary.GoodRun x acts ∧ exchangeAt l (acts.foldl Exchange.next x)

lemma Step.cons (ha : ∀ c st, a ≠ .batchEnd c st) (h : Step (x.next a) l acts) :
    Step x l (a :: acts) :=
  ⟨⟨fun c st heq => absurd heq (ha c st), h.1⟩, h.2⟩

lemma Step.nil (h : exchangeAt l x) : Step x l [] := ⟨trivial, h⟩

/-- Acts that end no batch, on the way out. -/
lemma Step.done (hl : l.pc = .done) (hacts : ∀ a ∈ acts, ∀ c st, a ≠ .batchEnd c st) :
    Step x l acts := by
  induction acts generalizing x with
  | nil => exact .nil (by simp [exchangeAt, hl])
  | cons a acts ih => exact .cons (hacts a (by simp)) (ih (fun a' ha' => hacts a' (by simp [ha'])))

/-- Acts that belong to no batch. -/
lemma next_preliminary (ha : a.preliminary) : empty.next a = empty := by
  unfold Exchange.next
  split
  · rename_i src m
    cases src <;> simp_all [Act.preliminary]
  · exact ha.elim
  · exact ha.elim
  · simp [empty]
  · exact ha.elim
  · rfl

lemma Step.prepend {acts' : List Act} (hacts : ∀ a ∈ acts', a.preliminary)
    (h : Step .empty l acts) : Step .empty l (acts' ++ acts) := by
  induction acts' with
  | nil => exact h
  | cons a acts' ih =>
    refine Step.cons ?_ ?_
    · rintro c st rfl
      exact hacts (.batchEnd c st) (by simp)
    · rw [next_preliminary (hacts a (by simp))]
      exact ih (fun a' ha' => hacts a' (by simp [ha']))

lemma foldl_injected (c : Conn) (ms : List FrontendMsg) (x : Exchange) :
    (ms.map (Act.send c .inject ·)).foldl Exchange.next x =
      { x with wire := x.wire ++ ms.map (Prod.mk .inject) } := by
  induction ms generalizing x with
  | nil => simp
  | cons m ms ih => simp [ih, Exchange.next]

/-- Forwarding a message of a batch. -/
lemma forward_step {stmts : BackendPSCache} {msg : FrontendMsg} (hx : x.Gathered l.swallow)
    (hf : Relay.forward l c stmts msg = .ok r) : Step x r.1 r.2 := by
  unfold Relay.forward at hf
  split at hf <;> cases hf
  rename_i p hp
  have hinj : ∀ a ∈ p.injected.map (Act.send c .inject ·), ∀ c st, a ≠ .batchEnd c st := by
    simp
  refine ⟨Diary.goodRun_append.mpr ⟨?_, ?_, ?_, trivial⟩, ?_⟩
  · exact (Step.done (l := { l with pc := .done }) rfl hinj).1
  · simp [exchangeDiary]
  · simp [exchangeDiary]
  · rw [List.foldl_append, foldl_injected]
    have hwire : Relay.injectedAcks (x.wire ++ p.injected.map (Prod.mk .inject) ++
        [(Source.client, msg)]) = l.swallow.add p.swallow := by
      rw [Relay.injectedAcks_snoc_own _ _ (by simp), Relay.injectedAcks_append, hx.count,
        Relay.processClientMsg_swallow hp]
    have hat : ∀ pc : PC, pc = .feFlush c ∨ pc = .batch c → exchangeAt
        { l with sess := p.sess, swallow := l.swallow.add p.swallow, pc := pc }
        { x with wire := x.wire ++ p.injected.map (Prod.mk .inject) ++ [(.client, msg)] } := by
      rintro pc (rfl | rfl)
      · exact ⟨⟨hx.replies, hx.delivered, hwire⟩, by simp⟩
      · exact ⟨⟨hx.replies, hx.delivered, hwire⟩, by simp⟩
    simp only [List.foldl_cons, List.foldl_nil, Exchange.next, true_or, if_true]
    refine hat _ ?_
    split <;> simp

/-! ## The reply loop -/

/-- What the counters make of a reply. -/
def fateOf (s : PsSwallow) (m : BackendMsg) : Fate :=
  if (Relay.swallowReply s m).isSome then .swallow else .forward

lemma fates_cons (s : PsSwallow) (m : BackendMsg) (ms : List BackendMsg) :
    Relay.fates s (m :: ms) =
      fateOf s m :: Relay.fates ((Relay.swallowReply s m).getD s) ms := by
  rw [Relay.fates, fateOf]
  split <;> simp_all

lemma fates_snoc (s : PsSwallow) (es : List (BackendMsg × Fate)) (m : BackendMsg) :
    Relay.fates s (es.map Prod.fst ++ [m]) = Relay.fates s (es.map Prod.fst) ++
      [fateOf (es.foldl (fun s e => (Relay.swallowReply s e.1).getD s) s) m] := by
  induction es generalizing s with
  | nil => simp only [List.map_nil, List.nil_append, fates_cons, Relay.fates, List.foldl_nil]
  | cons e es ih => simp only [List.map_cons, List.cons_append, fates_cons, List.foldl_cons, ih]

/-- A reply that is swallowed. -/
lemma Counted.swallow (h : x.Counted s) {m : BackendMsg} {s' : PsSwallow}
    (hs : Relay.swallowReply s m = some s') :
    Counted { x with replies := x.replies ++ [(m, .swallow)] } s' := by
  obtain ⟨⟨hfates, hdel⟩, hsent, rfl⟩ := h
  refine ⟨⟨?_, fun hc => ?_⟩, hsent, by simp [hs]⟩
  · simp only [List.map_append, List.map_cons, List.map_nil, fates_snoc, hfates]
    simp [fateOf, hs]
  · simpa [forwarded, List.filter_append] using hdel hc

/-- A reply that is forwarded. -/
lemma Counted.pass (h : x.Counted s) {m : BackendMsg} (hs : Relay.swallowReply s m = none) :
    Counted { x with
      replies := x.replies ++ [(m, .forward)]
      delivered := x.delivered ++ [m] } s := by
  obtain ⟨⟨hfates, hdel⟩, hsent, rfl⟩ := h
  refine ⟨⟨?_, fun hc => ?_⟩, hsent, by simp [hs]⟩
  · simp only [List.map_append, List.map_cons, List.map_nil, fates_snoc, hfates]
    simp [fateOf, hs]
  · simp [forwarded, List.filter_append, hdel hc]

/-- A message of the client, during COPY. -/
lemma Counted.send {src : Source} (h : x.Counted s) (m : FrontendMsg) (hsrc : src ≠ .inject) :
    Counted { x with wire := x.wire ++ [(src, m)] } s := by
  have hwire := Relay.injectedAcks_snoc_own x.wire m hsrc
  exact ⟨⟨by simpa only [hwire] using h.fates, h.delivered⟩, by simp,
    by simpa only [hwire] using h.left⟩

lemma onReply_step (h : x.Counted l.swallow) (m : BackendMsg) :
    Step x (Relay.onReply l c m).1 (Relay.onReply l c m).2 := by
  unfold Relay.onReply
  split
  · rename_i s' hs
    exact .cons (by simp) (.nil (h.swallow hs))
  · rename_i hs
    have hpass : Counted (((x.next (.recv c .reply m .forward)).next (.toClient m))) l.swallow := by
      simpa only [Exchange.next, h.sent, if_false] using h.pass hs
    refine .cons (by simp) (.cons (by simp) (.nil (exchangeAt_of_counted ?_ hpass)))
    simp only
    split <;> rfl

lemma endBatch_step (h : x.Counted l.swallow) (st : Char) :
    Step x (Relay.endBatch l c st).1 (Relay.endBatch l c st).2 := by
  have hmark : ∀ (l' : Local) (acts : List Act), (∀ a ∈ acts, a.preliminary) →
      (∃ backend, l'.pc = .outer backend) →
      Step x l' ([Act.setReadDeadline c false, .batchEnd c st] ++ acts) := by
    rintro l' acts hacts ⟨backend, hl'⟩
    have hrest : Step .empty l' (acts ++ []) :=
      Step.prepend hacts (.nil (by simp [exchangeAt, hl']))
    rw [List.append_nil] at hrest
    exact .cons (by simp) ⟨⟨fun _ _ _ => h.toSettled, hrest.1⟩, hrest.2⟩
  have hkeep : Step x { l with lastTxStatus := st, pc := .outer (some c) }
      [.setReadDeadline c false, .batchEnd c st] :=
    hmark _ [] (by simp) ⟨_, rfl⟩
  have hback : ∀ (l' : Local) reusable, Step x { l' with pc := .outer none }
      ([Act.setReadDeadline c false, .batchEnd c st] ++ Relay.release l' c reusable) :=
    fun l' reusable => hmark _ _ (Relay.release_preliminary l' c reusable) ⟨_, rfl⟩
  unfold Relay.endBatch
  simp only
  split
  · exact hback { l with lastTxStatus := st } _
  · exact hkeep
  · split
    · exact hback { l with lastTxStatus := st } _
    · exact hkeep

lemma abandon_step (x : Exchange) (l : Local) (c : Conn) :
    Step x (Relay.abandon l c).1 (Relay.abandon l c).2 :=
  Step.done rfl (by simp [Relay.abandon, Relay.release])

variable {opts : RuntimeOpts} {conns : Conn → BackendConn} {i : Input} {pc : PC}

lemma replyStep_step (h : x.Counted l.swallow) (hr : Relay.replyStep opts l c pc i = some r) :
    Step x r.1 r.2 := by
  unfold Relay.replyStep at hr
  split at hr
  · cases hr; exact onReply_step h _
  · cases hr; exact .cons (by simp) (abandon_step x l c)
  · split at hr <;> cases hr
    exact .done rfl (by simp [Relay.abandon, Relay.release])
  · cases hr
    refine .cons (by simp) ?_
    unfold Relay.afterReply
    split
    · exact .cons (by simp) (.nil h)
    · exact .cons (by simp) (.nil h)
    · exact endBatch_step (l := { l with pending := 0 }) h _
    · exact .nil h
  · cases hr; exact .cons (by simp) (abandon_step x _ c)
  · cases hr

lemma copyInStep_step (h : x.Counted l.swallow) (hr : Relay.copyInStep conns l c pc i = some r) :
    Step x r.1 r.2 := by
  unfold Relay.copyInStep at hr
  split at hr
  · cases hr; exact abandon_step x l c
  · split at hr <;> cases hr
    · exact .cons (by simp) (.nil (h.send _ (by simp)))
    · refine .cons (by simp) (.nil (exchangeAt_of_counted ?_ (h.send _ (by simp))))
      simp only
      split <;> rfl
    · exact .cons (by simp) (.nil (h.send _ (by simp)))
    · exact .cons (by simp) (.nil (h.send _ (by simp)))
    · exact .cons (by simp) (.nil (h.send _ (by simp)))
  · cases hr
    refine .cons (by simp) (.nil (exchangeAt_of_counted ?_ h))
    simp only
    split <;> rfl
  · cases hr; exact .cons (by simp) (abandon_step x l c)
  · cases hr

lemma conclude_step (h : x.Counted l.swallow) (st : CopyBoth) :
    Step x (CopyBoth.conclude l c st).1 (CopyBoth.conclude l c st).2 := by
  unfold CopyBoth.conclude
  split
  · simp only
    split
    · split
      · exact .cons (by simp) (.nil h)
      · exact .nil h
    · split
      · exact .cons (by simp) (abandon_step x l c)
      · exact abandon_step x l c
  · exact .nil h

lemma copyBothStep_step {st : CopyBoth} (h : x.Counted l.swallow)
    (hr : Relay.copyBothStep conns l c st i = some r) : Step x r.1 r.2 := by
  unfold Relay.copyBothStep at hr
  split at hr
  · cases hr
    unfold CopyBoth.onClient
    split
    · exact .cons (by simp) (.nil (h.send _ (by simp)))
    · exact .cons (by simp) (.nil (h.send _ (by simp)))
    · exact .cons (by simp) (.nil (h.send _ (by simp)))
    · exact .cons (by simp) (.nil (h.send _ (by simp)))
  · cases hr; exact conclude_step h _
  · cases hr
    split
    · exact .cons (by simp) (conclude_step h _)
    · exact .cons (by simp) (conclude_step h _)
  · cases hr
    refine .cons (by simp) (.cons (by simp) (.nil ?_))
    simp only [Exchange.next, h.sent, if_false]
    exact ⟨⟨h.fates, by simp⟩, h.sent, h.left⟩
  · cases hr; exact .cons (by simp) (conclude_step h _)
  · cases hr; exact .cons (by simp) (conclude_step h _)
  · split at hr <;> cases hr
    exact .cons (by simp) (.nil h)
  · cases hr

/-! ## The other steps -/

lemma refuse_step (x : Exchange) (l : Local) (c : Conn) (err : String) (reusable : Bool) :
    Step x { l with pc := .done } (Relay.ceilingReport err :: Relay.release l c reusable) := by
  refine .done rfl ?_
  cases reusable <;> simp [Relay.ceilingReport, Relay.release]

lemma leave_step (x : Exchange) (l : Local) (c : Conn) :
    Step x (Relay.leave l (some c)).1 (Relay.leave l (some c)).2 := by
  refine .done rfl ?_
  simp only [Relay.leave]
  cases l.lastTxStatus == 'I' <;> simp [Relay.release]

lemma beginBatch_step (l : Local) (c : Conn) (stmts : BackendPSCache) (msg : FrontendMsg) :
    Step .empty (Relay.beginBatch l c stmts msg).1 (Relay.beginBatch l c stmts msg).2 := by
  unfold Relay.beginBatch
  split
  · rename_i hf
    exact forward_step ⟨rfl, rfl, rfl⟩ hf
  · exact refuse_step _ l c _ _

lemma outerStep_step (hr : Relay.outerStep opts conns l (some c) i = some r) :
    Step .empty r.1 r.2 := by
  unfold Relay.outerStep at hr
  split at hr
  · obtain ⟨t, -, rfl⟩ := Option.map_eq_some_iff.mp hr
    exact .cons (by simp) (leave_step _ l c)
  · cases hr; exact leave_step _ l c
  · cases hr; exact leave_step _ l c
  · cases hr; exact beginBatch_step l c _ _
  · cases hr

lemma batchStep_step (hl : l.pc = .batch c ∨ l.pc = .feFlush c) (h : exchangeAt l x)
    (hr : Relay.batchStep opts conns l c l.pc i = some r) : Step x r.1 r.2 := by
  have hx : x.Gathered l.swallow ∧ x.wire ≠ [] := by
    rcases hl with hl | hl <;> simpa [exchangeAt, hl] using h
  unfold Relay.batchStep at hr
  split at hr
  · cases hr; exact leave_step x l c
  · split at hr
    · cases hr; exact leave_step x l c
    · split at hr <;> cases hr
      · rename_i hf
        exact forward_step hx.1 hf
      · exact refuse_step x l c _ _
  · cases hr
    obtain ⟨⟨hreplies, hdelivered, hcount⟩, hsent⟩ := hx
    have hcounted : x.Counted l.swallow :=
      ⟨⟨by simp [hreplies, Relay.fates], fun _ => by simp [hdelivered, forwarded, hreplies]⟩, hsent,
        by simpa [hreplies] using hcount⟩
    refine .cons (by simp) ?_
    split
    · exact .cons (by simp) (.nil hcounted)
    · exact .nil hcounted
  · cases hr; exact .cons (by simp) (abandon_step x l c)
  · cases hr

lemma exchangeAt_of_disengaged (h : l.pc.engaged = none) : exchangeAt l .empty := by
  unfold exchangeAt
  split <;> simp_all [PC.engaged, PC.service]

lemma empty_of_disengaged (h : l.pc.engaged = none) (hdone : l.pc ≠ .done) (hx : exchangeAt l x) :
    x = .empty := by
  unfold exchangeAt at hx
  split at hx <;> simp_all [PC.engaged, PC.service]

variable {nextID : ℕ}

/-- Every step keeps the diary. -/
lemma step_step (hx : exchangeAt l x) (hr : Relay.step opts conns nextID l i = some r) :
    Step x r.1 r.2 := by
  cases hc : l.pc.engaged with
  | none =>
    have hdone : l.pc ≠ .done := fun hd => by simp [Relay.step, hd] at hr
    obtain rfl := empty_of_disengaged hc hdone hx
    cases Relay.entering_step hc hr with
    | outside hacts hpc =>
      have := Step.prepend hacts (.nil (exchangeAt_of_disengaged hpc))
      rwa [List.append_nil] at this
    | begins c l' stmts msg acts acts' heq hacts hf =>
      rw [heq]
      exact Step.prepend hacts (forward_step (l := { l' with swallow := .zero }) ⟨rfl, rfl, rfl⟩ hf)
  | some c =>
    unfold Relay.step at hr
    cases hpc : l.pc <;> simp only [hpc, PC.engaged, PC.service, Option.some.injEq, reduceCtorEq]
      at hc hr
    case outer backend =>
      subst hc
      obtain rfl : x = .empty := by simpa [exchangeAt, hpc] using hx
      exact outerStep_step hr
    all_goals subst hc
    case batch => exact batchStep_step (.inl hpc) hx (by rwa [hpc])
    case feFlush => exact batchStep_step (.inr hpc) hx (by rwa [hpc])
    all_goals have hcounted : x.Counted l.swallow := by simpa [exchangeAt, hpc] using hx
    case replies => exact replyStep_step hcounted hr
    case clientFlush => exact replyStep_step hcounted hr
    case copyIn => exact copyInStep_step hcounted hr
    case copyInFlush => exact copyInStep_step hcounted hr
    case copyBoth => exact copyBothStep_step hcounted hr

end Exchange

variable {opts : RuntimeOpts} {mode : PoolMode} {params : Caller → List TrackedParam} {w : World}

theorem exchange_holds (h : (World.machine opts mode params).Reachable w) :
    exchangeDiary.Holds w := by
  refine World.diary_rule (fun _ _ _ => rfl) (fun w k x _ hx => ?_)
    (fun w k i r x _ _ hr hx => Exchange.step_step hx hr) h
  simpa [World.register, exchangeDiary, exchangeAt] using hx

/-! ## Reading the log -/

/-- What session `k` did, in order. -/
def sessionActs (k : Caller) (log : List (Caller × Act)) : List Act :=
  (log.filter fun e => e.1 = k).map Prod.snd

/-- The acts of one completed batch of session `k`: from the end of one batch to the end of the
next. -/
def CompletedBatch (k : Caller) (w : World) (batch : List Act) : Prop :=
  ∃ before c st after, sessionActs k w.log = before ++ batch ++ Act.batchEnd c st :: after ∧
    (before = [] ∨ ∃ acts c' st', before = acts ++ [Act.batchEnd c' st']) ∧
    ∀ c' st', .batchEnd c' st' ∉ batch

def exchangeOf (batch : List Act) : Exchange := batch.foldl Exchange.next .empty

lemma ghost_sessionActs (k : Caller) (log : List (Caller × Act)) :
    exchangeDiary.ghost k log = exchangeOf (sessionActs k log) := by
  simp only [Diary.ghost, exchangeOf, sessionActs, List.foldl_map, List.foldl_filter,
    decide_eq_true_eq]
  rfl

/-- An act of a session, found in the log. -/
lemma exists_of_sessionActs {k : Caller} {log : List (Caller × Act)} {xs ys : List Act} {a : Act}
    (h : sessionActs k log = xs ++ a :: ys) :
    ∃ pre post, log = pre ++ (k, a) :: post ∧ sessionActs k pre = xs := by
  obtain ⟨l₁, l₂, hfilter, h₁, h₂⟩ := List.map_eq_append_iff.mp h
  obtain ⟨L₁, L₂, rfl, hL₁, hL₂⟩ := List.filter_eq_append_iff.mp hfilter
  obtain ⟨e, l₃, rfl, rfl, -⟩ := List.map_eq_cons_iff.mp h₂
  obtain ⟨M₁, M₂, rfl, hM₁, he, -⟩ := List.filter_eq_cons_iff.mp hL₂
  refine ⟨L₁ ++ M₁, M₂, ?_, ?_⟩
  · have hk : e.1 = k := by simpa using he
    simp [← hk]
  · have hnone : M₁.filter (fun e => e.1 = k) = [] := List.filter_eq_nil_iff.mpr hM₁
    simp [sessionActs, List.filter_append, hnone, hL₁, h₁]

/-- The batch, as the diary has it when it ends. -/
lemma settled_of_completed (h : exchangeDiary.Holds w) {k : Caller} {batch : List Act}
    (hb : CompletedBatch k w batch) : (exchangeOf batch).Settled := by
  obtain ⟨before, c, st, after, hacts, hbefore, -⟩ := hb
  obtain ⟨pre, post, hlog, hpre⟩ := exists_of_sessionActs hacts
  have hgood := h.good pre (k, .batchEnd c st) post hlog c st rfl
  have hstart : exchangeOf before = .empty := by
    rcases hbefore with rfl | ⟨acts, c', st', rfl⟩
    · rfl
    · simp [exchangeOf, Exchange.next]
  have hghost : exchangeDiary.ghost k pre = exchangeOf batch := by
    rw [ghost_sessionActs, hpre]
    simp only [exchangeOf, List.foldl_append] at hstart ⊢
    rw [hstart]
  rwa [hghost] at hgood

/-- What is forwarded is what the counters let pass. -/
lemma Exchange.Settled.forwarded_eq {x : Exchange} (h : x.Settled) :
    x.forwarded = Relay.passed (Relay.injectedAcks x.wire) (x.replies.map Prod.fst) := by
  rw [← Relay.kept_fates, ← h.fates, Relay.kept, ← List.zip_of_prod rfl rfl]
  rfl

/-- **The reply stream of a batch.**  Whatever the state of the caches and the cap, for a completed
extended-protocol batch whose replies are those of a conforming server: outside of COPY BOTH the
client is sent the replies that are not swallowed, in order; and these are all replies but the
acknowledgements of the injected messages exactly if no acknowledged message of the client comes
before an injected one of its kind.

What the client is sent is then the stream that is due.  It is another one if there is such a pair
with a reply other than an acknowledgement in between. -/
theorem reply_stream_exact_iff (opts : RuntimeOpts) (mode : PoolMode)
    (params : Caller → List TrackedParam) (w : World)
    (h : (World.machine opts mode params).Reachable w) (k : Caller) (batch : List Act)
    (hb : CompletedBatch k w batch) (quiet : String → Bool) (s : Server) (gs : List Answer)
    (hext : Server.ExtendedBatch (exchangeOf batch).wire) (hs : s.phase = .ready)
    (hgs : s.Answers quiet (exchangeOf batch).wire gs)
    (hreplies : (exchangeOf batch).replies.map Prod.fst = gs.flatMap Prod.snd) :
    ((exchangeOf batch).copied = false →
      (exchangeOf batch).delivered = (exchangeOf batch).forwarded) ∧
    ((exchangeOf batch).replies.map Prod.snd = Relay.dueFates gs ↔ Relay.Unconfused gs) ∧
    ((exchangeOf batch).copied = false →
      (exchangeOf batch).delivered =
        Relay.passed (Relay.injectedAcks (exchangeOf batch).wire) (gs.flatMap Prod.snd) ∧
      (Relay.Unconfused gs → (exchangeOf batch).delivered = Relay.duePassed gs) ∧
      (Relay.Displaced gs → (exchangeOf batch).delivered ≠ Relay.duePassed gs)) := by
  have hsettled := settled_of_completed (exchange_holds h) hb
  obtain ⟨hreg, hbreak⟩ := hgs.regular hext hs
  have hiff := Relay.fates_eq_due_iff hreg hbreak
  refine ⟨hsettled.delivered, ?_, fun hcopied => ?_⟩
  · rw [hsettled.fates, hreplies, ← hgs.map_fst]
    exact hiff
  · have hpassed : (exchangeOf batch).delivered =
        Relay.passed (Relay.injectedAcks (exchangeOf batch).wire) (gs.flatMap Prod.snd) := by
      rw [hsettled.delivered hcopied, hsettled.forwarded_eq, hreplies]
    refine ⟨hpassed, ?_, ?_⟩ <;> rw [hpassed, ← hgs.map_fst]
    · exact fun hun => Relay.passed_of_fates_eq (hiff.mpr hun)
    · exact Relay.passed_ne_of_displaced hreg

def Act.isBatchEnd : Act → Bool
  | .batchEnd _ _ => true
  | _ => false

/-- What session `k` did until its first batch ended. -/
def firstBatch (k : Caller) (w : World) : List Act :=
  (sessionActs k w.log).takeWhile fun a => !a.isBatchEnd

lemma Act.exists_of_isBatchEnd {a : Act} (h : a.isBatchEnd = true) :
    ∃ c st, a = .batchEnd c st := by
  cases a with
  | batchEnd c st => exact ⟨c, st, rfl⟩
  | _ => exact Bool.noConfusion h

/-- What was done up to the first end of a batch, and what came after it. -/
lemma split_at_batchEnd {acts : List Act} (h : acts.any Act.isBatchEnd = true) :
    ∃ c st after, acts = acts.takeWhile (fun a => !a.isBatchEnd) ++ Act.batchEnd c st :: after ∧
      ∀ c' st', .batchEnd c' st' ∉ acts.takeWhile (fun a => !a.isBatchEnd) := by
  induction acts with
  | nil => simp at h
  | cons a acts ih =>
    cases ha : a.isBatchEnd with
    | true =>
      obtain ⟨c, st, rfl⟩ := Act.exists_of_isBatchEnd ha
      exact ⟨c, st, acts, by simp [ha], by simp [ha]⟩
    | false =>
      obtain ⟨c, st, after, heq, hno⟩ := ih (by simpa [ha] using h)
      refine ⟨c, st, after, ?_, fun c' st' hmem => ?_⟩
      · simp only [List.takeWhile_cons, ha, Bool.not_false, if_true, List.cons_append, ← heq]
      · simp only [List.takeWhile_cons, ha, Bool.not_false, if_true, List.mem_cons] at hmem
        rcases hmem with rfl | hmem
        · simp [Act.isBatchEnd] at ha
        · exact hno c' st' hmem

lemma completedBatch_first {k : Caller} {w : World}
    (h : (sessionActs k w.log).any Act.isBatchEnd = true) :
    CompletedBatch k w (firstBatch k w) := by
  obtain ⟨c, st, after, heq, hno⟩ := split_at_batchEnd h
  exact ⟨[], c, st, after, heq, .inl rfl, hno⟩

/-- A session that may keep one statement on a backend prepares two. -/
def twoStatements : List Happening :=
  [.dial 7, .relay 1 (.client (.parse "a" "select 1" [])), .relay 1 (.draining false),
    .relay 1 (.acquired 7), .relay 1 (.client (.parse "b" "select 2" [])),
    .relay 1 (.client .sync), .relay 1 (.feFlush none), .relay 1 (.reply .parseComplete),
    .relay 1 (.reply .closeComplete), .relay 1 (.reply .parseComplete),
    .relay 1 (.reply (.readyForQuery 'I')), .relay 1 (.flushClient true)]

theorem reply_stream_exact_two_statements :
    let opts : RuntimeOpts := ⟨"DISCARD ALL", true, 0, 0, 0⟩
    let gs : List Answer := [((.client, .parse "a" "select 1" []), [.parseComplete]),
      ((.inject, .close 'S' "a"), [.closeComplete]),
      ((.client, .parse "b" "select 2" []), [.parseComplete]),
      ((.client, .sync), [.readyForQuery 'I'])]
    ∃ w, (World.machine opts .transaction (fun _ => [])).run
        (World.start .transaction (fun _ => []) (fun _ => 1)) twoStatements = some w ∧
      (exchangeOf (firstBatch 1 w)).delivered =
        [.parseComplete, .parseComplete, .readyForQuery 'I'] ∧
      ((exchangeOf (firstBatch 1 w)).replies.map Prod.snd = Relay.dueFates gs ↔
        Relay.Unconfused gs) ∧
      Relay.Unconfused gs ∧ (exchangeOf (firstBatch 1 w)).delivered = Relay.duePassed gs := by
  intro opts gs
  have hrun : ((World.machine opts .transaction (fun _ => [])).run
      (World.start .transaction (fun _ => []) (fun _ => 1)) twoStatements).map
        (fun w => ((sessionActs 1 w.log).any Act.isBatchEnd, (exchangeOf (firstBatch 1 w)).wire,
          (exchangeOf (firstBatch 1 w)).replies.map Prod.fst,
          (exchangeOf (firstBatch 1 w)).delivered)) =
      some (true, gs.map Prod.fst, gs.flatMap Prod.snd,
        [.parseComplete, .parseComplete, .readyForQuery 'I']) := by decide
  have hfates : ((World.machine opts .transaction (fun _ => [])).run
      (World.start .transaction (fun _ => []) (fun _ => 1)) twoStatements).map
        (fun w => ((exchangeOf (firstBatch 1 w)).copied,
          (exchangeOf (firstBatch 1 w)).replies.map Prod.snd)) =
      some (false, Relay.dueFates gs) := by decide
  have hscript : Server.script (fun _ => true) .fresh
      ((gs.map Prod.fst).map fun e => (e, .done [] 'I' [])) = some gs := by decide
  obtain ⟨w, hw, hview⟩ := Option.map_eq_some_iff.mp hrun
  rw [hw] at hfates
  simp only [Option.map_some, Option.some.injEq, Prod.mk.injEq] at hview hfates
  obtain ⟨hend, hwire, hreplies, hdelivered⟩ := hview
  have hext : Server.ExtendedBatch (exchangeOf (firstBatch 1 w)).wire := by
    rw [hwire]
    exact ⟨[(.client, .parse "a" "select 1" []), (.inject, .close 'S' "a"),
      (.client, .parse "b" "select 2" [])], .client, rfl, by decide⟩
  obtain ⟨-, hiff, hstream⟩ := reply_stream_exact_iff opts .transaction _ w
    (Machine.reach_of_run ⟨_, rfl⟩ hw) 1 _ (completedBatch_first hend) (fun _ => true) .fresh gs
    hext rfl (hwire ▸ Server.answers_of_script hscript) hreplies
  have hun : Relay.Unconfused gs := hiff.mp hfates.2
  exact ⟨w, hw, hdelivered, hiff, hun, (hstream hfates.1).2.1 hun⟩

/-- The same session prepares and binds a statement, prepares another, and binds the first one
again, all in one batch. -/
def reboundStatement : List Happening :=
  [.dial 7, .relay 1 (.client (.parse "b" "select 2" [])), .relay 1 (.draining false),
    .relay 1 (.acquired 7), .relay 1 (.client (.bind "" "b")),
    .relay 1 (.client (.parse "a" "select 1" [])), .relay 1 (.client (.bind "" "b")),
    .relay 1 (.client .sync), .relay 1 (.feFlush none), .relay 1 (.reply .parseComplete),
    .relay 1 (.reply .bindComplete), .relay 1 (.reply .closeComplete),
    .relay 1 (.reply .parseComplete), .relay 1 (.reply .closeComplete),
    .relay 1 (.reply .parseComplete), .relay 1 (.reply .bindComplete),
    .relay 1 (.reply (.readyForQuery 'I')), .relay 1 (.flushClient true)]

/-- The client is sent another stream than the server's without the injected acknowledgements: the
`ParseComplete` of its first `Parse` is missing, and that of the injected one is passed on. -/
theorem wrong_ack_is_swallowed :
    let opts : RuntimeOpts := ⟨"DISCARD ALL", true, 0, 0, 0⟩
    ∃ w gs, (World.machine opts .transaction (fun _ => [])).Reachable w ∧
      CompletedBatch 1 w (firstBatch 1 w) ∧
      Server.fresh.Answers (fun _ => true) (exchangeOf (firstBatch 1 w)).wire gs ∧
      (exchangeOf (firstBatch 1 w)).replies.map Prod.fst = gs.flatMap Prod.snd ∧
      (exchangeOf (firstBatch 1 w)).delivered = [.bindComplete, .parseComplete, .parseComplete,
        .bindComplete, .readyForQuery 'I'] ∧
      Relay.duePassed gs =
        [.parseComplete, .bindComplete, .parseComplete, .bindComplete, .readyForQuery 'I'] := by
  intro opts
  let gs : List Answer := [((.client, .parse "b" "select 2" []), [.parseComplete]),
    ((.client, .bind "" "b"), [.bindComplete]), ((.inject, .close 'S' "b"), [.closeComplete]),
    ((.client, .parse "a" "select 1" []), [.parseComplete]),
    ((.inject, .close 'S' "a"), [.closeComplete]),
    ((.inject, .parse "b" "select 2" []), [.parseComplete]),
    ((.client, .bind "" "b"), [.bindComplete]), ((.client, .sync), [.readyForQuery 'I'])]
  have hrun : ((World.machine opts .transaction (fun _ => [])).run
      (World.start .transaction (fun _ => []) (fun _ => 1)) reboundStatement).map
        (fun w => ((sessionActs 1 w.log).any Act.isBatchEnd, (exchangeOf (firstBatch 1 w)).wire,
          (exchangeOf (firstBatch 1 w)).replies.map Prod.fst,
          (exchangeOf (firstBatch 1 w)).delivered)) =
      some (true, gs.map Prod.fst, gs.flatMap Prod.snd, [.bindComplete, .parseComplete,
        .parseComplete, .bindComplete, .readyForQuery 'I']) := by decide
  have hscript : Server.script (fun _ => true) .fresh
      ((gs.map Prod.fst).map fun e => (e, .done [] 'I' [])) = some gs := by decide
  obtain ⟨w, hw, hview⟩ := Option.map_eq_some_iff.mp hrun
  simp only [Prod.mk.injEq] at hview
  obtain ⟨hend, hwire, hreplies, hdelivered⟩ := hview
  refine ⟨w, gs, Machine.reach_of_run ⟨_, rfl⟩ hw, completedBatch_first hend, ?_, hreplies,
    hdelivered, by decide⟩
  rw [hwire]
  exact Server.answers_of_script hscript

end Pgman
