import Pgman.Construction.Relay.Attempt
import Pgman.Construction.Relay.Steady

/-!
# A failed query leaves the protocol in step

When no backend can be had for a batch, `failQuery` reads the batch to its end and answers it with
one error and one `ReadyForQuery`.  Were it to stop a message early or late, every later answer
would go to the wrong question.

The history of a session is written down as `Note`s: the messages it reads, with a mark on those
that the outer loop takes for the beginning of a batch, the failures of `Acquire` and of the
adoption, and its acts.  `failed_batches_stay_in_step` says that the history falls into episodes,
each from one beginning to the next: an episode with a failure in it is `Failed`, which is to say
one whole batch, its answer and nothing else, and in the end there is at most one episode that is
not over.
-/

namespace Pgman

/-! ## Histories -/

/-- What happens to a session. -/
inductive Note
  /-- The outer loop reads a message. -/
  | begin (m : FrontendMsg)
  /-- A message is read anywhere else. -/
  | next (m : FrontendMsg)
  /-- The client cannot be read any more. -/
  | gone
  /-- `Acquire` fails. -/
  | refused
  | act (a : Act)
  deriving DecidableEq

namespace Note

def isBegin : Note → Bool
  | .begin _ => true
  | _ => false

/-- No backend could be obtained. -/
def isFailure : Note → Bool
  | .refused => true
  | .act (.adoptFail _) => true
  | _ => false

/-- The search for a backend: nothing of the client's is sent, and the client is told nothing. -/
def Searches : Note → Prop
  | .refused => True
  | .act (.adoptFail _) => True
  | .act a => a.aside
  | _ => False

end Note

/-- What a session notes of an input. -/
def notesOf (pc : PC) : Input → List Note
  | .client m =>
    match pc with
    | .outer _ => [.begin m]
    | _ => [.next m]
  | .clientErr | .clientTimeout => [.gone]
  | .acquireErr _ _ => [.refused]
  | _ => []

/-- A message that neither ends a batch nor the session. -/
def Inside (m : FrontendMsg) : Prop := isTerminalMessage m = false ∧ m ≠ .terminate

/-- A whole batch: the messages up to and including the first `Query` or `Sync`. -/
def IsBatch (ms : List FrontendMsg) : Prop :=
  ∃ init last, ms = init ++ [last] ∧ isTerminalMessage last = true ∧ ∀ m ∈ init, Inside m

/-- One error and one `ReadyForQuery`. -/
def answer (code message : String) : List Note :=
  [.act (.toClient (.errorResponse "ERROR" code message)), .act (.toClient (.readyForQuery 'I'))]

/-- A search for a backend that has failed. -/
def FailedSearch (ns : List Note) : Prop :=
  (∀ n ∈ ns, n.Searches) ∧ ∃ n ∈ ns, n.isFailure = true

/-- The batch that begins with `m` could not have a backend, and was read as far as `ms`. -/
def failing (m : FrontendMsg) (ns : List Note) (ms : List FrontendMsg) : List Note :=
  .begin m :: ns ++ ms.map .next

/-- A batch without a backend, from its first message to the answer. -/
inductive Failed : List Note → Prop
  | mk (m : FrontendMsg) (ns : List Note) (ms : List FrontendMsg) (code message : String)
      (hns : FailedSearch ns) (hms : IsBatch (m :: ms)) :
      Failed (failing m ns ms ++ answer code message ++ [Note.act (.flushClient true)])

/-- A note of a course without failures, after its beginning. -/
def Note.Plain (n : Note) : Prop := n.isBegin = false ∧ n.isFailure = false

/-- A batch that has found its backend. -/
inductive Clean : List Note → Prop
  | mk (m : FrontendMsg) (ns : List Note) (hns : ∀ n ∈ ns, n.Plain) : Clean (.begin m :: ns)

/-- The episode a session at `pc` is in. -/
inductive Unfinished (pc : PC) : List Note → Prop
  | idle (backend : Option Conn) (hpc : pc = .outer backend) : Unfinished pc []
  | seeking (m : FrontendMsg) (ns : List Note) (hpc : pc.msg = some m) (hm : m ≠ .terminate)
      (hns : ∀ n ∈ ns, n.Searches ∧ n.isFailure = false) : Unfinished pc (.begin m :: ns)
  | served (ns : List Note) (hns : Clean ns)
      (hpc : (∃ c, pc = .batch c ∨ pc.service = some c) ∨ pc = .done) : Unfinished pc ns
  /-- The rest of a batch is read. -/
  | draining (m : FrontendMsg) (ns : List Note) (ms : List FrontendMsg) (code message : String)
      (hpc : pc = .drain code message) (hns : FailedSearch ns) (hms : ∀ m' ∈ m :: ms, Inside m') :
      Unfinished pc (failing m ns ms)
  | answered (m : FrontendMsg) (ns : List Note) (ms : List FrontendMsg) (code message : String)
      (hpc : pc = .failFlush) (hns : FailedSearch ns) (hms : IsBatch (m :: ms)) :
      Unfinished pc (failing m ns ms ++ answer code message)
  /-- The client leaves a batch that has no backend: the session is over. -/
  | deserted (m : FrontendMsg) (ns : List Note) (ms : List FrontendMsg) (n : Note)
      (hpc : pc = .done) (hns : FailedSearch ns) (hms : ∀ m' ∈ m :: ms, Inside m')
      (hn : n = .gone ∨ n = .next .terminate) : Unfinished pc (failing m ns ms ++ [n])
  /-- The answer cannot be written. -/
  | cut (m : FrontendMsg) (ns : List Note) (ms : List FrontendMsg) (code message : String)
      (hpc : pc = .done) (hns : FailedSearch ns) (hms : IsBatch (m :: ms)) :
      Unfinished pc (failing m ns ms ++ answer code message ++ [Note.act (.flushClient false)])
  /-- The client leaves between batches. -/
  | left (ns : List Note) (hpc : pc = .done) (hns : ∀ n ∈ ns, n.Plain) : Unfinished pc (.gone :: ns)

/-- The history of a session at `pc`: episodes that are over, and one that is not. -/
def InStep (pc : PC) (notes : List Note) : Prop :=
  ∃ (episodes : List (List Note)) (rest : List Note), notes = episodes.flatten ++ rest ∧
    (∀ e ∈ episodes, Failed e ∨ Clean e) ∧ Unfinished pc rest

/-! ## One step -/

section Step

variable {opts : RuntimeOpts} {conns : Conn → BackendConn} {nextID : ℕ} {l : Local} {c : Conn}
  {m : FrontendMsg} {i : Input} {r : Local × List Act} {ns rest : List Note}

/-- What a step adds to an episode: it goes on, or it is over and the next one is idle. -/
def GoesOn (pc : PC) (rest : List Note) : Prop :=
  Unfinished pc rest ∨ (∃ backend, pc = .outer backend) ∧ (Failed rest ∨ Clean rest)

lemma searches_of_aside {a : Act} (h : a.aside) :
    (Note.act a).Searches ∧ (Note.act a).isFailure = false := by
  cases a with
  | adoptFail => exact h.elim
  | _ => exact ⟨h, rfl⟩

lemma plain_of_aside {a : Act} (h : a.aside) : (Note.act a).Plain :=
  ⟨rfl, (searches_of_aside h).2⟩

lemma plain_of_enters {a : Act} (h : a.enters) : (Note.act a).Plain := by
  cases a with
  | adoptFail => exact h.elim
  | _ => exact ⟨rfl, rfl⟩

lemma plain_of_searches {n : Note} (h : n.Searches ∧ n.isFailure = false) : n.Plain := by
  cases n with
  | begin => exact h.1.elim
  | _ => exact ⟨rfl, h.2⟩

lemma plain_of_ne {a : Act} (h : ∀ c, a ≠ .adoptFail c) : (Note.act a).Plain := by
  cases a with
  | adoptFail c => exact absurd rfl (h c)
  | _ => exact ⟨rfl, rfl⟩

lemma Clean.append (h : Clean rest) {ns : List Note} (hns : ∀ n ∈ ns, n.Plain) :
    Clean (rest ++ ns) := by
  cases h with
  | mk m ns' h' =>
    refine .mk m (ns' ++ ns) fun n hn => ?_
    exact (List.mem_append.mp hn).elim (h' n) (hns n)

/-- Only `Acquire` fails as `Acquire` does. -/
lemma acquiring_of_acquireErr {err : Pool.AcquireErr} {text : String}
    (h : Relay.step opts conns nextID l (.acquireErr err text) = some r) :
    ∃ msg, l.pc = .acquiring msg := by
  unfold Relay.step at h
  cases hpc : l.pc with
  | acquiring msg => exact ⟨msg, rfl⟩
  | outer backend => rw [hpc] at h; cases h
  | drainCheck msg => rw [hpc] at h; cases h
  | done => rw [hpc] at h; cases h
  | copyBoth c st =>
    simp only [hpc] at h
    unfold Relay.copyBothStep at h
    split at h <;> simp_all
  | _ => simp only [hpc] at h; cases h

/-- Away from the outer loop and from a failing `Acquire`, an input is plain. -/
lemma notesOf_plain {pc : PC} (hpc : ∀ backend, pc ≠ .outer backend)
    (hi : ∀ err text, i ≠ .acquireErr err text) : ∀ n ∈ notesOf pc i, n.Plain := by
  intro n hn
  cases i with
  | client m =>
    cases pc with
    | outer backend => exact absurd rfl (hpc backend)
    | _ =>
      obtain rfl := List.mem_singleton.mp hn
      exact ⟨rfl, rfl⟩
  | clientErr | clientTimeout =>
    obtain rfl := List.mem_singleton.mp hn
    exact ⟨rfl, rfl⟩
  | acquireErr err text => exact absurd rfl (hi err text)
  | _ => cases hn

/-- A session that wants a backend does not read its client. -/
lemma notesOf_msg (hm : l.pc.msg = some m) (h : Relay.step opts conns nextID l i = some r)
    (hi : ∀ err text, i ≠ .acquireErr err text) : notesOf l.pc i = [] := by
  unfold Relay.step at h
  cases hpc : l.pc <;> simp only [hpc, PC.msg, reduceCtorEq] at hm h
  case drainCheck =>
    unfold Relay.drainCheckStep at h
    split at h <;> cases h <;> rfl
  case acquiring =>
    unfold Relay.acquireStep at h
    split at h
    · rfl
    · rfl
    · exact absurd rfl (hi _ _)
    · cases h
  case checkArm | checkFlush | checkRecv =>
    unfold Relay.checkStep at h
    split at h <;> first | rfl | cases h
  case resetArm | resetFlush | resetRecv =>
    unfold Relay.resetStep at h
    split at h <;> first | rfl | cases h
  case paramsFlush | paramsRecv =>
    unfold Relay.paramsStep at h
    split at h <;> first | rfl | cases h

lemma Relay.ServiceEnd.acts_plain {sess : Session} (h : Relay.ServiceEnd sess c i r) :
    ∀ a ∈ r.2, (Note.act a).Plain := by
  have hplain : ∀ a : Act, a.plain c i → ∀ c', a ≠ .adoptFail c' := by
    rintro a ha c' rfl
    exact ha
  intro a ha
  refine plain_of_ne fun c' => ?_
  cases h with
  | stay _ hacts _ => exact hplain a (hacts a ha) c'
  | back _ acts hacts h2 _ =>
    rw [h2] at ha
    simp only [List.mem_append, List.mem_cons, List.not_mem_nil, or_false] at ha
    rcases ha with ha | rfl | rfl
    · exact hplain a (hacts a ha) c'
    · simp
    · simp
  | drop _ acts tail hacts htail h2 _ =>
    rw [h2] at ha
    simp only [List.mem_append, List.mem_cons] at ha
    rcases ha with ha | rfl | ha
    · exact hplain a (hacts a ha) c'
    · simp
    · rintro rfl
      exact absurd (htail _ ha) (by simp [Act.on])

lemma acts_plain_of {acts : List Act} (h : ∀ a ∈ acts, (Note.act a).Plain) :
    ∀ n ∈ acts.map Note.act, n.Plain := by
  intro n hn
  obtain ⟨a, ha, rfl⟩ := List.mem_map.mp hn
  exact h a ha

lemma plain_append {ns ns' : List Note} (h : ∀ n ∈ ns, n.Plain) (h' : ∀ n ∈ ns', n.Plain) :
    ∀ n ∈ ns ++ ns', n.Plain := by
  intro n hn
  exact (List.mem_append.mp hn).elim (h n) (h' n)

/-- What a step notes. -/
def noted (pc : PC) (i : Input) (acts : List Act) : List Note := notesOf pc i ++ acts.map .act

/-- Away from the outer loop, with a backend in hand: the episode stays clean. -/
lemma clean_noted (hpc : ∀ backend, l.pc ≠ .outer backend) (hmsg : ∀ msg, l.pc ≠ .acquiring msg)
    (h : Relay.step opts conns nextID l i = some r) (hacts : ∀ a ∈ r.2, (Note.act a).Plain)
    (hrest : Clean rest) : Clean (rest ++ noted l.pc i r.2) := by
  refine hrest.append (plain_append (notesOf_plain hpc fun err text hi => ?_) (acts_plain_of hacts))
  subst hi
  obtain ⟨msg, hm⟩ := acquiring_of_acquireErr h
  exact hmsg msg hm

/-- A batch in flight. -/
lemma service_goesOn (hc : l.pc.service = some c) (h : Relay.step opts conns nextID l i = some r)
    (hrest : Clean rest) : GoesOn r.1.pc (rest ++ noted l.pc i r.2) := by
  have hend := Relay.service_step hc h
  have hclean : Clean (rest ++ noted l.pc i r.2) := by
    refine clean_noted (fun backend hb => ?_) (fun msg hb => ?_) h hend.acts_plain hrest
    · simp [hb, PC.service] at hc
    · simp [hb, PC.service] at hc
  cases hend with
  | stay _ _ hpc =>
    rcases hpc with hpc | hpc
    · exact .inl (.served _ hclean (.inl ⟨c, .inr hpc⟩))
    · exact .inr ⟨⟨_, hpc⟩, .inr hclean⟩
  | back _ _ _ _ hpc => exact .inr ⟨⟨_, hpc⟩, .inr hclean⟩
  | drop _ _ _ _ _ _ hpc =>
    rcases hpc with hpc | hpc
    · exact .inl (.served _ hclean (.inr hpc))
    · exact .inr ⟨⟨_, hpc⟩, .inr hclean⟩

lemma release_plain (l : Local) (c : Conn) (reusable : Bool) :
    ∀ a ∈ Relay.release l c reusable, (Note.act a).Plain := by
  intro a ha
  refine plain_of_ne fun c' hac => ?_
  subst hac
  unfold Relay.release at ha
  split at ha <;> simp at ha

lemma leave_plain (l : Local) (backend : Option Conn) :
    ∀ a ∈ (Relay.leave l backend).2, (Note.act a).Plain := by
  cases backend with
  | none => simp [Relay.leave]
  | some c => exact release_plain l c _

/-- The batch loop. -/
lemma batch_goesOn (hpc : l.pc = .batch c) (h : Relay.step opts conns nextID l i = some r)
    (hrest : Clean rest) : GoesOn r.1.pc (rest ++ noted l.pc i r.2) := by
  have hstep : Relay.batchStep opts conns l c l.pc i = some r := by
    rw [← h, Relay.step, hpc]
  have hserved : (∀ a ∈ r.2, (Note.act a).Plain) →
      ((∃ c', r.1.pc = .batch c' ∨ r.1.pc.service = some c') ∨ r.1.pc = .done) →
      GoesOn r.1.pc (rest ++ noted l.pc i r.2) := fun hacts hend =>
    .inl (.served _ (clean_noted (by simp [hpc]) (by simp [hpc]) h hacts hrest) hend)
  rw [hpc] at hstep
  unfold Relay.batchStep at hstep
  split at hstep
  · cases hstep
    exact hserved (leave_plain l (some c)) (.inr rfl)
  · split at hstep
    · cases hstep
      exact hserved (leave_plain l (some c)) (.inr rfl)
    · split at hstep
      · next hf =>
        cases hstep
        obtain ⟨hentry, hpc', -⟩ := Relay.forward_enters hf
        refine hserved (fun a ha => plain_of_enters (hentry a ha)) (.inl ⟨c, ?_⟩)
        rw [hpc']
        split
        · exact .inr rfl
        · exact .inl rfl
      · cases hstep
        refine hserved (fun a ha => ?_) (.inr rfl)
        rcases List.mem_cons.mp ha with rfl | ha
        · exact ⟨rfl, rfl⟩
        · exact release_plain l c false a ha
  · next hpc' => cases hpc'
  · next hpc' => cases hpc'
  · cases hstep

/-- `failQuery` at the end of a failed search. -/
lemma failQuery_goesOn (l : Local) (m : FrontendMsg) (code message : String) (hm : m ≠ .terminate)
    (hns : FailedSearch ns) :
    GoesOn (Relay.failQuery l m code message).1.pc
      (.begin m :: ns ++ (Relay.failQuery l m code message).2.map .act) := by
  unfold Relay.failQuery
  split
  · next hterm =>
    have hbatch : IsBatch [m] := ⟨[], m, rfl, hterm, by simp⟩
    have : Unfinished .failFlush _ := .answered m ns [] code message rfl hns hbatch
    exact .inl (by simpa [failing, answer, Relay.reportFailure] using this)
  · next hterm =>
    have hin : Inside m := ⟨by simpa using hterm, hm⟩
    have : Unfinished (.drain code message) _ :=
      .draining m ns [] code message rfl hns (by simpa using hin)
    exact .inl (by simpa [failing] using this)

/-- A message enters a batch, goes on waiting, or ends the session at the ceiling. -/
lemma adopts_goesOn {pend : ℕ} (hm : m ≠ .terminate)
    (hns : ∀ n ∈ ns, n.Searches ∧ n.isFailure = false) (h : Relay.Adopts pend m r) :
    GoesOn r.1.pc (.begin m :: (ns ++ r.2.map .act)) := by
  have hplain : ∀ n ∈ ns, n.Plain := fun n hn => plain_of_searches (hns n hn)
  cases h with
  | waits hacts hpc _ =>
    refine .inl (.seeking m _ hpc hm fun n hn => ?_)
    rcases List.mem_append.mp hn with hn | hn
    · exact hns n hn
    · obtain ⟨a, ha, rfl⟩ := List.mem_map.mp hn
      exact searches_of_aside (hacts a ha)
  | begins c acts entry hr hacts hentry hpc _ =>
    refine .inl (.served _ (.mk m _ (plain_append hplain (acts_plain_of fun a ha => ?_)))
      (.inl ⟨c, ?_⟩))
    · rw [hr] at ha
      rcases List.mem_append.mp ha with ha | ha
      · exact plain_of_aside (hacts a ha)
      · exact plain_of_enters (hentry a ha)
    · rw [hpc]
      split
      · exact .inr rfl
      · exact .inl rfl
  | ceiling hacts hpc =>
    exact .inl (.served _ (.mk m _ (plain_append hplain (acts_plain_of fun a ha =>
      plain_of_ne (hacts a ha)))) (.inr hpc))

/-- A session that wants a backend. -/
lemma seeking_goesOn (hmsg : l.pc.msg = some m) (hm : m ≠ .terminate)
    (hns : ∀ n ∈ ns, n.Searches ∧ n.isFailure = false) (hi : i.shutdown = false)
    (h : Relay.step opts conns nextID l i = some r) :
    GoesOn r.1.pc (.begin m :: ns ++ noted l.pc i r.2) := by
  have hsearch : ∀ n ∈ ns, n.Searches := fun n hn => (hns n hn).1
  cases Relay.attempt_step hmsg h with
  | adopts hno hadopts =>
    rw [noted, notesOf_msg hmsg h hno, List.nil_append, List.cons_append]
    exact adopts_goesOn hm hns hadopts
  | shutdown hyes _ => rw [hi] at hyes; cases hyes
  | refused err text code message hi' hr =>
    subst hi' hr
    have hfail : FailedSearch (ns ++ [Note.refused]) :=
      ⟨by simpa [or_imp, forall_and, Note.Searches] using hsearch, .refused, by simp, rfl⟩
    simpa [noted, notesOf] using failQuery_goesOn l m code message hm hfail
  | unfit c acts code message hno hacts hr =>
    have hfail : FailedSearch (ns ++ (acts ++ [Act.adoptFail c, .discard c]).map .act) := by
      refine ⟨fun n hn => ?_, .act (.adoptFail c), by simp, rfl⟩
      rcases List.mem_append.mp hn with hn | hn
      · exact hsearch n hn
      · obtain ⟨a, ha, rfl⟩ := List.mem_map.mp hn
        simp only [List.mem_append, List.mem_cons, List.not_mem_nil, or_false] at ha
        rcases ha with ha | rfl | rfl
        · exact (searches_of_aside (hacts a ha)).1
        · trivial
        · trivial
    have := failQuery_goesOn l m code message hm hfail
    rw [noted, notesOf_msg hmsg h hno]
    subst hr
    simpa using this

/-- `failQuery` reads the rest of the batch. -/
lemma draining_goesOn {ms : List FrontendMsg} {code message : String}
    (hpc : l.pc = .drain code message) (hns : FailedSearch ns) (hms : ∀ m' ∈ m :: ms, Inside m')
    (h : Relay.step opts conns nextID l i = some r) :
    GoesOn r.1.pc (failing m ns ms ++ noted l.pc i r.2) := by
  have hstep : Relay.failStep l (.drain code message) i = some r := by
    rw [← h, Relay.step, hpc]
  have hnext : ∀ m', failing m ns ms ++ [Note.next m'] = failing m ns (ms ++ [m']) := by
    intro m'
    simp [failing]
  rw [hpc]
  unfold Relay.failStep at hstep
  split at hstep
  · cases hstep
    exact .inl (.deserted m ns ms .gone rfl hns hms (.inl rfl))
  · next code' message' m' heq =>
    cases heq
    split at hstep
    · next hterm =>
      cases hstep
      subst hterm
      exact .inl (.deserted m ns ms (.next .terminate) rfl hns hms (.inr rfl))
    · next hterm =>
      split at hstep
      · next hlast =>
        cases hstep
        have hbatch : IsBatch (m :: (ms ++ [m'])) := ⟨m :: ms, m', rfl, hlast, hms⟩
        have : Unfinished .failFlush _ :=
          .answered m ns (ms ++ [m']) code message rfl hns hbatch
        rw [← hnext m'] at this
        exact .inl (by simpa [noted, notesOf, answer, Relay.reportFailure] using this)
      · next hlast =>
        cases hstep
        have hin : Inside m' := ⟨by simpa using hlast, hterm⟩
        have hall : ∀ m'' ∈ m :: (ms ++ [m']), Inside m'' := by
          intro m'' hm''
          rw [← List.cons_append] at hm''
          rcases List.mem_append.mp hm'' with hm'' | hm''
          · exact hms m'' hm''
          · exact List.mem_singleton.mp hm'' ▸ hin
        have : Unfinished (.drain code message) _ :=
          .draining m ns (ms ++ [m']) code message rfl hns hall
        rw [← hnext m'] at this
        exact .inl (by simpa [noted, notesOf] using this)
  · next heq => cases heq
  · cases hstep

/-- The answer is written, or the session is over. -/
lemma answered_goesOn {ms : List FrontendMsg} {code message : String} (hpc : l.pc = .failFlush)
    (hns : FailedSearch ns) (hms : IsBatch (m :: ms))
    (h : Relay.step opts conns nextID l i = some r) :
    GoesOn r.1.pc (failing m ns ms ++ answer code message ++ noted l.pc i r.2) := by
  have hstep : Relay.failStep l .failFlush i = some r := by
    rw [← h, Relay.step, hpc]
  rw [hpc]
  unfold Relay.failStep at hstep
  split at hstep
  · next heq => cases heq
  · next heq => cases heq
  · next ok _ =>
    cases hstep
    cases ok with
    | true => exact .inr ⟨⟨none, rfl⟩, .inl (.mk m ns ms code message hns hms)⟩
    | false => exact .inl (.cut m ns ms code message rfl hns hms)
  · cases hstep

/-- The outer loop. -/
lemma outer_goesOn {backend : Option Conn} (hpc : l.pc = .outer backend)
    (h : Relay.step opts conns nextID l i = some r) :
    GoesOn r.1.pc (noted l.pc i r.2) := by
  have hstep : Relay.outerStep opts conns l backend i = some r := by
    rw [← h, Relay.step, hpc]
  rw [hpc]
  unfold Relay.outerStep at hstep
  split at hstep
  · obtain ⟨t, -, rfl⟩ := Option.map_eq_some_iff.mp hstep
    refine .inl (.left _ rfl (acts_plain_of fun a ha => ?_))
    rcases List.mem_cons.mp ha with rfl | ha
    · exact ⟨rfl, rfl⟩
    · exact leave_plain l backend a ha
  · cases hstep
    exact .inl (.left _ rfl (acts_plain_of (leave_plain l backend)))
  · cases hstep
    exact .inl (.served _ (.mk .terminate _ (acts_plain_of (leave_plain l backend))) (.inr rfl))
  · next m hm =>
    split at hstep
    · cases hstep
      exact .inl (.seeking m [] rfl hm (by simp))
    · next c =>
      cases hstep
      have hnone : ∀ n ∈ ([] : List Note), n.Searches ∧ n.isFailure = false := by simp
      exact adopts_goesOn hm hnone (Relay.beginBatch_adopts l c _ m)
  · cases hstep

/-- **One step of a session.** -/
theorem unfinished_step (hu : Unfinished l.pc rest) (hi : i.shutdown = false)
    (h : Relay.step opts conns nextID l i = some r) : GoesOn r.1.pc (rest ++ noted l.pc i r.2) := by
  have hdone : l.pc ≠ .done := by
    intro hpc
    simp [Relay.step, hpc] at h
  cases hu with
  | idle backend hpc => exact outer_goesOn hpc h
  | seeking m ns hpc hm hns => exact seeking_goesOn hpc hm hns hi h
  | served _ hns hpc =>
    rcases hpc with ⟨c, hpc | hpc⟩ | hpc
    · exact batch_goesOn hpc h hns
    · exact service_goesOn hpc h hns
    · exact absurd hpc hdone
  | draining m ns ms code message hpc hns hms => exact draining_goesOn hpc hns hms h
  | answered m ns ms code message hpc hns hms => exact answered_goesOn hpc hns hms h
  | deserted m ns ms n hpc => exact absurd hpc hdone
  | cut m ns ms code message hpc => exact absurd hpc hdone
  | left ns hpc => exact absurd hpc hdone

theorem inStep_step {notes : List Note} (hs : InStep l.pc notes) (hi : i.shutdown = false)
    (h : Relay.step opts conns nextID l i = some r) :
    InStep r.1.pc (notes ++ noted l.pc i r.2) := by
  obtain ⟨episodes, rest, rfl, hep, hu⟩ := hs
  rcases unfinished_step hu hi h with hu' | ⟨⟨backend, hpc⟩, hover⟩
  · exact ⟨episodes, _, by simp, hep, hu'⟩
  · -- the episode is over, and the session is between batches
    refine ⟨episodes ++ [rest ++ noted l.pc i r.2], [], by simp, fun e he => ?_, .idle backend hpc⟩
    rcases List.mem_append.mp he with he | he
    · exact hep e he
    · exact List.mem_singleton.mp he ▸ hover

end Step

/-! ## Runs -/

/-- A world with the history of one session. -/
structure Noted where
  world : World
  notes : List Note

namespace Noted

/-- What session `k` notes of a happening. -/
def notesFor (opts : RuntimeOpts) (k : Caller) (w : World) : Happening → List Note
  | .relay k' i =>
    if k' = k then
      match Relay.step opts w.res w.shared (w.loc k) i with
      | some r => noted (w.loc k).pc i r.2
      | none => []
    else []
  | _ => []

/-- The world of `World.machine`, with the history of session `k` written down. -/
def machine (opts : RuntimeOpts) (mode : PoolMode) (params : Caller → List TrackedParam)
    (k : Caller) : Machine Noted Happening where
  init s := (World.machine opts mode params).init s.world ∧ s.notes = []
  step s a := (World.step opts s.world a).map fun w => ⟨w, s.notes ++ notesFor opts k s.world a⟩

/-- Session `k` finds the proxy not draining and its pool not closed. -/
def InService (k : Caller) (_ : Noted) : Happening → Prop
  | .relay k' i => k' = k → i.shutdown = false
  | _ => True

instance (k : Caller) (s : Noted) (a : Happening) : Decidable (InService k s a) := by
  unfold InService
  split <;> infer_instance

variable {opts : RuntimeOpts} {mode : PoolMode} {params : Caller → List TrackedParam} {k : Caller}
  {C : Noted → Happening → Prop} {s : Noted}

lemma world_reach (h : (machine opts mode params k).Reach C s) :
    (World.machine opts mode params).Reachable s.world := by
  induction h with
  | init h0 => exact .init h0.1
  | step _ _ hs ih =>
    obtain ⟨w, hw, rfl⟩ := Option.map_eq_some_iff.mp hs
    exact ih.step trivial hw

/-- A session that waits for no backend and has none in hand holds none. -/
lemma not_held (h : (machine opts mode params k).Reach C s)
    (hhand : (s.world.loc k).hand = none) (c : Conn) : s.world.place c ≠ .held k := by
  intro hheld
  have hex := (World.steady_of_reach (world_reach h)).exclusive k c
  rw [hhand] at hex
  cases hex.mp hheld

theorem inStep (h : (machine opts mode params k).Reach (InService k) s) :
    InStep (s.world.loc k).pc s.notes := by
  induction h with
  | init h0 =>
    obtain ⟨⟨psLimit, hw⟩, hn⟩ := h0
    rw [hw, hn]
    exact ⟨[], [], rfl, by simp, .idle none rfl⟩
  | @step s s' a _ hC hs ih =>
    obtain ⟨w, hw, rfl⟩ := Option.map_eq_some_iff.mp hs
    cases a with
    | relay k' i =>
      simp only [World.step] at hw
      split at hw
      · obtain ⟨r, hr, rfl⟩ := Option.map_eq_some_iff.mp hw
        by_cases hk : k' = k
        · subst hk
          simpa [notesFor, hr, Leased.perform] using inStep_step ih (hC rfl) hr
        · simpa [notesFor, hk, Leased.perform, Function.update_of_ne (Ne.symm hk)] using ih
      · cases hw
    | register k' =>
      simp only [World.step] at hw
      split at hw <;> cases hw
      by_cases hk : k' = k
      · subst hk
        simpa [notesFor, World.register] using ih
      · simpa [notesFor, World.register, Function.update_of_ne (Ne.symm hk)] using ih
    | dial c =>
      simp only [World.step] at hw
      split at hw <;> cases hw
      simpa [notesFor] using ih
    | retire c =>
      simp only [World.step] at hw
      split at hw <;> cases hw
      simpa [notesFor] using ih

end Noted

end Pgman
