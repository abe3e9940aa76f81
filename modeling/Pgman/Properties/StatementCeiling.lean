import Mathlib.Data.Finset.Card
import Pgman.Properties.StatementLru

/-!
# What the ceiling on a session's statements counts

A session is ended at four times `max_prepared_statements` named statements, on the ground that a
client with that many open ones leaks them.  What is counted is the session map, and that is
written when a `Parse` is sent: a `Parse` that is rejected, or skipped after an error, counts as
well, a statement that SQL deallocates goes on counting, and a batch counts before any of it was
carried out.

`Lifetimes` runs a session next to the statements its client really has (`alive`): the messages on
their way are `pending`, and a protocol-conforming backend answers them in order and skips to the
next `Sync` after an error.  These are the client's statements and not those of one connection,
which `Server` in `Construction/Wire` keeps: they outlive the connection they were prepared on, and
a `Parse` that the proxy puts in is none of them.

What holds of every orderly run is that a recorded statement is one that will be alive if all that
is pending succeeds; `ceiling_hits_leaks` says when that is enough.
-/

namespace Pgman

/-! ## The session map -/

/-- A `Parse` of the name. -/
def prepares (n : String) : FrontendMsg → Bool
  | .parse name _ _ => name ≠ "" && name = n
  | _ => false

def closes (n : String) : FrontendMsg → Bool
  | .close objectType name => objectType = 'S' && name ≠ "" && name = n
  | _ => false

variable {stmts : BackendPSCache} {sess : Session} {m : FrontendMsg} {p : Processed} {n : String}

lemma mem_psCache_checkSQLSideEffects {sql : String}
    (h : n ∈ (checkSQLSideEffects stmts sess sql).1.psCache) : n ∈ sess.psCache := by
  obtain ⟨-, -, ⟨-, hcache⟩ | ⟨-, -, hcache⟩⟩ := checkSQLSideEffects_spec stmts sess sql
  · exact hcache ▸ h
  · exact absurd (hcache ▸ h) (AList.notMem_empty n)

lemma psCache_ensureBackendHasStmt (stmts : BackendPSCache) (sess : Session) (name : String) :
    (ensureBackendHasStmt stmts sess name).sess.psCache = sess.psCache ∧
      (ensureBackendHasStmt stmts sess name).sess.psLimit = sess.psLimit := by
  unfold ensureBackendHasStmt
  split
  · exact ⟨rfl, rfl⟩
  · split
    · exact ⟨rfl, rfl⟩
    · split <;> exact ⟨rfl, rfl⟩

/-- The session map after a message. -/
lemma processClientMsg_psCache (hp : processClientMsg stmts sess m = .ok p) :
    p.sess.psLimit = sess.psLimit ∧ ∀ n ∈ p.sess.psCache,
      prepares n m = true ∨ n ∈ sess.psCache ∧ closes n m = false := by
  cases m with
  | parse name sql oids =>
    by_cases hne : name = ""
    · simp only [processClientMsg, if_pos hne, Except.ok.injEq] at hp
      subst hp
      refine ⟨(checkSQLSideEffects_spec stmts sess sql).1, fun n hn => .inr ⟨?_, rfl⟩⟩
      exact mem_psCache_checkSQLSideEffects hn
    · simp only [processClientMsg, if_neg hne] at hp
      unfold trackClientParse at hp
      split_ifs at hp
      simp only [Except.ok.injEq] at hp
      subst hp
      refine ⟨(checkSQLSideEffects_spec _ _ sql).1, fun n hn => ?_⟩
      rcases (AList.mem_insert _).mp (mem_psCache_checkSQLSideEffects hn) with rfl | hn
      · exact .inl (by simp [prepares, hne])
      · exact .inr ⟨hn, rfl⟩
  | bind portal name =>
    cases hp
    obtain ⟨hcache, hlimit⟩ := psCache_ensureBackendHasStmt stmts sess name
    exact ⟨hlimit, fun n hn => .inr ⟨hcache ▸ hn, rfl⟩⟩
  | describe objectType name =>
    obtain ⟨hcache, hlimit⟩ := psCache_ensureBackendHasStmt stmts sess name
    simp only [processClientMsg] at hp
    split_ifs at hp <;> cases hp
    · exact ⟨hlimit, fun n hn => .inr ⟨hcache ▸ hn, rfl⟩⟩
    · exact ⟨rfl, fun n hn => .inr ⟨hn, rfl⟩⟩
  | close objectType name =>
    simp only [processClientMsg] at hp
    split_ifs at hp with hs <;> cases hp
    · refine ⟨rfl, fun n hn => ?_⟩
      obtain ⟨hne, hn⟩ := AList.mem_erase.mp hn
      exact .inr ⟨hn, by simp [closes, Ne.symm hne]⟩
    · refine ⟨rfl, fun n hn => .inr ⟨hn, ?_⟩⟩
      simp only [closes, Bool.and_eq_false_iff, decide_eq_false_iff_not]
      by_cases hobj : objectType = 'S'
      · exact .inl (.inr fun hname => hs ⟨hobj, hname⟩)
      · exact .inl (.inl hobj)
  | query sql =>
    cases hp
    refine ⟨(checkSQLSideEffects_spec stmts sess sql).1, fun n hn => .inr ⟨?_, rfl⟩⟩
    exact mem_psCache_checkSQLSideEffects hn
  | execute | flush | sync | functionCall | copyData | copyDone | copyFail | password | terminate =>
    cases hp
    exact ⟨rfl, fun n hn => .inr ⟨hn, rfl⟩⟩

/-! ## The client's statements -/

/-- `DEALLOCATE` of a name; `DEALLOCATE ALL` and `DISCARD ALL`. -/
inductive Removal
  | one (name : String)
  | all
  deriving DecidableEq

def Removal.hits (n : String) : Removal → Bool
  | .one name => name = n
  | .all => true

/-- How the backend takes a message: it fails, or it is carried out, and then the SQL it runs may
remove statements. -/
inductive Reception
  | failed
  | done (removed : List Removal)
  deriving DecidableEq

/-- Messages that run SQL. -/
def runsSQL : FrontendMsg → Bool
  | .query _ => true
  | .execute _ => true
  | _ => false

/-- An error in answer to these makes the backend skip to the next `Sync`. -/
def skipsOnError : FrontendMsg → Bool
  | .query _ => false
  | .functionCall => false
  | .sync => false
  | _ => true

/-- A named `Parse`. -/
def isNamedParse : FrontendMsg → Bool
  | .parse name _ _ => name ≠ ""
  | _ => false

/-- What a message makes of the client's statements when it is carried out, SQL apart. -/
def carry (alive : Finset String) : FrontendMsg → Finset String
  | .parse name _ _ => if name = "" then alive else insert name alive
  | .close objectType name => if objectType = 'S' ∧ name ≠ "" then alive.erase name else alive
  | _ => alive

def remove (alive : Finset String) (removed : List Removal) : Finset String :=
  alive.filter fun n => removed.all fun r => !r.hits n

structure Lifetimes where
  sess : Session
  backends : ℕ → BackendPSCache
  /-- Sent and not answered, the oldest first. -/
  pending : List FrontendMsg
  /-- The backend skips to the next `Sync`. -/
  skipping : Bool
  alive : Finset String
  ended : Bool

inductive LifetimeEvent
  /-- `adoptBackend` clears the backend's cache. -/
  | reset (b : ℕ)
  | send (b : ℕ) (m : FrontendMsg)
  /-- The backend takes the oldest message that is pending. -/
  | answer (v : Reception)

namespace Lifetimes

def send (w : Lifetimes) (b : ℕ) (m : FrontendMsg) : Lifetimes :=
  match processClientMsg (w.backends b) w.sess m with
  | .error _ => { w with ended := true }
  | .ok p =>
    { w with
      sess := p.sess
      backends := Function.update w.backends b p.stmts
      pending := w.pending ++ [m] }

def answer (w : Lifetimes) (v : Reception) : Option Lifetimes :=
  match w.pending with
  | [] => none
  | m :: pending =>
    if w.skipping then some { w with pending, skipping := m ≠ .sync }
    else
      match v with
      | .failed => some { w with pending, skipping := skipsOnError m }
      | .done removed =>
        let alive := if runsSQL m then remove w.alive removed else w.alive
        some { w with pending, alive := carry alive m }

end Lifetimes

def lifetimes (limit : ℤ) : Machine Lifetimes LifetimeEvent where
  init w := w.sess.psLimit = limit ∧ w.sess.psCache = ∅ ∧ w.pending = [] ∧ w.alive = ∅ ∧
    w.ended = false
  step w
    | .reset b => some { w with backends := Function.update w.backends b ∅ }
    | .send b m => if w.ended then none else some (w.send b m)
    | .answer v => w.answer v

/-- A named `Parse` is carried out, and SQL removes no statement that the session map holds. -/
def orderly (w : Lifetimes) : LifetimeEvent → Bool
  | .reset _ | .send _ _ => true
  | .answer v =>
    match w.pending, v with
    | [], _ => true
    | m :: _, .failed => !isNamedParse m
    | m :: _, .done removed =>
      (!isNamedParse m || !w.skipping) &&
        removed.all fun r => w.sess.psCache.keys.all fun n => !r.hits n

/-! ## What is recorded is alive or pending -/

variable {alive alive' : Finset String} {w : Lifetimes} {limit : ℤ}

lemma mem_carry : n ∈ carry alive m ↔ prepares n m = true ∨ n ∈ alive ∧ closes n m = false := by
  cases m with
  | parse name sql oids =>
    simp only [carry, prepares, closes]
    split_ifs with hname
    · simp [hname]
    · simp [hname, eq_comm]
  | close objectType name =>
    simp only [carry, prepares, closes]
    split_ifs with hs
    · simp [hs.1, hs.2, eq_comm, and_comm]
    · by_cases hobj : objectType = 'S'
      · have hname : name = "" := not_not.mp fun hne => hs ⟨hobj, hne⟩
        simp [hname]
      · simp [hobj]
  | _ => simp [carry, prepares, closes]

/-- The statements if all that is pending succeeds. -/
def settled (alive : Finset String) (pending : List FrontendMsg) : Finset String :=
  pending.foldl carry alive

lemma settled_cons (alive : Finset String) (m : FrontendMsg) (pending : List FrontendMsg) :
    settled alive (m :: pending) = settled (carry alive m) pending := rfl

lemma settled_append (alive : Finset String) (pending : List FrontendMsg) (m : FrontendMsg) :
    settled alive (pending ++ [m]) = carry (settled alive pending) m :=
  List.foldl_append ..

/-- A name settles by what is alive of it alone. -/
lemma mem_settled_mono {pending : List FrontendMsg} (h : n ∈ alive → n ∈ alive') :
    n ∈ settled alive pending → n ∈ settled alive' pending := by
  induction pending generalizing alive alive' with
  | nil => exact h
  | cons m pending ih =>
    rw [settled_cons, settled_cons]
    refine ih ?_
    rw [mem_carry, mem_carry]
    exact Or.imp_right (And.imp_left h)

/-- Without a `Parse` on its way, what settles is alive. -/
lemma mem_of_mem_settled {pending : List FrontendMsg}
    (hnone : ∀ m ∈ pending, isNamedParse m = false) (h : n ∈ settled alive pending) :
    n ∈ alive := by
  induction pending generalizing alive with
  | nil => exact h
  | cons m pending ih =>
    have hm := hnone m (.head _)
    have hcarry : n ∈ carry alive m := ih (fun m' hm' => hnone m' (.tail _ hm')) h
    rcases mem_carry.mp hcarry with hprep | ⟨hn, -⟩
    · cases m with
      | parse name sql oids =>
        simp only [prepares, Bool.and_eq_true] at hprep
        simp only [isNamedParse] at hm
        exact absurd hprep.1 (Bool.eq_false_iff.mp hm)
      | _ => exact absurd hprep Bool.false_ne_true
    · exact hn

structure Recorded (limit : ℤ) (w : Lifetimes) : Prop where
  psLimit : w.sess.psLimit = limit
  settles : ∀ n ∈ w.sess.psCache, n ∈ settled w.alive w.pending

lemma Recorded.send (h : Recorded limit w) (b : ℕ) (m : FrontendMsg) :
    Recorded limit (w.send b m) := by
  unfold Lifetimes.send
  cases hp : processClientMsg (w.backends b) w.sess m with
  | error err => exact ⟨h.psLimit, h.settles⟩
  | ok p =>
    obtain ⟨hlimit, hcache⟩ := processClientMsg_psCache hp
    refine ⟨hlimit.trans h.psLimit, fun n hn => ?_⟩
    rw [settled_append, mem_carry]
    exact (hcache n hn).imp_right (And.imp_left (h.settles n))

/-- A message that is not carried out, and is no `Parse`, leaves at least what it would have. -/
lemma mem_of_mem_carry (hm : isNamedParse m = false) (h : n ∈ carry alive m) : n ∈ alive :=
  mem_of_mem_settled (fun _ hm' => List.mem_singleton.mp hm' ▸ hm)
    (show n ∈ settled alive [m] from h)

lemma Recorded.answer (h : Recorded limit w) {v : Reception} {w' : Lifetimes}
    (hord : orderly w (.answer v) = true) (hs : w.answer v = some w') : Recorded limit w' := by
  unfold Lifetimes.answer at hs
  cases hpend : w.pending with
  | nil =>
    rw [hpend] at hs
    cases hs
  | cons m pending =>
    have hsettles := h.settles
    rw [hpend] at hsettles
    simp only [hpend] at hs
    simp only [orderly, hpend] at hord
    -- the message is dropped
    have hdrop : isNamedParse m = false → ∀ n ∈ w.sess.psCache, n ∈ settled w.alive pending :=
      fun hm n hn => mem_settled_mono (mem_of_mem_carry hm) (hsettles n hn)
    by_cases hskip : w.skipping = true
    · rw [if_pos hskip] at hs
      cases hs
      refine ⟨h.psLimit, hdrop ?_⟩
      cases v with
      | failed => simpa using hord
      | done removed => simpa [hskip] using (Bool.and_eq_true_iff.mp hord).1
    · rw [if_neg hskip] at hs
      cases v with
      | failed =>
        cases hs
        exact ⟨h.psLimit, hdrop (by simpa using hord)⟩
      | done removed =>
        cases hs
        refine ⟨h.psLimit, fun n hn => mem_settled_mono ?_ (hsettles n hn)⟩
        -- what SQL removes is not recorded
        have hkept : n ∈ w.alive → n ∈ (if runsSQL m then remove w.alive removed else w.alive) := by
          intro halive
          split_ifs
          · have hmiss := (Bool.and_eq_true_iff.mp hord).2
            simp only [List.all_eq_true] at hmiss
            refine Finset.mem_filter.mpr ⟨halive, List.all_eq_true.mpr fun r hr => ?_⟩
            exact hmiss r hr n (AList.mem_keys.mp hn)
          · exact halive
        rw [mem_carry, mem_carry]
        exact Or.imp_right (And.imp_left hkept)

lemma recorded_of_reach (h : (lifetimes limit).Reach (fun w e => orderly w e = true) w) :
    Recorded limit w := by
  refine h.invariant ?_ ?_
  · rintro w ⟨hlimit, hcache, -, -, -⟩
    refine ⟨hlimit, fun n hn => ?_⟩
    rw [hcache] at hn
    exact absurd hn (AList.notMem_empty n)
  · intro w e w' hw hord hs
    cases e with
    | reset b =>
      cases hs
      exact ⟨hw.psLimit, hw.settles⟩
    | send b m =>
      simp only [lifetimes] at hs
      split_ifs at hs
      cases hs
      exact hw.send b m
    | answer v => exact hw.answer hord hs

/-- **The ceiling hits leaks**, in the runs in which every named `Parse` succeeds and SQL removes no
statement the session map holds, when no `Parse` is on its way. -/
theorem ceiling_hits_leaks (limit : ℤ) (hlimit : 0 < limit) (w : Lifetimes)
    (hw : (lifetimes limit).Reach (fun w e => orderly w e = true) w) (b : ℕ) (m : FrontendMsg)
    (err : String) (hnone : ∀ m' ∈ w.pending, isNamedParse m' = false)
    (herr : processClientMsg (w.backends b) w.sess m = .error err) :
    4 * limit ≤ w.alive.card := by
  have h := recorded_of_reach hw
  obtain ⟨name, sql, oids, rfl, -, -, hlength⟩ :=
    processClientMsg_error (h.psLimit ▸ hlimit) herr
  rw [h.psLimit] at hlength
  have hsub : w.sess.psCache.keys.toFinset ⊆ w.alive := by
    intro n hn
    exact mem_of_mem_settled hnone (h.settles n (AList.mem_keys.mpr (List.mem_toFinset.mp hn)))
  have hcard := Finset.card_le_card hsub
  rw [List.toFinset_card_of_nodup w.sess.psCache.keys_nodup] at hcard
  omega

/-- A new session that may have one statement on a backend, and so four in all. -/
def newSession : Lifetimes where
  sess := ⟨1, .transaction, [], ∅, 1, 0, false, false⟩
  backends _ := ∅
  pending := []
  skipping := false
  alive := ∅
  ended := false

/-- Prepare four statements one after the other, each taken the same way. -/
def fourStatements (v : Reception) : List LifetimeEvent :=
  ["a", "b", "c", "d"].flatMap fun name =>
    [.send 0 (.parse name "SELECT 1" []), .answer v, .send 0 .sync, .answer (.done [])]

/-- Prepare four statements in one batch. -/
def fourPipelined : List LifetimeEvent :=
  (["a", "b", "c", "d"].map fun name => .send 0 (.parse name "SELECT 1" [])) ++
    [.send 0 .sync] ++ List.replicate 4 (.answer (.done []))

def refused (w : Lifetimes) (m : FrontendMsg) : Bool :=
  match processClientMsg (w.backends 0) w.sess m with
  | .error _ => true
  | .ok _ => false

lemma exists_error_of_refused (h : refused w m = true) :
    ∃ err, processClientMsg (w.backends 0) w.sess m = .error err := by
  unfold refused at h
  split at h
  · next err herr => exact ⟨err, herr⟩
  · cases h

theorem ceiling_hits_leaks_four : ∃ w err,
    (lifetimes 1).Reach (fun w e => orderly w e = true) w ∧
    processClientMsg (w.backends 0) w.sess (.parse "e" "SELECT 1" []) = .error err ∧
    4 * 1 ≤ (w.alive.card : ℤ) := by
  obtain ⟨w, hrun, hw⟩ := Option.map_eq_some_iff.mp (show
    (((lifetimes 1).guarded (fun w e => orderly w e = true)).run newSession fourPipelined).map
      (fun w => refused w (.parse "e" "SELECT 1" []) &&
        w.pending.all fun m => isNamedParse m == false) = some true by decide)
  obtain ⟨hrefused, hnone⟩ := Bool.and_eq_true_iff.mp hw
  simp only [List.all_eq_true, beq_iff_eq] at hnone
  obtain ⟨err, herr⟩ := exists_error_of_refused hrefused
  have hreach := Machine.reach_of_guarded_run (M := lifetimes 1) (s := newSession)
    ⟨rfl, rfl, rfl, rfl, rfl⟩ hrun
  exact ⟨w, err, hreach, herr, ceiling_hits_leaks 1 (by decide) w hreach 0 _ err hnone herr⟩

/-- Four statements that the backend rejects end the session of a client that has none. -/
theorem rejected_statements_hit_the_ceiling : ∃ w err, (lifetimes 1).Reachable w ∧
    processClientMsg (w.backends 0) w.sess (.parse "e" "SELECT 1" []) = .error err ∧
    w.alive = ∅ := by
  obtain ⟨w, hrun, hw⟩ := Option.map_eq_some_iff.mp (show
    ((lifetimes 1).run newSession (fourStatements .failed)).map
      (fun w => refused w (.parse "e" "SELECT 1" []) && decide (w.alive = ∅)) = some true
    by decide)
  obtain ⟨hrefused, halive⟩ := Bool.and_eq_true_iff.mp hw
  obtain ⟨err, herr⟩ := exists_error_of_refused hrefused
  exact ⟨w, err, Machine.reach_of_run ⟨rfl, rfl, rfl, rfl, rfl⟩ hrun, herr,
    of_decide_eq_true halive⟩

end Pgman
