import Pgman.Construction.Wire.Server
import Pgman.Properties.StatementCeiling

/-!
# Does the backend's cache tell the truth?

`preparedStmts` is to say which statements a backend has been given through `Parse`, and `psCache`
what their SQL is.  Both are written when a message is sent.  The backend may then reject it, or
skip it because something before it in the batch failed; nothing is taken back.  A statement that
is listed and not there is the worse half: its `Bind` is sent without the `Parse` it needs, and
fails (`skipped_replay_is_believed`).

`Mirror` runs one session on one backend from the moment it was adopted.  What the backend holds of
what was prepared through `Parse` is `held`; messages that were sent and not answered are `pending`,
those the proxy put in among them.  The backend answers in order, rejects a `Parse` of a name it
holds and any other message it likes, and after an error skips to the next `Sync`.  The COPY loops
send messages on without looking at them (`pass`).

Where every `Parse` and `Close` of a statement is carried out, and neither SQL text nor a COPY goes
past the caches, what is listed is what will be held when all that is pending is done
(`Mirrored`), and between batches it is what is held (`backend_cache_tells_the_truth`).
-/

namespace Pgman

/-! ## One session on one backend -/

/-- How a backend takes a message: the SQL that it runs may deallocate statements. -/
inductive Outcome
  | failed
  | done (drops : List String)
  deriving DecidableEq

structure Mirror where
  sess : Session
  stmts : BackendPSCache
  /-- Sent and not answered, the oldest first. -/
  pending : List FrontendMsg
  /-- The backend skips to the next `Sync`. -/
  skipping : Bool
  /-- What the backend holds of what was prepared through `Parse` since its adoption. -/
  held : String → Option PrepStmtInfo

inductive MirrorEvent
  /-- The batch loop sends a message. -/
  | forward (m : FrontendMsg)
  /-- A COPY loop sends a message. -/
  | pass (m : FrontendMsg)
  /-- The backend takes the oldest message that is pending. -/
  | answer (o : Outcome)

/-- A `Parse` of a name the backend holds, which it must reject. -/
def inUse (held : String → Option PrepStmtInfo) : FrontendMsg → Bool
  | .parse name _ _ => name ≠ "" && (held name).isSome
  | _ => false

namespace Mirror

/-- At the ceiling the session ends, and with it the run. -/
def forward (w : Mirror) (m : FrontendMsg) : Option Mirror :=
  match processClientMsg w.stmts w.sess m with
  | .error _ => none
  | .ok p =>
    some { w with
      sess := p.sess
      stmts := p.stmts
      pending := w.pending ++ (p.injected ++ [m]) }

def answer (w : Mirror) (o : Outcome) : Option Mirror :=
  match w.pending with
  | [] => none
  | m :: pending =>
    if w.skipping then some { w with pending, skipping := m ≠ .sync }
    else
      match o with
      | .failed => some { w with pending, skipping := skipsOnError m }
      | .done drops =>
        if inUse w.held m then none
        else some { w with pending, held := Server.deallocate drops (Server.record w.held m) }

/-- The session may have prepared anything before, on other backends. -/
def machine : Machine Mirror MirrorEvent where
  init w := w.stmts = ∅ ∧ w.pending = [] ∧ w.skipping = false ∧ w.held = fun _ => none
  step w
    | .forward m => w.forward m
    | .pass m => some { w with pending := w.pending ++ [m] }
    | .answer o => w.answer o

end Mirror

/-! ## The condition -/

/-- A text that `isDDL` takes for DDL, upon which both caches are dropped. -/
def carriesDDL : FrontendMsg → Bool
  | .parse _ sql _ => isDDL sql
  | .query sql => isDDL sql
  | _ => false

/-- A `Parse` or `Close` of a named statement. -/
def changesStmts : FrontendMsg → Bool
  | .parse name _ _ => name ≠ ""
  | .close objectType name => objectType = 'S' && name ≠ ""
  | _ => false

/-- Every `Parse` and `Close` of a named statement goes through the batch loop and is carried out,
DDL is sent only while nothing is listed and not as a named statement, and SQL deallocates nothing
that is listed. -/
def faithful (w : Mirror) : MirrorEvent → Bool
  | .forward m => !carriesDDL m || (w.stmts.keys.isEmpty && !isNamedParse m)
  | .pass m => !changesStmts m
  | .answer o =>
    match w.pending with
    | [] => true
    | m :: _ =>
      if w.skipping then !changesStmts m
      else
        match o with
        | .failed => !changesStmts m
        | .done drops => drops.all fun n => n ∉ w.stmts

/-! ## What pending messages make of a statement -/

/-- What a message makes of the statement `n` when it is carried out, if anything. -/
def setsTo (n : String) : FrontendMsg → Option (Option PrepStmtInfo)
  | .parse name sql oids => if name = n then some (some ⟨sql, oids⟩) else none
  | .close objectType name => if objectType = 'S' ∧ name = n then some none else none
  | _ => none

/-- What becomes of statement `n` when all of `ms` is carried out. -/
def becomes (n : String) (x : Option PrepStmtInfo) (ms : List FrontendMsg) : Option PrepStmtInfo :=
  ms.foldl (fun x m => (setsTo n m).getD x) x

variable {n : String} {x y : Option PrepStmtInfo} {m : FrontendMsg} {ms : List FrontendMsg}
  {stmts : BackendPSCache} {sess : Session} {p : Processed} {w w' : Mirror}

lemma becomes_cons : becomes n x (m :: ms) = becomes n ((setsTo n m).getD x) ms := rfl

lemma becomes_append (ms' : List FrontendMsg) :
    becomes n x (ms ++ ms') = becomes n (becomes n x ms) ms' := List.foldl_append ..

lemma record_apply (hn : n ≠ "") (held : String → Option PrepStmtInfo) (m : FrontendMsg) :
    Server.record held m n = (setsTo n m).getD (held n) := by
  cases m with
  | parse name sql oids =>
    simp only [Server.record, setsTo, Function.update_apply]
    split_ifs with h1 h2 h2
    · rfl
    · exact absurd h1.symm h2
    · exact absurd h2.symm h1
    · rfl
  | close objectType name =>
    simp only [Server.record, setsTo]
    by_cases hobj : objectType = 'S'
    · by_cases hname : name = n
      · simp [hobj, hname]
      · simp [hobj, hname, Function.update_of_ne (Ne.symm hname)]
    · simp [hobj]
  | query sql => simp [Server.record, setsTo, Function.update_of_ne hn]
  | _ => rfl

/-- What is not there in the end is not there either if it was not there in the beginning. -/
lemma becomes_none (h : becomes n x ms = none) : becomes n none ms = none := by
  induction ms generalizing x with
  | nil => rfl
  | cons m ms ih =>
    rw [becomes_cons] at h ⊢
    cases hm : setsTo n m with
    | none =>
      rw [hm] at h
      exact ih h
    | some y =>
      rw [hm] at h
      exact h

lemma becomes_closes (victims : List String) :
    becomes n x (victims.map (.close 'S' ·)) = if n ∈ victims then none else x := by
  induction victims generalizing x with
  | nil => rfl
  | cons v victims ih =>
    rw [List.map_cons, becomes_cons, ih]
    by_cases hv : v = n
    · simp [setsTo, hv]
    · simp [setsTo, hv, Ne.symm hv]

/-! ## One message -/

lemma lruStmt_mem {cache : BackendPSCache} {v : String} (h : lruStmt cache = some v) :
    v ∈ cache := by
  -- a scan ends where it began or with an entry
  have hscan : ∀ (l : List (Sigma fun _ : String => ℕ)) (o : String × ℕ),
      (l.foldl scanned o).1 = o.1 ∨ (l.foldl scanned o).1 ∈ l.map Sigma.fst := by
    intro l
    induction l with
    | nil => exact fun o => .inl rfl
    | cons e l ih =>
      intro o
      rw [List.foldl_cons, List.map_cons, List.mem_cons]
      rcases ih (scanned o e) with heq | hmem
      · rw [heq, scanned]
        split_ifs
        · exact .inr (.inl rfl)
        · exact .inl rfl
      · exact .inr (.inr hmem)
  change (if (cache.entries.foldl scanned ("", 0)).1 = "" then none
    else some (cache.entries.foldl scanned ("", 0)).1) = some v at h
  split_ifs at h with hempty
  rcases hscan cache.entries ("", 0) with heq | hmem
  · exact absurd heq hempty
  · exact AList.mem_keys.mpr (Option.some.inj h ▸ hmem)

lemma evict_mem (limit : ℤ) (fuel : ℕ) (cache : BackendPSCache) :
    (∀ v ∈ (evict limit fuel cache).2, v ∈ cache) ∧
      ∀ n, n ∈ (evict limit fuel cache).1 ↔ n ∈ cache ∧ n ∉ (evict limit fuel cache).2 := by
  induction fuel generalizing cache with
  | zero => exact ⟨fun _ hv => absurd hv List.not_mem_nil, fun n => by simp [evict]⟩
  | succ fuel ih =>
    rw [evict]
    split_ifs with hroom
    · exact ⟨fun _ hv => absurd hv List.not_mem_nil, fun n => by simp⟩
    · split
      · exact ⟨fun _ hv => absurd hv List.not_mem_nil, fun n => by simp⟩
      · next victim hlru =>
        obtain ⟨hpresent, hmem⟩ := ih (cache.erase victim)
        refine ⟨fun v hv => ?_, fun n => ?_⟩
        · rcases List.mem_cons.mp hv with rfl | hv
          · exact lruStmt_mem hlru
          · exact (AList.mem_erase.mp (hpresent v hv)).2
        · rw [hmem n, AList.mem_erase, List.mem_cons, not_or]
          exact ⟨fun h => ⟨h.1.2, h.1.1, h.2⟩, fun h => ⟨⟨h.2.1, h.1⟩, h.2.2⟩⟩

/-- Marking a backend closes what it makes room of, and lists the name. -/
lemma markBackendHasStmt_lists (stmts : BackendPSCache) (sess : Session) (name : String) :
    ∃ victims : List String,
      (markBackendHasStmt stmts sess name).injected = victims.map (.close 'S' ·) ∧
      name ∉ victims ∧
      ∀ n, n ∈ (markBackendHasStmt stmts sess name).stmts ↔
        n = name ∨ n ∈ stmts ∧ n ∉ victims := by
  unfold markBackendHasStmt
  dsimp only
  split_ifs with hroom
  · obtain ⟨hpresent, hmem⟩ := evict_mem sess.psLimit stmts.keys.length stmts
    refine ⟨_, rfl, fun hname => hroom.2 (hpresent name hname), fun n => ?_⟩
    rw [AList.mem_insert, hmem n]
  · refine ⟨[], rfl, List.not_mem_nil, fun n => ?_⟩
    simp [AList.mem_insert]

/-- What the caches say of statement `n`. -/
def onRecord (stmts : BackendPSCache) (sess : Session) (n : String) : Option PrepStmtInfo :=
  if n ∈ stmts then sess.psCache.lookup n else none

/-- The caches after a message are as before, with what was sent carried out. -/
structure InTune (stmts : BackendPSCache) (sess : Session) (sent : List FrontendMsg)
    (stmts' : BackendPSCache) (sess' : Session) : Prop where
  listed : ∀ n, n ≠ "" → becomes n (onRecord stmts sess n) sent = onRecord stmts' sess' n
  known : ∀ n ∈ stmts', n ∈ sess'.psCache

/-- A message that changes no statement, with the caches unchanged. -/
lemma inTune_plain (sess' : Session) (hknown : ∀ n ∈ stmts, n ∈ sess.psCache)
    (hcache : sess'.psCache = sess.psCache) (hm : ∀ n, n ≠ "" → setsTo n m = none) :
    InTune stmts sess [m] stmts sess' where
  listed n hn := by
    rw [becomes_cons, hm n hn, onRecord, onRecord, hcache]
    rfl
  known n hn := hcache ▸ hknown n hn

/-- A text outside a named `Parse`. -/
lemma inTune_text {sql : String} (hknown : ∀ n ∈ stmts, n ∈ sess.psCache)
    (hddl : isDDL sql = true → stmts = ∅) (hm : ∀ n, n ≠ "" → setsTo n m = none) :
    InTune stmts sess [m] (checkSQLSideEffects stmts sess sql).2
      (checkSQLSideEffects stmts sess sql).1 := by
  obtain ⟨-, -, ⟨hstmts, hcache⟩ | ⟨hisDDL, hstmts, -⟩⟩ := checkSQLSideEffects_spec stmts sess sql
  · rw [hstmts]
    exact inTune_plain _ hknown hcache hm
  · -- nothing was listed, so nothing is forgotten
    obtain rfl := hddl hisDDL
    rw [hstmts]
    refine ⟨fun n hn => ?_, fun n hn => absurd hn (AList.notMem_empty n)⟩
    rw [becomes_cons, hm n hn]
    simp only [onRecord, if_neg (AList.notMem_empty n)]
    rfl

/-- The `Parse` of a name the backend is marked with. -/
lemma inTune_marked (s' : Session) {name : String} (info : PrepStmtInfo) {victims : List String}
    {stmts' : BackendPSCache} (hknown : ∀ n ∈ stmts, n ∈ sess.psCache)
    (hmem : ∀ n, n ∈ stmts' ↔ n = name ∨ n ∈ stmts ∧ n ∉ victims)
    (hinfo : s'.psCache.lookup name = some info)
    (hother : ∀ n, n ≠ name → s'.psCache.lookup n = sess.psCache.lookup n) :
    InTune stmts sess (victims.map (FrontendMsg.close 'S' ·) ++
      [FrontendMsg.parse name info.SQL info.parameterOIDs])
      stmts' s' where
  listed n _ := by
    rw [becomes_append, becomes_closes, becomes_cons, onRecord, onRecord]
    by_cases hn : n = name
    · subst hn
      rw [if_pos ((hmem n).mpr (.inl rfl)), hinfo]
      simp [setsTo, becomes]
    · have hset : setsTo n (.parse name info.SQL info.parameterOIDs) = none := by
        simp [setsTo, Ne.symm hn]
      simp only [hset, hmem n, hn, false_or, hother n hn]
      by_cases hv : n ∈ victims
      · simp [hv, becomes]
      · simp [hv, becomes]
  known n hn := by
    rw [← AList.lookup_isSome]
    by_cases hname : n = name
    · rw [hname, hinfo]
      rfl
    · rw [hother n hname, AList.lookup_isSome]
      exact hknown n (((hmem n).mp hn).resolve_left hname).1

/-- A `Bind` or `Describe` of a statement. -/
lemma inTune_ensure {name : String} (hknown : ∀ n ∈ stmts, n ∈ sess.psCache)
    (hm : ∀ n, setsTo n m = none) :
    InTune stmts sess ((ensureBackendHasStmt stmts sess name).injected ++ [m])
      (ensureBackendHasStmt stmts sess name).stmts (ensureBackendHasStmt stmts sess name).sess := by
  have hplain := inTune_plain sess hknown rfl fun n _ => hm n
  unfold ensureBackendHasStmt
  split
  · exact hplain
  · split
    · exact hplain
    · next info hinfo =>
      split_ifs with hhas
      · -- a touch
        refine ⟨fun n hn => ?_, fun n hn => ?_⟩
        · rw [List.nil_append, becomes_cons, hm n, onRecord, onRecord]
          by_cases heq : n = name
          · subst heq
            simp [hhas, AList.mem_insert, becomes]
          · simp [AList.mem_insert, heq, becomes]
        · rcases (AList.mem_insert _).mp hn with rfl | hn
          · exact hknown n hhas
          · exact hknown n hn
      · obtain ⟨victims, hinj, -, hmem⟩ := markBackendHasStmt_lists stmts sess name
        have hmarked := inTune_marked (markBackendHasStmt stmts sess name).sess info hknown hmem
          hinfo fun n _ => rfl
        refine ⟨fun n hn => ?_, hmarked.known⟩
        dsimp only
        rw [hinj, becomes_append, hmarked.listed n hn, becomes_cons, hm n]
        rfl

/-- **What `processClientMsg` lists is what it sends.** -/
lemma processClientMsg_inTune (hknown : ∀ n ∈ stmts, n ∈ sess.psCache)
    (hddl : carriesDDL m = true → stmts = ∅ ∧ isNamedParse m = false)
    (hp : processClientMsg stmts sess m = .ok p) :
    InTune stmts sess (p.injected ++ [m]) p.stmts p.sess := by
  cases m with
  | parse name sql oids =>
    by_cases hne : name = ""
    · simp only [processClientMsg, if_pos hne, Except.ok.injEq] at hp
      subst hp
      refine inTune_text hknown (fun hisDDL => (hddl hisDDL).1) fun n hn => ?_
      simp [setsTo, hne, Ne.symm hn]
    · simp only [processClientMsg, if_neg hne] at hp
      unfold trackClientParse at hp
      split_ifs at hp
      generalize hs' : { sess with psCache := sess.psCache.insert name ⟨sql, oids⟩ } = s' at hp
      have hcache : s'.psCache = sess.psCache.insert name ⟨sql, oids⟩ := by rw [← hs']
      obtain ⟨victims, hinj, -, hmem⟩ := markBackendHasStmt_lists stmts s' name
      have hmarked := inTune_marked s' ⟨sql, oids⟩ hknown hmem
        (by rw [hcache, AList.lookup_insert]) fun n hn => by rw [hcache, AList.lookup_insert_ne hn]
      simp only [Except.ok.injEq] at hp
      subst hp
      -- a named `Parse` carries no DDL here
      obtain ⟨-, -, ⟨hstmts, hsame⟩ | ⟨hisDDL, -⟩⟩ := checkSQLSideEffects_spec
        (markBackendHasStmt stmts s' name).stmts (markBackendHasStmt stmts s' name).sess sql
      · refine ⟨fun n hn => ?_, fun n hn => ?_⟩
        · simp only [hinj]
          rw [hmarked.listed n hn, onRecord, onRecord, hstmts, hsame]
          rfl
        · rw [hsame]
          exact hmarked.known n (hstmts ▸ hn)
      · exact absurd (hddl hisDDL).2 (by simp [isNamedParse, hne])
  | bind portal name =>
    cases hp
    exact inTune_ensure hknown fun _ => rfl
  | describe objectType name =>
    simp only [processClientMsg] at hp
    split_ifs at hp <;> cases hp
    · exact inTune_ensure hknown fun _ => rfl
    · exact inTune_plain _ hknown rfl fun _ _ => rfl
  | close objectType name =>
    simp only [processClientMsg] at hp
    split_ifs at hp with hs <;> cases hp
    · refine ⟨fun n _ => ?_, fun n hn => ?_⟩
      · rw [List.nil_append, becomes_cons, onRecord, onRecord]
        by_cases hname : n = name
        · subst hname
          simp [setsTo, hs.1, AList.mem_erase, becomes]
        · simp [setsTo, Ne.symm hname, AList.mem_erase, hname, AList.lookup_erase_ne hname, becomes]
      · obtain ⟨hne, hn⟩ := AList.mem_erase.mp hn
        exact AList.mem_erase.mpr ⟨hne, hknown n hn⟩
    · refine inTune_plain _ hknown rfl fun n hn => ?_
      have : ¬(objectType = 'S' ∧ name = n) := fun h => hs ⟨h.1, h.2 ▸ hn⟩
      simp [setsTo, this]
  | query sql =>
    cases hp
    exact inTune_text hknown (fun hisDDL => (hddl hisDDL).1) fun _ _ => rfl
  | execute | flush | sync | functionCall | copyData | copyDone | copyFail | password | terminate =>
    cases hp
    exact inTune_plain _ hknown rfl fun _ _ => rfl

/-! ## Runs -/

/-- What is listed is what will be held when all that is pending has been carried out. -/
structure Mirrored (w : Mirror) : Prop where
  settles : ∀ n, n ≠ "" → becomes n (w.held n) w.pending = onRecord w.stmts w.sess n
  known : ∀ n ∈ w.stmts, n ∈ w.sess.psCache

lemma setsTo_of_not_changesStmts (hm : changesStmts m = false) (hn : n ≠ "") :
    setsTo n m = none := by
  cases m with
  | parse name sql oids =>
    have hname : name = "" := by simpa [changesStmts] using hm
    simp [setsTo, hname, Ne.symm hn]
  | close objectType name =>
    have hnot : ¬(objectType = 'S' ∧ name = n) := by
      rintro ⟨rfl, rfl⟩
      simp [changesStmts, hn] at hm
    simp [setsTo, hnot]
  | _ => rfl

lemma Mirrored.forward (h : Mirrored w) {m : FrontendMsg} (hf : faithful w (.forward m) = true)
    (hs : w.forward m = some w') : Mirrored w' := by
  unfold Mirror.forward at hs
  cases hp : processClientMsg w.stmts w.sess m with
  | error err =>
    rw [hp] at hs
    cases hs
  | ok p =>
    rw [hp] at hs
    cases hs
    have hddl : carriesDDL m = true → w.stmts = ∅ ∧ isNamedParse m = false := by
      intro hm
      simp only [faithful, hm, Bool.not_true, Bool.false_or, Bool.and_eq_true,
        List.isEmpty_iff, Bool.not_eq_true'] at hf
      exact ⟨AList.ext (List.map_eq_nil_iff.mp hf.1), hf.2⟩
    have htune := processClientMsg_inTune h.known hddl hp
    refine ⟨fun n hn => ?_, htune.known⟩
    rw [becomes_append, h.settles n hn]
    exact htune.listed n hn

/-- A message that changes no statement and is not carried out, or is passed over. -/
lemma Mirrored.passed (h : Mirrored w) {pending : List FrontendMsg}
    (hpend : w.pending = m :: pending) (hm : changesStmts m = false) (skipping : Bool) :
    Mirrored { w with pending, skipping } where
  settles n hn := by
    have hold := h.settles n hn
    rw [hpend, becomes_cons, setsTo_of_not_changesStmts hm hn] at hold
    exact hold
  known := h.known

lemma Mirrored.answer (h : Mirrored w) {o : Outcome} (hf : faithful w (.answer o) = true)
    (hs : w.answer o = some w') : Mirrored w' := by
  unfold Mirror.answer at hs
  cases hpend : w.pending with
  | nil =>
    rw [hpend] at hs
    cases hs
  | cons m pending =>
    simp only [hpend] at hs
    simp only [faithful, hpend] at hf
    by_cases hskip : w.skipping = true
    · rw [if_pos hskip] at hs hf
      cases hs
      exact h.passed hpend (by simpa using hf) _
    · rw [if_neg hskip] at hs hf
      cases o with
      | failed =>
        cases hs
        exact h.passed hpend (by simpa using hf) _
      | done drops =>
        dsimp only at hs hf
        split_ifs at hs
        cases hs
        refine ⟨fun n hn => ?_, h.known⟩
        have hold := h.settles n hn
        rw [hpend, becomes_cons] at hold
        simp only [Server.deallocate]
        split_ifs with hdrop
        · -- what SQL deallocates is not listed
          have hnot : n ∉ w.stmts := by
            simpa using List.all_eq_true.mp hf n hdrop
          rw [onRecord, if_neg hnot] at hold ⊢
          exact becomes_none hold
        · rw [record_apply hn]
          exact hold

lemma mirrored_of_reach (h : Mirror.machine.Reach (fun w e => faithful w e = true) w) :
    Mirrored w := by
  refine h.invariant ?_ ?_
  · rintro w ⟨hstmts, hpend, -, hheld⟩
    refine ⟨fun n _ => ?_, fun n hn => ?_⟩
    · rw [hpend, hheld, onRecord, hstmts, if_neg (AList.notMem_empty n)]
      rfl
    · rw [hstmts] at hn
      exact absurd hn (AList.notMem_empty n)
  · intro w e w' hw hf hs
    cases e with
    | forward m => exact hw.forward hf hs
    | pass m =>
      cases hs
      refine ⟨fun n hn => ?_, hw.known⟩
      rw [becomes_append, hw.settles n hn, becomes_cons,
        setsTo_of_not_changesStmts (by simpa [faithful] using hf) hn]
      rfl
    | answer o => exact hw.answer hf hs

/-- **The backend's cache tells the truth** in the faithful runs: between batches the names it lists
are those the backend holds, and the session map has what the backend has prepared. -/
theorem backend_cache_tells_the_truth (w : Mirror)
    (h : Mirror.machine.Reach (fun w e => faithful w e = true) w) (hpend : w.pending = [])
    (n : String) (hn : n ≠ "") :
    (n ∈ w.stmts ↔ (w.held n).isSome) ∧ (n ∈ w.stmts → w.sess.psCache.lookup n = w.held n) := by
  have hm := mirrored_of_reach h
  have hheld : w.held n = onRecord w.stmts w.sess n := by
    have := hm.settles n hn
    rwa [hpend] at this
  rw [hheld, onRecord]
  by_cases hmem : n ∈ w.stmts
  · rw [if_pos hmem]
    exact ⟨⟨fun _ => AList.lookup_isSome.mpr (hm.known n hmem), fun _ => hmem⟩, fun _ => rfl⟩
  · rw [if_neg hmem]
    exact ⟨⟨fun h => absurd h hmem, fun h => nomatch h⟩, fun h => absurd h hmem⟩

/-- A session that has prepared `a` elsewhere, on a backend it has just adopted. -/
def justAdopted : Mirror where
  sess := ⟨1, .transaction, [], AList.singleton "a" ⟨"SELECT 1", []⟩, 2, 1, false, false⟩
  stmts := ∅
  pending := []
  skipping := false
  held _ := none

/-- A batch that prepares `b` and binds `a`, whose `Parse` is put in front. -/
def bindBatch : List MirrorEvent :=
  [.forward (.parse "b" "SELECT 2" []), .forward (.bind "" "a"), .forward .sync]

theorem backend_cache_tells_the_truth_replay : ∃ w,
    Mirror.machine.Reach (fun w e => faithful w e = true) w ∧ w.pending = [] ∧ "a" ∈ w.stmts ∧
    w.sess.psCache.lookup "a" = w.held "a" := by
  obtain ⟨w, hrun, hw⟩ := Option.map_eq_some_iff.mp (show
    ((Mirror.machine.guarded (fun w e => faithful w e = true)).run justAdopted
      (bindBatch ++ List.replicate 4 (.answer (.done [])))).map
      (fun w => decide (w.pending = []) && decide ("a" ∈ w.stmts)) = some true by decide)
  obtain ⟨hpend, hmem⟩ := Bool.and_eq_true_iff.mp hw
  have hreach := Machine.reach_of_guarded_run (M := Mirror.machine) (s := justAdopted)
    ⟨rfl, rfl, rfl, rfl⟩ hrun
  have htruth := backend_cache_tells_the_truth w hreach (of_decide_eq_true hpend) "a" (by decide)
  exact ⟨w, hreach, of_decide_eq_true hpend, of_decide_eq_true hmem,
    htruth.2 (of_decide_eq_true hmem)⟩

/-- The `Parse` of `b` is rejected, so that of `a` is skipped.  Between batches the backend holds
neither, both are listed, and the next `Bind` of `a` is sent without a `Parse`. -/
theorem skipped_replay_is_believed : ∃ w p, Mirror.machine.Reachable w ∧ w.pending = [] ∧
    w.skipping = false ∧ "a" ∈ w.stmts ∧ "b" ∈ w.stmts ∧ w.held "a" = none ∧ w.held "b" = none ∧
    processClientMsg w.stmts w.sess (.bind "" "a") = .ok p ∧ p.injected = [] := by
  obtain ⟨w, hrun, hw⟩ := Option.map_eq_some_iff.mp (show
    (Mirror.machine.run justAdopted
      (bindBatch ++ .answer .failed :: List.replicate 3 (.answer (.done [])))).map
      (fun w => decide (w.pending = [] ∧ w.skipping = false ∧ "a" ∈ w.stmts ∧ "b" ∈ w.stmts ∧
        w.held "a" = none ∧ w.held "b" = none ∧
        (ensureBackendHasStmt w.stmts w.sess "a").injected = [])) = some true by decide)
  obtain ⟨hpend, hskip, ha, hb, hheldA, hheldB, hinj⟩ := of_decide_eq_true hw
  exact ⟨w, _, Machine.reach_of_run ⟨rfl, rfl, rfl, rfl⟩ hrun, hpend, hskip, ha, hb, hheldA, hheldB,
    rfl, hinj⟩

end Pgman
