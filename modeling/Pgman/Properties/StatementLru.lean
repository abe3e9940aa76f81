import Pgman.Construction.Relay.PreparedStatements
import Pgman.Framework.Recency
import Pgman.Framework.Transition

/-!
# The prepared-statement caches

`markBackendHasStmt` keeps a backend at `max_prepared_statements` by closing the statement with the
smallest stamp.  `Statements` runs any messages of a session through `processClientMsg`, on any
backends, next to a log of which statement was used on which backend; `statement_caches` says that
the stamps are a true account of that log, so that what is closed is what was least recently used,
and that the messages the proxy puts in and the acknowledgements it expects for them agree.

`adoptBackend` clears the cache of a backend that the session takes over (`reset`).  It leaves the
cache alone where `resetSkipSameSession` is set and the session was the last to use the backend;
the cache is then as the session left it, which is a run without a `reset` in between.
-/

namespace Pgman

/-! ## The eviction loop -/

variable {cache : BackendPSCache} {name : String} {limit : ℤ}

/-- What a scan for the smallest stamp has found so far. -/
def scanned (o : String × ℕ) (e : Sigma fun _ : String => ℕ) : String × ℕ :=
  if o.1 = "" ∨ e.2 < o.2 then (e.1, e.2) else o

/-- A scan that has found something ends with an entry no younger than any it has seen. -/
lemma foldl_scanned : ∀ (l : List (Sigma fun _ : String => ℕ)) (o : String × ℕ), o.1 ≠ "" →
    (∀ e ∈ l, e.1 ≠ "") →
    let r := l.foldl scanned o
    (r = o ∨ ⟨r.1, r.2⟩ ∈ l) ∧ r.1 ≠ "" ∧ r.2 ≤ o.2 ∧ ∀ e ∈ l, r.2 ≤ e.2
  | [], o, ho, _ => ⟨.inl rfl, ho, le_rfl, fun _ h => nomatch h⟩
  | e :: l, o, ho, hl => by
    have htail : ∀ e ∈ l, e.1 ≠ "" := fun e' h => hl e' (.tail _ h)
    by_cases hlt : e.2 < o.2
    · have hscan : scanned o e = (e.1, e.2) := if_pos (.inr hlt)
      obtain ⟨hmem, hne, hle, hall⟩ := foldl_scanned l (e.1, e.2) (hl e (.head _)) htail
      rw [List.foldl_cons, hscan]
      refine ⟨.inr ?_, hne, Nat.le_trans hle (Nat.le_of_lt hlt), ?_⟩
      · rcases hmem with heq | hmem
        · rw [heq]
          exact .head _
        · exact .tail _ hmem
      · intro e' he'
        rcases List.mem_cons.mp he' with rfl | he'
        · exact hle
        · exact hall e' he'
    · have hscan : scanned o e = o := if_neg (not_or.mpr ⟨ho, hlt⟩)
      obtain ⟨hmem, hne, hle, hall⟩ := foldl_scanned l o ho htail
      rw [List.foldl_cons, hscan]
      refine ⟨hmem.imp_right (.tail _), hne, hle, ?_⟩
      intro e' he'
      rcases List.mem_cons.mp he' with rfl | he'
      · exact Nat.le_trans hle (Nat.le_of_not_lt hlt)
      · exact hall e' he'

lemma lookup_of_mem_entries {n : String} {t : ℕ} (h : ⟨n, t⟩ ∈ cache.entries) :
    cache.lookup n = some t := AList.mem_lookup_iff.mpr h

/-- `lruStmt` finds the entry with the smallest stamp. -/
lemma lruStmt_spec (hname : "" ∉ cache) (hne : cache.keys ≠ []) :
    ∃ v t, lruStmt cache = some v ∧ cache.lookup v = some t ∧
      ∀ n t', cache.lookup n = some t' → t ≤ t' := by
  have hentries : ∀ e ∈ cache.entries, e.1 ≠ "" := by
    intro e he heq
    refine hname (heq ▸ AList.mem_keys.mpr ?_)
    exact List.mem_map_of_mem he
  cases hl : cache.entries with
  | nil => exact absurd (by rw [AList.keys, hl]; rfl) hne
  | cons e l =>
    rw [hl] at hentries
    have hspec := foldl_scanned l (e.1, e.2) (hentries e (.head _))
      fun e' h => hentries e' (.tail _ h)
    have hfold : cache.entries.foldl scanned ("", 0) = l.foldl scanned (e.1, e.2) := by
      rw [hl, List.foldl_cons]
      rfl
    obtain ⟨hmem, hrne, hle, hall⟩ := hspec
    have hlru : lruStmt cache = some (l.foldl scanned (e.1, e.2)).1 := by
      change (if (cache.entries.foldl scanned ("", 0)).1 = "" then none
        else some (cache.entries.foldl scanned ("", 0)).1) = _
      rw [hfold, if_neg hrne]
    refine ⟨_, (l.foldl scanned (e.1, e.2)).2, hlru, lookup_of_mem_entries ?_, ?_⟩
    · rw [hl]
      rcases hmem with heq | hmem
      · rw [heq]
        exact .head _
      · exact .tail _ hmem
    · intro n t' hn
      have hmem' := AList.mem_lookup_iff.mp hn
      rw [hl] at hmem'
      rcases List.mem_cons.mp hmem' with heq | hmem'
      · obtain rfl : t' = e.2 := by rw [← heq]
        exact hle
      · exact hall _ hmem'

/-- The stamp of a name; zero if it is not there. -/
def stamp (cache : BackendPSCache) (n : String) : ℕ := (cache.lookup n).getD 0

lemma lookup_eq_stamp {n : String} (h : n ∈ cache) : cache.lookup n = some (stamp cache n) := by
  obtain ⟨t, ht⟩ := Option.isSome_iff_exists.mp (AList.lookup_isSome.mpr h)
  rw [stamp, ht]
  rfl

lemma stamp_erase_of_ne {n v : String} (h : n ≠ v) : stamp (cache.erase v) n = stamp cache n := by
  rw [stamp, stamp, AList.lookup_erase_ne h]

/-- A cache whose names are names and whose stamps are told apart. -/
structure Stamped (cache : BackendPSCache) : Prop where
  named : "" ∉ cache
  distinct : ∀ n ∈ cache, ∀ n' ∈ cache, stamp cache n = stamp cache n' → n = n'

lemma Stamped.erase (h : Stamped cache) (v : String) : Stamped (cache.erase v) where
  named hmem := h.named (AList.mem_erase.mp hmem).2
  distinct n hn n' hn' heq := by
    obtain ⟨hnv, hn⟩ := AList.mem_erase.mp hn
    obtain ⟨hnv', hn'⟩ := AList.mem_erase.mp hn'
    rw [stamp_erase_of_ne hnv, stamp_erase_of_ne hnv'] at heq
    exact h.distinct n hn n' hn' heq

/-- The names in `victims` are dropped from the cache in the order of their stamps, and they are
the ones with the smallest. -/
structure Dropped (cache rest : BackendPSCache) (victims : List String) : Prop where
  lookup : ∀ n, rest.lookup n = if n ∈ victims then none else cache.lookup n
  present : ∀ v ∈ victims, v ∈ cache
  order : victims.Pairwise fun v v' => stamp cache v < stamp cache v'
  older : ∀ v ∈ victims, ∀ n ∈ rest, stamp cache v < stamp cache n

lemma Dropped.mem_rest {rest : BackendPSCache} {victims : List String}
    (h : Dropped cache rest victims) {n : String} : n ∈ rest ↔ n ∈ cache ∧ n ∉ victims := by
  rw [← AList.lookup_isSome, ← AList.lookup_isSome, h.lookup n]
  split_ifs with hn
  · simp [hn]
  · simp [hn]

lemma dropped_nil : Dropped cache cache [] where
  lookup _ := (if_neg List.not_mem_nil).symm
  present _ hv := nomatch hv
  order := .nil
  older _ hv := nomatch hv

/-- One round of the loop. -/
lemma Dropped.cons (hs : Stamped cache) {v : String} (hv : v ∈ cache)
    (hmin : ∀ n ∈ cache, stamp cache v ≤ stamp cache n) {rest : BackendPSCache}
    {victims : List String} (h : Dropped (cache.erase v) rest victims) :
    Dropped cache rest (v :: victims) := by
  -- the names that are left when the victim is gone
  have hlater : ∀ n ∈ cache.erase v, stamp cache v < stamp cache n := by
    intro n hn
    obtain ⟨hne, hn⟩ := AList.mem_erase.mp hn
    refine Nat.lt_of_le_of_ne (hmin n hn) fun heq => hne ?_
    exact (hs.distinct v hv n hn heq).symm
  have hstamp : ∀ n ∈ cache.erase v, stamp (cache.erase v) n = stamp cache n :=
    fun n hn => stamp_erase_of_ne (AList.mem_erase.mp hn).1
  refine ⟨fun n => ?_, ?_, ?_, ?_⟩
  · rw [h.lookup n]
    by_cases hnv : n = v
    · subst hnv
      rw [if_pos (List.mem_cons_self ..), AList.lookup_erase, ite_self]
    · rw [AList.lookup_erase_ne hnv]
      simp [hnv]
  · intro n hn
    rcases List.mem_cons.mp hn with rfl | hn
    · exact hv
    · exact (AList.mem_erase.mp (h.present n hn)).2
  · refine List.pairwise_cons.mpr ⟨fun n hn => hlater n (h.present n hn), ?_⟩
    refine h.order.imp_of_mem fun {n n'} hn hn' hlt => ?_
    rwa [hstamp n (h.present n hn), hstamp n' (h.present n' hn')] at hlt
  · intro n hn n' hn'
    have hn'mem := (h.mem_rest.mp hn').1
    rcases List.mem_cons.mp hn with rfl | hn
    · exact hlater n' hn'mem
    · have hlt := h.older n hn n' hn'
      rwa [hstamp n (h.present n hn), hstamp n' hn'mem] at hlt

/-- The loop drops the least recently used names until there is room. -/
lemma evict_spec (hlimit : 0 < limit) (fuel : ℕ) (hs : Stamped cache)
    (hfuel : cache.keys.length ≤ fuel) :
    Dropped cache (evict limit fuel cache).1 (evict limit fuel cache).2 ∧
      ((evict limit fuel cache).1.keys.length : ℤ) < limit := by
  induction fuel generalizing cache with
  | zero =>
    refine ⟨dropped_nil, ?_⟩
    rw [evict, Nat.le_zero.mp hfuel]
    exact hlimit
  | succ fuel ih =>
    rw [evict]
    split_ifs with hroom
    · exact ⟨dropped_nil, hroom⟩
    · have hne : cache.keys ≠ [] := by
        intro hnil
        rw [hnil] at hroom
        exact hroom hlimit
      obtain ⟨v, t, hlru, hv, hmin⟩ := lruStmt_spec hs.named hne
      have hmem : v ∈ cache := AList.lookup_isSome.mp (by rw [hv]; rfl)
      have hlength : (cache.erase v).keys.length ≤ fuel := by
        rw [AList.keys_erase, List.length_erase_of_mem (AList.mem_keys.mp hmem)]
        omega
      obtain ⟨hdropped, hroom'⟩ := ih (hs.erase v) hlength
      simp only [hlru]
      refine ⟨hdropped.cons hs hmem fun n hn => ?_, hroom'⟩
      have hle := hmin n _ (lookup_eq_stamp hn)
      rwa [stamp, hv]

/-! ## One message -/

variable {stmts : BackendPSCache} {sess : Session} {m : FrontendMsg} {p : Processed}

/-- The statement a message uses: a `Parse` names it, a `Bind` or `Describe` names one that the
session knows. -/
def usedName (sess : Session) : FrontendMsg → Option String
  | .parse name _ _ => if name = "" then none else some name
  | .bind _ name => if name ∈ sess.psCache then some name else none
  | .describe objectType name =>
      if objectType = 'S' ∧ name ∈ sess.psCache then some name else none
  | _ => none

/-- The `Parse` a name calls for when the session knows it and the backend does not. -/
def replayOf (stmts : BackendPSCache) (sess : Session) (name : String) : List FrontendMsg :=
  match sess.psCache.lookup name with
  | none => []
  | some info => if name ∈ stmts then [] else [.parse name info.SQL info.parameterOIDs]

def replay (stmts : BackendPSCache) (sess : Session) : FrontendMsg → List FrontendMsg
  | .bind _ name => replayOf stmts sess name
  | .describe objectType name => if objectType = 'S' then replayOf stmts sess name else []
  | _ => []

/-- A message after which the name is not in the cache, for another reason than room. -/
def forgets (name : String) : FrontendMsg → Bool
  | .parse _ sql _ => isDDL sql
  | .query sql => isDDL sql
  | .close objectType n => objectType = 'S' && n = name
  | _ => false

/-- **What `processClientMsg` does to the caches**, with the names it closes to make room. -/
structure Handled (stmts : BackendPSCache) (sess : Session) (m : FrontendMsg) (p : Processed)
    (victims : List String) : Prop where
  injected : p.injected = victims.map (FrontendMsg.close 'S' ·) ++ replay stmts sess m
  swallow : p.swallow = ⟨(replay stmts sess m).length, victims.length⟩
  present : ∀ v ∈ victims, v ∈ stmts
  unused : ∀ v ∈ victims, usedName sess m ≠ some v
  gone : ∀ v ∈ victims, v ∉ p.stmts
  order : victims.Pairwise fun v v' => stamp stmts v < stamp stmts v'
  older : ∀ v ∈ victims, ∀ n ∈ stmts, n ∉ victims → stamp stmts v < stamp stmts n
  only : ∀ n ∈ stmts, n ∉ p.stmts → n ∈ victims ∨ forgets n m = true
  limit : p.sess.psLimit = sess.psLimit
  clock : p.sess.psClock = sess.psClock + (usedName sess m).toList.length
  lookup : ∀ n t, p.stmts.lookup n = some t →
    usedName sess m = some n ∧ t = sess.psClock + 1 ∨
      usedName sess m ≠ some n ∧ stmts.lookup n = some t
  room : (p.stmts.keys.length : ℤ) ≤ sess.psLimit
  unnamed : "" ∉ p.sess.psCache
  ceiling : (p.sess.psCache.keys.length : ℤ) ≤ sess.psLimit * 4

/-- What a session and a backend are like between messages. -/
structure Sound (stmts : BackendPSCache) (sess : Session) : Prop where
  positive : 0 < sess.psLimit
  stamped : Stamped stmts
  room : (stmts.keys.length : ℤ) ≤ sess.psLimit
  unnamed : "" ∉ sess.psCache
  ceiling : (sess.psCache.keys.length : ℤ) ≤ sess.psLimit * 4

/-- The backend's cache, marked with a name. -/
structure Marked (stmts : BackendPSCache) (sess : Session) (name : String) (p : Processed)
    (victims : List String) : Prop where
  injected : p.injected = victims.map (.close 'S' ·)
  swallow : p.swallow = ⟨0, victims.length⟩
  unused : name ∉ victims
  dropped : ∃ rest, Dropped stmts rest victims ∧ p.stmts = rest.insert name (sess.psClock + 1)
  psCache : p.sess.psCache = sess.psCache
  limit : p.sess.psLimit = sess.psLimit
  clock : p.sess.psClock = sess.psClock + 1
  room : (p.stmts.keys.length : ℤ) ≤ sess.psLimit

lemma length_keys_insert_le (cache : BackendPSCache) (name : String) (t : ℕ) :
    (cache.insert name t).keys.length ≤ cache.keys.length + 1 := by
  rw [AList.keys_insert, List.length_cons]
  exact Nat.succ_le_succ List.length_erase_le

lemma length_keys_insert_of_mem {t : ℕ} (h : name ∈ cache) :
    (cache.insert name t).keys.length = cache.keys.length := by
  have hpos := List.length_pos_of_mem (AList.mem_keys.mp h)
  rw [AList.keys_insert, List.length_cons, List.length_erase_of_mem (AList.mem_keys.mp h)]
  omega

lemma markBackendHasStmt_spec (sess : Session) (hlimit : 0 < sess.psLimit) (hs : Stamped stmts)
    (hroom : (stmts.keys.length : ℤ) ≤ sess.psLimit) (name : String) :
    ∃ victims, Marked stmts sess name (markBackendHasStmt stmts sess name) victims := by
  by_cases hmem : name ∈ stmts
  · have hif : (if 0 < sess.psLimit ∧ name ∉ stmts then
        evict sess.psLimit stmts.keys.length stmts else (stmts, [])) = (stmts, []) :=
      if_neg fun h => h.2 hmem
    refine ⟨[], ?_, ?_, List.not_mem_nil, ⟨stmts, dropped_nil, ?_⟩, rfl, rfl, rfl, ?_⟩ <;>
      simp only [markBackendHasStmt, hif]
    rw [length_keys_insert_of_mem hmem]
    exact hroom
  · have hif : (if 0 < sess.psLimit ∧ name ∉ stmts then
        evict sess.psLimit stmts.keys.length stmts else (stmts, [])) =
        evict sess.psLimit stmts.keys.length stmts := if_pos ⟨hlimit, hmem⟩
    obtain ⟨hdropped, hless⟩ := evict_spec hlimit stmts.keys.length hs le_rfl
    refine ⟨(evict sess.psLimit stmts.keys.length stmts).2, ?_, ?_,
      fun h => hmem (hdropped.present name h), ⟨_, hdropped, ?_⟩, rfl, rfl, rfl, ?_⟩ <;>
      simp only [markBackendHasStmt, hif]
    have hle := length_keys_insert_le (evict sess.psLimit stmts.keys.length stmts).1 name
      (sess.psClock + 1)
    omega

lemma Marked.mem {victims : List String} (h : Marked stmts sess name p victims) {n : String} :
    n ∈ p.stmts ↔ n = name ∨ n ∈ stmts ∧ n ∉ victims := by
  obtain ⟨rest, hdropped, hstmts⟩ := h.dropped
  rw [hstmts, AList.mem_insert, hdropped.mem_rest]

lemma Marked.lookup {victims : List String} (h : Marked stmts sess name p victims) {n : String}
    {t : ℕ} (ht : p.stmts.lookup n = some t) :
    name = n ∧ t = sess.psClock + 1 ∨ name ≠ n ∧ stmts.lookup n = some t := by
  obtain ⟨rest, hdropped, hstmts⟩ := h.dropped
  rw [hstmts] at ht
  by_cases hn : name = n
  · subst hn
    rw [AList.lookup_insert, Option.some.injEq] at ht
    exact .inl ⟨rfl, ht.symm⟩
  · rw [AList.lookup_insert_ne (Ne.symm hn), hdropped.lookup] at ht
    split_ifs at ht
    exact .inr ⟨hn, ht⟩

lemma Marked.older {victims : List String} (h : Marked stmts sess name p victims) :
    victims.Pairwise (fun v v' => stamp stmts v < stamp stmts v') ∧
      ∀ v ∈ victims, ∀ n ∈ stmts, n ∉ victims → stamp stmts v < stamp stmts n := by
  obtain ⟨rest, hdropped, -⟩ := h.dropped
  refine ⟨hdropped.order, fun v hv n hn hnv => ?_⟩
  exact hdropped.older v hv n (hdropped.mem_rest.mpr ⟨hn, hnv⟩)

lemma Marked.present {victims : List String} (h : Marked stmts sess name p victims) :
    ∀ v ∈ victims, v ∈ stmts := by
  obtain ⟨rest, hdropped, -⟩ := h.dropped
  exact hdropped.present

/-- The checks on the text keep both caches or, for DDL, drop both. -/
lemma checkSQLSideEffects_spec (stmts : BackendPSCache) (sess : Session) (sql : String) :
    let r := checkSQLSideEffects stmts sess sql
    r.1.psLimit = sess.psLimit ∧ r.1.psClock = sess.psClock ∧
      (r.2 = stmts ∧ r.1.psCache = sess.psCache ∨
        isDDL sql = true ∧ r.2 = ∅ ∧ r.1.psCache = ∅) := by
  have hwarn : ∀ s : Session, (checkListenWarn s sql).psLimit = s.psLimit ∧
      (checkListenWarn s sql).psClock = s.psClock ∧
      (checkListenWarn s sql).psCache = s.psCache := by
    intro s
    unfold checkListenWarn
    dsimp only
    split_ifs <;> exact ⟨rfl, rfl, rfl⟩
  obtain ⟨hlimit, hclock, hcache⟩ := hwarn sess
  unfold checkSQLSideEffects
  dsimp only
  split_ifs with hsql hddl hw hw
  · exact ⟨rfl, rfl, .inl ⟨rfl, rfl⟩⟩
  · exact ⟨rfl, rfl, .inr ⟨hddl, rfl, rfl⟩⟩
  · exact ⟨hlimit, hclock, .inr ⟨hddl, rfl, rfl⟩⟩
  · exact ⟨rfl, rfl, .inl ⟨rfl, rfl⟩⟩
  · exact ⟨hlimit, hclock, .inl ⟨rfl, hcache⟩⟩

/-- A message that uses no statement and injects nothing. -/
lemma handled_quiet (h : Sound stmts sess) (hused : usedName sess m = none)
    (hreplay : replay stmts sess m = []) (hinj : p.injected = []) (hswallow : p.swallow = .zero)
    (hlimit : p.sess.psLimit = sess.psLimit) (hclock : p.sess.psClock = sess.psClock)
    (hstmts : p.stmts = stmts ∨ (∀ n ∈ stmts, forgets n m = true) ∧ p.stmts = ∅ ∨
      ∃ n, forgets n m = true ∧ p.stmts = stmts.erase n)
    (hcache : ∀ n ∈ p.sess.psCache, n ∈ sess.psCache)
    (hlength : p.sess.psCache.keys.length ≤ sess.psCache.keys.length) :
    Handled stmts sess m p [] where
  injected := by rw [hinj, hreplay]; rfl
  swallow := by rw [hswallow, hreplay]; rfl
  present _ hv := nomatch hv
  unused _ hv := nomatch hv
  gone _ hv := nomatch hv
  order := .nil
  older _ hv := nomatch hv
  only n hn hgone := by
    rcases hstmts with heq | ⟨hall, -⟩ | ⟨n', hn', heq⟩
    · exact absurd (heq ▸ hn) hgone
    · exact .inr (hall n hn)
    · by_cases hnn : n = n'
      · exact .inr (hnn ▸ hn')
      · exact absurd (heq ▸ AList.mem_erase.mpr ⟨hnn, hn⟩) hgone
  limit := hlimit
  clock := by rw [hclock, hused]; rfl
  lookup n t ht := by
    refine .inr ⟨by rw [hused]; exact nofun, ?_⟩
    rcases hstmts with heq | ⟨-, heq⟩ | ⟨n', -, heq⟩
    · exact heq ▸ ht
    · rw [heq, AList.lookup_empty] at ht
      cases ht
    · rw [heq] at ht
      by_cases hnn : n = n'
      · rw [hnn, AList.lookup_erase] at ht
        cases ht
      · rwa [AList.lookup_erase_ne hnn] at ht
  room := by
    have hroom := h.room
    rcases hstmts with heq | ⟨-, heq⟩ | ⟨n', -, heq⟩
    · exact heq ▸ hroom
    · rw [heq, AList.keys_empty]
      exact Int.le_of_lt h.positive
    · have hle : (stmts.keys.erase n').length ≤ stmts.keys.length := List.length_erase_le
      rw [heq, AList.keys_erase]
      omega
  unnamed hmem := h.unnamed (hcache "" hmem)
  ceiling := by
    have hceiling := h.ceiling
    omega

/-- A message whose statement the backend is marked with, in a session `s'` that knows as much of
the clock as `sess` does; the caches may be dropped afterwards. -/
lemma Marked.handled {s' : Session} {q : Processed} {victims : List String} (h : Sound stmts sess)
    (hm : Marked stmts s' name q victims) (hused : usedName sess m = some name)
    (hlimit' : s'.psLimit = sess.psLimit) (hclock' : s'.psClock = sess.psClock)
    (hinj : p.injected = q.injected ++ replay stmts sess m)
    (hswallow : p.swallow = ⟨(replay stmts sess m).length, q.swallow.closeComplete⟩)
    (hlimit : p.sess.psLimit = q.sess.psLimit) (hclock : p.sess.psClock = q.sess.psClock)
    (hstmts : p.stmts = q.stmts ∨ (∀ n, forgets n m = true) ∧ p.stmts = ∅)
    (hunnamed : "" ∉ p.sess.psCache)
    (hceiling : (p.sess.psCache.keys.length : ℤ) ≤ sess.psLimit * 4) :
    Handled stmts sess m p victims where
  injected := by rw [hinj, hm.injected]
  swallow := by rw [hswallow, hm.swallow]
  present := hm.present
  unused v hv heq := by
    rw [hused, Option.some.injEq] at heq
    exact hm.unused (heq ▸ hv)
  gone v hv hmem := by
    rcases hstmts with heq | ⟨-, heq⟩
    · rw [heq] at hmem
      rcases hm.mem.mp hmem with rfl | ⟨-, hnot⟩
      · exact hm.unused hv
      · exact hnot hv
    · rw [heq] at hmem
      exact AList.notMem_empty v hmem
  order := hm.older.1
  older := hm.older.2
  only n hn hgone := by
    rcases hstmts with heq | ⟨hall, -⟩
    · rw [heq, hm.mem] at hgone
      by_contra hnot
      exact hgone (.inr ⟨hn, fun hv => hnot (.inl hv)⟩)
    · exact .inr (hall n)
  limit := by rw [hlimit, hm.limit, hlimit']
  clock := by rw [hclock, hm.clock, hclock', hused]; rfl
  lookup n t ht := by
    rcases hstmts with heq | ⟨-, heq⟩
    · rw [heq] at ht
      rw [hused, Option.some.injEq, ← hclock']
      simpa using hm.lookup ht
    · rw [heq, AList.lookup_empty] at ht
      cases ht
  room := by
    rcases hstmts with heq | ⟨-, heq⟩
    · rw [heq, ← hlimit']
      exact hm.room
    · rw [heq, AList.keys_empty]
      exact Int.le_of_lt h.positive
  unnamed := hunnamed
  ceiling := hceiling

/-- A `Bind` or `Describe` of a statement. -/
lemma handled_ensure (h : Sound stmts sess)
    (hused : usedName sess m = if name ∈ sess.psCache then some name else none)
    (hreplay : replay stmts sess m = replayOf stmts sess name) :
    ∃ victims, Handled stmts sess m (ensureBackendHasStmt stmts sess name) victims := by
  by_cases hknown : name ∈ sess.psCache
  · have hne : name ≠ "" := fun heq => h.unnamed (heq ▸ hknown)
    obtain ⟨info, hinfo⟩ := Option.isSome_iff_exists.mp (AList.lookup_isSome.mpr hknown)
    rw [if_pos hknown] at hused
    obtain ⟨victims, hmark⟩ := markBackendHasStmt_spec sess h.positive h.stamped h.room name
    by_cases hhas : name ∈ stmts
    · -- the touch is what marking a statement that is there does
      have hof : replayOf stmts sess name = [] := by
        simp only [replayOf, hinfo, if_pos hhas]
      have htouch : ensureBackendHasStmt stmts sess name =
          ⟨{ sess with psClock := sess.psClock + 1 }, stmts.insert name (sess.psClock + 1),
            [], .zero⟩ := by
        simp only [ensureBackendHasStmt, if_neg hne, hinfo, if_pos hhas]
      have htouched : Marked stmts sess name (ensureBackendHasStmt stmts sess name) [] := by
        rw [htouch]
        refine ⟨rfl, rfl, List.not_mem_nil, ⟨stmts, dropped_nil, rfl⟩, rfl, rfl, rfl, ?_⟩
        rw [length_keys_insert_of_mem hhas]
        exact h.room
      refine ⟨[], htouched.handled h hused rfl rfl ?_ ?_ rfl rfl (.inl rfl) ?_ ?_⟩
      · rw [hreplay, hof, List.append_nil]
      · rw [hreplay, hof, htouch]
        rfl
      · rw [htouched.psCache]
        exact h.unnamed
      · rw [htouched.psCache]
        exact h.ceiling
    · have hof : replayOf stmts sess name = [.parse name info.SQL info.parameterOIDs] := by
        simp only [replayOf, hinfo, if_neg hhas]
      have hensure : ensureBackendHasStmt stmts sess name =
          { markBackendHasStmt stmts sess name with
            injected := (markBackendHasStmt stmts sess name).injected ++
              [.parse name info.SQL info.parameterOIDs]
            swallow := ⟨(markBackendHasStmt stmts sess name).swallow.parseComplete + 1,
              (markBackendHasStmt stmts sess name).swallow.closeComplete⟩ } := by
        simp only [ensureBackendHasStmt, if_neg hne, hinfo, if_neg hhas]
      rw [hensure]
      refine ⟨victims, hmark.handled h hused rfl rfl ?_ ?_ rfl rfl (.inl rfl) ?_ ?_⟩
      · rw [hreplay, hof]
      · rw [hreplay, hof, hmark.swallow]
        rfl
      · change "" ∉ (markBackendHasStmt stmts sess name).sess.psCache
        rw [hmark.psCache]
        exact h.unnamed
      · change ((markBackendHasStmt stmts sess name).sess.psCache.keys.length : ℤ) ≤ _
        rw [hmark.psCache]
        exact h.ceiling
  · rw [if_neg hknown] at hused
    have hnone : sess.psCache.lookup name = none := AList.lookup_eq_none.mpr hknown
    have hensure : ensureBackendHasStmt stmts sess name = ⟨sess, stmts, [], .zero⟩ := by
      simp only [ensureBackendHasStmt, hnone, ite_self]
    have hof : replayOf stmts sess name = [] := by simp only [replayOf, hnone]
    rw [hensure]
    exact ⟨[], handled_quiet h hused (hreplay.trans hof) rfl rfl rfl rfl (.inl rfl)
      (fun _ hn => hn) le_rfl⟩

/-- A named `Parse` that is let through. -/
lemma handled_parse (h : Sound stmts sess) {sql : String} {oids : List UInt32} (hne : name ≠ "")
    (hp : processClientMsg stmts sess (.parse name sql oids) = .ok p) :
    ∃ victims, Handled stmts sess (.parse name sql oids) p victims := by
  simp only [processClientMsg, if_neg hne] at hp
  unfold trackClientParse at hp
  split_ifs at hp with hfull
  obtain ⟨victims, hmark⟩ := markBackendHasStmt_spec
    { sess with psCache := sess.psCache.insert name ⟨sql, oids⟩ } h.positive h.stamped h.room name
  generalize hq : markBackendHasStmt stmts
    { sess with psCache := sess.psCache.insert name ⟨sql, oids⟩ } name = q at hp hmark
  obtain ⟨hlimit, hclock, heffects⟩ := checkSQLSideEffects_spec q.stmts q.sess sql
  simp only [Except.ok.injEq] at hp
  subst hp
  have hunnamed : "" ∉ sess.psCache.insert name ⟨sql, oids⟩ := by
    rw [AList.mem_insert]
    rintro (heq | hmem)
    · exact hne heq.symm
    · exact h.unnamed hmem
  -- below the ceiling there is room for one more, and a name that is replaced takes none
  have hceiling : ((sess.psCache.insert name ⟨sql, oids⟩).keys.length : ℤ) ≤ sess.psLimit * 4 := by
    have hold := h.ceiling
    have hpos := h.positive
    rw [AList.keys_insert, List.length_cons]
    by_cases hknown : name ∈ sess.psCache
    · have hlen := List.length_pos_of_mem (AList.mem_keys.mp hknown)
      rw [List.length_erase_of_mem (AList.mem_keys.mp hknown)]
      omega
    · rw [List.erase_of_not_mem fun hmem => hknown (AList.mem_keys.mpr hmem)]
      have hceil : sessionPSCeiling sess.psLimit = sess.psLimit * 4 :=
        if_neg (Int.not_le.mpr hpos)
      rw [hceil] at hfull
      have hlt : ¬ sess.psLimit * 4 ≤ (sess.psCache.keys.length : ℤ) :=
        fun hle => hfull ⟨hknown, by omega, hle⟩
      push_cast
      omega
  refine ⟨victims, hmark.handled h (if_neg hne) rfl rfl ?_ ?_ hlimit hclock ?_ ?_ ?_⟩
  · exact (List.append_nil _).symm
  · rw [hmark.swallow]
    rfl
  · rcases heffects with ⟨hstmts, -⟩ | ⟨hddl, hstmts, -⟩
    · exact .inl hstmts
    · exact .inr ⟨fun _ => hddl, hstmts⟩
  · rcases heffects with ⟨-, hcache⟩ | ⟨-, -, hcache⟩
    · change "" ∉ (checkSQLSideEffects q.stmts q.sess sql).1.psCache
      rw [hcache, hmark.psCache]
      exact hunnamed
    · change "" ∉ (checkSQLSideEffects q.stmts q.sess sql).1.psCache
      rw [hcache]
      exact AList.notMem_empty _
  · change ((checkSQLSideEffects q.stmts q.sess sql).1.psCache.keys.length : ℤ) ≤ _
    rcases heffects with ⟨-, hcache⟩ | ⟨-, -, hcache⟩
    · rw [hcache, hmark.psCache]
      exact hceiling
    · have hpos := h.positive
      rw [hcache, AList.keys_empty, List.length_nil]
      omega

/-- A text outside a named `Parse` is only checked. -/
lemma handled_text (h : Sound stmts sess) {sql : String} (hused : usedName sess m = none)
    (hreplay : replay stmts sess m = []) (hforgets : ∀ n, forgets n m = isDDL sql) :
    Handled stmts sess m ⟨(checkSQLSideEffects stmts sess sql).1,
      (checkSQLSideEffects stmts sess sql).2, [], .zero⟩ [] := by
  obtain ⟨hlimit, hclock, heffects⟩ := checkSQLSideEffects_spec stmts sess sql
  rcases heffects with ⟨hstmts, hcache⟩ | ⟨hddl, hstmts, hcache⟩
  · refine handled_quiet h hused hreplay rfl rfl hlimit hclock (.inl hstmts) ?_ ?_
    · intro n hn
      exact hcache ▸ hn
    · exact Nat.le_of_eq (by rw [hcache])
  · refine handled_quiet h hused hreplay rfl rfl hlimit hclock
      (.inr (.inl ⟨fun n _ => (hforgets n).trans hddl, hstmts⟩)) ?_ ?_
    · intro n hn
      exact absurd (hcache ▸ hn) (AList.notMem_empty n)
    · rw [hcache, AList.keys_empty]
      exact Nat.zero_le _

/-- A message the proxy does not look into. -/
lemma handled_plain (h : Sound stmts sess) (hused : usedName sess m = none)
    (hreplay : replay stmts sess m = []) : Handled stmts sess m ⟨sess, stmts, [], .zero⟩ [] :=
  handled_quiet h hused hreplay rfl rfl rfl rfl (.inl rfl) (fun _ hn => hn) le_rfl

lemma processClientMsg_handled (h : Sound stmts sess) (hp : processClientMsg stmts sess m = .ok p) :
    ∃ victims, Handled stmts sess m p victims := by
  cases m with
  | parse name sql oids =>
    by_cases hne : name = ""
    · simp only [processClientMsg, if_pos hne, Except.ok.injEq] at hp
      subst hp
      exact ⟨[], handled_text h (if_pos hne) rfl fun _ => rfl⟩
    · exact handled_parse h hne hp
  | bind portal name =>
    cases hp
    exact handled_ensure h rfl rfl
  | describe objectType name =>
    by_cases hs : objectType = 'S'
    · simp only [processClientMsg, if_pos hs, Except.ok.injEq] at hp
      subst hp
      exact handled_ensure h (by simp [usedName, hs]) (if_pos hs)
    · simp only [processClientMsg, if_neg hs, Except.ok.injEq] at hp
      subst hp
      exact ⟨[], handled_plain h (if_neg fun hc => hs hc.1) (if_neg hs)⟩
  | close objectType name =>
    by_cases hs : objectType = 'S' ∧ name ≠ ""
    · simp only [processClientMsg, if_pos hs, Except.ok.injEq] at hp
      subst hp
      refine ⟨[], handled_quiet h rfl rfl rfl rfl rfl rfl
        (.inr (.inr ⟨name, by simp [forgets, hs.1], rfl⟩)) ?_ ?_⟩
      · intro n hn
        exact (AList.mem_erase.mp hn).2
      · rw [AList.keys_erase]
        exact List.length_erase_le
    · simp only [processClientMsg, if_neg hs, Except.ok.injEq] at hp
      subst hp
      exact ⟨[], handled_plain h rfl rfl⟩
  | query sql =>
    cases hp
    exact ⟨[], handled_text h rfl rfl fun _ => rfl⟩
  | execute | flush | sync | functionCall | copyData | copyDone | copyFail | password | terminate =>
    cases hp
    exact ⟨[], handled_plain h rfl rfl⟩

/-- A message is refused only for a new name, with the session map at its ceiling. -/
lemma processClientMsg_error (hlimit : 0 < sess.psLimit) {err : String}
    (he : processClientMsg stmts sess m = .error err) :
    ∃ name sql oids, m = .parse name sql oids ∧ name ≠ "" ∧ name ∉ sess.psCache ∧
      sess.psLimit * 4 ≤ (sess.psCache.keys.length : ℤ) := by
  cases m with
  | parse name sql oids =>
    by_cases hne : name = ""
    · simp only [processClientMsg, if_pos hne] at he
      cases he
    · simp only [processClientMsg, if_neg hne] at he
      unfold trackClientParse at he
      split_ifs at he with hfull
      have hceil : sessionPSCeiling sess.psLimit = sess.psLimit * 4 :=
        if_neg (Int.not_le.mpr hlimit)
      exact ⟨name, sql, oids, rfl, hne, hfull.1, hceil ▸ hfull.2.2⟩
  | describe objectType name =>
    simp only [processClientMsg] at he
    split_ifs at he
  | close objectType name =>
    simp only [processClientMsg] at he
    split_ifs at he
  | bind | query | execute | flush | sync | functionCall | copyData | copyDone | copyFail
  | password | terminate => cases he

/-! ## Runs -/

/-- A session, the backends it uses, and the log of uses. -/
structure Statements where
  sess : Session
  backends : ℕ → BackendPSCache
  uses : List (ℕ × String)
  /-- A `Parse` was refused, and the session is over. -/
  ended : Bool

inductive StatementEvent
  /-- `adoptBackend` clears the backend's cache. -/
  | reset (b : ℕ)
  | message (b : ℕ) (m : FrontendMsg)

def Statements.handle (w : Statements) (b : ℕ) (m : FrontendMsg) : Statements :=
  match processClientMsg (w.backends b) w.sess m with
  | .error _ => { w with ended := true }
  | .ok p =>
    { w with
      sess := p.sess
      backends := Function.update w.backends b p.stmts
      uses := (usedName w.sess m).toList.map (b, ·) ++ w.uses }

/-- A session with the given limit, new. -/
def statements (limit : ℤ) : Machine Statements StatementEvent where
  init w := w.sess.psLimit = limit ∧ w.sess.psCache = ∅ ∧ w.sess.psClock = 0 ∧
    w.backends = (fun _ => ∅) ∧ w.uses = [] ∧ w.ended = false
  step w
    | .reset b => some { w with backends := Function.update w.backends b ∅ }
    | .message b m => if w.ended then none else some (w.handle b m)

variable {w : Statements}

/-- The stamps are a true account of the log. -/
structure Truthful (limit : ℤ) (w : Statements) : Prop where
  psLimit : w.sess.psLimit = limit
  clock : w.sess.psClock = w.uses.length
  stamps : ∀ b n t, (w.backends b).lookup n = some t →
    n ≠ "" ∧ 0 < t ∧ t = lastUse (b, n) w.uses
  room : ∀ b, ((w.backends b).keys.length : ℤ) ≤ limit
  unnamed : "" ∉ w.sess.psCache
  ceiling : (w.sess.psCache.keys.length : ℤ) ≤ limit * 4

lemma Truthful.stamp_eq (h : Truthful limit w) {b : ℕ} {n : String} (hn : n ∈ w.backends b) :
    stamp (w.backends b) n = lastUse (b, n) w.uses := (h.stamps b n _ (lookup_eq_stamp hn)).2.2

lemma Truthful.sound (h : Truthful limit w) (hpos : 0 < limit) (b : ℕ) :
    Sound (w.backends b) w.sess where
  positive := h.psLimit ▸ hpos
  stamped := by
    constructor
    · intro hmem
      exact (h.stamps b "" _ (lookup_eq_stamp hmem)).1 rfl
    · intro n hn n' hn' heq
      rw [h.stamp_eq hn, h.stamp_eq hn'] at heq
      obtain ⟨-, hstamp, htime⟩ := h.stamps b n _ (lookup_eq_stamp hn)
      exact congrArg Prod.snd (lastUse_inj (htime ▸ hstamp) heq)
  room := h.psLimit ▸ h.room b
  unnamed := h.unnamed
  ceiling := h.psLimit ▸ h.ceiling

/-- A use of one statement leaves the time of the last use of every other one. -/
lemma lastUse_of_unused {o : Option String} {b b' : ℕ} {n : String} {uses : List (ℕ × String)}
    (h : b' = b → o ≠ some n) :
    lastUse (b', n) (o.toList.map (b, ·) ++ uses) = lastUse (b', n) uses := by
  cases o with
  | none => rfl
  | some n' =>
    refine lastUse_cons_of_ne fun heq => ?_
    obtain ⟨hb, hn⟩ := Prod.mk.inj heq
    exact h hb.symm (congrArg some hn)

lemma Truthful.handle (h : Truthful limit w) (hpos : 0 < limit) (b : ℕ) (m : FrontendMsg) :
    Truthful limit (w.handle b m) := by
  unfold Statements.handle
  cases hp : processClientMsg (w.backends b) w.sess m with
  | error err => exact ⟨h.psLimit, h.clock, h.stamps, h.room, h.unnamed, h.ceiling⟩
  | ok p =>
    obtain ⟨victims, hh⟩ := processClientMsg_handled (h.sound hpos b) hp
    refine ⟨hh.limit.trans h.psLimit, ?_, fun b' n t ht => ?_, fun b' => ?_, hh.unnamed,
      h.psLimit ▸ hh.ceiling⟩
    · change p.sess.psClock = _
      rw [hh.clock, h.clock, List.length_append, List.length_map, Nat.add_comm]
    · by_cases hb : b' = b
      · subst hb
        simp only [Function.update_self] at ht
        rcases hh.lookup n t ht with ⟨hused, htime⟩ | ⟨hunused, hold⟩
        · -- the statement that is used now
          have hne : n ≠ "" := by
            rintro rfl
            cases m with
            | parse name sql oids =>
              simp only [usedName] at hused
              split_ifs at hused with hname
              exact hname (Option.some.inj hused)
            | bind portal name =>
              simp only [usedName] at hused
              split_ifs at hused with hknown
              exact h.unnamed (Option.some.inj hused ▸ hknown)
            | describe objectType name =>
              simp only [usedName] at hused
              split_ifs at hused with hknown
              exact h.unnamed (Option.some.inj hused ▸ hknown.2)
            | _ => cases hused
          refine ⟨hne, by omega, ?_⟩
          rw [htime, h.clock]
          simp [hused]
        · rw [lastUse_of_unused fun _ => hunused]
          exact h.stamps b' n t hold
      · simp only [Function.update_of_ne hb] at ht
        rw [lastUse_of_unused fun heq => absurd heq hb]
        exact h.stamps b' n t ht
    · by_cases hb : b' = b
      · subst hb
        simp only [Function.update_self]
        exact h.psLimit ▸ hh.room
      · simp only [Function.update_of_ne hb]
        exact h.room b'

lemma truthful_of_reachable (hpos : 0 < limit) (h : (statements limit).Reachable w) :
    Truthful limit w := by
  refine Machine.Reach.invariant h ?_ ?_
  · rintro w ⟨hlimit, hcache, hclock, hbackends, huses, -⟩
    refine ⟨hlimit, by rw [hclock, huses]; rfl, fun b n t ht => ?_, fun b => ?_, ?_, ?_⟩
    · rw [hbackends, AList.lookup_empty] at ht
      cases ht
    · rw [hbackends, AList.keys_empty]
      exact Int.le_of_lt hpos
    · rw [hcache]
      exact AList.notMem_empty _
    · rw [hcache, AList.keys_empty, List.length_nil]
      omega
  · intro w e w' hw _ hs
    cases e with
    | reset b =>
      cases hs
      refine ⟨hw.psLimit, hw.clock, fun b' n t ht => ?_, fun b' => ?_, hw.unnamed, hw.ceiling⟩
      · by_cases hb : b' = b
        · subst hb
          simp only [Function.update_self, AList.lookup_empty] at ht
          cases ht
        · simp only [Function.update_of_ne hb] at ht
          exact hw.stamps b' n t ht
      · by_cases hb : b' = b
        · subst hb
          simp only [Function.update_self, AList.keys_empty]
          exact Int.le_of_lt hpos
        · simp only [Function.update_of_ne hb]
          exact hw.room b'
    | message b m =>
      simp only [statements] at hs
      split_ifs at hs
      cases hs
      exact hw.handle hpos b m

/-- What a message on backend `b` makes the proxy do: the names that are dropped to make room are
those whose last use on the backend is oldest, each has its one `Close` in front of the `Parse`, and
a `Parse` is put in for a statement the backend has not seen. -/
structure LeastRecentlyUsed (w : Statements) (b : ℕ) (m : FrontendMsg) (p : Processed)
    (victims : List String) : Prop where
  injected : p.injected = victims.map (FrontendMsg.close 'S' ·) ++ replay (w.backends b) w.sess m
  swallow : p.swallow = ⟨(replay (w.backends b) w.sess m).length, victims.length⟩
  once : victims.Nodup
  present : ∀ v ∈ victims, v ∈ w.backends b
  gone : ∀ v ∈ victims, v ∉ p.stmts
  unmarked : ∀ v ∈ victims, usedName w.sess m ≠ some v
  order : victims.Pairwise fun v v' => lastUse (b, v) w.uses < lastUse (b, v') w.uses
  older : ∀ v ∈ victims, ∀ n ∈ w.backends b, n ∉ victims →
    lastUse (b, v) w.uses < lastUse (b, n) w.uses
  only : ∀ n ∈ w.backends b, n ∉ p.stmts → n ∈ victims ∨ forgets n m = true

/-- **The prepared-statement caches.**  In every run of a session, with any messages on any
backends, both caches stay within their bounds, what is dropped is what was least recently used, and
a `Parse` that is refused changes nothing. -/
theorem statement_caches (limit : ℤ) (hlimit : 0 < limit) (w : Statements)
    (hw : (statements limit).Reachable w) :
    (∀ b, ((w.backends b).keys.length : ℤ) ≤ limit) ∧
      (w.sess.psCache.keys.length : ℤ) ≤ 4 * limit ∧
      ∀ b m,
        (∀ p, processClientMsg (w.backends b) w.sess m = .ok p →
          ∃ victims, LeastRecentlyUsed w b m p victims) ∧
        (∀ err, processClientMsg (w.backends b) w.sess m = .error err →
          w.handle b m = { w with ended := true } ∧
            ∃ name sql oids, m = .parse name sql oids ∧ name ∉ w.sess.psCache ∧
              (w.sess.psCache.keys.length : ℤ) = 4 * limit) := by
  have h := truthful_of_reachable hlimit hw
  have hceiling := h.ceiling
  refine ⟨h.room, by omega, fun b m => ⟨fun p hp => ?_, fun err he => ?_⟩⟩
  · obtain ⟨victims, hh⟩ := processClientMsg_handled (h.sound hlimit b) hp
    refine ⟨victims, hh.injected, hh.swallow, ?_, hh.present, hh.gone, hh.unused, ?_, ?_, hh.only⟩
    · exact hh.order.imp fun hlt heq => absurd (heq ▸ hlt) (Nat.lt_irrefl _)
    · refine hh.order.imp_of_mem fun {v v'} hv hv' hlt => ?_
      rwa [h.stamp_eq (hh.present v hv), h.stamp_eq (hh.present v' hv')] at hlt
    · intro v hv n hn hnot
      have hlt := hh.older v hv n hn hnot
      rwa [h.stamp_eq (hh.present v hv), h.stamp_eq hn] at hlt
  · obtain ⟨name, sql, oids, rfl, -, hnew, hlength⟩ :=
      processClientMsg_error (h.psLimit ▸ hlimit) he
    rw [h.psLimit] at hlength
    refine ⟨by rw [Statements.handle, he], name, sql, oids, rfl, hnew, by omega⟩

/-- A new session with room for one statement on a backend. -/
def tightSession : Statements where
  sess := ⟨1, .transaction, [], ∅, 1, 0, false, false⟩
  backends _ := ∅
  uses := []
  ended := false

/-- With room for one, a second `Parse` has closed the first statement, and the `Bind` of the first
closes the second and prepares the first again. -/
theorem statement_caches_replay : ∃ w, (statements 1).Reachable w ∧
    ∃ p victims, processClientMsg (w.backends 0) w.sess (.bind "" "a") = .ok p ∧
      p.injected = [.close 'S' "b", .parse "a" "SELECT 1" []] ∧
      LeastRecentlyUsed w 0 (.bind "" "a") p victims := by
  obtain ⟨w, hrun, hw⟩ := Option.map_eq_some_iff.mp (show
    ((statements 1).run tightSession
      [.message 0 (.parse "a" "SELECT 1" []), .message 0 (.parse "b" "SELECT 2" [])]).map
      (fun w => (ensureBackendHasStmt (w.backends 0) w.sess "a").injected) =
      some [.close 'S' "b", .parse "a" "SELECT 1" []] by decide)
  have hreach : (statements 1).Reachable w :=
    Machine.reach_of_run ⟨rfl, rfl, rfl, rfl, rfl, rfl⟩ hrun
  obtain ⟨-, -, hstep⟩ := statement_caches 1 (by decide) w hreach
  obtain ⟨victims, hvictims⟩ := (hstep 0 (.bind "" "a")).1 _ rfl
  exact ⟨w, hreach, _, victims, rfl, hw, hvictims⟩

end Pgman
