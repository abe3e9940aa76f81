import Pgman.Construction.Auth.AuthQuery

/-!
# How old a verifier can be

The cache of verifiers stands between a login and the database.  A verifier that `Lookup` returns
was in the database for that user, not longer ago than the time to live and the time a call takes
from reading it to storing it (`lookup_is_recent`): a new password is in effect after that time, on
every path.

`Invalidate` is there so that one need not wait.  It drops the entry; a call that has read the old
verifier and not stored it yet brings it back.  Without such a call in flight, whatever `Lookup`
returns afterwards was read afterwards (`invalidate_takes_effect`), however long calls take.

Both are one invariant, `Dates`, with a parameter for how old an answer may be.
-/

namespace Pgman.AuthQuery

open Net (Text)
open Scram (Bytes StoredCredentials parseSCRAMVerifier)

namespace Provider

variable {B : Base64.Codec} {ttl D : ℤ} {rows : ℤ → Text → Option Bytes} {w w' : Provider}
  {ev : ProviderEvent} {user u : Text} {creds : StoredCredentials} {t₀ : ℤ} {i : ℕ}

/-- The credential was in the database at that instant, and usable. -/
def WasRead (B : Base64.Codec) (rows : ℤ → Text → Option Bytes) (user : Text)
    (creds : StoredCredentials) (s : ℤ) : Prop :=
  ∃ passwd, rows s user = some passwd ∧ passwd ≠ [] ∧ parseSCRAMVerifier B passwd = .ok creds

/-- What a query returns is what is in the database. -/
lemma wasRead_of_fetch {outcome : Outcome} {s : ℤ}
    (h : fetch B rows s user outcome = .ok creds) : WasRead B rows user creds s := by
  cases outcome with
  | connectFails => cases h
  | queryFails => cases h
  | answers =>
    change usable B user (rows s user) = .ok creds at h
    cases hrow : rows s user with
    | none =>
      rw [hrow] at h
      cases h
    | some passwd =>
      rw [hrow, usable] at h
      split_ifs at h with hnil
      refine ⟨passwd, hrow, hnil, ?_⟩
      cases hparse : parseSCRAMVerifier B passwd with
      | error err =>
        rw [hparse] at h
        cases h
      | ok c =>
        rw [hparse] at h
        exact congrArg Except.ok (Except.ok.inj h)

/-- Everything that is known of `P` users was read at `t₀` or later, and was then in the database.
What was read at `s` may be returned at `t` if `L s t`, and nothing is kept for longer.  The answers
count from the `n`-th on. -/
structure Dates (B : Base64.Codec) (rows : ℤ → Text → Option Bytes) (L : ℤ → ℤ → Prop) (t₀ : ℤ)
    (P : Text → Prop) (n : ℕ) (w : Provider) : Prop where
  start : t₀ ≤ w.now
  count : n ≤ w.answers.length
  cache : ∀ {u e}, w.cache.get u = some e → P u →
    WasRead B rows u e.creds e.readAt ∧ t₀ ≤ e.readAt ∧ e.readAt ≤ w.now ∧
      ∀ t < e.expiresAt, L e.readAt t
  fetch : ∀ {i u c s}, w.fetches.get i = some (.fetched u c s) → P u →
    WasRead B rows u c s ∧ t₀ ≤ s ∧ s ≤ w.now
  answer : ∀ a ∈ w.answers.drop n, P a.user → ∀ c, a.result = .ok c →
    ∃ s, WasRead B rows a.user c s ∧ t₀ ≤ s ∧ s ≤ a.time ∧ L s a.time

/-- What is stored may be returned at once, and for as long as it is kept. -/
def Keeps (ttl : ℤ) (L : ℤ → ℤ → Prop) (w : Provider) : ProviderEvent → Prop
  | .store i => ∀ u c s, w.fetches.get i = some (.fetched u c s) →
    L s w.now ∧ ∀ t < w.now + effectiveTtl ttl, L s t
  | .tick _ | .lookup .. | .select .. | .invalidate _ => True

/-- A call stores what it has read within `D`. -/
def stores (D : ℤ) (w : Provider) : ProviderEvent → Bool
  | .store i =>
    match w.fetches.get i with
    | some (.fetched _ _ s) => w.now - s ≤ D
    | some (.asking _) | none => true
  | .tick _ | .lookup .. | .select .. | .invalidate _ => true

lemma effectiveTtl_pos (h : 0 ≤ ttl) : 0 < effectiveTtl ttl := by
  unfold effectiveTtl
  split_ifs
  · decide
  · omega

lemma keeps_of_stores (httl : 0 ≤ ttl) (h : stores D w ev = true) :
    Keeps ttl (fun s t => t < s + D + effectiveTtl ttl) w ev := by
  cases ev with
  | store i =>
    intro u c s hi
    have hsoon : w.now - s ≤ D := by simpa [stores, hi] using h
    have hpos := effectiveTtl_pos httl
    exact ⟨by omega, fun t ht => by omega⟩
  | _ => trivial

lemma keeps_always : Keeps ttl (fun _ _ => True) w ev := by
  cases ev with
  | store i => exact fun _ _ _ _ => ⟨trivial, fun _ _ => trivial⟩
  | _ => trivial

variable {L : ℤ → ℤ → Prop} {P : Text → Prop} {n : ℕ}

/-- A call returns. -/
lemma Dates.reply {result : Except LookupError StoredCredentials}
    (h : Dates B rows L t₀ P n w) (hresult : P user → ∀ c, result = .ok c →
      ∃ s, WasRead B rows user c s ∧ t₀ ≤ s ∧ s ≤ w.now ∧ L s w.now) :
    Dates B rows L t₀ P n (w.reply user result) := by
  refine ⟨h.start, ?_, h.cache, h.fetch, fun a ha => ?_⟩
  · rw [Provider.reply, List.length_append]
    exact Nat.le_add_right_of_le h.count
  · rw [Provider.reply, List.drop_append_of_le_length h.count, List.mem_append,
      List.mem_singleton] at ha
    rcases ha with ha | rfl
    · exact h.answer a ha
    · exact hresult

lemma Dates.finish (h : Dates B rows L t₀ P n w) : Dates B rows L t₀ P n (w.finish i) := by
  refine ⟨h.start, h.count, h.cache, fun {j u c s} hj => ?_, h.answer⟩
  unfold Provider.finish at hj
  rw [Table.get_keep] at hj
  exact h.fetch (Option.filter_eq_some_iff.mp hj).1

/-- A call goes on. -/
lemma Dates.setFetch {f : Fetch} (h : Dates B rows L t₀ P n w)
    (hf : ∀ {u c s}, f = .fetched u c s → P u → WasRead B rows u c s ∧ t₀ ≤ s ∧ s ≤ w.now) :
    Dates B rows L t₀ P n { w with fetches := w.fetches.set i f } := by
  refine ⟨h.start, h.count, h.cache, fun {j u c s} hj hP => ?_, h.answer⟩
  rw [Table.get_set] at hj
  split_ifs at hj
  · exact hf (Option.some.inj hj) hP
  · exact h.fetch hj hP

/-- An entry is put into the cache. -/
lemma Dates.setCache {e : CacheEntry} (h : Dates B rows L t₀ P n w)
    (he : P user → WasRead B rows user e.creds e.readAt ∧ t₀ ≤ e.readAt ∧ e.readAt ≤ w.now ∧
      ∀ t < e.expiresAt, L e.readAt t) :
    Dates B rows L t₀ P n { w with cache := w.cache.set user e } := by
  refine ⟨h.start, h.count, fun {u e'} hu hP => ?_, h.fetch, h.answer⟩
  rw [Table.get_set] at hu
  split_ifs at hu with heq
  · subst heq
    obtain rfl := Option.some.inj hu
    exact he hP
  · exact h.cache hu hP

/-! ## The events -/

lemma Dates.step_tick {d : ℕ} (h : Dates B rows L t₀ P n w)
    (hs : step B ttl rows w (.tick d) = some w') : Dates B rows L t₀ P n w' := by
  obtain rfl := Option.some.inj hs
  have hle : w.now ≤ w.now + d := Int.le_add_of_nonneg_right (Int.natCast_nonneg d)
  refine ⟨h.start.trans hle, h.count, fun hu hP => ?_, fun hi hP => ?_, h.answer⟩
  · obtain ⟨hread, hsince, hpast, hexpires⟩ := h.cache hu hP
    exact ⟨hread, hsince, hpast.trans hle, hexpires⟩
  · obtain ⟨hread, hsince, hpast⟩ := h.fetch hi hP
    exact ⟨hread, hsince, hpast.trans hle⟩

/-- A hit returns what has not expired, a miss begins to ask. -/
lemma Dates.step_lookup (h : Dates B rows L t₀ P n w)
    (hs : step B ttl rows w (.lookup i user) = some w') : Dates B rows L t₀ P n w' := by
  simp only [Provider.step] at hs
  split at hs
  · cases hs
  split at hs
  next e he =>
    obtain rfl := Option.some.inj hs
    obtain ⟨hget, hfresh⟩ := Option.filter_eq_some_iff.mp he
    refine h.reply fun hP c hc => ?_
    obtain rfl := Except.ok.inj hc
    obtain ⟨hread, hsince, hpast, hexpires⟩ := h.cache hget hP
    exact ⟨e.readAt, hread, hsince, hpast, hexpires _ (of_decide_eq_true hfresh)⟩
  next =>
    obtain rfl := Option.some.inj hs
    exact h.setFetch fun hf => by cases hf

lemma Dates.step_select {outcome : Outcome} (h : Dates B rows L t₀ P n w)
    (hs : step B ttl rows w (.select i outcome) = some w') : Dates B rows L t₀ P n w' := by
  simp only [Provider.step] at hs
  split at hs
  next user hi =>
    split at hs
    next err herr =>
      obtain rfl := Option.some.inj hs
      exact h.finish.reply fun _ c hc => by cases hc
    next creds hcreds =>
      obtain rfl := Option.some.inj hs
      refine h.setFetch fun hf _ => ?_
      obtain ⟨rfl, rfl, rfl⟩ := Fetch.fetched.inj hf
      exact ⟨wasRead_of_fetch hcreds, h.start, le_rfl⟩
  all_goals cases hs

lemma Dates.step_store (h : Dates B rows L t₀ P n w) (hev : Keeps ttl L w (.store i))
    (hs : step B ttl rows w (.store i) = some w') : Dates B rows L t₀ P n w' := by
  simp only [Provider.step] at hs
  split at hs
  next user creds s hi =>
    obtain rfl := Option.some.inj hs
    obtain ⟨hnow, hkept⟩ := hev user creds s hi
    have hstored : Dates B rows L t₀ P n
        { w with cache := w.cache.set user ⟨creds, w.now + effectiveTtl ttl, s⟩ } := by
      refine h.setCache fun hP => ?_
      obtain ⟨hread, hsince, hpast⟩ := h.fetch hi hP
      exact ⟨hread, hsince, hpast, hkept⟩
    refine hstored.finish.reply fun hP c hc => ?_
    obtain rfl := Except.ok.inj hc
    obtain ⟨hread, hsince, hpast⟩ := h.fetch hi hP
    exact ⟨s, hread, hsince, hpast, hnow⟩
  all_goals cases hs

lemma Dates.step_invalidate (h : Dates B rows L t₀ P n w)
    (hs : step B ttl rows w (.invalidate user) = some w') : Dates B rows L t₀ P n w' := by
  obtain rfl := Option.some.inj hs
  refine ⟨h.start, h.count, fun {u e} hu => ?_, h.fetch, h.answer⟩
  rw [Table.get_keep] at hu
  exact h.cache (Option.filter_eq_some_iff.mp hu).1

lemma Dates.step (h : Dates B rows L t₀ P n w) (hev : Keeps ttl L w ev)
    (hs : step B ttl rows w ev = some w') : Dates B rows L t₀ P n w' := by
  cases ev with
  | tick d => exact h.step_tick hs
  | lookup i user => exact h.step_lookup hs
  | select i outcome => exact h.step_select hs
  | store i => exact h.step_store hev hs
  | invalidate user => exact h.step_invalidate hs

/-- Nothing is known yet. -/
lemma dates_init (t : ℤ) : Dates B rows L t P 0 ⟨t, .empty, .empty, []⟩ := by
  refine ⟨le_rfl, le_rfl, fun {u e} hu => ?_, fun {i u c s} hi => ?_, fun a ha => ?_⟩
  · cases hu
  · cases hi
  · cases ha

end Provider

open Provider

/-- **A verifier is not older than the time to live**, give or take the time that a call takes from
reading it to storing it. -/
theorem lookup_is_recent (B : Base64.Codec) {ttl D : ℤ} (httl : 0 ≤ ttl)
    (rows : ℤ → Text → Option Bytes) {w : Provider}
    (hw : (machine B ttl rows).Reach (fun w ev => stores D w ev = true) w) {a : Answer}
    (ha : a ∈ w.answers)
    {creds : StoredCredentials} (hcreds : a.result = .ok creds) :
    ∃ s passwd, rows s a.user = some passwd ∧ parseSCRAMVerifier B passwd = .ok creds ∧
      s ≤ a.time ∧ a.time < s + D + effectiveTtl ttl := by
  have hdates : ∃ t₀, Dates B rows (fun s t => t < s + D + effectiveTtl ttl) t₀
      (fun _ => True) 0 w := by
    clear ha
    induction hw with
    | init hi =>
      obtain ⟨t, rfl⟩ := hi
      exact ⟨t, dates_init t⟩
    | step _ hev hs ih =>
      obtain ⟨t₀, hdates⟩ := ih
      exact ⟨t₀, hdates.step (keeps_of_stores httl hev) hs⟩
  obtain ⟨t₀, hdates⟩ := hdates
  obtain ⟨s, ⟨passwd, hrow, -, hparse⟩, -, hpast, hrecent⟩ :=
    hdates.answer a ha trivial creds hcreds
  exact ⟨s, passwd, hrow, hparse, hpast, hrecent⟩

def sampleCreds : StoredCredentials :=
  ⟨[1, 2, 3], 4096, List.replicate 32 7, List.replicate 32 255⟩

/-- A database in which everybody has one credential. -/
def sampleRows : ℤ → Text → Option Bytes := fun _ _ =>
  some (Scram.formatVerifier Base64.std sampleCreds)

/-- The second login is answered from the cache, half a minute after the first. -/
theorem lookup_is_recent_cached : ∃ w a creds,
    (machine Base64.std 60 sampleRows).Reach (fun w ev => stores 5 w ev = true) w ∧
      a ∈ w.answers ∧ a.time = 32 ∧ a.result = .ok creds ∧
      ∃ s passwd, sampleRows s a.user = some passwd ∧
        parseSCRAMVerifier Base64.std passwd = .ok creds ∧ s ≤ a.time ∧ a.time < s + 5 + 60 := by
  have hrun : (((machine Base64.std 60 sampleRows).guarded fun w ev => stores 5 w ev = true).run
      ⟨0, .empty, .empty, []⟩ [ProviderEvent.lookup 0 "alice".toList, .select 0 .answers, .tick 2,
        .store 0, .tick 30, .lookup 1 "alice".toList]).map (fun w => w.answers.getLast?.any
          fun a => a.time = 32 && a.result.isOk) = some true := by decide
  obtain ⟨w, hrun, hlast⟩ := Option.map_eq_some_iff.mp hrun
  have hw : (machine Base64.std 60 sampleRows).Reach (fun w ev => stores 5 w ev = true) w :=
    Machine.reach_of_guarded_run ⟨0, rfl⟩ hrun
  cases ha : w.answers.getLast? with
  | none =>
    rw [ha] at hlast
    cases hlast
  | some a =>
    rw [ha, Option.any_some, Bool.and_eq_true, decide_eq_true_iff] at hlast
    have hmem := List.mem_of_getLast? ha
    cases hcreds : a.result with
    | error err =>
      rw [hcreds] at hlast
      cases hlast.2
    | ok creds =>
      exact ⟨w, a, creds, hw, hmem, hlast.1, hcreds,
        lookup_is_recent Base64.std (by decide) sampleRows hw hmem hcreds⟩

/-- **`Invalidate` takes effect at once**, if no call has read the user's verifier without having
stored it: what `Lookup` returns for the user afterwards was read afterwards. -/
theorem invalidate_takes_effect (B : Base64.Codec) (ttl : ℤ) (rows : ℤ → Text → Option Bytes)
    {w w' w'' : Provider} {user : Text}
    (hfree : ∀ i creds s, w.fetches.get i ≠ some (.fetched user creds s))
    (hs : step B ttl rows w (.invalidate user) = some w')
    (hw : ((machine B ttl rows).startingAt w').Reachable w'')
    {a : Answer} (ha : a ∈ w''.answers.drop w.answers.length) (huser : a.user = user)
    {creds : StoredCredentials} (hcreds : a.result = .ok creds) :
    ∃ s passwd, rows s user = some passwd ∧ parseSCRAMVerifier B passwd = .ok creds ∧
      w.now ≤ s ∧ s ≤ a.time := by
  obtain rfl := Option.some.inj hs
  have hdates : Dates B rows (fun _ _ => True) w.now (· = user) w.answers.length w'' := by
    clear ha
    induction hw with
    | init hi =>
      obtain rfl : _ = _ := hi
      refine ⟨le_rfl, le_rfl, fun {u e} hu hP => ?_, fun {i u c s} hi hP => ?_, fun a ha => ?_⟩
      · rw [Table.get_keep] at hu
        exact absurd hP (of_decide_eq_true (Option.filter_eq_some_iff.mp hu).2)
      · exact absurd hi (hP ▸ hfree i c s)
      · rw [List.drop_length] at ha
        cases ha
    | step _ _ hs ih => exact ih.step keeps_always hs
  obtain ⟨s, ⟨passwd, hrow, -, hparse⟩, hsince, hpast, -⟩ :=
    hdates.answer a ha huser creds hcreds
  exact ⟨s, passwd, huser ▸ hrow, hparse, hsince, hpast⟩

/-- A login, an `Invalidate` and a login, which asks the database again. -/
theorem invalidate_takes_effect_again : ∃ w w' w'' a creds,
    (machine Base64.std 60 sampleRows).Reachable w ∧
      step Base64.std 60 sampleRows w (.invalidate "alice".toList) = some w' ∧
      ((machine Base64.std 60 sampleRows).startingAt w').Reachable w'' ∧
      a ∈ w''.answers.drop w.answers.length ∧ a.result = .ok creds ∧ w.now = 10 ∧
      ∃ s passwd, sampleRows s "alice".toList = some passwd ∧
        parseSCRAMVerifier Base64.std passwd = .ok creds ∧ w.now ≤ s ∧ s ≤ a.time := by
  have hrun : ((machine Base64.std 60 sampleRows).run ⟨0, .empty, .empty, []⟩
      [ProviderEvent.lookup 0 "alice".toList, .select 0 .answers, .store 0, .tick 10]).bind
      (fun w => ((step Base64.std 60 sampleRows w (.invalidate "alice".toList)).bind fun w' =>
        (((machine Base64.std 60 sampleRows).startingAt w').run w'
          [ProviderEvent.lookup 1 "alice".toList, .select 1 .answers, .tick 3, .store 1]).map
          fun w'' => w.now = 10 && w.fetches.pairs.isEmpty &&
            (w''.answers.drop w.answers.length).getLast?.any fun a =>
              a.user = "alice".toList && a.result.isOk)) = some true := by decide
  obtain ⟨w, hw, hrun⟩ := Option.bind_eq_some_iff.mp hrun
  obtain ⟨w', hw', hrun⟩ := Option.bind_eq_some_iff.mp hrun
  obtain ⟨w'', hw'', hview⟩ := Option.map_eq_some_iff.mp hrun
  simp only [Bool.and_eq_true, decide_eq_true_iff, List.isEmpty_iff] at hview
  obtain ⟨⟨hnow, hempty⟩, hlast⟩ := hview
  have hreach : (machine Base64.std 60 sampleRows).Reachable w := Machine.reach_of_run ⟨0, rfl⟩ hw
  have hafter : ((machine Base64.std 60 sampleRows).startingAt w').Reachable w'' :=
    Machine.reach_of_run rfl hw''
  have hfree : ∀ i creds s, w.fetches.get i ≠ some (.fetched "alice".toList creds s) := by
    intro i creds s hi
    have hmem := Table.mem_pairs.mpr hi
    rw [hempty] at hmem
    cases hmem
  cases ha : (w''.answers.drop w.answers.length).getLast? with
  | none =>
    rw [ha] at hlast
    cases hlast
  | some a =>
    rw [ha, Option.any_some, Bool.and_eq_true, decide_eq_true_iff] at hlast
    have hmem := List.mem_of_getLast? ha
    cases hcreds : a.result with
    | error err =>
      rw [hcreds] at hlast
      cases hlast.2
    | ok creds =>
      exact ⟨w, w', w'', a, creds, hreach, hw', hafter, hmem, hcreds, hnow,
        invalidate_takes_effect Base64.std 60 sampleRows hfree hw' hafter hmem hlast.1 hcreds⟩

end Pgman.AuthQuery
