import Pgman.Construction.Backend.AdminSql
import Pgman.Properties.RegistryInvariant

/-!
# Which pool an admin command reaches

A command names a pool by registry key, `handleAdminQuery` looks for the first key that equals the
name up to case.  Keys are not unique up to case, so of two pools `Shop` and `shop` only the first
can be paused by name (`pause_reaches_the_other_spelling`).  The name `ı` is looked for as `I`; and
white space that `TrimSpace` knows and the cutset does not shields the semicolons before it.
`admin_command_reaches_iff` says when a command reaches the pool it names and nothing else.
-/

namespace Pgman

open Net (Text)

variable {U : CaseMaps} {r : PoolRegistry} {op : AdminOp} {w g k t n name : Text}

/-! ## Trimming -/

/-- Trimming stops at a text that has nothing to trim. -/
lemma rdropWhile_append_of_self {p : Char → Bool} {l : Text} (h : l.rdropWhile p = l) (t : Text) :
    (l ++ t).rdropWhile p = l ++ t.rdropWhile p := by
  induction t using List.reverseRecOn with
  | nil => simpa using h
  | append_singleton t c ih =>
    rw [← List.append_assoc, List.rdropWhile_concat, List.rdropWhile_concat]
    split
    · exact ih
    · rw [List.append_assoc]

/-- It goes through a text that it removes. -/
lemma rdropWhile_append_of_nil {p : Char → Bool} {t : Text} (h : t.rdropWhile p = []) (l : Text) :
    (l ++ t).rdropWhile p = l.rdropWhile p := by
  induction t using List.reverseRecOn with
  | nil => rw [List.append_nil]
  | append_singleton t c ih =>
    rw [List.rdropWhile_concat] at h
    split at h
    · next hc => rw [← List.append_assoc, List.rdropWhile_concat, if_pos hc, ih h]
    · simp at h

/-- And through no other. -/
lemma rdropWhile_append_of_ne {p : Char → Bool} {t : Text} (h : t.rdropWhile p ≠ []) (l : Text) :
    (l ++ t).rdropWhile p = l ++ t.rdropWhile p := by
  induction t using List.reverseRecOn with
  | nil => exact absurd rfl h
  | append_singleton t c ih =>
    rw [← List.append_assoc, List.rdropWhile_concat]
    rw [List.rdropWhile_concat] at h ⊢
    split
    · next hc =>
      rw [if_pos hc] at h
      exact ih h
    · rw [List.append_assoc]

lemma trimSpace_eq_nil_iff {s : Text} : trimSpace s = [] ↔ ∀ c ∈ s, isSpace c = true := by
  rw [trimSpace, List.rdropWhile_eq_nil_iff]
  constructor
  · intro h
    have hnil : s.dropWhile isSpace = [] := by
      by_contra hne
      have hhead := List.head_dropWhile_not isSpace hne
      rw [h _ (List.head_mem hne)] at hhead
      cases hhead
    exact List.dropWhile_eq_nil_iff.mp hnil
  · exact fun h c hc => h c ((List.dropWhile_sublist _).subset hc)

lemma trimSpace_upperCase (U : CaseMaps) (s : Text) :
    trimSpace (upperCase U s) = upperCase U (trimSpace s) := by
  have hcomp : isSpace ∘ U.toUpper = isSpace := funext U.isSpace_toUpper
  rw [trimSpace, trimSpace, upperCase, upperCase, List.dropWhile_map, hcomp, List.rdropWhile,
    List.rdropWhile, ← List.map_reverse, List.dropWhile_map, hcomp, List.map_reverse]

/-! ## The command line -/

/-- A command word in any case, white space, a name and what may trail. -/
structure CommandLine (op : AdminOp) (w g k t : Text) : Prop where
  word : w.map Char.toUpper = op.word
  gap : g ≠ [] ∧ ∀ c ∈ g, isSpace c = true
  /-- no white space around the name, no semicolon at its end -/
  head : k.dropWhile isSpace = k
  last : k.rdropWhile isSpace = k ∧ k.rdropWhile (· = ';') = k
  tail : ∀ c ∈ t, isSpace c = true ∨ c = ';'

/-- What the cutting leaves of what trails. -/
def leftover (t : Text) : Text :=
  (trimRight adminCutset (t.rdropWhile isSpace)).rdropWhile isSpace

/-- The command words are letters. -/
lemma ascii_of_toUpper {c d : Char} (h : c.toUpper = d) (hd : d.toNat < 128) : c.toNat < 128 := by
  unfold Char.toUpper at h
  split at h
  · next hlower =>
    have hle : c.toNat ≤ 122 := hlower.2
    omega
  · rwa [h]

lemma upperCase_word (U : CaseMaps) (h : w.map Char.toUpper = op.word) :
    upperCase U w = op.word := by
  rw [upperCase, ← h]
  refine List.map_congr_left fun c hc => U.toUpper_ascii c ?_
  have hmem : c.toUpper ∈ op.word := h ▸ List.mem_map_of_mem hc
  have hascii : ∀ d ∈ op.word, d.toNat < 128 := by cases op <;> decide
  exact ascii_of_toUpper rfl (hascii _ hmem)

set_option maxRecDepth 4000 in
lemma clean_of_word (h : w.map Char.toUpper = op.word) {c : Char} (hc : c ∈ w) :
    isSpace c = false ∧ c ∉ adminCutset := by
  have hmem : c.toUpper ∈ op.word := h ▸ List.mem_map_of_mem hc
  have hascii : ∀ d ∈ op.word, d.toNat < 128 := by cases op <;> decide
  have hlt := ascii_of_toUpper rfl (hascii _ hmem)
  have hall : ∀ n : Fin 128, (Char.ofNat n).toUpper ∈ op.word →
      isSpace (Char.ofNat n) = false ∧ Char.ofNat n ∉ adminCutset := by cases op <;> decide
  have hofNat := hall ⟨c.toNat, hlt⟩
  rw [Char.ofNat_toNat] at hofNat
  exact hofNat hmem

/-- The word has nothing to trim. -/
lemma rdropWhile_word (h : w.map Char.toUpper = op.word) :
    w.rdropWhile isSpace = w ∧ w.rdropWhile (· ∈ adminCutset) = w := by
  simp only [List.rdropWhile_eq_self_iff]
  constructor
  · intro hne
    rw [(clean_of_word h (List.getLast_mem hne)).1]
    exact Bool.false_ne_true
  · intro hne
    exact fun hmem => (clean_of_word h (List.getLast_mem hne)).2 (of_decide_eq_true hmem)

lemma dropWhile_word (h : w.map Char.toUpper = op.word) (s : Text) :
    (w ++ s).dropWhile isSpace = w ++ s := by
  cases w with
  | nil => cases op <;> exact absurd h (by decide)
  | cons c l =>
    have hc := (clean_of_word h (List.mem_cons_self (a := c) (l := l))).1
    rw [List.cons_append, List.dropWhile_cons_of_neg (by rw [hc]; exact Bool.false_ne_true)]

/-- The switch comes to the handler of the word. -/
lemma handleAdminQuery_of_word (h : w.map Char.toUpper = op.word) {sql q : Text}
    (hsql : trimRight adminCutset (trimSpace sql) = w ++ q) :
    handleAdminQuery U r sql = handleCmd U r op (w ++ q) := by
  have hupper : upperCase U (w ++ q) = op.word ++ upperCase U q := by
    rw [upperCase, List.map_append, ← upperCase, ← upperCase, upperCase_word U h]
  have hshow : ∀ s : ShowCommand, op.word ++ upperCase U q ≠ s.text := by
    intro s heq
    have hhead := congrArg List.head? heq
    cases op <;> cases s <;> cases hhead
  simp only [handleAdminQuery, hsql, hupper, hshow, decide_false, List.find?_cons, List.find?_nil]
  cases op with
  | pause => exact if_pos rfl
  | resume => exact (if_neg (by exact Bool.false_ne_true)).trans (if_pos rfl)
  | reconnect =>
    exact (if_neg (by exact Bool.false_ne_true)).trans
      ((if_neg (by exact Bool.false_ne_true)).trans (if_pos rfl))

/-- The name as the handler has it. -/
lemma handleCmd_of_word (h : w.map Char.toUpper = op.word) (q : Text) :
    handleCmd U r op (w ++ q) = applyOp U r op (upperCase U (trimSpace q)) := by
  have hupper : upperCase U (w ++ q) = op.word ++ upperCase U q := by
    rw [upperCase, List.map_append, ← upperCase, ← upperCase, upperCase_word U h]
  have hpre : op.word.isPrefixOf (op.word ++ upperCase U q) = true :=
    List.isPrefixOf_iff_prefix.mpr (List.prefix_append _ _)
  simp only [handleCmd, hupper, if_pos hpre, List.drop_left, trimSpace_upperCase]

/-! ## Looking for a name -/

lemma length_of_equalFold {T : CaseTables} {s s' : Text} (h : equalFold T s s' = true) :
    s.length = s'.length := by
  have hmap := congrArg List.length (of_decide_eq_true h)
  simpa using hmap

lemma equalFold_upperCase {s : Text} (h : equalFold U.toCaseTables s (upperCase U s) = true) :
    equalFold U.toCaseTables n (upperCase U s) = equalFold U.toCaseTables n s := by
  rw [equalFold, equalFold, ← of_decide_eq_true h]

lemma Table.find?_keys {κ ν : Type} [LinearOrder κ] {t : Table κ ν} {p : κ → Bool} {k : κ} :
    t.keys.find? p = some k ↔
      k ∈ t.keys ∧ p k = true ∧ ∀ n ∈ t.keys, n < k → p n = false := by
  have hsorted : t.keys.Pairwise (· < ·) := List.pairwise_map.mpr t.sorted
  rw [List.find?_eq_some_iff_append]
  constructor
  · rintro ⟨hk, l, l', heq, hl⟩
    rw [heq] at hsorted ⊢
    refine ⟨List.mem_append_right _ List.mem_cons_self, hk, fun n hn hlt => ?_⟩
    rcases List.mem_append.mp hn with hn | hn
    · simpa using hl n hn
    · have hle := (List.pairwise_append.mp hsorted).2.1
      rcases List.mem_cons.mp hn with rfl | hn
      · exact absurd hlt (lt_irrefl _)
      · exact absurd hlt (lt_asymm ((List.pairwise_cons.mp hle).1 n hn))
  · rintro ⟨hmem, hk, hfirst⟩
    obtain ⟨l, l', heq⟩ := List.append_of_mem hmem
    refine ⟨hk, l, l', heq, fun n hn => ?_⟩
    rw [heq] at hsorted hfirst
    have hlt := (List.pairwise_append.mp hsorted).2.2 n hn k List.mem_cons_self
    simpa using hfirst n (List.mem_append_left _ hn) hlt

lemma get_of_entry {e : RegistryEntry} (h : r.entries.get k = some e) : r.get k = some e.pool := by
  rw [PoolRegistry.get, h]

/-- A command with a name calls the pool under the first key that equals it up to case. -/
lemma calls_of_name (h : w.map Char.toUpper = op.word) {q : Text} (hne : trimSpace q ≠ []) :
    (handleCmd U r op (w ++ q)).calls =
      ((r.names.find? fun n => equalFold U.toCaseTables n (upperCase U (trimSpace q))).bind
        r.entries.get).toList.map fun e => (op, e.pool) := by
  have hupper : upperCase U (trimSpace q) ≠ [] := by simpa [upperCase] using hne
  rw [handleCmd_of_word h, applyOp, if_neg hupper]
  dsimp only [findPoolName]
  cases hfind : r.names.find? fun n => equalFold U.toCaseTables n (upperCase U (trimSpace q)) with
  | none => rfl
  | some n =>
    obtain ⟨hmem, heq, -⟩ := Table.find?_keys.mp hfind
    obtain ⟨e, he⟩ := Table.mem_keys.mp hmem
    have hn : n ≠ [] := by
      rintro rfl
      exact hupper (List.eq_nil_of_length_eq_zero (length_of_equalFold heq).symm)
    rw [Option.getD_some, if_neg hn, get_of_entry he, Option.bind_some, he]
    rfl

/-- No pool is there twice. -/
def OwnPools (r : PoolRegistry) : Prop :=
  ∀ k k' e e', r.entries.get k = some e → r.entries.get k' = some e' → e.pool = e'.pool → k = k'

lemma calls_of_name_iff (hpools : OwnPools r) (h : w.map Char.toUpper = op.word) {q : Text}
    (hne : trimSpace q ≠ []) {e : RegistryEntry} (he : r.entries.get k = some e) :
    (handleCmd U r op (w ++ q)).calls = [(op, e.pool)] ↔
      (r.names.find? fun n => equalFold U.toCaseTables n (upperCase U (trimSpace q))) = some k := by
  rw [calls_of_name h hne]
  constructor
  · intro hcalls
    cases hfind : r.names.find? fun n => equalFold U.toCaseTables n (upperCase U (trimSpace q)) with
    | none =>
      rw [hfind] at hcalls
      cases hcalls
    | some n =>
      obtain ⟨e', he'⟩ := Table.mem_keys.mp (Table.find?_keys.mp hfind).1
      rw [hfind, Option.bind_some, he'] at hcalls
      simp only [Option.toList_some, List.map_cons, List.map_nil, List.cons.injEq, Prod.mk.injEq,
        true_and, and_true] at hcalls
      rw [hpools n k e' e he' he hcalls]
  · intro hfind
    rw [hfind, Option.bind_some, he]
    rfl

/-! ## The name in a command -/

lemma CommandLine.rdropWhile_cutset (h : CommandLine op w g k t) :
    k.rdropWhile (· ∈ adminCutset) = k := by
  obtain ⟨hspace, hsemi⟩ := h.last
  rw [List.rdropWhile_eq_self_iff] at hspace hsemi ⊢
  intro hne hmem
  have hcut : ∀ c ∈ adminCutset, isSpace c = true ∨ c = ';' := by decide
  rcases hcut _ (of_decide_eq_true hmem) with hc | hc
  · exact hspace hne hc
  · exact hsemi hne (decide_eq_true hc)

lemma CommandLine.dropWhile_name (h : CommandLine op w g k t) (hk : k ≠ []) (s : Text) :
    (k ++ s).dropWhile isSpace = k ++ s := by
  cases k with
  | nil => exact absurd rfl hk
  | cons c l =>
    have hc : ¬isSpace c = true := by
      intro hc
      have hlen := congrArg List.length h.head
      rw [List.dropWhile_cons_of_pos hc, List.length_cons] at hlen
      have hle := (List.dropWhile_sublist (l := l) isSpace).length_le
      omega
    rw [List.cons_append, List.dropWhile_cons_of_neg hc]

/-- The command as it is cut, and the name in it. -/
lemma CommandLine.named (h : CommandLine op w g k t) (hk : k ≠ []) : ∃ q,
    trimRight adminCutset (trimSpace (w ++ g ++ k ++ t)) = w ++ q ∧
      trimSpace q = k ++ leftover t := by
  refine ⟨g ++ (k ++ trimRight adminCutset (t.rdropWhile isSpace)), ?_, ?_⟩
  · -- both cuts stop at the end of the name
    have hspace : (w ++ g ++ k).rdropWhile isSpace = w ++ g ++ k := by
      rw [rdropWhile_append_of_ne (by rw [h.last.1]; exact hk), h.last.1]
    have hcut : (w ++ g ++ k).rdropWhile (· ∈ adminCutset) = w ++ g ++ k := by
      rw [rdropWhile_append_of_ne (by rw [h.rdropWhile_cutset]; exact hk), h.rdropWhile_cutset]
    have hfront : (w ++ g ++ k ++ t).dropWhile isSpace = w ++ g ++ k ++ t := by
      rw [List.append_assoc, List.append_assoc, dropWhile_word h.word]
    rw [trimSpace, hfront, rdropWhile_append_of_self hspace, trimRight,
      rdropWhile_append_of_self hcut, ← trimRight]
    simp only [List.append_assoc]
  · rw [trimSpace, List.dropWhile_append_of_pos h.gap.2, h.dropWhile_name hk,
      rdropWhile_append_of_self h.last.1, leftover]

/-- Without a name. -/
lemma CommandLine.bare (h : CommandLine op w g [] t) : ∃ q,
    trimRight adminCutset (trimSpace (w ++ g ++ [] ++ t)) = w ++ q ∧
      (trimSpace q = [] ↔ leftover t = []) := by
  have hgap := h.gap.2
  refine ⟨trimRight adminCutset ((g ++ t).rdropWhile isSpace), ?_, ?_⟩
  · rw [List.append_nil, List.append_assoc, trimSpace, dropWhile_word h.word,
      rdropWhile_append_of_self (rdropWhile_word h.word).1, trimRight,
      rdropWhile_append_of_self (rdropWhile_word h.word).2, ← trimRight]
  · rw [trimSpace_eq_nil_iff, leftover, List.rdropWhile_eq_nil_iff]
    by_cases ht : t.rdropWhile isSpace = []
    · rw [rdropWhile_append_of_nil ht, ht, List.rdropWhile_eq_nil_iff.mpr hgap]
    · rw [rdropWhile_append_of_ne ht, trimRight, trimRight]
      by_cases hcut : (t.rdropWhile isSpace).rdropWhile (· ∈ adminCutset) = []
      · rw [rdropWhile_append_of_nil hcut, hcut]
        exact iff_of_true (fun c hc => hgap c ((List.rdropWhile_prefix _ _).subset hc)) nofun
      · rw [rdropWhile_append_of_ne hcut, List.forall_mem_append, and_iff_right hgap]

/-! ## What a command reaches -/

/-- The command with a name reaches its pool. -/
lemma reaches_iff (hpools : OwnPools r) (h : CommandLine op w g k t) (hk : k ≠ [])
    {e : RegistryEntry} (he : r.entries.get k = some e) :
    (handleAdminQuery U r (w ++ g ++ k ++ t)).calls = [(op, e.pool)] ↔
      leftover t = [] ∧ equalFold U.toCaseTables k (upperCase U k) = true ∧
        ∀ n ∈ r.names, n < k → equalFold U.toCaseTables n k = false := by
  obtain ⟨q, hsql, hname⟩ := h.named hk
  have hne : trimSpace q ≠ [] := by simp [hname, hk]
  rw [handleAdminQuery_of_word h.word hsql, calls_of_name_iff hpools h.word hne he, hname,
    PoolRegistry.names, Table.find?_keys]
  have hmem : k ∈ r.entries.keys := Table.mem_keys.mpr ⟨e, he⟩
  constructor
  · rintro ⟨-, heq, hfirst⟩
    have hleft : leftover t = [] := by
      have hlen := length_of_equalFold heq
      simp only [upperCase, List.length_map, List.length_append] at hlen
      exact List.eq_nil_of_length_eq_zero (by omega)
    rw [hleft, List.append_nil] at heq hfirst
    exact ⟨hleft, heq, fun n hn hlt => equalFold_upperCase heq ▸ hfirst n hn hlt⟩
  · rintro ⟨hleft, heq, hfirst⟩
    rw [hleft, List.append_nil]
    exact ⟨hmem, heq, fun n hn hlt => (equalFold_upperCase heq).trans (hfirst n hn hlt)⟩

/-- The command without a name is for all pools. -/
lemma reaches_bare_iff (hpools : OwnPools r) (h : CommandLine op w g [] t)
    {e : RegistryEntry} (he : r.entries.get [] = some e) :
    (handleAdminQuery U r (w ++ g ++ [] ++ t)).calls = [(op, e.pool)] ↔
      leftover t = [] ∧ r.names = [[]] := by
  obtain ⟨q, hsql, hname⟩ := h.bare
  rw [handleAdminQuery_of_word h.word hsql]
  by_cases hleft : leftover t = []
  · rw [handleCmd_of_word h.word, hname.mpr hleft, and_iff_right hleft, PoolRegistry.names,
      Table.keys]
    change r.entries.pairs.map _ = _ ↔ _
    have hmem := Table.mem_pairs.mpr he
    constructor
    · intro hcalls
      obtain ⟨p, hp, -⟩ := List.map_eq_singleton_iff.mp hcalls
      rw [hp] at hmem ⊢
      rw [← List.mem_singleton.mp hmem]
      rfl
    · intro hkeys
      obtain ⟨p, hp, -⟩ := List.map_eq_singleton_iff.mp hkeys
      rw [hp] at hmem ⊢
      rw [← List.mem_singleton.mp hmem]
      rfl
  · -- a semicolon is left, and stands for a name
    have hne : trimSpace q ≠ [] := fun hq => hleft (hname.mp hq)
    rw [calls_of_name_iff hpools h.word hne he, PoolRegistry.names, Table.find?_keys]
    refine iff_of_false (fun hfind => hne ?_) fun hand => hleft hand.1
    have hlen := length_of_equalFold hfind.2.1
    rw [upperCase, List.length_map] at hlen
    exact List.eq_nil_of_length_eq_zero hlen.symm

/-- The command with a name reaches nothing. -/
lemma reaches_none_iff (h : CommandLine op w g k t) (hk : k ≠ []) :
    (handleAdminQuery U r (w ++ g ++ k ++ t)).calls = [] ↔
      ∀ n ∈ r.names, equalFold U.toCaseTables n (upperCase U (k ++ leftover t)) = false := by
  obtain ⟨q, hsql, hname⟩ := h.named hk
  have hne : trimSpace q ≠ [] := by simp [hname, hk]
  rw [handleAdminQuery_of_word h.word hsql, calls_of_name h.word hne, hname]
  constructor
  · intro hcalls n hn
    by_contra heq
    cases hfind : r.names.find? fun n =>
        equalFold U.toCaseTables n (upperCase U (k ++ leftover t)) with
    | none => exact List.find?_eq_none.mp hfind n hn (by simpa using heq)
    | some n' =>
      obtain ⟨e, he⟩ := Table.mem_keys.mp (Table.find?_keys.mp hfind).1
      rw [hfind, Option.bind_some, he] at hcalls
      cases hcalls
  · intro hnone
    have hfind : (r.names.find? fun n =>
        equalFold U.toCaseTables n (upperCase U (k ++ leftover t))) = none :=
      List.find?_eq_none.mpr fun n hn => by simp [hnone n hn]
    rw [hfind]
    rfl

/-- **Admin commands act on the pool that is named.**  A command reaches the pool under the key it
names and no other exactly when nothing is left of what trails, the key keeps its folding in upper
case and no smaller key equals it up to case, the empty key being the only one if it is that; and a
name that equals no key up to case reaches no pool exactly when no key equals up to case what the
name is looked for as. -/
theorem admin_command_reaches_iff (U : CaseMaps) (hpools : OwnPools r)
    (h : CommandLine op w g k t) :
    (∀ e, r.entries.get k = some e →
        (handleAdminQuery U r (w ++ g ++ k ++ t)).calls = [(op, e.pool)]) ∧
      (k ≠ [] → (∀ n ∈ r.names, equalFold U.toCaseTables n k = false) →
        (handleAdminQuery U r (w ++ g ++ k ++ t)).calls = []) ↔
    (k ∈ r.names → leftover t = [] ∧ (k = [] → r.names = [[]]) ∧
        (k ≠ [] → equalFold U.toCaseTables k (upperCase U k) = true ∧
          ∀ n ∈ r.names, n < k → equalFold U.toCaseTables n k = false)) ∧
      (k ≠ [] → (∀ n ∈ r.names, equalFold U.toCaseTables n k = false) →
        ∀ n ∈ r.names, equalFold U.toCaseTables n (upperCase U (k ++ leftover t)) = false) := by
  refine and_congr ?_ ?_
  · rw [PoolRegistry.names, Table.mem_keys, forall_exists_index]
    refine forall_congr' fun e => forall_congr' fun he => ?_
    by_cases hk : k = []
    · subst hk
      rw [reaches_bare_iff hpools h he]
      simp [PoolRegistry.names]
    · rw [reaches_iff hpools h hk he]
      simp [hk, PoolRegistry.names]
  · exact forall_congr' fun hk => imp_congr_right fun _ => reaches_none_iff h hk

/-- The case mappings of ASCII texts. -/
def asciiMaps : CaseMaps where
  toCaseTables := asciiTables
  toUpper := Char.toUpper
  toUpper_ascii _ _ := rfl
  isSpace_toUpper c := by
    have hascii : ∀ n : Fin 128, isSpace (Char.ofNat n).toUpper = isSpace (Char.ofNat n) := by
      decide
    by_cases hc : c.toNat < 128
    · simpa using hascii ⟨c.toNat, hc⟩
    · unfold Char.toUpper
      split
      · next hlower =>
        have hle : c.toNat ≤ 122 := hlower.2
        omega
      · rfl

/-- A registry of two pools. -/
def poolPair (a b : String) : PoolRegistry :=
  .new 0 [(a.toList, .plain), (b.toList, .plain)]

lemma ownPools_poolPair {a b : String} (ha : poolKeySeparator ∉ a.toList)
    (hb : poolKeySeparator ∉ b.toList) (hne : a.toList ≠ b.toList) : OwnPools (poolPair a b) := by
  have hnames : PoolRegistry.Names [(a.toList, PoolConfig.plain), (b.toList, PoolConfig.plain)] :=
    ⟨by simp [ha, hb], by simp [hne]⟩
  have husers : PoolConfig.plain.users.get [] = none := by decide
  have hintact : (poolPair a b).Intact :=
    PoolRegistry.intact_new hnames (by simp [husers])
  exact fun k k' e e' h h' heq => hintact.watched.distinct h h' heq

/-- One pool's name in another case, with what trails. -/
theorem admin_command_reaches_shop :
    ∃ e, (poolPair "orders" "shop").entries.get "shop".toList = some e ∧
      (handleAdminQuery asciiMaps (poolPair "orders" "shop")
        ("Pause".toList ++ " \t".toList ++ "shop".toList ++ " ;\n;".toList)).calls =
        [(.pause, e.pool)] := by
  have hpools : OwnPools (poolPair "orders" "shop") :=
    ownPools_poolPair (by decide) (by decide) (by decide)
  have hline : CommandLine .pause "Pause".toList " \t".toList "shop".toList " ;\n;".toList :=
    ⟨by decide, by decide, by decide, by decide, by decide⟩
  have hkeys : (poolPair "orders" "shop").names = ["orders".toList, "shop".toList] := by decide
  obtain ⟨e, he⟩ := Table.mem_keys.mp
    (show "shop".toList ∈ (poolPair "orders" "shop").entries.keys from by
      rw [← PoolRegistry.names, hkeys]
      decide)
  refine ⟨e, he, ((admin_command_reaches_iff asciiMaps hpools hline).mpr ⟨fun _ => ?_, ?_⟩).1 e he⟩
  · rw [hkeys]
    decide
  · rw [hkeys]
    decide

/-- Two pools whose names differ in case: a command that names the second pauses the first. -/
theorem pause_reaches_the_other_spelling :
    OwnPools (poolPair "Shop" "shop") ∧
    CommandLine .pause "PAUSE".toList " ".toList "shop".toList [] ∧
    ∃ e e', (poolPair "Shop" "shop").entries.get "Shop".toList = some e ∧
      (poolPair "Shop" "shop").entries.get "shop".toList = some e' ∧ e.pool ≠ e'.pool ∧
      (handleAdminQuery asciiMaps (poolPair "Shop" "shop") "PAUSE shop".toList).calls =
        [(.pause, e.pool)] := by
  have hpools : ((poolPair "Shop" "shop").entries.get "Shop".toList).map (·.pool) = some 0 ∧
      ((poolPair "Shop" "shop").entries.get "shop".toList).map (·.pool) = some 1 := by decide
  obtain ⟨e, he, hp⟩ := Option.map_eq_some_iff.mp hpools.1
  obtain ⟨e', he', hp'⟩ := Option.map_eq_some_iff.mp hpools.2
  refine ⟨ownPools_poolPair (by decide) (by decide) (by decide),
    ⟨by decide, by decide, by decide, by decide, nofun⟩, e, e', he, he', ?_, ?_⟩
  · rw [hp, hp']
    decide
  · rw [hp]
    decide

end Pgman
