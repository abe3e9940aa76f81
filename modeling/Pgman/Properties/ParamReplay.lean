import Mathlib.Algebra.Order.BigOperators.Group.List
import Mathlib.Algebra.Order.Ring.Nat
import Pgman.Construction.Session.TrackedParams

/-!
# Parameters cannot be injected, except through a backslash

`applyTrackedParams` doubles the quotes of names and values.  That is all a literal needs where
`standard_conforming_strings` is on, and the comment on `quoteLiteral` says it is enough where it is
off.  It is not: a backslash of the value is then read as the beginning of an escape.  A name that
is longer than an identifier may be is assigned to under another name, the one it is cut to.

That a value with a backslash is never read back as it was, whatever follows it, is a matter of
length (`Reads.length_le`): a text that is read as given statements is at least as long as the
statements are when they are written with as few characters as possible, and a backslash costs two.
-/

namespace Pgman

open Net (Text)

variable {E : Escapes} {standard : Bool} {p : ParamText} {s rest v w : Text}

/-! ## What is written is read -/

lemma double_cons (q c : Char) (s : Text) :
    double q (c :: s) = (if c = q then [q, q] else [c]) ++ double q s := rfl

/-- The text does not go on with the quote. -/
def NotQuote (q : Char) (rest : Text) : Prop := ∀ t, rest ≠ q :: t

lemma readIdent_double (hrest : NotQuote '"' rest) :
    ∀ v : Text, readIdent (double '"' v ++ '"' :: rest) = some (v, rest)
  | [] => by
    cases rest with
    | nil => rfl
    | cons c rest =>
      have hc : c ≠ '"' := fun h => hrest rest (h ▸ rfl)
      change readIdent ('"' :: c :: rest) = _
      rw [readIdent]
      · exact if_pos rfl
      · intro s _ heq
        exact hrest s heq
  | c :: v => by
    have ih := readIdent_double hrest v
    rw [double_cons]
    by_cases hc : c = '"'
    · subst hc
      rw [if_pos rfl]
      change readIdent ('"' :: '"' :: (double '"' v ++ '"' :: rest)) = _
      rw [readIdent, ih]
      rfl
    · rw [if_neg hc]
      change readIdent (c :: (double '"' v ++ '"' :: rest)) = _
      rw [readIdent, if_neg hc, ih]
      · rfl
      · rintro s h -
        exact hc h

lemma clip_isPrefixOf (n : ℕ) (s : Text) : clip n s <+: s := by
  induction s generalizing n with
  | nil => exact List.nil_prefix
  | cons c s ih =>
    rw [clip]
    split
    · exact List.cons_prefix_cons.mpr ⟨rfl, ih _⟩
    · exact List.nil_prefix

lemma byteLength_clip_le (n : ℕ) (s : Text) : byteLength (clip n s) ≤ n := by
  induction s generalizing n with
  | nil => exact Nat.zero_le n
  | cons c s ih =>
    rw [clip]
    split
    · have := ih (n - c.utf8Size)
      simp only [byteLength, List.map_cons, List.sum_cons] at this ⊢
      omega
    · exact Nat.zero_le n

lemma clip_of_byteLength_le {n : ℕ} (h : byteLength s ≤ n) : clip n s = s := by
  induction s generalizing n with
  | nil => rfl
  | cons c s ih =>
    simp only [byteLength, List.map_cons, List.sum_cons] at h
    rw [clip, if_pos (by omega), ih (by simp only [byteLength]; omega)]

/-- Of a name that has a character, one is left. -/
lemma clip_ne_nil (h : s ≠ []) : clip maxIdent s ≠ [] := by
  cases s with
  | nil => exact absurd rfl h
  | cons c s =>
    have hsize : c.utf8Size ≤ maxIdent := Nat.le_trans c.utf8Size_le_four (by decide)
    rw [clip, if_pos hsize]
    exact List.cons_ne_nil _ _

/-! The four ways a literal goes on. -/

lemma readLiteral_quoted (s : Text) : readLiteral E standard ('\'' :: '\'' :: s) =
    (readLiteral E standard s).map fun p => ('\'' :: p.1, p.2) := by
  rw [readLiteral.eq_def]
  rfl

lemma readLiteral_closed (h : NotQuote '\'' s) :
    readLiteral E standard ('\'' :: s) = some ([], s) := by
  rw [readLiteral.eq_def]
  cases s with
  | nil => rfl
  | cons c s =>
    dsimp only
    rw [if_pos rfl]
    split
    · next s' heq => exact absurd heq (h s')
    · rfl

lemma readLiteral_escaped (s : Text) : readLiteral E false ('\\' :: s) =
    (E.read s).bind fun q => (readLiteral E false q.2).map fun p => (q.1 :: p.1, p.2) := by
  rw [readLiteral.eq_def]
  dsimp only
  rw [if_neg (by decide), if_pos ⟨rfl, rfl⟩]
  split
  · next h => rw [h]; rfl
  · next d rest h => rw [h]; rfl

lemma readLiteral_plain {c : Char} (hc : c ≠ '\'') (hesc : ¬(c = '\\' ∧ standard = false))
    (s : Text) : readLiteral E standard (c :: s) =
      (readLiteral E standard s).map fun p => (c :: p.1, p.2) := by
  rw [readLiteral.eq_def]
  dsimp only
  rw [if_neg hc, if_neg hesc]

lemma readLiteral_double (hrest : NotQuote '\'' rest) :
    ∀ v : Text, (standard = true ∨ '\\' ∉ v) →
      readLiteral E standard (double '\'' v ++ '\'' :: rest) = some (v, rest)
  | [], _ => readLiteral_closed hrest
  | c :: v, hv => by
    have ih := readLiteral_double hrest v (hv.imp_right fun h hmem => h (.tail _ hmem))
    rw [double_cons]
    by_cases hc : c = '\''
    · subst hc
      rw [if_pos rfl]
      change readLiteral E standard ('\'' :: '\'' :: (double '\'' v ++ '\'' :: rest)) = _
      rw [readLiteral_quoted, ih]
      rfl
    · have hesc : ¬(c = '\\' ∧ standard = false) := by
        rintro ⟨rfl, rfl⟩
        rcases hv with hstd | hv
        · cases hstd
        · exact hv (.head _)
      rw [if_neg hc]
      change readLiteral E standard (c :: (double '\'' v ++ '\'' :: rest)) = _
      rw [readLiteral_plain hc hesc, ih]
      rfl

lemma afterWord_append (word s : Text) : afterWord word (word ++ s) = some s := by
  rw [afterWord, if_pos (List.isPrefixOf_iff_prefix.mpr (List.prefix_append _ _)),
    List.drop_left]

lemma setStatement_append (p : ParamText) (rest : Text) :
    setStatement p ++ rest = "SET \"".toList ++ (double '"' p.name ++ '"' ::
      (" = '".toList ++ (double '\'' p.value ++ '\'' :: rest))) := by
  simp [setStatement_eq, quoted]

/-- A name that the reader keeps as it is. -/
def FitName (name : Text) : Prop := name ≠ [] ∧ byteLength name ≤ maxIdent

lemma readSet_setStatement (hrest : NotQuote '\'' rest) (hname : FitName p.name)
    (hvalue : standard = true ∨ '\\' ∉ p.value) :
    readSet E standard (setStatement p ++ rest) = some (p, rest) := by
  have hident : NotQuote '"' (" = '".toList ++ (double '\'' p.value ++ '\'' :: rest)) := by
    intro t h
    cases h
  rw [readSet, setStatement_append, afterWord_append]
  simp only [Option.bind_eq_bind, Option.bind_some, readIdent_double hident, if_neg hname.1,
    afterWord_append, readLiteral_double hrest p.value hvalue, clip_of_byteLength_le hname.2]
  rfl

lemma reads_setQuery : ∀ {ps : List ParamText}, (∀ p ∈ ps, FitName p.name) →
    (standard = true ∨ ∀ p ∈ ps, '\\' ∉ p.value) → Reads E standard (setQuery ps) ps
  | [], _, _ => .none
  | [p], hname, hvalue => by
    have hread : readSet E standard (setStatement p ++ []) = some (p, []) :=
      readSet_setStatement (fun t h => nomatch h) (hname p (.head _))
        (hvalue.imp_right fun h => h p (.head _))
    rw [List.append_nil] at hread
    exact .last hread
  | p :: q :: ps, hname, hvalue => by
    have hsemi : NotQuote '\'' (';' :: setQuery (q :: ps)) := by
      intro t h
      cases h
    refine .more (readSet_setStatement hsemi (hname p (.head _))
      (hvalue.imp_right fun h => h p (.head _))) ?_
    exact reads_setQuery (fun p' hp => hname p' (.tail _ hp))
      (hvalue.imp_right fun h p' hp => h p' (.tail _ hp))

/-! ## What is read has cost its length -/

/-- The fewest characters a character of a literal is written with. -/
def literalCost (standard : Bool) (c : Char) : ℕ :=
  if c = '\'' ∨ c = '\\' ∧ standard = false then 2 else 1

/-- The same for a quoted identifier. -/
def identCost (c : Char) : ℕ := if c = '"' then 2 else 1

/-- The fewest characters a statement is written with. -/
def setCost (standard : Bool) (p : ParamText) : ℕ :=
  11 + (p.name.map identCost).sum + (p.value.map (literalCost standard)).sum

lemma readIdent_length : ∀ {s v rest : Text}, readIdent s = some (v, rest) →
    (v.map identCost).sum + 1 + rest.length ≤ s.length := by
  intro s
  induction s using readIdent.induct with
  | case1 => intro v rest h; cases h
  | case2 s ih =>
    intro v rest h
    rw [readIdent] at h
    obtain ⟨⟨v', rest'⟩, hread, heq⟩ := Option.map_eq_some_iff.mp h
    cases heq
    have := ih hread
    simp only [List.map_cons, List.sum_cons, List.length_cons, identCost, if_true] at this ⊢
    omega
  | case3 s hnot =>
    intro v rest h
    rw [readIdent, if_pos rfl] at h
    · cases h
      simp only [List.map_nil, List.sum_nil, List.length_cons]
      omega
    · exact hnot
  | case4 c s hnot hc ih =>
    intro v rest h
    rw [readIdent, if_neg hc] at h
    · obtain ⟨⟨v', rest'⟩, hread, heq⟩ := Option.map_eq_some_iff.mp h
      cases heq
      have := ih hread
      simp only [List.map_cons, List.sum_cons, List.length_cons, identCost, if_neg hc] at this ⊢
      omega
    · exact hnot

lemma literalCost_le (standard : Bool) (c : Char) : literalCost standard c ≤ 2 := by
  unfold literalCost
  split <;> omega

lemma readLiteral_length {s v rest : Text} (h : readLiteral E standard s = some (v, rest)) :
    (v.map (literalCost standard)).sum + 1 + rest.length ≤ s.length := by
  -- a literal goes on behind its escapes, so the induction is on the length
  induction hn : s.length using Nat.strong_induction_on generalizing s v rest with
  | _ n ih =>
    subst hn
    match s, h with
    | [], h => rw [readLiteral] at h; cases h
    | c :: s, h =>
      by_cases hc : c = '\''
      · subst hc
        by_cases hq : NotQuote '\'' s
        · rw [readLiteral_closed hq] at h
          cases h
          simp only [List.map_nil, List.sum_nil, List.length_cons]
          omega
        · obtain ⟨s', rfl⟩ := not_forall_not.mp hq
          rw [readLiteral_quoted] at h
          obtain ⟨⟨v', rest'⟩, hread, heq⟩ := Option.map_eq_some_iff.mp h
          cases heq
          have hrec := ih _ (by simp only [List.length_cons]; omega) hread rfl
          have hcost := literalCost_le standard '\''
          simp only [List.map_cons, List.sum_cons, List.length_cons] at hrec ⊢
          omega
      · by_cases hesc : c = '\\' ∧ standard = false
        · obtain ⟨rfl, rfl⟩ := hesc
          rw [readLiteral_escaped] at h
          obtain ⟨⟨d, s'⟩, hesc, h⟩ := Option.bind_eq_some_iff.mp h
          obtain ⟨⟨v', rest'⟩, hread, heq⟩ := Option.map_eq_some_iff.mp h
          cases heq
          have hlt := E.shrinks _ _ _ hesc
          have hrec := ih _ (by simp only [List.length_cons]; omega) hread rfl
          have hcost := literalCost_le false d
          simp only [List.map_cons, List.sum_cons, List.length_cons] at hrec ⊢
          omega
        · rw [readLiteral_plain hc hesc] at h
          obtain ⟨⟨v', rest'⟩, hread, heq⟩ := Option.map_eq_some_iff.mp h
          cases heq
          have hrec := ih _ (by simp) hread rfl
          have hcost : literalCost standard c = 1 := if_neg (not_or.mpr ⟨hc, hesc⟩)
          simp only [List.map_cons, List.sum_cons, List.length_cons, hcost] at hrec ⊢
          omega

lemma length_of_afterWord {word : Text} (h : afterWord word s = some rest) :
    s.length = word.length + rest.length := by
  unfold afterWord at h
  split_ifs at h with hpre
  cases h
  have hle := (List.isPrefixOf_iff_prefix.mp hpre).length_le
  rw [List.length_drop]
  omega

/-- A statement that is read is as long as it must be, and has a name that fits. -/
lemma readSet_length (h : readSet E standard s = some (p, rest)) :
    setCost standard p + rest.length ≤ s.length ∧ FitName p.name := by
  unfold readSet at h
  obtain ⟨s₁, h₁, h⟩ := Option.bind_eq_some_iff.mp h
  obtain ⟨⟨name, s₂⟩, h₂, h⟩ := Option.bind_eq_some_iff.mp h
  dsimp only at h
  split_ifs at h with hname
  obtain ⟨s₃, h₃, h⟩ := Option.bind_eq_some_iff.mp h
  obtain ⟨⟨value, s₄⟩, h₄, h⟩ := Option.bind_eq_some_iff.mp h
  cases h
  have hset := length_of_afterWord h₁
  have hident := readIdent_length h₂
  have heq := length_of_afterWord h₃
  have hlit := readLiteral_length h₄
  have h5 : "SET \"".toList.length = 5 := by decide
  have h4 : " = '".toList.length = 4 := by decide
  -- what has been cut off costs nothing
  have hcut : ((clip maxIdent name).map identCost).sum ≤ (name.map identCost).sum :=
    ((clip_isPrefixOf maxIdent name).sublist.map identCost).sum_le_sum fun _ _ => Nat.zero_le _
  refine ⟨?_, clip_ne_nil hname, byteLength_clip_le _ _⟩
  simp only [setCost]
  omega

/-- The characters of a whole script, the semicolons included. -/
def scriptCost (standard : Bool) (ps : List ParamText) : ℕ :=
  (ps.map (setCost standard)).sum + (ps.length - 1)

lemma Reads.length_le {ps : List ParamText} (h : Reads E standard s ps) :
    scriptCost standard ps ≤ s.length ∧ ∀ p ∈ ps, FitName p.name := by
  induction h with
  | none => exact ⟨le_rfl, by simp⟩
  | last h =>
    obtain ⟨hlen, hname⟩ := readSet_length h
    refine ⟨?_, by simpa using hname⟩
    simpa [scriptCost] using hlen
  | more h _ ih =>
    obtain ⟨hlen, hname⟩ := readSet_length h
    refine ⟨?_, ?_⟩
    · have := ih.1
      simp only [scriptCost, List.map_cons, List.sum_cons, List.length_cons] at this hlen ⊢
      omega
    · intro p' hp'
      rcases List.mem_cons.mp hp' with rfl | hp'
      · exact hname
      · exact ih.2 p' hp'

/-! ## The script that is sent -/

lemma length_double (q : Char) (s : Text) :
    (double q s).length = (s.map fun c => if c = q then 2 else 1).sum := by
  induction s with
  | nil => rfl
  | cons c s ih =>
    rw [double_cons, List.length_append, ih, List.map_cons, List.sum_cons]
    split <;> rfl

lemma length_setStatement (p : ParamText) : (setStatement p).length = setCost true p := by
  have hlit : (literalCost true) = fun c => if c = '\'' then 2 else 1 := by
    funext c
    simp [literalCost]
  have hid : identCost = fun c => if c = '"' then 2 else 1 := rfl
  simp only [setStatement_eq, quoted, List.length_append, List.length_cons,
    List.length_nil, length_double, setCost, hlit, hid]
  have h4 : "SET ".toList.length = 4 := by decide
  have h3 : " = ".toList.length = 3 := by decide
  omega

lemma length_setQuery : ∀ ps : List ParamText, (setQuery ps).length = scriptCost true ps
  | [] => rfl
  | [p] => by simp [setQuery, scriptCost, length_setStatement]
  | p :: q :: ps => by
    have ih := length_setQuery (q :: ps)
    rw [setQuery, List.length_append, List.length_cons, ih, length_setStatement]
    · simp only [scriptCost, List.map_cons, List.sum_cons, List.length_cons]
      omega
    · exact List.cons_ne_nil _ _

lemma literalCost_mono (c : Char) : literalCost true c ≤ literalCost false c := by
  unfold literalCost
  split_ifs <;> simp_all

lemma setCost_mono (p : ParamText) : setCost true p ≤ setCost false p :=
  Nat.add_le_add_left (List.sum_le_sum fun c _ => literalCost_mono c) _

/-- A backslash makes the difference. -/
lemma setCost_lt (h : '\\' ∈ p.value) : setCost true p < setCost false p := by
  refine Nat.add_lt_add_left (List.sum_lt_sum _ _ (fun c _ => literalCost_mono c) ?_) _
  exact ⟨'\\', h, by decide⟩

/-- The characters that are sent are read back just when nothing in them is escaped. -/
lemma reads_setQuery_iff (ps : List ParamText) :
    Reads E standard (setQuery ps) ps ↔
      (∀ p ∈ ps, FitName p.name) ∧ (standard = true ∨ ∀ p ∈ ps, '\\' ∉ p.value) := by
  constructor
  · intro h
    obtain ⟨hcost, hname⟩ := h.length_le
    refine ⟨hname, ?_⟩
    cases standard with
    | true => exact .inl rfl
    | false =>
      refine .inr fun p hp hmem => ?_
      rw [length_setQuery] at hcost
      have hlt : (ps.map (setCost true)).sum < (ps.map (setCost false)).sum :=
        List.sum_lt_sum _ _ (fun q _ => setCost_mono q) ⟨p, hp, setCost_lt hmem⟩
      unfold scriptCost at hcost
      omega
  · rintro ⟨hname, hvalue⟩
    exact reads_setQuery hname hvalue

/-- **Parameters are replayed as they are** just when every name has between one byte and 63 and,
unless `standard_conforming_strings` is on, none has a backslash in its value. -/
theorem params_replayed_iff (E : Escapes) (standard : Bool) (ps : List TrackedParam) :
    Reads E standard (Relay.setBatch ps).toList (ps.map TrackedParam.text) ↔
      (∀ p ∈ ps, p.name ≠ "" ∧ byteLength p.name.toList ≤ maxIdent) ∧
        (standard = true ∨ ∀ p ∈ ps, '\\' ∉ p.value.toList) := by
  rw [toList_setBatch, reads_setQuery_iff]
  simp [TrackedParam.text, FitName]

/-- Behind a backslash, every character stands for itself. -/
def selfEscapes : Escapes where
  read
    | [] => none
    | c :: s => some (c, s)
  shrinks
    | [], _, _, h => nomatch h
    | _ :: s, _, _, h => by cases h; exact Nat.lt_succ_self _

/-- An application name that ends in a backslash takes the quote with it: what is sent is not a
sequence of two assignments. -/
theorem trailing_backslash_escapes :
    let ps : List TrackedParam := [⟨"application_name", "x\\"⟩,
      ⟨"search_path", " ; DROP TABLE t --"⟩]
    ¬Reads selfEscapes false (Relay.setBatch ps).toList (ps.map TrackedParam.text) := by
  intro ps h
  rw [toList_setBatch] at h
  have hcost := h.length_le.1
  rw [length_setQuery] at hcost
  revert hcost
  decide

end Pgman
