import Mathlib.Algebra.Group.Nat.Even
import Pgman.Properties.HbaFile

/-!
# Commas of a rule line

White space before a comma ends the field, and the comma opens it again; white space after a comma
is skipped.  Either way the tokenizer stands, after the comma, where it would stand without the
white space (`run_spaces_comma`, `run_comma_spaces`), so that no suffix can tell the two lines
apart.

The invariant `Shaped` is what this rests on: a field that is open while no item is being built has
been kept open by a comma.
-/

namespace Pgman

open Net (Text)

/-- A bare item is a word. -/
def HBAItem.Plain (i : HBAItem) : Prop := i.quoted = false → i.value ≠ [] ∧ ∀ c ∈ i.value, Bare c

namespace Tokenizer

variable {t : Tokenizer} {c : Char} {u w : Text}

/-- What holds of the variables of `tokenizeHBALine` between two characters. -/
structure Shaped (t : Tokenizer) : Prop where
  inQuotes : t.inQuotes = true → t.quoted = true ∧ t.started = true
  started : t.started = true → t.afterComma = false
  kept : t.cur ≠ [] → t.started = false → t.afterComma = true
  unstarted : t.started = false → t.item = [] ∧ t.quoted = false
  bare : t.quoted = false → ∀ c ∈ t.item, Bare c
  word : t.started = true → t.quoted = false → t.item ≠ []
  cur : ∀ i ∈ t.cur, i.Plain
  fields : ∀ f ∈ t.fields, f ≠ [] ∧ ∀ i ∈ f, i.Plain

lemma shaped_start : Shaped start where
  inQuotes := by simp [start]
  started := by simp [start]
  kept := by simp [start]
  unstarted := by simp [start]
  bare := by simp [start]
  word := by simp [start]
  cur := by simp [start]
  fields := by simp [start]

/-- The item that `endItem` stores. -/
lemma Shaped.plain (h : Shaped t) (hstarted : t.started = true) :
    HBAItem.Plain ⟨t.item, t.quoted⟩ :=
  fun hquoted => ⟨h.word hstarted hquoted, h.bare hquoted⟩

lemma Shaped.plain_endItem (h : Shaped t) (hstarted : t.started = true) :
    ∀ i ∈ t.cur ++ [⟨t.item, t.quoted⟩], HBAItem.Plain i := by
  intro i hi
  rcases List.mem_append.mp hi with hi | hi
  · exact h.cur i hi
  · rw [List.mem_singleton.mp hi]
    exact h.plain hstarted

/-! ## One character -/

lemma step_quoted (hq : t.inQuotes = true) (hc : c ≠ '"') :
    t.step c = { t with item := t.item ++ [c], started := true } := by
  rw [step, if_pos hq, if_neg hc]

lemma step_close (hq : t.inQuotes = true) : t.step '"' = { t with inQuotes := false } := by
  rw [step, if_pos hq, if_pos rfl]

lemma step_open (hq : t.inQuotes = false) : t.step '"' =
    { t with inQuotes := true, quoted := true, started := true, afterComma := false } := by
  rw [step, if_neg (by simp [hq]), if_pos rfl]

lemma step_comma (hq : t.inQuotes = false) : t.step ',' =
    { (if t.started then t.endItem else t.reopen) with afterComma := true } := by
  rw [step, if_neg (by simp [hq]), if_neg (by decide), if_pos rfl]

lemma step_space (hq : t.inQuotes = false) (hc : isSpace c = true) :
    t.step c = if t.endStarted.afterComma then t.endStarted else t.endStarted.endField := by
  have hquote : c ≠ '"' := by
    rintro rfl
    exact absurd hc (by decide)
  have hcomma : c ≠ ',' := by
    rintro rfl
    exact absurd hc (by decide)
  rw [step, if_neg (by simp [hq]), if_neg hquote, if_neg hcomma, if_pos hc]

/-- White space after an item ends the field. -/
lemma step_space_started (h : Shaped t) (hq : t.inQuotes = false) (hs : t.started = true)
    (hc : isSpace c = true) : t.step c = ⟨t.fields ++ [t.cur ++ [⟨t.item, t.quoted⟩]], [], [],
      false, false, false, false⟩ := by
  have hcomma := h.started hs
  rw [step_space hq hc]
  simp [endStarted, endItem, endField, hs, hcomma, hq]

/-- White space elsewhere changes nothing. -/
lemma step_space_unstarted (h : Shaped t) (hq : t.inQuotes = false) (hs : t.started = false)
    (hc : isSpace c = true) : t.step c = t := by
  have hend : t.endStarted = t := by rw [endStarted, if_neg (by simp [hs])]
  rw [step_space hq hc, hend]
  split
  · rfl
  next hcomma =>
    have hcur : t.cur = [] := by
      by_contra hne
      exact hcomma (h.kept hne hs)
    rw [endField, hend]
    exact if_pos hcur

/-- The comma ends the item, if there is one. -/
lemma step_comma_started (hq : t.inQuotes = false) (hs : t.started = true) : t.step ',' =
    ⟨t.fields, t.cur ++ [⟨t.item, t.quoted⟩], [], false, false, false, true⟩ := by
  rw [step_comma hq, if_pos hs, endItem, hq]

lemma step_comma_unstarted (hq : t.inQuotes = false) (hs : t.started = false) :
    t.step ',' = { t.reopen with afterComma := true } := by
  rw [step_comma hq, if_neg (by simp [hs])]

/-- Opening the previous field again touches the fields only. -/
lemma reopen_cases (t : Tokenizer) : t.reopen = t ∨
    ∃ last, t.fields.getLast? = some last ∧
      t.reopen = { t with cur := last, fields := t.fields.dropLast } := by
  unfold reopen
  split
  next last _ hlast => exact .inr ⟨last, hlast, rfl⟩
  next => exact .inl rfl

/-! ## The invariant -/

lemma Shaped.quoted_char (h : Shaped t) (hq : t.inQuotes = true) (r : Char) :
    Shaped { t with item := t.item ++ [r], started := true } where
  inQuotes _ := ⟨(h.inQuotes hq).1, rfl⟩
  started _ := h.started (h.inQuotes hq).2
  kept _ hs := by cases hs
  unstarted hs := by cases hs
  bare hquoted := absurd (h.inQuotes hq).1 (Bool.eq_false_iff.mp hquoted)
  word _ hquoted := absurd (h.inQuotes hq).1 (Bool.eq_false_iff.mp hquoted)
  cur := h.cur
  fields := h.fields

lemma Shaped.close (h : Shaped t) : Shaped { t with inQuotes := false } where
  inQuotes hq := by cases hq
  started := h.started
  kept := h.kept
  unstarted := h.unstarted
  bare := h.bare
  word := h.word
  cur := h.cur
  fields := h.fields

lemma Shaped.open (h : Shaped t) :
    Shaped { t with inQuotes := true, quoted := true, started := true, afterComma := false } where
  inQuotes _ := ⟨rfl, rfl⟩
  started _ := rfl
  kept _ hs := by cases hs
  unstarted hs := by cases hs
  bare hquoted := by cases hquoted
  word _ hquoted := by cases hquoted
  cur := h.cur
  fields := h.fields

lemma Shaped.bare_char (h : Shaped t) (hq : t.inQuotes = false) (hc : Bare c) :
    Shaped { t with item := t.item ++ [c], started := true, afterComma := false } where
  inQuotes hin := absurd hin (by simp [hq])
  started _ := rfl
  kept _ hs := by cases hs
  unstarted hs := by cases hs
  bare hquoted := by
    intro r hr
    rcases List.mem_append.mp hr with hr | hr
    · exact h.bare hquoted r hr
    · exact List.mem_singleton.mp hr ▸ hc
  word _ _ := List.append_ne_nil_of_right_ne_nil _ (List.cons_ne_nil _ _)
  cur := h.cur
  fields := h.fields

/-- Between two items: nothing is being built, and a comma keeps an open field. -/
lemma shaped_between {fields : List (List HBAItem)} {cur : List HBAItem} {comma : Bool}
    (hkept : cur ≠ [] → comma = true) (hcur : ∀ i ∈ cur, i.Plain)
    (hfields : ∀ f ∈ fields, f ≠ [] ∧ ∀ i ∈ f, i.Plain) : Shaped (between fields cur comma) where
  inQuotes hq := by cases hq
  started hs := by cases hs
  kept hne _ := hkept hne
  unstarted _ := ⟨rfl, rfl⟩
  bare _ := by simp [between]
  word hs := by cases hs
  cur := hcur
  fields := hfields

lemma Shaped.eq_between (h : Shaped t) (hq : t.inQuotes = false) (hs : t.started = false) :
    t = between t.fields t.cur t.afterComma := by
  obtain ⟨hitem, hquoted⟩ := h.unstarted hs
  obtain ⟨fields, cur, item, quoted, inQuotes, started, afterComma⟩ := t
  cases hq
  cases hs
  cases hitem
  cases hquoted
  rfl

lemma Shaped.comma (h : Shaped t) (hq : t.inQuotes = false) : Shaped (t.step ',') := by
  rcases hs : t.started with _ | _
  · rw [step_comma_unstarted hq hs]
    rw [h.eq_between hq hs]
    rcases reopen_cases (between t.fields t.cur t.afterComma) with heq | ⟨last, hlast, heq⟩
    · rw [heq]
      exact shaped_between (fun _ => rfl) h.cur h.fields
    · rw [heq]
      have hmem : last ∈ t.fields := List.mem_of_getLast? hlast
      refine shaped_between (fun _ => rfl) (h.fields last hmem).2 ?_
      intro f hf
      exact h.fields f (List.dropLast_subset _ hf)
  · rw [step_comma_started hq hs]
    exact shaped_between (fun _ => rfl) (h.plain_endItem hs) h.fields

lemma Shaped.space (h : Shaped t) (hq : t.inQuotes = false) (hc : isSpace c = true) :
    Shaped (t.step c) := by
  rcases hs : t.started with _ | _
  · rw [step_space_unstarted h hq hs hc]
    exact h
  · rw [step_space_started h hq hs hc]
    refine shaped_between (fun hne => absurd rfl hne) (List.forall_mem_nil _) ?_
    intro f hf
    rcases List.mem_append.mp hf with hf | hf
    · exact h.fields f hf
    · rw [List.mem_singleton.mp hf]
      exact ⟨List.append_ne_nil_of_right_ne_nil _ (List.cons_ne_nil _ _), h.plain_endItem hs⟩

lemma Shaped.step (h : Shaped t) (c : Char) : Shaped (t.step c) := by
  rcases hq : t.inQuotes with _ | _
  · by_cases hquote : c = '"'
    · subst hquote
      rw [step_open hq]
      exact h.open
    by_cases hcomma : c = ','
    · subst hcomma
      exact h.comma hq
    rcases hc : isSpace c with _ | _
    · rw [step_bare ⟨hquote, hcomma, hc⟩ t hq]
      exact h.bare_char hq ⟨hquote, hcomma, hc⟩
    · exact h.space hq hc
  · by_cases hquote : c = '"'
    · subst hquote
      rw [step_close hq]
      exact h.close
    · rw [step_quoted hq hquote]
      exact h.quoted_char hq c

lemma Shaped.run (h : Shaped t) (u : Text) : Shaped (u.foldl Tokenizer.step t) := by
  induction u generalizing t with
  | nil => exact h
  | cons c u ih => exact ih (h.step c)

/-! ## Quotes -/

lemma inQuotes_endStarted (t : Tokenizer) : t.endStarted.inQuotes = t.inQuotes := by
  unfold endStarted endItem
  split_ifs <;> rfl

lemma inQuotes_endField (t : Tokenizer) : t.endField.inQuotes = t.inQuotes := by
  rw [← inQuotes_endStarted t, endField]
  split_ifs <;> rfl

lemma inQuotes_reopen (t : Tokenizer) : t.reopen.inQuotes = t.inQuotes := by
  rcases reopen_cases t with heq | ⟨_, _, heq⟩ <;> rw [heq]

/-- Only a quote enters or leaves the quotes. -/
lemma inQuotes_step (t : Tokenizer) (c : Char) :
    (t.step c).inQuotes = (t.inQuotes ^^ (c == '"')) := by
  rcases hq : t.inQuotes with _ | _
  · by_cases hquote : c = '"'
    · subst hquote
      rw [step_open hq]
      rfl
    have hbeq : (c == '"') = false := beq_eq_false_iff_ne.mpr hquote
    rw [hbeq, step, if_neg (by simp [hq]), if_neg hquote]
    dsimp only
    split_ifs
    · exact hq
    · exact (inQuotes_reopen t).trans hq
    · exact (inQuotes_endStarted t).trans hq
    · exact (inQuotes_endField _).trans ((inQuotes_endStarted t).trans hq)
    · exact hq
  · by_cases hquote : c = '"'
    · subst hquote
      rw [step_close hq]
      rfl
    · rw [step_quoted hq hquote, beq_eq_false_iff_ne.mpr hquote]
      exact hq

/-- The tokenizer is outside the quotes exactly after an even number of them. -/
lemma inQuotes_run (u : Text) (t : Tokenizer) :
    (u.foldl step t).inQuotes = (t.inQuotes ^^ decide (u.count '"' % 2 = 1)) := by
  induction u generalizing t with
  | nil => simp
  | cons c u ih =>
    rw [List.foldl_cons, ih, inQuotes_step, List.count_cons, Bool.xor_assoc]
    congr 1
    rcases Nat.mod_two_eq_zero_or_one (u.count '"') with hu | hu
    · by_cases hquote : c = '"'
      · simp [hquote, hu, Nat.add_mod]
      · simp [hquote, hu]
    · by_cases hquote : c = '"'
      · simp [hquote, hu, Nat.add_mod]
      · simp [hquote, hu]

/-! ## White space around a comma -/

lemma step_space_comma (h : Shaped t) (hq : t.inQuotes = false) (hc : isSpace c = true) :
    (t.step c).step ',' = t.step ',' := by
  rcases hs : t.started with _ | _
  · rw [step_space_unstarted h hq hs hc]
  · -- the field that the white space ends is the last one, and the comma opens it again
    rw [step_space_started h hq hs hc, step_comma_started hq hs, step_comma_unstarted rfl rfl]
    simp [reopen]

lemma run_spaces_comma (h : Shaped t) (hq : t.inQuotes = false) (hw : Spaces w) :
    (w.foldl step t).step ',' = t.step ',' := by
  induction w generalizing t with
  | nil => rfl
  | cons c w ih =>
    have hc : isSpace c = true := hw c List.mem_cons_self
    have hout : (t.step c).inQuotes = false := by
      rw [inQuotes_step, hq, beq_eq_false_iff_ne.mpr]
      · rfl
      · rintro rfl
        exact absurd hc (by decide)
    rw [List.foldl_cons, ih (h.step c) hout fun r hr => hw r (List.mem_cons_of_mem _ hr)]
    exact step_space_comma h hq hc

lemma started_step_comma (hq : t.inQuotes = false) : (t.step ',').started = false := by
  rcases hs : t.started with _ | _
  · rw [step_comma_unstarted hq hs]
    rcases reopen_cases t with heq | ⟨_, _, heq⟩ <;> rw [heq] <;> exact hs
  · rw [step_comma_started hq hs]

lemma run_comma_spaces (h : Shaped t) (hq : t.inQuotes = false) (hw : Spaces w) :
    w.foldl step (t.step ',') = t.step ',' := by
  have hout : (t.step ',').inQuotes = false := by
    rw [inQuotes_step, hq]
    rfl
  induction w with
  | nil => rfl
  | cons c w ih =>
    have hc : isSpace c = true := hw c List.mem_cons_self
    rw [List.foldl_cons, step_space_unstarted (h.step ',') hout (started_step_comma hq) hc]
    exact ih fun r hr => hw r (List.mem_cons_of_mem _ hr)

lemma Shaped.endField (h : Shaped t) :
    ∀ f ∈ t.endField.fields, f ≠ [] ∧ ∀ i ∈ f, i.Plain := by
  have hcur : ∀ i ∈ t.endStarted.cur, i.Plain := by
    rw [endStarted]
    split
    next hs => exact h.plain_endItem hs
    next => exact h.cur
  have hfields : t.endStarted.fields = t.fields := by
    rw [endStarted]
    split <;> rfl
  intro f hf
  unfold Tokenizer.endField at hf
  dsimp only at hf
  split at hf
  · exact h.fields f (hfields ▸ hf)
  next hne =>
    rcases List.mem_append.mp hf with hf | hf
    · exact h.fields f (hfields ▸ hf)
    · rw [List.mem_singleton.mp hf]
      exact ⟨hne, hcur⟩

end Tokenizer

/-- **White space around a comma** never changes a line, and the fields of a line are lists of
items of which the bare ones are words. -/
theorem spaces_around_comma :
    (∀ u v w₁ w₂ : Text, Even (u.count '"') → Spaces w₁ → Spaces w₂ →
      tokenizeHBALine (u ++ w₁ ++ ',' :: (w₂ ++ v)) = tokenizeHBALine (u ++ ',' :: v)) ∧
    ∀ raw fields, tokenizeHBALine raw = .ok fields →
      ∀ f ∈ fields, f ≠ [] ∧ ∀ i ∈ f, i.quoted = false →
        i.value ≠ [] ∧ ∀ c ∈ i.value, isSpace c = false ∧ c ≠ ',' ∧ c ≠ '"' := by
  constructor
  · intro u v w₁ w₂ hclosed hw₁ hw₂
    have hshaped := Tokenizer.shaped_start.run u
    have hout : (u.foldl Tokenizer.step .start).inQuotes = false := by
      rw [Tokenizer.inQuotes_run, Nat.even_iff.mp hclosed]
      rfl
    have hstate : (u ++ w₁ ++ ',' :: (w₂ ++ v)).foldl Tokenizer.step .start =
        (u ++ ',' :: v).foldl Tokenizer.step .start := by
      rw [List.foldl_append, List.foldl_append, List.foldl_cons, List.foldl_append,
        Tokenizer.run_spaces_comma hshaped hout hw₁, Tokenizer.run_comma_spaces hshaped hout hw₂,
        List.foldl_append, List.foldl_cons]
    rw [tokenizeHBALine, tokenizeHBALine, hstate]
  · intro raw fields hok f hf
    rw [tokenizeHBALine] at hok
    split at hok
    · cases hok
    · obtain rfl := Except.ok.inj hok
      obtain ⟨hne, hplain⟩ := (Tokenizer.shaped_start.run raw).endField f hf
      refine ⟨hne, fun i hi hbare => ?_⟩
      obtain ⟨hword, hchars⟩ := hplain i hi hbare
      refine ⟨hword, fun c hc => ?_⟩
      obtain ⟨hquote, hcomma, hspace⟩ := hchars c hc
      exact ⟨hspace, hcomma, hquote⟩

/-- A quoted item before the comma, a tab and blanks around it. -/
theorem spaces_around_comma_quoted :
    tokenizeHBALine "\"a b\"\t,  c d".toList = tokenizeHBALine "\"a b\",c d".toList ∧
      ∀ f ∈ [[⟨"a b".toList, true⟩, ⟨"c".toList, false⟩], [⟨"d".toList, false⟩]],
        f ≠ [] ∧ ∀ i ∈ f, HBAItem.quoted i = false →
          i.value ≠ [] ∧ ∀ c ∈ i.value, isSpace c = false ∧ c ≠ ',' ∧ c ≠ '"' :=
  ⟨spaces_around_comma.1 "\"a b\"".toList "c d".toList "\t".toList "  ".toList
      (by decide) (by decide) (by decide),
    spaces_around_comma.2 "\"a b\"\t,  c d".toList _ (by decide)⟩

end Pgman
