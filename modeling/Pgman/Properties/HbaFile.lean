import Pgman.Construction.Auth.Hba

/-!
# The host-based rules

A rule file says what it looks like it says.  The module has two halves.

The first is about texts.  `LineText` relates the fields of a line to the ways of writing them:
items quoted or bare, lists with commas and any white space around them, fields with white space
between them.  The tokenizer is its inverse (`tokenize_laid`).  `Rule` is a rule as its author has
it in mind, `Rule.Written` says that a line is a way to write it, and `loadHBAFile` returns the
rules of a file in order, each with its line number, whatever comments and blank lines stand in
between.

The second is about connections.  `Rule.Matches` and `HBAMethod.Grants` say what a rule and its
method mean, without the code's order of tests, and `authenticate_iff` says that `HBAAuth` lets in
those clients for which a rule matches, no earlier one does, and its method grants access.

The main result is `hba_file_means_what_it_says`.  A line `local DATABASE USER METHOD`, which the
documentation of the format allows, is no such rule: `local_line_is_refused`.
-/

namespace Pgman

open Net (Text IP IPNet Byte)

/-! ## How a line is written -/

def Spaces (g : Text) : Prop := ∀ c ∈ g, isSpace c = true

/-- What stands between two items of a list: a comma, and white space around it. -/
def ListGap (g : Text) : Prop := (∀ c ∈ g, isSpace c = true ∨ c = ',') ∧ ',' ∈ g

/-- A character that needs no quotes. -/
def Bare (c : Char) : Prop := c ≠ '"' ∧ c ≠ ',' ∧ isSpace c = false

instance (g : Text) : Decidable (Spaces g) := inferInstanceAs (Decidable (∀ c ∈ g, _))

instance (g : Text) : Decidable (ListGap g) := inferInstanceAs (Decidable (_ ∧ _))

instance (c : Char) : Decidable (Bare c) := inferInstanceAs (Decidable (_ ∧ _))

inductive ItemText : HBAItem → Text → Prop
  | quoted {v : Text} (h : '"' ∉ v) : ItemText ⟨v, true⟩ ('"' :: (v ++ ['"']))
  | bare {v : Text} (hne : v ≠ []) (h : ∀ c ∈ v, Bare c) : ItemText ⟨v, false⟩ v

inductive FieldText : List HBAItem → Text → Prop
  | one {i : HBAItem} {t : Text} (h : ItemText i t) : FieldText [i] t
  | more {i : HBAItem} {is : List HBAItem} {t g ts : Text} (h : ItemText i t) (hg : ListGap g)
      (hs : FieldText is ts) : FieldText (i :: is) (t ++ g ++ ts)

inductive LineText : List (List HBAItem) → Text → Prop
  | one {f : List HBAItem} {t : Text} (h : FieldText f t) : LineText [f] t
  | more {f : List HBAItem} {fs : List (List HBAItem)} {t g ts : Text} (h : FieldText f t)
      (hg : Spaces g) (hne : g ≠ []) (hs : LineText fs ts) : LineText (f :: fs) (t ++ g ++ ts)

/-- The fields, laid out on a line. -/
def Laid (fields : List (List HBAItem)) (text : Text) : Prop :=
  ∃ lead body trail, Spaces lead ∧ LineText fields body ∧ Spaces trail ∧
    text = lead ++ body ++ trail

/-! ## The tokenizer inverts the layout -/

namespace Tokenizer

variable {fields : List (List HBAItem)} {cur : List HBAItem} {i : HBAItem} {g t v w : Text}
  {comma : Bool}

/-- Between two items; `comma` says that the field goes on. -/
def between (fields : List (List HBAItem)) (cur : List HBAItem) (comma : Bool) : Tokenizer :=
  ⟨fields, cur, [], false, false, false, comma⟩

/-- At the end of an item. -/
def pending (fields : List (List HBAItem)) (cur : List HBAItem) (i : HBAItem) : Tokenizer :=
  ⟨fields, cur, i.value, i.quoted, false, true, false⟩

lemma isSpace_quote : isSpace '"' = false := by decide

lemma isSpace_comma : isSpace ',' = false := by decide

lemma run_inQuotes (h : '"' ∉ v) :
    v.foldl step ⟨fields, cur, w, true, true, true, false⟩ =
      ⟨fields, cur, w ++ v, true, true, true, false⟩ := by
  induction v generalizing w with
  | nil => simp
  | cons c v ih =>
    have hc : c ≠ '"' := fun hc => h (by simp [hc])
    have hv : '"' ∉ v := fun hv => h (by simp [hv])
    simp only [List.foldl_cons, step, if_true, if_neg hc]
    rw [ih hv, List.append_assoc]
    rfl

lemma step_bare {c : Char} (h : Bare c) (tk : Tokenizer) (hq : tk.inQuotes = false) :
    tk.step c = { tk with item := tk.item ++ [c], started := true, afterComma := false } := by
  obtain ⟨h1, h2, h3⟩ := h
  simp [step, hq, h1, h2, h3]

lemma run_bare (h : ∀ c ∈ v, Bare c) :
    v.foldl step ⟨fields, cur, w, false, false, true, false⟩ =
      ⟨fields, cur, w ++ v, false, false, true, false⟩ := by
  induction v generalizing w with
  | nil => simp
  | cons c v ih =>
    rw [List.foldl_cons, step_bare (h c (by simp)) _ rfl]
    exact (ih fun c' hc' => h c' (by simp [hc'])).trans (by simp)

lemma run_item (h : ItemText i t) :
    t.foldl step (between fields cur comma) = pending fields cur i := by
  cases h with
  | quoted h =>
    rename_i v
    rw [List.foldl_cons, List.foldl_append]
    have hopen : (between fields cur comma).step '"' =
        ⟨fields, cur, [], true, true, true, false⟩ := by simp [step, between]
    rw [hopen, run_inQuotes h]
    simp [step, pending]
  | bare hne h =>
    cases t with
    | nil => exact absurd rfl hne
    | cons c v =>
      rw [List.foldl_cons, step_bare (h c (by simp)) _ rfl]
      exact run_bare fun c' hc' => h c' (by simp [hc'])

lemma run_spaces (h : Spaces g) :
    g.foldl step (between fields [] false) = between fields [] false := by
  induction g with
  | nil => rfl
  | cons c g ih =>
    have hc := h c (by simp)
    have h1 : c ≠ '"' := fun he => by rw [he, isSpace_quote] at hc; cases hc
    have h2 : c ≠ ',' := fun he => by rw [he, isSpace_comma] at hc; cases hc
    have hstep : (between fields [] false).step c = between fields [] false := by
      simp [step, between, h1, h2, hc, endStarted, endField]
    rw [List.foldl_cons, hstep]
    exact ih fun c' hc' => h c' (by simp [hc'])

/-- White space after an item ends its field. -/
lemma run_gap (h : Spaces g) (hne : g ≠ []) :
    g.foldl step (pending fields cur i) = between (fields ++ [cur ++ [i]]) [] false := by
  cases g with
  | nil => exact absurd rfl hne
  | cons c g =>
    have hc := h c (by simp)
    have h1 : c ≠ '"' := fun he => by rw [he, isSpace_quote] at hc; cases hc
    have h2 : c ≠ ',' := fun he => by rw [he, isSpace_comma] at hc; cases hc
    have hstep : (pending fields cur i).step c = between (fields ++ [cur ++ [i]]) [] false := by
      simp [step, pending, between, h1, h2, hc, endStarted, endItem, endField]
    rw [List.foldl_cons, hstep]
    exact run_spaces fun c' hc' => h c' (by simp [hc'])

/-- After its comma a field stays open. -/
lemma run_open (h : ∀ c ∈ g, isSpace c = true ∨ c = ',') (hcur : cur ≠ []) :
    g.foldl step (between fields cur true) = between fields cur true := by
  induction g with
  | nil => rfl
  | cons c g ih =>
    have hreopen : (between fields cur true).reopen = between fields cur true := by
      unfold reopen
      split
      · rename_i hnil _
        exact absurd hnil hcur
      · rfl
    have hstep : (between fields cur true).step c = between fields cur true := by
      rcases h c (by simp) with hc | rfl
      · have h1 : c ≠ '"' := fun he => by rw [he, isSpace_quote] at hc; cases hc
        have h2 : c ≠ ',' := fun he => by rw [he, isSpace_comma] at hc; cases hc
        simp [step, between, h1, h2, hc, endStarted]
      · show { (between fields cur true).reopen with afterComma := true } = _
        rw [hreopen]
        rfl
    rw [List.foldl_cons, hstep]
    exact ih fun c' hc' => h c' (by simp [hc'])

/-- A comma keeps the field of the item before it open, or opens it again. -/
lemma run_listGap (h : ListGap g) :
    g.foldl step (pending fields cur i) = between fields (cur ++ [i]) true := by
  obtain ⟨pre, post, rfl, hpre⟩ := List.eq_append_cons_of_mem h.2
  have hspaces : Spaces pre := fun c hc =>
    (h.1 c (by simp [hc])).resolve_right fun he => hpre (he ▸ hc)
  have hcomma : (pre.foldl step (pending fields cur i)).step ',' =
      between fields (cur ++ [i]) true := by
    by_cases hnil : pre = []
    · subst hnil
      simp [step, pending, between, endItem]
    · rw [run_gap hspaces hnil]
      simp [step, between, reopen]
  rw [List.foldl_append, List.foldl_cons, hcomma]
  exact run_open (fun c hc => h.1 c (by simp [hc])) (by simp)

lemma run_field (fields : List (List HBAItem)) {f : List HBAItem} (h : FieldText f t) :
    ∀ (cur : List HBAItem) (comma : Bool), ∃ init i, f = init ++ [i] ∧
      t.foldl step (between fields cur comma) = pending fields (cur ++ init) i := by
  induction h with
  | one h => exact fun cur comma => ⟨[], _, rfl, by simpa using run_item h⟩
  | @more i is t g ts h hg hs ih =>
    intro cur comma
    obtain ⟨init, j, rfl, hrun⟩ := ih (cur ++ [i]) true
    refine ⟨i :: init, j, rfl, ?_⟩
    rw [List.foldl_append, List.foldl_append, run_item h, run_listGap hg, hrun]
    simp

lemma run_line {fs : List (List HBAItem)} (h : LineText fs t) :
    ∀ fields : List (List HBAItem), ∃ init cur i, fields ++ fs = init ++ [cur ++ [i]] ∧
      t.foldl step (between fields [] false) = pending init cur i := by
  induction h with
  | one h =>
    intro fields
    obtain ⟨init, i, rfl, hrun⟩ := run_field fields h [] false
    exact ⟨fields, init, i, rfl, by simpa using hrun⟩
  | @more f fs t g ts h hg hne hs ih =>
    intro fields
    obtain ⟨init, i, rfl, hrun⟩ := run_field fields h [] false
    obtain ⟨init', cur, j, heq, hrun'⟩ := ih (fields ++ [init ++ [i]])
    refine ⟨init', cur, j, by rw [← heq]; simp, ?_⟩
    rw [List.foldl_append, List.foldl_append, hrun, run_gap hg hne]
    exact hrun'

end Tokenizer

/-- **The tokenizer** reads off a line the fields that are laid out on it. -/
theorem tokenize_laid {fields : List (List HBAItem)} {text : Text} (h : Laid fields text) :
    tokenizeHBALine text = .ok fields := by
  obtain ⟨lead, body, trail, hlead, hbody, htrail, rfl⟩ := h
  obtain ⟨init, cur, i, heq, hrun⟩ := Tokenizer.run_line hbody []
  have hstart : Tokenizer.start = .between [] [] false := rfl
  have hend : (trail.foldl Tokenizer.step (.pending init cur i)).inQuotes = false ∧
      (trail.foldl Tokenizer.step (.pending init cur i)).endField.fields =
        init ++ [cur ++ [i]] := by
    by_cases hnil : trail = []
    · subst hnil
      simp [Tokenizer.pending, Tokenizer.endField, Tokenizer.endStarted, Tokenizer.endItem]
    · rw [Tokenizer.run_gap htrail hnil]
      simp [Tokenizer.between, Tokenizer.endField, Tokenizer.endStarted]
  unfold tokenizeHBALine
  rw [List.foldl_append, List.foldl_append, hstart, Tokenizer.run_spaces hlead, hrun]
  simp only [hend.1, hend.2, ← heq, List.nil_append]
  rfl

/-! ## Rules as their author has them in mind -/

/-- A name that can be written between double quotes. -/
structure QuotableName where
  chars : Text
  nonempty : chars ≠ []
  plain : '"' ∉ chars

/-- The DATABASE or USER field. -/
inductive NameField
  | all
  | listed (first : QuotableName) (rest : List QuotableName)

/-- The ADDRESS field. -/
inductive AddressField
  | all
  | samehost
  | network (n : Net.Network)

structure Rule where
  type : HBAConnType
  databases : NameField
  users : NameField
  address : AddressField
  method : HBAMethod

def NameField.isAll : NameField → Bool
  | .all => true
  | .listed _ _ => false

def NameField.names : NameField → List Text
  | .all => []
  | .listed first rest => (first :: rest).map QuotableName.chars

def AddressField.net : AddressField → Option IPNet
  | .network n => some n.toIPNet
  | _ => none

def AddressField.isSamehost : AddressField → Bool
  | .samehost => true
  | _ => false

/-- The rule as the program has it, read from line `line`. -/
def Rule.toHBARule (r : Rule) (line : ℕ) : HBARule :=
  ⟨r.type, r.databases.isAll, r.users.isAll, r.databases.names, r.users.names, r.address.net,
    r.address.isSamehost, r.method, line⟩

def HBAConnType.keyword : HBAConnType → Text
  | .hostAny => "host".toList
  | .hostSSL => "hostssl".toList
  | .hostNoSSL => "hostnossl".toList
  | .unixLocal => "local".toList

def HBAMethod.keyword : HBAMethod → Text
  | .trust => "trust".toList
  | .reject => "reject".toList
  | .scram => "scram-sha-256".toList
  | .peer => "peer".toList
  | .cert => "cert".toList

/-- An unquoted keyword, in any letter case. -/
def HBAItem.Spells (i : HBAItem) (word : Text) : Prop :=
  i.quoted = false ∧ i.value.map Char.toLower = word

/-- How the items of a DATABASE or USER field say what it means: every name is quoted. -/
def NameField.Items : NameField → List HBAItem → Prop
  | .all, items => ∃ i, items = [i] ∧ i.Spells "all".toList
  | .listed first rest, items => items = (first :: rest).map fun n => ⟨n.chars, true⟩

/-- How the item of an ADDRESS field says what it means: a network is given by any text that
denotes it. -/
def AddressField.Item : AddressField → HBAItem → Prop
  | .all, i => i.Spells "all".toList
  | .samehost, i => i.Spells "samehost".toList
  | .network n, i => Net.parseCIDR i.value = some n.toIPNet

/-- The five fields of a rule. -/
structure Rule.Fields (r : Rule) (type : HBAItem) (databases users : List HBAItem)
    (address method : HBAItem) : Prop where
  type : type.Spells r.type.keyword
  databases : r.databases.Items databases
  users : r.users.Items users
  address : r.address.Item address
  method : method.Spells r.method.keyword

/-- The text is a way to write the rule on one line. -/
def Rule.Written (r : Rule) (text : Text) : Prop :=
  ∃ type databases users address method, r.Fields type databases users address method ∧
    Laid [[type], databases, users, [address], [method]] text

/-! ## Parsing a rule -/

section Parsing

variable {U : CaseTables} {r : Rule} {i : HBAItem} {word text : Text}

lemma toNat_toLower_lt {c : Char} (h : c.toLower.toNat < 128) : c.toNat < 128 := by
  unfold Char.toLower at h
  split at h
  · rename_i hc
    have := hc.2
    simp only [Char.toNat, UInt32.le_iff_toNat_le] at this ⊢
    exact Nat.lt_of_le_of_lt this (by decide)
  · exact h

/-- A keyword in any ASCII letter case has its lower-case letters. -/
lemma map_eq_of_ascii {f : Char → Char} (hf : ∀ c, c.toNat < 128 → f c = c.toLower) {t : Text}
    (hword : ∀ c ∈ t.map Char.toLower, c.toNat < 128) : t.map f = t.map Char.toLower := by
  refine List.map_congr_left fun c hc => hf c (toNat_toLower_lt ?_)
  exact hword _ (List.mem_map_of_mem hc)

lemma HBAItem.Spells.toLower (h : i.Spells word) (hword : ∀ c ∈ word, c.toNat < 128) :
    i.value.map U.toLower = word := by
  rw [map_eq_of_ascii U.toLower_ascii (by rw [h.2]; exact hword), h.2]

lemma HBAItem.Spells.isKeyword (h : i.Spells word) (hword : ∀ c ∈ word, c.toNat < 128)
    (hlower : word.map Char.toLower = word) : i.isKeyword U word = true := by
  have hi : i.value.map U.fold = word := by
    rw [map_eq_of_ascii U.fold_ascii (by rw [h.2]; exact hword), h.2]
  have hw : word.map U.fold = word := by
    rw [map_eq_of_ascii U.fold_ascii (by rw [hlower]; exact hword), hlower]
  simp [HBAItem.isKeyword, equalFold, h.1, hi, hw]

lemma isKeyword_quoted (v word : Text) : HBAItem.isKeyword U ⟨v, true⟩ word = false := rfl

/-- Two words that differ somewhere in ASCII stay different up to letter case. -/
lemma not_isKeyword {c : Char} (hc : c ∈ i.value) (hascii : c.toNat < 128)
    (hword : ∀ c' ∈ word, c'.toNat < 128 ∧ c'.toLower ≠ c.toLower) :
    i.isKeyword U word = false := by
  unfold HBAItem.isKeyword equalFold
  have hne : i.value.map U.fold ≠ word.map U.fold := by
    intro heq
    have hmem : U.fold c ∈ word.map U.fold := heq ▸ List.mem_map_of_mem hc
    obtain ⟨c', hc', hfold⟩ := List.mem_map.mp hmem
    rw [U.fold_ascii c hascii, U.fold_ascii c' (hword c' hc').1] at hfold
    exact (hword c' hc').2 hfold
  simp [hne]

lemma parseNames_quoted (what : String) (names : List Text) (ns : List QuotableName) :
    parseNames U what names (ns.map fun n => ⟨n.chars, true⟩) =
      .ok (false, names ++ ns.map QuotableName.chars) := by
  induction ns generalizing names with
  | nil => simp [parseNames]
  | cons n ns ih =>
    rw [List.map_cons, parseNames, isKeyword_quoted, if_neg (by simp), if_neg n.nonempty, ih]
    simp

lemma parseNameList_of_items {f : NameField} {items : List HBAItem} (what : String)
    (h : f.Items items) : parseNameList U items what = .ok (f.isAll, f.names) := by
  cases f with
  | all =>
    obtain ⟨i, rfl, hi⟩ := h
    rw [parseNameList, if_neg (by simp), parseNames,
      if_pos (hi.isKeyword (by decide) (by decide))]
    rfl
  | listed first rest =>
    obtain rfl : items = _ := h
    rw [parseNameList, if_neg (by simp), parseNames_quoted]
    rfl

lemma slash_mem_of_parseCIDR {t : Text} {net : IPNet} (h : Net.parseCIDR t = some net) :
    '/' ∈ t := by
  by_contra hno
  have hnil : t.dropWhile (fun c => decide (c ≠ '/')) = [] :=
    List.dropWhile_eq_nil_iff.mpr fun c hc => decide_eq_true fun he => hno (he ▸ hc)
  rw [Net.parseCIDR, hnil] at h
  cases h

lemma parseAddress_of_item {a : AddressField} (h : a.Item i) :
    parseAddress U i = .ok (a.net, a.isSamehost) := by
  cases a with
  | all =>
    rw [parseAddress, if_pos (HBAItem.Spells.isKeyword h (by decide) (by decide))]
    rfl
  | samehost =>
    have hs : i.value.map Char.toLower = "samehost".toList := h.2
    -- the first letters tell the two keywords apart
    have hall : i.isKeyword U "all".toList = false := by
      cases hv : i.value with
      | nil => rw [hv] at hs; cases hs
      | cons c v =>
        rw [hv, List.map_cons] at hs
        have hc : c.toLower = 's' := (List.cons.inj hs).1
        refine not_isKeyword (c := c) (by simp [hv]) (toNat_toLower_lt (by rw [hc]; decide)) ?_
        rw [hc]
        decide
    rw [parseAddress, if_neg (Bool.eq_false_iff.mp hall),
      if_pos (HBAItem.Spells.isKeyword h (by decide) (by decide))]
    rfl
  | network n =>
    have hcidr : Net.parseCIDR i.value = some n.toIPNet := h
    have hslash := slash_mem_of_parseCIDR hcidr
    have hall : i.isKeyword U "all".toList = false := not_isKeyword hslash (by decide) (by decide)
    have hsame : i.isKeyword U "samehost".toList = false :=
      not_isKeyword hslash (by decide) (by decide)
    rw [parseAddress, if_neg (Bool.eq_false_iff.mp hall), if_neg (Bool.eq_false_iff.mp hsame),
      hcidr]
    rfl

lemma parseType_of_spells {t : HBAConnType} (h : i.Spells t.keyword) :
    parseType U i.value = .ok t := by
  have hword : i.value.map U.toLower = t.keyword := h.toLower (by cases t <;> decide)
  cases t <;> simp only [parseType, hword] <;> rfl

lemma parseMethod_of_spells {m : HBAMethod} (h : i.Spells m.keyword) :
    parseMethod U i.value = .ok m := by
  have hword : i.value.map U.toLower = m.keyword := h.toLower (by cases m <;> decide)
  cases m <;> simp only [parseMethod, hword] <;> rfl

/-- **A written rule** is parsed as the rule it writes. -/
theorem parseHBALine_of_written (h : r.Written text) :
    parseHBALine U text = .ok (r.toHBARule 0) := by
  obtain ⟨type, databases, users, address, method, hf, hlaid⟩ := h
  rw [parseHBALine, tokenize_laid hlaid]
  simp only [parseFields, singleItem, bind, Except.bind, parseType_of_spells hf.type,
    parseNameList_of_items _ hf.databases, parseNameList_of_items _ hf.users,
    parseAddress_of_item hf.address, parseMethod_of_spells hf.method]
  rfl

end Parsing

/-! ## The file -/

/-- A blank line or a comment. -/
def Ignorable (text : Text) : Prop :=
  Spaces text ∨ ∃ lead rest, Spaces lead ∧ text = lead ++ '#' :: rest

/-- A line of a rule file: its text, and the rule it writes if it writes one. -/
structure FileLine where
  text : Text
  rule : Option Rule
  oneLine : '\n' ∉ text
  short : utf8Len text < maxScanTokenSize
  written : match rule with
    | some r => r.Written text
    | none => Ignorable text

/-- The rules of the lines that follow the first `line` ones. -/
def rulesFrom : (line : ℕ) → List FileLine → List HBARule
  | _, [] => []
  | line, l :: ls =>
      match l.rule with
      | some r => r.toHBARule (line + 1) :: rulesFrom (line + 1) ls
      | none => rulesFrom (line + 1) ls

/-- The text of a file: every line ends with a newline, except that the last one may not. -/
def FileText (ls : List FileLine) (text : Text) : Prop :=
  text = ls.flatMap (fun l => l.text ++ ['\n']) ∨
    text ++ ['\n'] = ls.flatMap (fun l => l.text ++ ['\n'])

section Files

variable {U : CaseTables} {text g body : Text}

lemma dropWhile_spaces {rest : Text} (h : Spaces g) :
    (g ++ rest).dropWhile isSpace = rest.dropWhile isSpace := by
  induction g with
  | nil => rfl
  | cons c g ih =>
    rw [List.cons_append, List.dropWhile_cons_of_pos (h c (by simp))]
    exact ih fun c' hc' => h c' (by simp [hc'])

lemma rdropWhile_spaces {front : Text} (h : Spaces g) :
    (front ++ g).rdropWhile isSpace = front.rdropWhile isSpace := by
  induction g using List.reverseRecOn with
  | nil => simp
  | append_singleton g c ih =>
    rw [← List.append_assoc, List.rdropWhile_concat_pos _ _ _ (h c (by simp))]
    exact ih fun c' hc' => h c' (by simp [hc'])

lemma trimSpace_spaces (h : Spaces text) : trimSpace text = [] := by
  have hdrop : text.dropWhile isSpace = [] := List.dropWhile_eq_nil_iff.mpr h
  rw [trimSpace, hdrop]
  rfl

/-- A text is trimmed to what begins and ends with no white space. -/
lemma trimSpace_body {lead trail : Text} {a b : Char} (hlead : Spaces lead) (htrail : Spaces trail)
    (hne : body ≠ []) (ha : body.head? = some a) (hb : body.getLast? = some b)
    (hsa : isSpace a = false) (hsb : isSpace b = false) :
    trimSpace (lead ++ body ++ trail) = body := by
  obtain ⟨body', rfl⟩ : ∃ body', body = a :: body' := by
    cases body with
    | nil => exact absurd rfl hne
    | cons x xs => exact ⟨xs, by rw [Option.some.inj ha]⟩
  rw [trimSpace, List.append_assoc, dropWhile_spaces hlead, List.cons_append,
    List.dropWhile_cons_of_neg (by simp [hsa]), ← List.cons_append, rdropWhile_spaces htrail,
    List.rdropWhile_eq_self_iff]
  intro hl
  rw [List.getLast?_eq_some_getLast hl] at hb
  simp [Option.some.inj hb, hsb]

/-- The carriage return that the scanner drops would be trimmed. -/
lemma trimSpace_dropCR (text : Text) : trimSpace (dropCR text) = trimSpace text := by
  unfold dropCR
  split
  · rename_i hlast
    obtain ⟨front, rfl⟩ : ∃ front, text = front ++ ['\r'] := by
      obtain ⟨front, b, rfl⟩ : ∃ front b, text = front ++ [b] := by
        rcases List.eq_nil_or_concat text with rfl | ⟨front, b, rfl⟩
        · cases hlast
        · exact ⟨front, b, List.concat_eq_append⟩
      rw [List.getLast?_concat] at hlast
      exact ⟨front, by rw [Option.some.inj hlast]⟩
    rw [List.dropLast_concat]
    have hcr : Spaces ['\r'] := by
      intro c hc
      rw [List.mem_singleton.mp hc]
      decide
    unfold trimSpace
    by_cases hall : front.dropWhile isSpace = []
    · have hfront : Spaces front := List.dropWhile_eq_nil_iff.mp hall
      rw [hall, dropWhile_spaces hfront]
      rfl
    · have happ : (front ++ ['\r']).dropWhile isSpace = front.dropWhile isSpace ++ ['\r'] := by
        rw [List.dropWhile_append]
        simp [hall]
      rw [happ, rdropWhile_spaces hcr]
  · rfl

lemma isSpace_hash : isSpace '#' = false := by decide

/-- Blank lines and comments are skipped. -/
lemma skipped_of_ignorable (h : Ignorable text) :
    trimSpace text = [] ∨ (trimSpace text).head? = some '#' := by
  rcases h with h | ⟨lead, rest, hlead, rfl⟩
  · exact .inl (trimSpace_spaces h)
  · right
    rw [trimSpace, dropWhile_spaces hlead, List.dropWhile_cons_of_neg (by simp [isSpace_hash])]
    have hne : ('#' :: rest).rdropWhile isSpace ≠ [] := by
      rw [ne_eq, List.rdropWhile_eq_nil_iff]
      intro hall
      have := hall '#' (by simp)
      rw [isSpace_hash] at this
      cases this
    obtain ⟨c, tail, hcons⟩ := List.exists_cons_of_ne_nil hne
    obtain ⟨suffix, hsuffix⟩ := List.rdropWhile_prefix isSpace ('#' :: rest)
    rw [hcons] at hsuffix ⊢
    rw [(List.cons.inj hsuffix).1]
    rfl

/-- What an item begins and ends with is no white space, and it does not begin a comment unless
it is bare and does so itself. -/
lemma ItemText.ends {i : HBAItem} (h : ItemText i text) :
    text ≠ [] ∧ (∃ a, text.head? = some a ∧ isSpace a = false) ∧
      ∃ b, text.getLast? = some b ∧ isSpace b = false := by
  cases h with
  | quoted h =>
    refine ⟨by simp, ⟨'"', rfl, Tokenizer.isSpace_quote⟩, '"', ?_, Tokenizer.isSpace_quote⟩
    rw [← List.cons_append, List.getLast?_concat]
  | bare hne h =>
    refine ⟨hne, ⟨text.head hne, List.head?_eq_some_head hne, (h _ (List.head_mem hne)).2.2⟩,
      text.getLast hne, List.getLast?_eq_some_getLast hne, (h _ (List.getLast_mem hne)).2.2⟩

lemma ends_append {t ts : Text} {P : Char → Prop}
    (ht : t ≠ [] ∧ (∃ a, t.head? = some a ∧ P a)) (hts : ts ≠ [] ∧ ∃ b, ts.getLast? = some b ∧ P b)
    (g : Text) :
    t ++ g ++ ts ≠ [] ∧ (∃ a, (t ++ g ++ ts).head? = some a ∧ P a) ∧
      ∃ b, (t ++ g ++ ts).getLast? = some b ∧ P b := by
  obtain ⟨hne, a, ha, hpa⟩ := ht
  obtain ⟨hnes, b, hb, hpb⟩ := hts
  refine ⟨by simp [hne], ⟨a, ?_, hpa⟩, b, ?_, hpb⟩
  · rw [List.append_assoc, List.head?_append, ha]
    rfl
  · rw [List.getLast?_append, hb]
    rfl

lemma FieldText.ends {f : List HBAItem} (h : FieldText f text) :
    text ≠ [] ∧ (∃ a, text.head? = some a ∧ isSpace a = false) ∧
      ∃ b, text.getLast? = some b ∧ isSpace b = false := by
  induction h with
  | one h => exact h.ends
  | more h hg hs ih => exact ends_append ⟨h.ends.1, h.ends.2.1⟩ ⟨ih.1, ih.2.2⟩ _

lemma LineText.ends {fs : List (List HBAItem)} (h : LineText fs text) :
    text ≠ [] ∧ (∃ a, text.head? = some a ∧ isSpace a = false) ∧
      ∃ b, text.getLast? = some b ∧ isSpace b = false := by
  induction h with
  | one h => exact h.ends
  | more h hg hne hs ih => exact ends_append ⟨h.ends.1, h.ends.2.1⟩ ⟨ih.1, ih.2.2⟩ _

lemma LineText.laid {fs : List (List HBAItem)} (h : LineText fs text) : Laid fs text :=
  ⟨[], text, [], by simp [Spaces], h, by simp [Spaces], by simp⟩

/-- Trimming a line leaves its fields, laid out. -/
lemma Laid.trimSpace {fs : List (List HBAItem)} (h : Laid fs text) :
    LineText fs (trimSpace text) := by
  obtain ⟨lead, body, trail, hlead, hbody, htrail, rfl⟩ := h
  obtain ⟨hne, ⟨a, ha, hsa⟩, b, hb, hsb⟩ := hbody.ends
  rwa [trimSpace_body hlead htrail hne ha hb hsa hsb]

/-- A line begins with the first letter of its TYPE. -/
lemma LineText.head {i : HBAItem} {fs : List (List HBAItem)} (h : LineText ([i] :: fs) text)
    (hi : i.quoted = false) : text.head? = i.value.head? := by
  have hfield : ∀ {t : Text}, FieldText [i] t → t.head? = i.value.head? := by
    intro t ht
    cases ht with
    | one ht =>
      cases ht with
      | quoted h => cases hi
      | bare hne h => rfl
    | more _ _ hs => cases hs
  cases h with
  | one h => exact hfield h
  | more h hg hne hs =>
    rw [List.append_assoc, List.head?_append, hfield h]
    cases hv : i.value with
    | nil =>
      have hnil := hfield h
      rw [hv] at hnil
      exact absurd (List.head?_eq_none_iff.mp hnil) h.ends.1
    | cons c v => rfl

/-- A written rule is not skipped, and its trimmed text is a way to write it. -/
lemma Rule.Written.trimmed {r : Rule} (h : r.Written text) :
    trimSpace text ≠ [] ∧ (trimSpace text).head? ≠ some '#' ∧ r.Written (trimSpace text) := by
  obtain ⟨type, databases, users, address, method, hf, hlaid⟩ := h
  have hline := hlaid.trimSpace
  refine ⟨hline.ends.1, ?_, type, databases, users, address, method, hf, hline.laid⟩
  rw [hline.head hf.type.1]
  intro hhash
  obtain ⟨v, hv⟩ : ∃ v, type.value = '#' :: v := by
    cases hv : type.value with
    | nil => rw [hv] at hhash; cases hhash
    | cons c v => rw [hv] at hhash; exact ⟨v, by rw [Option.some.inj hhash]⟩
  have hword := hf.type.2
  rw [hv] at hword
  cases ht : r.type <;> rw [ht] at hword <;> exact absurd (List.cons.inj hword).1 (by decide)

/-- **The lines of a file**, read in order. -/
lemma loadLines_of_lines (ls : List FileLine) (line : ℕ) :
    loadLines U line (ls.map FileLine.text) = .ok (rulesFrom line ls) := by
  induction ls generalizing line with
  | nil => rfl
  | cons l ls ih =>
    have hshort : ¬maxScanTokenSize ≤ utf8Len l.text := Nat.not_le.mpr l.short
    have hwritten := l.written
    rw [List.map_cons, loadLines, if_neg hshort]
    simp only [trimSpace_dropCR]
    cases hr : l.rule with
    | none =>
      rw [hr] at hwritten
      rw [if_pos (skipped_of_ignorable hwritten), ih, rulesFrom, hr]
    | some r =>
      rw [hr] at hwritten
      obtain ⟨hne, hhash, hw⟩ := hwritten.trimmed
      rw [if_neg (not_or.mpr ⟨hne, hhash⟩), parseHBALine_of_written hw, ih, rulesFrom, hr]
      rfl

lemma splitOn_terminated (ls : List Text) (h : ∀ l ∈ ls, '\n' ∉ l) (last : Text)
    (hlast : '\n' ∉ last) :
    (ls.flatMap (· ++ ['\n']) ++ last).splitOn '\n' = ls ++ [last] := by
  induction ls with
  | nil => exact List.splitOn_eq_singleton hlast
  | cons l ls ih =>
    have hl := h l (by simp)
    rw [List.flatMap_cons, List.append_assoc, List.append_assoc, List.singleton_append,
      List.splitOn_append_cons_self_of_not_mem hl, ih fun l' hl' => h l' (by simp [hl'])]
    rfl

/-- The scanner finds the lines of a file, but for a last one that is empty. -/
lemma rawLines_of_fileText {ls : List FileLine} (h : FileText ls text) :
    rawLines text = ls.map FileLine.text ∨
      ∃ init l, ls = init ++ [l] ∧ l.text = [] ∧ rawLines text = init.map FileLine.text := by
  have hmap : ∀ ls : List FileLine, ls.flatMap (fun l => l.text ++ ['\n']) =
      (ls.map FileLine.text).flatMap (· ++ ['\n']) := fun ls => by rw [List.flatMap_map]
  have hno : ∀ ls : List FileLine, ∀ t ∈ ls.map FileLine.text, '\n' ∉ t := by
    intro ls t ht
    obtain ⟨l, -, rfl⟩ := List.mem_map.mp ht
    exact l.oneLine
  rcases h with rfl | h
  · left
    have hsplit := splitOn_terminated (ls.map FileLine.text) (hno ls) [] (by simp)
    rw [List.append_nil] at hsplit
    rw [rawLines, hmap, hsplit, if_pos (by simp), List.dropLast_concat]
  · rcases List.eq_nil_or_concat ls with rfl | ⟨init, l, rfl⟩
    · simp at h
    · rw [List.concat_eq_append, List.flatMap_append, List.flatMap_singleton,
        ← List.append_assoc] at h
      have htext := List.append_cancel_right h
      have hsplit := splitOn_terminated (init.map FileLine.text) (hno init) l.text l.oneLine
      rw [← hmap, ← htext] at hsplit
      by_cases hnil : l.text = []
      · refine .inr ⟨init, l, List.concat_eq_append, hnil, ?_⟩
        rw [rawLines, hsplit, hnil, if_pos (by simp), List.dropLast_concat]
      · refine .inl ?_
        rw [rawLines, hsplit, if_neg (by simpa using hnil), List.concat_eq_append]
        simp

lemma rulesFrom_append (init : List FileLine) (l : FileLine) (line : ℕ) (hl : l.rule = none) :
    rulesFrom line (init ++ [l]) = rulesFrom line init := by
  induction init generalizing line with
  | nil => simp [rulesFrom, hl]
  | cons l' init ih =>
    rw [List.cons_append, rulesFrom, rulesFrom, ih]

/-- **A rule file** is read as the rules on its lines, in order. -/
theorem loadHBAFile_of_fileText {files : Text → Option Text} {path : Text} {ls : List FileLine}
    (hpath : path ≠ []) (hfile : files path = some text) (h : FileText ls text) :
    loadHBAFile U files path = .ok (rulesFrom 0 ls) := by
  rw [loadHBAFile, if_neg hpath, hfile]
  simp only
  rcases rawLines_of_fileText h with hraw | ⟨init, l, rfl, hl, hraw⟩
  · rw [hraw, loadLines_of_lines]
  · -- an empty line writes no rule
    have hrule : l.rule = none := by
      have hwritten := l.written
      cases hr : l.rule with
      | none => rfl
      | some r =>
        rw [hr, hl] at hwritten
        exact absurd rfl hwritten.trimmed.1
    rw [hraw, loadLines_of_lines, rulesFrom_append init l 0 hrule]

end Files

/-! ## What a rule means -/

/-- The connections of a type: `host` is TCP with or without TLS. -/
def HBAConnType.Covers : HBAConnType → ClientConn → Prop
  | .hostAny, .tcp _ | .hostAny, .tls _ _ => True
  | .hostSSL, .tls _ _ => True
  | .hostNoSSL, .tcp _ => True
  | .unixLocal, .unix _ => True
  | _, _ => False

/-- Names are compared up to letter case. -/
def NameField.Has (U : CaseTables) (val : Text) : NameField → Prop
  | .all => True
  | .listed first rest => ∃ n ∈ first :: rest, equalFold U n.chars val = true

/-- Only a TCP peer has an address. -/
def AddressField.Has (conn : ClientConn) : AddressField → Prop
  | .all => True
  | .samehost => ∃ ip, conn.remoteAddrIP = some ip ∧ Net.isLoopback ip = true
  | .network n => ∃ ip, conn.remoteAddrIP = some ip ∧ n.Has ip

structure Rule.Matches (U : CaseTables) (conn : ClientConn) (startup : Startup) (r : Rule) :
    Prop where
  type : r.type.Covers conn
  database : r.databases.Has U startup.database
  user : r.users.Has U startup.user
  address : r.address.Has conn

/-- What a method asks of the client. -/
def HBAMethod.Grants (os : Platform) (inner : Bool) (conn : ClientConn) (startup : Startup) :
    HBAMethod → Prop
  | .trust => True
  | .reject => False
  | .scram => inner = true
  | .peer => os.peerCredSupported = true ∧
      ∃ uid, conn = .unix (some uid) ∧ os.lookupUsernameByUID uid = some startup.user
  | .cert => ∃ remote, conn = .tls remote (some startup.user)

section Matching

variable {U : CaseTables} {os : Platform} {inner : Bool} {conn : ClientConn} {startup : Startup}
  {r : Rule} {line : ℕ}

lemma matchHBAType_iff (t : HBAConnType) (conn : ClientConn) :
    matchHBAType t conn.isTLS conn.isUnix = true ↔ t.Covers conn := by
  cases t <;> cases conn <;>
    simp [matchHBAType, ClientConn.isTLS, ClientConn.isUnix, HBAConnType.Covers]

lemma matchHBAName_iff (f : NameField) (val : Text) :
    matchHBAName U f.isAll f.names val = true ↔ f.Has U val := by
  cases f with
  | all => simp [matchHBAName, NameField.isAll, NameField.Has]
  | listed first rest =>
    simp only [matchHBAName, NameField.isAll, NameField.names, NameField.Has, Bool.false_or,
      List.any_map, List.any_eq_true, Function.comp_apply]

lemma length_remoteAddrIP {ip : IP} (h : conn.remoteAddrIP = some ip) :
    ip.length = 4 ∨ ip.length = 16 := by
  cases conn with
  | tcp remote | tls remote _ => cases h; exact remote.length
  | unix _ => cases h

lemma matchHBAAddr_iff :
    matchHBAAddr (r.toHBARule line) conn.remoteAddrIP = true ↔ r.address.Has conn := by
  unfold matchHBAAddr Rule.toHBARule AddressField.Has
  cases r.address with
  | all => simp [AddressField.isSamehost, AddressField.net]
  | samehost => simp [AddressField.isSamehost, Option.any_eq_true]
  | network n =>
    simp only [AddressField.isSamehost, AddressField.net, Bool.false_eq_true, if_false,
      Option.any_eq_true]
    constructor
    · rintro ⟨ip, hip, hc⟩
      exact ⟨ip, hip, (Net.Network.contains_iff (length_remoteAddrIP hip)).mp hc⟩
    · rintro ⟨ip, hip, hc⟩
      exact ⟨ip, hip, (Net.Network.contains_iff (length_remoteAddrIP hip)).mpr hc⟩

lemma matches_iff :
    (matchHBAType (r.toHBARule line).type conn.isTLS conn.isUnix &&
        matchHBAName U (r.toHBARule line).allDatabases (r.toHBARule line).databases
          startup.database &&
        matchHBAName U (r.toHBARule line).allUsers (r.toHBARule line).users startup.user &&
        matchHBAAddr (r.toHBARule line) conn.remoteAddrIP) = true ↔
      r.Matches U conn startup := by
  rw [Bool.and_eq_true, Bool.and_eq_true, Bool.and_eq_true, matchHBAAddr_iff]
  simp only [Rule.toHBARule, matchHBAType_iff, matchHBAName_iff]
  exact ⟨fun ⟨⟨⟨h1, h2⟩, h3⟩, h4⟩ => ⟨h1, h2, h3, h4⟩, fun h => ⟨⟨⟨h.1, h.2⟩, h.3⟩, h.4⟩⟩

/-- The first rule of a file that a test accepts. -/
lemma find_rulesFrom {p : HBARule → Bool} {M : Rule → Prop}
    (hp : ∀ r line, p (r.toHBARule line) = true ↔ M r) (Q : HBAMethod → Prop)
    (ls : List FileLine) (line : ℕ) :
    (∃ h, (rulesFrom line ls).find? p = some h ∧ Q h.method) ↔
      ∃ pre r post, ls.filterMap FileLine.rule = pre ++ r :: post ∧ (∀ r' ∈ pre, ¬M r') ∧ M r ∧
        Q r.method := by
  induction ls generalizing line with
  | nil => simp [rulesFrom]
  | cons l ls ih =>
    rw [rulesFrom]
    cases hr : l.rule with
    | none => rw [ih, List.filterMap_cons_none hr]
    | some r =>
      rw [List.filterMap_cons_some hr]
      by_cases hM : M r
      · rw [List.find?_cons_of_pos ((hp r _).mpr hM)]
        constructor
        · rintro ⟨h, heq, hQ⟩
          cases heq
          exact ⟨[], r, _, rfl, by simp, hM, hQ⟩
        · rintro ⟨pre, r', post, heq, hpre, -, hQ⟩
          cases pre with
          | nil =>
            obtain ⟨rfl, -⟩ := List.cons.inj heq
            exact ⟨_, rfl, hQ⟩
          | cons x pre =>
            obtain ⟨rfl, -⟩ := List.cons.inj heq
            exact absurd hM (hpre r (by simp))
      · rw [List.find?_cons_of_neg fun h => hM ((hp r _).mp h), ih]
        constructor
        · rintro ⟨pre, r', post, heq, hpre, hM', hQ⟩
          refine ⟨r :: pre, r', post, by rw [heq]; rfl, fun x hx => ?_, hM', hQ⟩
          rcases List.mem_cons.mp hx with rfl | hx
          · exact hM
          · exact hpre x hx
        · rintro ⟨pre, r', post, heq, hpre, hM', hQ⟩
          cases pre with
          | nil =>
            obtain ⟨rfl, -⟩ := List.cons.inj heq
            exact absurd hM' hM
          | cons x pre =>
            obtain ⟨rfl, htail⟩ := List.cons.inj heq
            exact ⟨pre, r', post, htail, fun y hy => hpre y (by simp [hy]), hM', hQ⟩

lemma authenticatePeer_iff :
    authenticatePeer os conn startup.user line = .ok () ↔
      HBAMethod.Grants os inner conn startup .peer := by
  cases conn with
  | tcp | tls => simp [authenticatePeer, HBAMethod.Grants]
  | unix peerUID =>
    cases hsup : os.peerCredSupported with
    | false => simp [authenticatePeer, HBAMethod.Grants, hsup]
    | true =>
      cases peerUID with
      | none => simp [authenticatePeer, HBAMethod.Grants, hsup]
      | some uid =>
        simp only [authenticatePeer, HBAMethod.Grants, hsup, Bool.not_true, Bool.false_eq_true,
          if_false]
        cases hname : os.lookupUsernameByUID uid <;> simp [hname]

lemma authenticateCert_iff :
    authenticateCert conn startup.user line = .ok () ↔
      HBAMethod.Grants os inner conn startup .cert := by
  cases conn with
  | tcp | unix => simp [authenticateCert, HBAMethod.Grants]
  | tls remote cn => cases cn <;> simp [authenticateCert, HBAMethod.Grants]

/-- `HBAAuth.Authenticate` accepts if a rule is found and its method is content. -/
lemma authenticate_eq_ok {rules : List HBARule} :
    authenticate U os rules inner conn startup = .ok () ↔
      ∃ h, matchHBA U rules conn.isTLS conn.isUnix conn.remoteAddrIP startup.user
          startup.database = some h ∧ h.method.Grants os inner conn startup := by
  unfold authenticate
  cases hfind : matchHBA U rules conn.isTLS conn.isUnix conn.remoteAddrIP startup.user
      startup.database with
  | none => simp
  | some rule =>
    simp only [Option.some.injEq, exists_eq_left']
    cases hm : rule.method with
    | trust => simp [HBAMethod.Grants]
    | reject => simp [HBAMethod.Grants]
    | scram => cases inner <;> simp [HBAMethod.Grants]
    | peer => exact authenticatePeer_iff
    | cert => exact authenticateCert_iff

/-- **Authentication by the rules of a file.**  A client is let in if a rule matches, no earlier
one does, and the rule's method grants access. -/
theorem authenticate_iff (ls : List FileLine) :
    authenticate U os (rulesFrom 0 ls) inner conn startup = .ok () ↔
      ∃ (pre : List Rule) (r : Rule) (post : List Rule),
        ls.filterMap FileLine.rule = pre ++ r :: post ∧
        (∀ r' ∈ pre, ¬r'.Matches U conn startup) ∧ r.Matches U conn startup ∧
        r.method.Grants os inner conn startup := by
  rw [authenticate_eq_ok]
  exact find_rulesFrom (fun r line => matches_iff) _ ls 0

end Matching

/-! ## The main result -/

/-- **The rule file means what it says.**  However its rules are written, it is loaded as these
rules in order, and `HBAAuth` with them lets in the clients whose first matching rule grants
access. -/
theorem hba_file_means_what_it_says (U : CaseTables) (files : Text → Option Text) (path text : Text)
    (ls : List FileLine) (hpath : path ≠ []) (hfile : files path = some text)
    (htext : FileText ls text) :
    loadHBAFile U files path = .ok (rulesFrom 0 ls) ∧
      ∀ (os : Platform) (inner : Bool) (conn : ClientConn) (startup : Startup),
        authenticate U os (rulesFrom 0 ls) inner conn startup = .ok () ↔
          ∃ (pre : List Rule) (r : Rule) (post : List Rule),
            ls.filterMap FileLine.rule = pre ++ r :: post ∧
            (∀ r' ∈ pre, ¬r'.Matches U conn startup) ∧ r.Matches U conn startup ∧
            r.method.Grants os inner conn startup :=
  ⟨loadHBAFile_of_fileText hpath hfile htext, fun _ _ _ _ => authenticate_iff ls⟩

/-- A rule for two databases, and a line that writes it. -/
def sampleRule : Rule :=
  ⟨.hostAny, .listed ⟨"shop".toList, by decide, by decide⟩ [⟨"crm".toList, by decide, by decide⟩],
    .all, .network ⟨[10, 0, 0, 0], 8, by decide, by decide⟩, .trust⟩

def sampleText : Text := "host \"shop\" , \"crm\"\tALL 10.0.0.0/8 Trust".toList

lemma sampleRule_written : sampleRule.Written sampleText := by
  have htype : FieldText [⟨"host".toList, false⟩] "host".toList :=
    .one (.bare (by decide) (by decide))
  have hdatabases : FieldText [⟨"shop".toList, true⟩, ⟨"crm".toList, true⟩]
      ("\"shop\"".toList ++ " , ".toList ++ "\"crm\"".toList) :=
    .more (.quoted (by decide)) (by decide) (.one (.quoted (by decide)))
  have husers : FieldText [⟨"ALL".toList, false⟩] "ALL".toList :=
    .one (.bare (by decide) (by decide))
  have haddress : FieldText [⟨"10.0.0.0/8".toList, false⟩] "10.0.0.0/8".toList :=
    .one (.bare (by decide) (by decide))
  have hmethod : FieldText [⟨"Trust".toList, false⟩] "Trust".toList :=
    .one (.bare (by decide) (by decide))
  have hcidr : sampleRule.address.Item ⟨"10.0.0.0/8".toList, false⟩ :=
    show Net.parseCIDR "10.0.0.0/8".toList = some (Net.Network.toIPNet _) from by decide
  have hfields : sampleRule.Fields ⟨"host".toList, false⟩
      [⟨"shop".toList, true⟩, ⟨"crm".toList, true⟩] [⟨"ALL".toList, false⟩]
      ⟨"10.0.0.0/8".toList, false⟩ ⟨"Trust".toList, false⟩ :=
    ⟨⟨rfl, by decide⟩, rfl, ⟨_, rfl, rfl, by decide⟩, hcidr, ⟨rfl, by decide⟩⟩
  have hline : LineText _ sampleText :=
    .more (g := [' ']) htype (by decide) (by decide) <|
    .more (g := ['\t']) hdatabases (by decide) (by decide) <|
    .more (g := [' ']) husers (by decide) (by decide) <|
    .more (g := [' ']) haddress (by decide) (by decide) (.one hmethod)
  refine ⟨_, _, _, _, _, hfields, [], sampleText, [], by decide, hline, by decide, ?_⟩
  rw [List.nil_append, List.append_nil]

def sampleLines : List FileLine :=
  [⟨"# shops".toList, none, by decide, by decide,
      .inr ⟨[], " shops".toList, by decide, rfl⟩⟩,
    ⟨sampleText, some sampleRule, by decide, by decide, sampleRule_written⟩]

theorem hba_file_means_what_it_says_sample :
    let files : Text → Option Text := fun _ => some ("# shops\n".toList ++ sampleText ++ ['\n'])
    let client : ClientConn := .tcp ⟨[10, 1, 2, 3], by decide⟩
    loadHBAFile asciiTables files "pg_hba.conf".toList = .ok (rulesFrom 0 sampleLines) ∧
      ∀ (os : Platform) (inner : Bool) (startup : Startup),
        authenticate asciiTables os (rulesFrom 0 sampleLines) inner client startup = .ok () ↔
          ∃ (pre : List Rule) (r : Rule) (post : List Rule),
            sampleLines.filterMap FileLine.rule = pre ++ r :: post ∧
            (∀ r' ∈ pre, ¬r'.Matches asciiTables client startup) ∧
            r.Matches asciiTables client startup ∧ r.method.Grants os inner client startup := by
  intro files client
  obtain ⟨hload, hauth⟩ := hba_file_means_what_it_says asciiTables files "pg_hba.conf".toList
    ("# shops\n".toList ++ sampleText ++ ['\n']) sampleLines (by decide) rfl (.inl rfl)
  exact ⟨hload, fun os inner startup => hauth os inner client startup⟩

/-! ## Lines of type local -/

/-- What a list of names says: everything, or its values. -/
def listed (U : CaseTables) (items : List HBAItem) : Bool × List Text :=
  if items.any fun i => i.isKeyword U "all".toList then (true, []) else (false, items.map (·.value))

/-- A line `local DATABASE USER METHOD`, in any layout. -/
structure LocalLine (databases users : List HBAItem) (m : HBAMethod) (text : Text) : Prop where
  databases_ne : databases ≠ []
  databases_named : ∀ i ∈ databases, i.value ≠ []
  users_ne : users ≠ []
  users_named : ∀ i ∈ users, i.value ≠ []
  laid : ∃ type method : HBAItem, type.Spells "local".toList ∧ method.Spells m.keyword ∧
    Laid [[type], databases, users, [method]] text

/-- What the line format promises of such a line. -/
def LocalLineWorks (U : CaseTables) (databases users : List HBAItem) (m : HBAMethod)
    (text : Text) : Prop :=
  ∃ rule, parseHBALine U text = .ok rule ∧ rule.type = .unixLocal ∧
    (rule.allDatabases, rule.databases) = listed U databases ∧
    (rule.allUsers, rule.users) = listed U users ∧ rule.method = m ∧
    ∀ (conn : ClientConn) (user database : Text),
      (matchHBA U [rule] conn.isTLS conn.isUnix conn.remoteAddrIP user database).isSome = true ↔
        conn.isUnix = true ∧
          matchHBAName U (listed U databases).1 (listed U databases).2 database = true ∧
          matchHBAName U (listed U users).1 (listed U users).2 user = true

/-- Four fields are too few, whatever the first of them says. -/
lemma parseHBALine_of_four_fields {U : CaseTables} {a b c d : List HBAItem} {text : Text}
    (h : Laid [a, b, c, d] text) : parseHBALine U text = .error .tooFewFields := by
  rw [parseHBALine, tokenize_laid h]
  rfl

/-- **A line of type local without an address is refused**, though the format says that the
address is omitted there: the number of fields is tested before the type is read. -/
theorem local_line_is_refused (U : CaseTables) (databases users : List HBAItem) (m : HBAMethod)
    (text : Text) (h : LocalLine databases users m text) :
    ¬LocalLineWorks U databases users m text := by
  obtain ⟨type, method, -, -, hlaid⟩ := h.laid
  rintro ⟨rule, hok, -⟩
  rw [parseHBALine_of_four_fields hlaid] at hok
  cases hok

/-- `local all all peer`, the line for administrators on the machine itself. -/
lemma localPeer_line : LocalLine [⟨"all".toList, false⟩] [⟨"all".toList, false⟩] .peer
    "local all all peer".toList := by
  have htype : FieldText [⟨"local".toList, false⟩] "local".toList :=
    .one (.bare (by decide) (by decide))
  have hall : FieldText [⟨"all".toList, false⟩] "all".toList :=
    .one (.bare (by decide) (by decide))
  have hmethod : FieldText [⟨"peer".toList, false⟩] "peer".toList :=
    .one (.bare (by decide) (by decide))
  have hline : LineText _ "local all all peer".toList :=
    .more (g := [' ']) htype (by decide) (by decide) <|
    .more (g := [' ']) hall (by decide) (by decide) <|
    .more (g := [' ']) hall (by decide) (by decide) (.one hmethod)
  exact ⟨by decide, by decide, by decide, by decide, _, _, ⟨rfl, by decide⟩, ⟨rfl, by decide⟩,
    [], _, [], by decide, hline, by decide, rfl⟩

theorem local_line_is_refused_peer :
    ¬LocalLineWorks asciiTables [⟨"all".toList, false⟩] [⟨"all".toList, false⟩] .peer
      "local all all peer".toList :=
  local_line_is_refused asciiTables _ _ .peer _ localPeer_line

/-- The line of the seeds is a line of type local, and `parseHBALine` wants a fifth field. -/
theorem local_all_all_peer_too_short :
    LocalLine [⟨"all".toList, false⟩] [⟨"all".toList, false⟩] .peer "local all all peer".toList ∧
      parseHBALine asciiTables "local all all peer".toList = .error .tooFewFields ∧
      ¬LocalLineWorks asciiTables [⟨"all".toList, false⟩] [⟨"all".toList, false⟩] .peer
        "local all all peer".toList := by
  obtain ⟨type, method, -, -, hlaid⟩ := localPeer_line.laid
  have hfew : parseHBALine asciiTables "local all all peer".toList = .error .tooFewFields :=
    parseHBALine_of_four_fields hlaid
  refine ⟨localPeer_line, hfew, ?_⟩
  rintro ⟨rule, hok, -⟩
  rw [hfew] at hok
  cases hok

end Pgman
