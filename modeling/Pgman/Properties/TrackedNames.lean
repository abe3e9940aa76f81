import Mathlib.Data.List.Forall2
import Pgman.Construction.Session.TrackedParams

/-!
# Which startup parameters are replayed

The comment on `extractTrackedParams` says that names are compared without regard to case.  What the
function does is to look for two spellings of a name among the keys of the startup message: the
whitelist's and the one in lower case.  A client that writes `TimeZone` where the whitelist has
`timezone` is not found (`other_spelling_is_dropped`).

`Replayed` says what the comment promises, for a whitelist of any length, and `Spelled` is where the
promise is kept: every parameter that was sent under some spelling was sent under one of the two.
There the result does not depend on the case of anything (`tracked_params_replayed_iff`).
-/

namespace Pgman

open Net (Text)

variable {U : CaseTables} {startup startup' : Table Text Text} {whitelist whitelist' : List Text}
  {name name' key v : Text} {p : ParamText}

/-- What Unicode says about lower case: it is lower case itself, and a dash is not the lower case of
anything else. -/
structure CaseTables.Regular (U : CaseTables) : Prop where
  lower_lower : ∀ c, U.toLower (U.toLower c) = U.toLower c
  lower_dash : ∀ c, U.toLower c = '-' → c = '-'

/-- Two names that differ in the case of their letters at most. -/
def SameName (U : CaseTables) (a b : Text) : Prop := lowered U a = lowered U b

instance (a b : Text) : Decidable (SameName U a b) :=
  inferInstanceAs (Decidable (lowered U a = lowered U b))

/-- Some startup key that is the name up to case has a value. -/
def present (U : CaseTables) (startup : Table Text Text) (name : Text) : Bool :=
  startup.pairs.any fun p => decide (SameName U p.1 name) && decide (p.2 ≠ [])

/-- One entry for each position of the whitelist whose parameter was sent, in order, with a value
that was sent for it. -/
structure Replayed (U : CaseTables) (startup : Table Text Text) (whitelist : List Text)
    (out : List ParamText) : Prop where
  names : out.map ParamText.name =
    whitelist.filter fun name => !skipsName name && present U startup name
  values : ∀ p ∈ out, ∃ key, SameName U key p.name ∧ startup.get key = some p.value ∧ p.value ≠ []

/-- Of the spellings under which a parameter of the whitelist was sent, one is the whitelist's or in
lower case. -/
def Spelled (U : CaseTables) (startup : Table Text Text) (whitelist : List Text) : Prop :=
  ∀ name ∈ whitelist, skipsName name = false → present U startup name = true →
    (sentValue startup name).isSome ∨ (sentValue startup (lowered U name)).isSome

/-! ## What was sent -/

lemma sentValue_eq_some : sentValue startup key = some v ↔ startup.get key = some v ∧ v ≠ [] := by
  rw [sentValue, Option.filter_eq_some_iff, decide_eq_true_iff]

lemma present_eq_true : present U startup name = true ↔
    ∃ key v, SameName U key name ∧ startup.get key = some v ∧ v ≠ [] := by
  rw [present, List.any_eq_true]
  constructor
  · rintro ⟨⟨key, v⟩, hmem, hp⟩
    rw [Bool.and_eq_true, decide_eq_true_iff, decide_eq_true_iff] at hp
    exact ⟨key, v, hp.1, Table.mem_pairs.mp hmem, hp.2⟩
  · rintro ⟨key, v, hsame, hget, hv⟩
    refine ⟨(key, v), Table.mem_pairs.mpr hget, ?_⟩
    rw [Bool.and_eq_true, decide_eq_true_iff, decide_eq_true_iff]
    exact ⟨hsame, hv⟩

lemma CaseTables.Regular.lowered_lowered (hU : U.Regular) (s : Text) :
    lowered U (lowered U s) = lowered U s := by
  rw [lowered, lowered, List.map_map]
  exact List.map_congr_left fun c _ => hU.lower_lower c

/-! ## What is picked -/

/-- An entry has the name of its position, and a value sent under one of two spellings. -/
lemma trackedEntry_eq_some (h : trackedEntry U startup name = some p) :
    skipsName name = false ∧ p.name = name ∧
      (sentValue startup name = some p.value ∨
        sentValue startup (lowered U name) = some p.value) := by
  unfold trackedEntry at h
  cases hskip : skipsName name with
  | true => simp [hskip] at h
  | false =>
    rw [hskip, if_neg Bool.false_ne_true] at h
    cases hown : sentValue startup name with
    | some v =>
      rw [hown] at h
      obtain rfl := Option.some.inj h
      exact ⟨rfl, rfl, .inl rfl⟩
    | none =>
      rw [hown] at h
      obtain ⟨v, hlow, rfl⟩ := Option.map_eq_some_iff.mp h
      exact ⟨rfl, rfl, .inr hlow⟩

lemma isSome_trackedEntry : (trackedEntry U startup name).isSome ↔ skipsName name = false ∧
    ((sentValue startup name).isSome ∨ (sentValue startup (lowered U name)).isSome) := by
  unfold trackedEntry
  cases hskip : skipsName name with
  | true => simp
  | false => cases hown : sentValue startup name <;> simp

/-- What is picked was sent under a name that is the same up to case. -/
lemma sent_of_trackedEntry (hU : U.Regular) (h : trackedEntry U startup name = some p) :
    ∃ key, SameName U key p.name ∧ startup.get key = some p.value ∧ p.value ≠ [] := by
  obtain ⟨-, hname, hown | hlow⟩ := trackedEntry_eq_some h
  · exact ⟨name, by rw [hname]; rfl, sentValue_eq_some.mp hown⟩
  · refine ⟨lowered U name, ?_, sentValue_eq_some.mp hlow⟩
    rw [hname]
    exact hU.lowered_lowered name

/-- The early returns change nothing. -/
lemma extractTrackedParams_eq (U : CaseTables) (startup : Table Text Text)
    (whitelist : List Text) :
    extractTrackedParams U startup whitelist = whitelist.filterMap (trackedEntry U startup) := by
  unfold extractTrackedParams
  simp only
  split_ifs with hempty hwant
  · symm
    rw [List.filterMap_eq_nil_iff]
    rcases hempty with hstart | hlist
    · intro name _
      have hget : ∀ key, sentValue startup key = none := fun key => by
        rw [sentValue, Table.get, hstart]
        rfl
      simp [trackedEntry, hget]
    · simp [hlist]
  · symm
    rw [List.filterMap_eq_nil_iff]
    intro name hname
    -- a name that is not passed over would be in the set
    have hskip : skipsName name = true := by
      by_contra hkeep
      have hmem : lowered U name ∈ (Table.ofList ((whitelist.filter fun name =>
          !skipsName name).map fun name => (lowered U name, ()))).keys := by
        rw [Table.mem_keys_ofList, List.map_map]
        exact List.mem_map_of_mem (List.mem_filter.mpr ⟨hname, by simpa using hkeep⟩)
      rw [Table.keys, hwant] at hmem
      cases hmem
    simp [trackedEntry, hskip]
  · rfl

lemma names_filterMap (whitelist : List Text) :
    (whitelist.filterMap (trackedEntry U startup)).map ParamText.name =
      whitelist.filter fun name => (trackedEntry U startup name).isSome := by
  induction whitelist with
  | nil => rfl
  | cons name whitelist ih =>
    cases hentry : trackedEntry U startup name with
    | none => simp [hentry, ih]
    | some p => simp [hentry, ih, (trackedEntry_eq_some hentry).2.1]

lemma replayed_extract_iff (hU : U.Regular) :
    Replayed U startup whitelist (extractTrackedParams U startup whitelist) ↔
      Spelled U startup whitelist := by
  rw [extractTrackedParams_eq]
  have hvalues : ∀ p ∈ whitelist.filterMap (trackedEntry U startup),
      ∃ key, SameName U key p.name ∧ startup.get key = some p.value ∧ p.value ≠ [] := by
    intro p hp
    obtain ⟨name, -, hentry⟩ := List.mem_filterMap.mp hp
    exact sent_of_trackedEntry hU hentry
  -- both lists of names are sublists of the whitelist by a test, so the tests agree
  have htests : Replayed U startup whitelist (whitelist.filterMap (trackedEntry U startup)) ↔
      ∀ name ∈ whitelist, (trackedEntry U startup name).isSome =
        (!skipsName name && present U startup name) := by
    constructor
    · intro h name hname
      have hboth := congrArg (name ∈ ·) ((names_filterMap whitelist).symm.trans h.names)
      simpa [hname, List.mem_filter, -Bool.and_eq_true] using hboth
    · intro h
      exact ⟨(names_filterMap whitelist).trans (List.filter_congr h), hvalues⟩
  rw [htests]
  refine forall₂_congr fun name hname => ?_
  rw [Bool.eq_iff_iff, isSome_trackedEntry, Bool.and_eq_true, Bool.not_eq_true']
  constructor
  · intro h hskip hpresent
    exact (h.mpr ⟨hskip, hpresent⟩).2
  · intro h
    refine ⟨fun hentry => ⟨hentry.1, ?_⟩, fun hboth => ⟨hboth.1, h hboth.1 hboth.2⟩⟩
    obtain ⟨p, hp⟩ := Option.isSome_iff_exists.mp (isSome_trackedEntry.mpr hentry)
    obtain ⟨key, hsame, hget, hv⟩ := sent_of_trackedEntry hU hp
    rw [(trackedEntry_eq_some hp).2.1] at hsame
    exact present_eq_true.mpr ⟨key, p.value, hsame, hget, hv⟩

/-! ## Other spellings of the same -/

/-- The same parameters, with their names spelled in another case. -/
def Respelled (U : CaseTables) (startup startup' : Table Text Text) : Prop :=
  ∃ l, l.Perm startup'.pairs ∧
    List.Forall₂ (fun p q : Text × Text => SameName U p.1 q.1 ∧ p.2 = q.2) startup.pairs l

/-- No parameter was sent twice, in different spellings with different values. -/
def Unambiguous (U : CaseTables) (startup : Table Text Text) : Prop :=
  ∀ key v key' v', startup.get key = some v → startup.get key' = some v' →
    SameName U key key' → v = v'

lemma exists_of_forall₂ {α β : Type} {R : α → β → Prop} {l : List α} {l' : List β} {a : α}
    (h : List.Forall₂ R l l') (ha : a ∈ l) : ∃ b ∈ l', R a b := by
  induction h with
  | nil => cases ha
  | @cons a' b l l' hab _ ih =>
    rcases List.mem_cons.mp ha with rfl | ha
    · exact ⟨b, List.mem_cons_self, hab⟩
    · obtain ⟨b', hb', hR⟩ := ih ha
      exact ⟨b', List.mem_cons_of_mem b hb', hR⟩

lemma Respelled.get (h : Respelled U startup startup') (hget : startup.get key = some v) :
    ∃ key', SameName U key key' ∧ startup'.get key' = some v := by
  obtain ⟨l, hperm, hpairs⟩ := h
  obtain ⟨⟨key', v'⟩, hmem, hsame, rfl⟩ := exists_of_forall₂ hpairs (Table.mem_pairs.mpr hget)
  exact ⟨key', hsame, Table.mem_pairs.mp (hperm.mem_iff.mp hmem)⟩

lemma Respelled.get_inv (h : Respelled U startup startup') (hget : startup'.get key = some v) :
    ∃ key', SameName U key' key ∧ startup.get key' = some v := by
  obtain ⟨l, hperm, hpairs⟩ := h
  have hmem := hperm.mem_iff.mpr (Table.mem_pairs.mpr hget)
  obtain ⟨⟨key', v'⟩, hmem', hsame, rfl⟩ := exists_of_forall₂ hpairs.flip hmem
  exact ⟨key', hsame, Table.mem_pairs.mp hmem'⟩

lemma present_respelled (h : Respelled U startup startup') (hname : SameName U name name') :
    present U startup name = present U startup' name' := by
  rw [Bool.eq_iff_iff, present_eq_true, present_eq_true]
  constructor
  · rintro ⟨key, v, hsame, hget, hv⟩
    obtain ⟨key', hkey, hget'⟩ := h.get hget
    exact ⟨key', v, hkey.symm.trans (hsame.trans hname), hget', hv⟩
  · rintro ⟨key, v, hsame, hget, hv⟩
    obtain ⟨key', hkey, hget'⟩ := h.get_inv hget
    exact ⟨key', v, hkey.trans (hsame.trans hname.symm), hget', hv⟩

lemma CaseTables.Regular.eq_dash (hU : U.Regular) (h : lowered U name = ['-']) : name = ['-'] := by
  obtain ⟨c, rfl, hc⟩ := List.map_eq_singleton_iff.mp h
  rw [hU.lower_dash c hc]

lemma skipsName_respelled (hU : U.Regular) (h : SameName U name name') :
    skipsName name = skipsName name' := by
  have hdash : lowered U ['-'] = ['-'] := by
    have hascii : U.toLower '-' = '-' := U.toLower_ascii '-' (by decide)
    rw [lowered, List.map_singleton, hascii]
  have hnil : name = [] ↔ name' = [] := by
    have hlower : lowered U name = [] ↔ lowered U name' = [] := by rw [h]
    simpa only [lowered, List.map_eq_nil_iff] using hlower
  have hone : name = ['-'] ↔ name' = ['-'] := by
    constructor
    · rintro rfl
      exact hU.eq_dash (h.symm.trans hdash)
    · rintro rfl
      exact hU.eq_dash (h.trans hdash)
  rw [skipsName, skipsName, decide_eq_decide.mpr hnil, decide_eq_decide.mpr hone]

/-- A test that does not see the difference passes the same positions. -/
lemma filter_forall₂ {R : Text → Text → Prop} {f g : Text → Bool}
    (hfg : ∀ a b, R a b → f a = g b) {l l' : List Text} (h : List.Forall₂ R l l') :
    List.Forall₂ R (l.filter f) (l'.filter g) := by
  induction h with
  | nil => exact .nil
  | @cons a b l l' hab _ ih =>
    cases hf : f a with
    | false =>
      have hg : g b = false := (hfg a b hab).symm.trans hf
      rw [List.filter_cons_of_neg (by simp [hf]), List.filter_cons_of_neg (by simp [hg])]
      exact ih
    | true =>
      rw [List.filter_cons_of_pos hf, List.filter_cons_of_pos ((hfg a b hab).symm.trans hf)]
      exact .cons hab ih

/-- Results that are as they should be do not depend on the case of anything. -/
lemma Replayed.respelled (hU : U.Regular) {out out' : List ParamText}
    (h : Replayed U startup whitelist out) (h' : Replayed U startup' whitelist' out')
    (hstart : Respelled U startup startup')
    (hlist : List.Forall₂ (SameName U) whitelist whitelist') :
    List.Forall₂ (fun p q => SameName U p.name q.name ∧
      (Unambiguous U startup → p.value = q.value)) out out' := by
  have hnames : List.Forall₂ (SameName U) (out.map ParamText.name) (out'.map ParamText.name) := by
    rw [h.names, h'.names]
    refine filter_forall₂ (fun a b hab => ?_) hlist
    rw [skipsName_respelled hU hab, present_respelled hstart hab]
  rw [List.forall₂_map_left_iff, List.forall₂_map_right_iff] at hnames
  obtain ⟨hlen, hzip⟩ := List.forall₂_iff_zip.mp hnames
  refine List.forall₂_iff_zip.mpr ⟨hlen, fun {p q} hpq => ⟨hzip hpq, fun hone => ?_⟩⟩
  obtain ⟨hp, hq⟩ := List.of_mem_zip hpq
  obtain ⟨key, hsame, hget, -⟩ := h.values p hp
  obtain ⟨key', hsame', hget', -⟩ := h'.values q hq
  obtain ⟨key'', hkey, hget''⟩ := hstart.get_inv hget'
  refine hone key p.value key'' q.value hget hget'' ?_
  exact hsame.trans ((hzip hpq).trans (hsame'.symm.trans hkey.symm))

/-- **The parameters that are replayed.**  The result is the one the comment promises exactly where
every parameter sent was sent in one of the two spellings that are looked for; between such inputs
that differ in case only, the result differs in case only. -/
theorem tracked_params_replayed_iff (U : CaseTables) (hU : U.Regular) :
    (∀ startup whitelist,
      Replayed U startup whitelist (extractTrackedParams U startup whitelist) ↔
        Spelled U startup whitelist) ∧
    ∀ startup startup' whitelist whitelist', Respelled U startup startup' →
      List.Forall₂ (SameName U) whitelist whitelist' →
      Spelled U startup whitelist → Spelled U startup' whitelist' →
      List.Forall₂ (fun p q => SameName U p.name q.name ∧
          (Unambiguous U startup → p.value = q.value))
        (extractTrackedParams U startup whitelist)
        (extractTrackedParams U startup' whitelist') := by
  constructor
  · intro startup whitelist
    exact replayed_extract_iff hU
  · intro startup startup' whitelist whitelist' hstart hlist h h'
    exact ((replayed_extract_iff hU).mpr h).respelled hU ((replayed_extract_iff hU).mpr h')
      hstart hlist

/-- Beyond ASCII `Char.toLower` changes nothing. -/
lemma toLower_of_not_ascii {c : Char} (hc : ¬c.toNat < 128) : c.toLower = c := by
  unfold Char.toLower
  split
  · next hupper =>
    have hle : c.toNat ≤ 90 := hupper.2
    omega
  · rfl

lemma asciiTables_regular : asciiTables.Regular := by
  have hascii : ∀ n : Fin 128, (Char.ofNat n).toLower.toLower = (Char.ofNat n).toLower ∧
      ((Char.ofNat n).toLower = '-' → Char.ofNat n = '-') := by decide
  have hall : ∀ c : Char, c.toLower.toLower = c.toLower ∧ (c.toLower = '-' → c = '-') := by
    intro c
    by_cases hc : c.toNat < 128
    · simpa using hascii ⟨c.toNat, hc⟩
    · rw [toLower_of_not_ascii hc, toLower_of_not_ascii hc]
      exact ⟨rfl, id⟩
  exact ⟨fun c => (hall c).1, fun c => (hall c).2⟩

/-- A startup message with one parameter. -/
def oneParam (name value : String) : Table Text Text :=
  ⟨[(name.toList, value.toList)], List.pairwise_singleton _ _⟩

theorem tracked_params_replayed_lower_case :
    extractTrackedParams asciiTables (oneParam "timezone" "UTC") ["TimeZone".toList] =
      [⟨"TimeZone".toList, "UTC".toList⟩] ∧
    Replayed asciiTables (oneParam "timezone" "UTC") ["TimeZone".toList]
      (extractTrackedParams asciiTables (oneParam "timezone" "UTC") ["TimeZone".toList]) := by
  refine ⟨by decide, ?_⟩
  refine ((tracked_params_replayed_iff asciiTables asciiTables_regular).1 _ _).mpr ?_
  intro name hname _ _
  obtain rfl := List.mem_singleton.mp hname
  exact .inr (by decide)

/-- The whitelist has the name in lower case, the client writes it as the server's documentation
does. -/
theorem other_spelling_is_dropped :
    extractTrackedParams asciiTables (oneParam "TimeZone" "UTC") ["timezone".toList] = [] ∧
    SameName asciiTables "TimeZone".toList "timezone".toList ∧
    ¬Replayed asciiTables (oneParam "TimeZone" "UTC") ["timezone".toList]
      (extractTrackedParams asciiTables (oneParam "TimeZone" "UTC") ["timezone".toList]) := by
  have hnone : extractTrackedParams asciiTables (oneParam "TimeZone" "UTC")
      ["timezone".toList] = [] := by decide
  refine ⟨hnone, by decide, fun h => ?_⟩
  have hnames := h.names
  rw [hnone] at hnames
  revert hnames
  decide

end Pgman
