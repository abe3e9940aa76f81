import Pgman.Properties.HbaFile

/-!
# Rules that never match

`parseHBALine` refuses an empty list of names, because a rule that can never match looks like it
does something.  Every rule it accepts for a TCP connection does match one: its network contains its
own address, and a list of names its first name.  A rule of type `local` is for Unix sockets, which
have no address, and any ADDRESS but `all` asks for one: `live_rule_iff`.
-/

namespace Pgman

open Net (Text)

variable {U : CaseTables} {line : Text} {rule : HBARule}

/-- Some connection that can occur is matched. -/
def Live (U : CaseTables) (rule : HBARule) : Prop :=
  ∃ (conn : ClientConn) (user database : Text),
    (matchHBA U [rule] conn.isTLS conn.isUnix conn.remoteAddrIP user database).isSome = true

lemma live_iff : Live U rule ↔ ∃ (conn : ClientConn) (user database : Text),
    matchHBAType rule.type conn.isTLS conn.isUnix = true ∧
      matchHBAName U rule.allDatabases rule.databases database = true ∧
      matchHBAName U rule.allUsers rule.users user = true ∧
      matchHBAAddr rule conn.remoteAddrIP = true := by
  simp only [Live, matchHBA, List.find?_isSome, List.mem_singleton, exists_eq_left,
    Bool.and_eq_true, and_assoc]

/-! ## What the parser has made sure of -/

/-- A list of names matches one of them. -/
lemma matchHBAName_of_parseNames {what : String} {items : List HBAItem} :
    ∀ {names : List Text} {res : Bool × List Text}, parseNames U what names items = .ok res →
      names ≠ [] ∨ items ≠ [] → ∃ v, matchHBAName U res.1 res.2 v = true := by
  induction items with
  | nil =>
    intro names res h hne
    cases h
    cases names with
    | nil => simp at hne
    | cons n names => exact ⟨n, by simp [matchHBAName, equalFold]⟩
  | cons i items ih =>
    intro names res h _
    rw [parseNames] at h
    split_ifs at h with hall hempty
    · cases h
      exact ⟨[], rfl⟩
    · exact ih h (.inl (List.append_ne_nil_of_right_ne_nil _ (List.cons_ne_nil _ _)))

lemma matchHBAName_of_parseNameList {what : String} {items : List HBAItem}
    {res : Bool × List Text} (h : parseNameList U items what = .ok res) :
    ∃ v, matchHBAName U res.1 res.2 v = true := by
  unfold parseNameList at h
  split_ifs at h with hne
  exact matchHBAName_of_parseNames h (.inr hne)

/-- Some address is accepted, and none is needed just for `all`. -/
lemma matchHBAAddr_of_parseAddress {addr : HBAItem} (h : parseAddress U addr =
    .ok (rule.net, rule.samehost)) :
    (∃ ip : PeerIP, matchHBAAddr rule (some ip.bytes) = true) ∧
      (matchHBAAddr rule none = true ↔ addr.isKeyword U "all".toList = true) := by
  unfold parseAddress at h
  split_ifs at h with hall hsame
  · obtain ⟨hnet, hsh⟩ := Prod.mk.inj (Except.ok.inj h)
    refine ⟨⟨⟨[127, 0, 0, 1], .inl rfl⟩, ?_⟩, ?_⟩
    · simp [matchHBAAddr, ← hnet, ← hsh]
    · exact iff_of_true (by simp [matchHBAAddr, ← hnet, ← hsh]) hall
  · obtain ⟨-, hsh⟩ := Prod.mk.inj (Except.ok.inj h)
    refine ⟨⟨⟨[127, 0, 0, 1], .inl rfl⟩, ?_⟩, ?_⟩
    · rw [matchHBAAddr, ← hsh, if_pos rfl]
      decide
    · exact iff_of_false (by simp [matchHBAAddr, ← hsh]) hall
  · split at h
    · next ipnet hcidr =>
      obtain ⟨hnet, hsh⟩ := Prod.mk.inj (Except.ok.inj h)
      obtain ⟨hlen, hself⟩ := Net.contains_of_parseCIDR hcidr
      refine ⟨⟨⟨ipnet.ip, hlen⟩, ?_⟩, ?_⟩
      · simp [matchHBAAddr, ← hnet, ← hsh, hself]
      · exact iff_of_false (by simp [matchHBAAddr, ← hnet, ← hsh]) hall
    · cases h

/-- The fields of a line that is accepted, each with what was made of it. -/
lemma fields_of_parseHBALine (h : parseHBALine U line = .ok rule) :
    ∃ type databases users addr method,
      tokenizeHBALine line = .ok [[type], databases, users, [addr], [method]] ∧
        parseType U type.value = .ok rule.type ∧
        parseNameList U databases "DATABASE" = .ok (rule.allDatabases, rule.databases) ∧
        parseNameList U users "USER" = .ok (rule.allUsers, rule.users) ∧
        parseAddress U addr = .ok (rule.net, rule.samehost) := by
  unfold parseHBALine at h
  split at h
  · cases h
  · next type databases users address method htok =>
    -- the fields that take no list have one item
    have hone : ∀ {field : List HBAItem} {what : String} {i : HBAItem},
        singleItem field what = .ok i → field = [i] := by
      intro field what i hi
      unfold singleItem at hi
      split at hi
      · cases hi; rfl
      · cases hi
    unfold parseFields at h
    simp only [bind, Except.bind] at h
    split at h
    · cases h
    · next _ typeItem htype =>
      split at h
      · cases h
      · next _ t ht =>
        split at h
        · cases h
        · next _ ds hds =>
          split at h
          · cases h
          · next _ us hus =>
            split at h
            · cases h
            · next _ addrItem haddr =>
              split at h
              · cases h
              · next _ a ha =>
                split at h
                · cases h
                · next _ methodItem hmethod =>
                  split at h
                  · cases h
                  · cases h
                    obtain rfl := hone htype
                    obtain rfl := hone haddr
                    obtain rfl := hone hmethod
                    exact ⟨_, _, _, _, _, htok, ht, hds, hus, ha⟩
  · split_ifs at h

/-! ## The result -/

/-- The line is of type `local` and its ADDRESS is not `all`. -/
def LocalWithAddress (U : CaseTables) (line : Text) : Prop :=
  ∃ type databases users addr method,
    tokenizeHBALine line = .ok [[type], databases, users, [addr], [method]] ∧
      parseType U type.value = .ok .unixLocal ∧ addr.isKeyword U "all".toList = false

/-- Every type but `local` is matched by some connection with any given address. -/
lemma matchHBAType_of_ne_local {t : HBAConnType} (h : t ≠ .unixLocal) (ip : PeerIP) :
    ∃ conn : ClientConn, matchHBAType t conn.isTLS conn.isUnix = true ∧
      conn.remoteAddrIP = some ip.bytes := by
  cases t with
  | unixLocal => exact absurd rfl h
  | hostAny => exact ⟨.tcp ip, rfl, rfl⟩
  | hostSSL => exact ⟨.tls ip none, rfl, rfl⟩
  | hostNoSSL => exact ⟨.tcp ip, rfl, rfl⟩

/-- **Dead rules.**  A line that is accepted makes a rule that some connection matches, unless the
line is of type `local` and has an ADDRESS other than `all`. -/
theorem live_rule_iff (U : CaseTables) (line : Text) (rule : HBARule)
    (h : parseHBALine U line = .ok rule) : Live U rule ↔ ¬LocalWithAddress U line := by
  obtain ⟨type, databases, users, addr, method, htok, htype, hds, hus, haddr⟩ :=
    fields_of_parseHBALine h
  obtain ⟨database, hdatabase⟩ := matchHBAName_of_parseNameList hds
  obtain ⟨user, huser⟩ := matchHBAName_of_parseNameList hus
  obtain ⟨⟨ip, hip⟩, hnone⟩ := matchHBAAddr_of_parseAddress haddr
  -- the fields of the line are these
  have hwith : LocalWithAddress U line ↔
      rule.type = .unixLocal ∧ addr.isKeyword U "all".toList = false := by
    constructor
    · rintro ⟨type', databases', users', addr', method', htok', htype', haddr'⟩
      rw [htok] at htok'
      cases htok'
      rw [htype] at htype'
      exact ⟨Except.ok.inj htype', haddr'⟩
    · rintro ⟨hlocal, hall⟩
      exact ⟨type, databases, users, addr, method, htok, hlocal ▸ htype, hall⟩
  rw [hwith, live_iff]
  constructor
  · rintro ⟨conn, user', database', hct, -, -, hca⟩ ⟨hlocal, hall⟩
    rw [hlocal] at hct
    cases conn with
    | unix uid =>
      rw [hnone.mp hca] at hall
      cases hall
    | tcp remote => cases hct
    | tls remote name => cases hct
  · intro hlive
    by_cases hlocal : rule.type = .unixLocal
    · have hall : addr.isKeyword U "all".toList = true := by
        cases hk : addr.isKeyword U "all".toList with
        | true => rfl
        | false => exact absurd ⟨hlocal, hk⟩ hlive
      exact ⟨.unix none, user, database, by rw [hlocal]; rfl, hdatabase, huser, hnone.mpr hall⟩
    · obtain ⟨conn, hct, hremote⟩ := matchHBAType_of_ne_local hlocal ip
      exact ⟨conn, user, database, hct, hdatabase, huser, hremote ▸ hip⟩

/-- `local all all samehost reject`: meant for the machine itself, and inert. -/
def inertLine : Text := "local all all samehost reject".toList

def inertRule : HBARule := ⟨.unixLocal, true, true, [], [], none, true, .reject, 0⟩

lemma parse_inertLine : parseHBALine asciiTables inertLine = .ok inertRule := by decide

theorem live_rule_iff_inert :
    Live asciiTables inertRule ↔ ¬LocalWithAddress asciiTables inertLine :=
  live_rule_iff asciiTables inertLine inertRule parse_inertLine

/-- The line is accepted, and its rule rejects nobody. -/
theorem local_samehost_is_inert :
    parseHBALine asciiTables inertLine = .ok inertRule ∧ ¬Live asciiTables inertRule := by
  refine ⟨parse_inertLine, ?_⟩
  rw [live_iff]
  rintro ⟨conn, user, database, htype, -, -, haddr⟩
  cases conn with
  | unix uid => cases haddr
  | tcp remote => cases htype
  | tls remote name => cases htype

end Pgman
