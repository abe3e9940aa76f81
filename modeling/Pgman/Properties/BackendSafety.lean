import Pgman.Construction.Backend.Changes
import Pgman.Properties.HbaFile

/-!
# What a pool may be pointed at

Two promises about the connections a pool dials.

`validateBackendAddr` refuses addresses that are never a database.  It looks at `backend_addr`, and
the dialers never do: they connect to the hosts of the DSNs.  `refused_never_dialed_iff` says what
of the promise is left for a configuration that `Add` or `Reconfigure` accepts: it holds where the
literal addresses of the DSNs are the one of `backend_addr`, and it is the checks that keep it
nowhere else, because any other address could stand there and would be accepted as well.

`require_backend_tls` is held against a DSN by `dsnRequiresTLS`, which looks at the parsed targets
and then, for good measure, for `sslmode=` in the text.  The text of a DSN has other fields, and a
match there overrules the targets: `requireTLS_sound_iff`.
-/

namespace Pgman

open Net (Text IP Addr)

/-! ## Refused addresses -/

namespace Net

lemma to4_as16 (ip : IP) : to4 (as16 ip) = to4 ip := by
  unfold as16
  split_ifs with h
  · have hlen : (v4InV6Prefix ++ ip).length = 16 := by rw [List.length_append, h]; rfl
    have htake : (v4InV6Prefix ++ ip).take 12 = v4InV6Prefix := List.take_left' rfl
    have hdrop : (v4InV6Prefix ++ ip).drop 12 = ip := List.drop_left' rfl
    rw [to4, if_neg (by omega), if_pos ⟨hlen, htake⟩, hdrop, to4, if_pos h]
  · rfl

/-- An IPv4 address and the IPv6 address it is mapped to are of the same classes. -/
lemma as16_classes (ip : IP) : isUnspecified (as16 ip) = isUnspecified ip ∧
    isLinkLocalUnicast (as16 ip) = isLinkLocalUnicast ip ∧
    isLinkLocalMulticast (as16 ip) = isLinkLocalMulticast ip ∧
    isMulticast (as16 ip) = isMulticast ip := by
  by_cases h : ip.length = 4
  · have hip : to4 ip = some ip := if_pos h
    have has : to4 (as16 ip) = some ip := (to4_as16 ip).trans hip
    simp only [isUnspecified, isLinkLocalUnicast, isLinkLocalMulticast, isMulticast, has, hip,
      and_self]
  · have hsame : as16 ip = ip := if_neg h
    rw [hsame]
    exact ⟨rfl, rfl, rfl, rfl⟩

end Net

/-- No database answers at the address. -/
def NeverBackend (ip : IP) : Prop :=
  Net.isUnspecified ip = true ∨ Net.isLinkLocalUnicast ip = true ∨
    Net.isLinkLocalMulticast ip = true ∨ Net.isMulticast ip = true

lemma checkBackendIP_eq_ok {ip : IP} {addr : Text} :
    checkBackendIP (Net.as16 ip) addr = .ok () ↔ ¬NeverBackend ip := by
  obtain ⟨hun, hllu, hllm, hmc⟩ := Net.as16_classes ip
  unfold checkBackendIP NeverBackend
  rw [hun, hllu, hllm, hmc]
  cases Net.isUnspecified ip <;> cases Net.isLinkLocalUnicast ip <;>
    cases Net.isLinkLocalMulticast ip <;> cases Net.isMulticast ip <;> simp

/-- The address is the host of `backend_addr`, as `validateBackendAddr` cuts it out. -/
def IsBackendHost (backendAddr : Text) (a : Addr) : Prop :=
  ∃ host port, Net.splitHostPort backendAddr = some (host, port) ∧
    Net.parseAddr (trimBrackets host) = some a ∧ a.zone = []

/-- The host of an address that passes was looked at, unless it has a zone. -/
lemma not_neverBackend_of_isBackendHost {addr : Text} {a : Addr}
    (hvalid : validateBackendAddr addr = .ok ()) (h : IsBackendHost addr a) :
    ¬NeverBackend a.bytes := by
  obtain ⟨host, port, hsplit, hparse, hzone⟩ := h
  obtain ⟨bytes, zone⟩ := a
  obtain rfl : zone = [] := hzone
  have hip : Net.parseIP (trimBrackets host) = some (Net.as16 bytes) := by
    rw [Net.parseIP, hparse]
  unfold validateBackendAddr at hvalid
  split_ifs at hvalid
  simp only [hsplit, hip] at hvalid
  split_ifs at hvalid
  exact checkBackendIP_eq_ok.mp hvalid

/-! ### Which hosts a pool dials -/

/-- The registry that `Add` or `Reconfigure` leaves when it accepts the configuration. -/
inductive AcceptedBy (r : PoolRegistry) (now : ℤ) (name : Text) (cfg : PoolConfig) :
    PoolRegistry → Prop
  | added {r' : PoolRegistry} (h : r.add now name cfg = .ok r') : AcceptedBy r now name cfg r'
  | reconfigured {old : List ℕ} {changed : Bool} {r' : PoolRegistry}
      (h : r.reconfigure now name cfg = .ok (old, changed, r')) : AcceptedBy r now name cfg r'

/-- The entries of a pool: those it was configured with, and those that `Resolve` makes of its base
entry when a client passes its own credentials through. -/
inductive EntryOf (r : PoolRegistry) (name : Text) : RegistryEntry → Prop
  | configured {k : Text} {e : RegistryEntry} (h : r.entries.get k = some e)
      (hname : e.poolName = name) (hconf : e.passthrough = false) : EntryOf r name e
  | passthrough {b : RegistryEntry} (h : r.base name = some b) (user : Text) (p : ℕ) (now : ℤ) :
      EntryOf r name ⟨name, user, b.config, true, p, now⟩

/-- One of the pool's dialers connects to the host. -/
def Dials (U : CaseTables) (P : ParseConfig) (requireTLS : Bool) (r : PoolRegistry)
    (name host : Text) : Prop :=
  ∃ e held targets, EntryOf r name e ∧
    PoolRegistry.dialerFor U P held requireTLS e = .ok targets ∧ ∃ t ∈ targets, t.host = host

/-- The host stands in one of the configuration's DSNs, as they are parsed for the dialers. -/
def DSNHost (U : CaseTables) (P : ParseConfig) (requireTLS : Bool) (cfg : PoolConfig)
    (host : Text) : Prop :=
  ∃ user c parsed, cfg.identity user = some c ∧
    parseForDialer U P c.backendDSN requireTLS = .ok parsed ∧
    ∃ t ∈ connectTargets parsed, t.host = host

lemma validatePoolConfig_of_acceptedBy {r r' : PoolRegistry} {now : ℤ} {name : Text}
    {cfg : PoolConfig} (h : AcceptedBy r now name cfg r') :
    validatePoolConfig name cfg = .ok () := by
  cases h with
  | added h => exact (PoolRegistry.add_eq_ok.mp h).1
  | reconfigured h => exact (PoolRegistry.reconfigure_eq_ok.mp h).1

/-- After either call the pool's base entry knows the identities of the configuration. -/
lemma base_of_acceptedBy {r r' : PoolRegistry} {now : ℤ} {name : Text} {cfg : PoolConfig}
    (hr : r.Keyed) (h : AcceptedBy r now name cfg r') :
    r'.Keyed ∧ ∃ b, r'.base name = some b ∧ ∀ u, b.config.identity u = cfg.identity u := by
  have hname := plain_of_validatePoolConfig (validatePoolConfig_of_acceptedBy h)
  have hmade : ∀ r₀ : PoolRegistry, ∃ b, (r₀.addEntries now name cfg).base name = some b ∧
      ∀ u, b.config.identity u = cfg.identity u := by
    intro r₀
    obtain ⟨c, p, hc, hbase⟩ : ∃ c p, cfg.identity [] = some c ∧
      (r₀.addEntries now name cfg).base name = some ⟨name, [], c, false, p, now⟩ :=
        PoolRegistry.base_addEntries_self
    exact ⟨_, hbase, identity_of_base hc⟩
  cases h with
  | added h =>
    obtain ⟨-, hnone, rfl⟩ := PoolRegistry.add_eq_ok.mp h
    exact ⟨hr.addEntries hname ((hr.entriesOf_eq_nil_iff hname).mpr hnone), hmade r⟩
  | reconfigured h =>
    obtain ⟨-, b, hb, ⟨rfl, hx⟩ | ⟨-, hx⟩⟩ := PoolRegistry.reconfigure_eq_ok.mp h
    · obtain rfl := congrArg (·.2.2) hx
      exact ⟨hr, b, hb, fun _ => rfl⟩
    · obtain rfl := congrArg (·.2.2) hx
      exact ⟨hr.replace hname, hmade _⟩

/-- What a dialer connects to is what its DSN is parsed to. -/
lemma parse_of_dialerFor {U : CaseTables} {P : ParseConfig} {held : Text → Bool} {requireTLS : Bool}
    {e : RegistryEntry} {targets : List ConnectTarget}
    (h : PoolRegistry.dialerFor U P held requireTLS e = .ok targets) :
    ∃ parsed, parseForDialer U P e.config.backendDSN requireTLS = .ok parsed ∧
      connectTargets parsed = targets := by
  unfold PoolRegistry.dialerFor newPassthroughDialer newDialBackend at h
  cases hparse : parseForDialer U P e.config.backendDSN requireTLS with
  | error err => simp [hparse, Except.map] at h
  | ok parsed =>
    simp only [hparse, Except.map] at h
    split_ifs at h <;> exact ⟨parsed, rfl, Except.ok.inj h⟩

/-- The hosts a pool dials are the hosts of its DSNs. -/
lemma dials_iff {U : CaseTables} {P : ParseConfig} {requireTLS : Bool} {r r' : PoolRegistry}
    {now : ℤ} {name host : Text} {cfg : PoolConfig} (hr : r.Keyed)
    (h : AcceptedBy r now name cfg r') :
    Dials U P requireTLS r' name host ↔ DSNHost U P requireTLS cfg host := by
  have hname := plain_of_validatePoolConfig (validatePoolConfig_of_acceptedBy h)
  obtain ⟨hkeyed, b, hb, hid⟩ := base_of_acceptedBy hr h
  constructor
  · rintro ⟨e, held, targets, he, hdial, t, ht, rfl⟩
    obtain ⟨parsed, hparse, rfl⟩ := parse_of_dialerFor hdial
    suffices hmine : ∃ user, cfg.identity user = some e.config by
      obtain ⟨user, huser⟩ := hmine
      exact ⟨user, e.config, parsed, huser, hparse, t, ht, rfl⟩
    cases he with
    | configured hget heq hconf =>
      have hkey := hkeyed.key hget
      rw [heq] at hkey
      subst hkey
      refine ⟨e.backendUser, ?_⟩
      cases hu : b.config.identity e.backendUser with
      | none =>
        rw [hkeyed.other hb hname hu hget] at hconf
        cases hconf
      | some c =>
        obtain ⟨p, t', hentry⟩ := hkeyed.identity hb hname hu
        have hconfig : e.config = c :=
          congrArg RegistryEntry.config (Option.some.inj (hget.symm.trans hentry))
        rw [← hid, hu, hconfig]
    | @passthrough b' hb' user p now =>
      obtain rfl := Option.some.inj (hb.symm.trans hb')
      obtain ⟨c, hc⟩ := identity_nil b.config
      obtain ⟨p, t', hentry⟩ := hkeyed.identity hb hname hc
      obtain rfl := Option.some.inj (hb.symm.trans hentry)
      exact ⟨[], (hid []).symm.trans hc⟩
  · rintro ⟨user, c, parsed, huser, hparse, t, ht, rfl⟩
    obtain ⟨p, t', hentry⟩ := hkeyed.identity hb hname ((hid user).trans huser)
    refine ⟨_, fun _ => false, connectTargets parsed, .configured hentry rfl rfl, ?_, t, ht, rfl⟩
    simp [PoolRegistry.dialerFor, newDialBackend, hparse, Except.map]

lemma validateBackendAddr_of_validatePoolConfig {name : Text} {cfg : PoolConfig}
    (h : validatePoolConfig name cfg = .ok ()) : validateBackendAddr cfg.backendAddr = .ok () := by
  unfold validatePoolConfig at h
  split_ifs at h
  cases hv : validateBackendAddr cfg.backendAddr with
  | ok u => rfl
  | error err =>
    rw [hv] at h
    cases h

/-! ### Where the check does not look -/

/-- No address that is refused is dialed. -/
def NeverDialsRefused (U : CaseTables) (P : ParseConfig) (requireTLS : Bool) (r : PoolRegistry)
    (name : Text) : Prop :=
  ∀ host a, Dials U P requireTLS r name host → Net.parseAddr host = some a → ¬NeverBackend a.bytes

/-- Every literal address in the DSNs is the host of `backend_addr`, without a zone. -/
def OwnAddresses (U : CaseTables) (P : ParseConfig) (requireTLS : Bool) (cfg : PoolConfig) : Prop :=
  ∀ host a, DSNHost U P requireTLS cfg host → Net.parseAddr host = some a →
    IsBackendHost cfg.backendAddr a

def ConnectTarget.rehost (f : Text → Text) (t : ConnectTarget) : ConnectTarget :=
  { t with host := f t.host }

def PgConfig.rehost (f : Text → Text) (cfg : PgConfig) : PgConfig :=
  ⟨cfg.target.rehost f, cfg.fallbacks.map (·.rehost f)⟩

lemma connectTargets_rehost (f : Text → Text) (cfg : PgConfig) :
    connectTargets (cfg.rehost f) = (connectTargets cfg).map (·.rehost f) := rfl

/-- The same DSNs with other hosts in them. -/
def rehosted (f : Text → Text) (P : ParseConfig) : ParseConfig := fun dsn =>
  (P dsn).map (·.rehost f)

/-- Only addresses that were not looked at are exchanged: names stay, and the host of
`backend_addr` stays. -/
def SparesChecked (backendAddr : Text) (f : Text → Text) : Prop :=
  ∀ host, (∀ a, Net.parseAddr host = some a → IsBackendHost backendAddr a) → f host = host

/-- Which targets there are does not depend on their hosts. -/
lemma parseForDialer_rehosted {U : CaseTables} {P : ParseConfig} {f : Text → Text} {dsn : Text}
    {requireTLS : Bool} :
    parseForDialer U (rehosted f P) dsn requireTLS =
      (parseForDialer U P dsn requireTLS).map (·.rehost f) := by
  unfold parseForDialer rehosted
  cases P dsn with
  | none => rfl
  | some cfg =>
    have htls : dsnRequiresTLS U (cfg.rehost f) dsn = dsnRequiresTLS U cfg dsn := by
      have hnil : ((cfg.rehost f).fallbacks == []) = (cfg.fallbacks == []) := by
        unfold PgConfig.rehost
        cases cfg.fallbacks <;> rfl
      unfold dsnRequiresTLS
      rw [hnil]
      rfl
    simp only [Option.map_some, htls]
    split_ifs <;> rfl

lemma dsnHost_rehosted {U : CaseTables} {P : ParseConfig} {f : Text → Text} {requireTLS : Bool}
    {cfg : PoolConfig} {host : Text} :
    DSNHost U (rehosted f P) requireTLS cfg host ↔
      ∃ host₀, DSNHost U P requireTLS cfg host₀ ∧ f host₀ = host := by
  constructor
  · rintro ⟨user, c, parsed, huser, hparse, t, ht, rfl⟩
    rw [parseForDialer_rehosted] at hparse
    cases hp : parseForDialer U P c.backendDSN requireTLS with
    | error err => rw [hp] at hparse; cases hparse
    | ok parsed₀ =>
      rw [hp] at hparse
      obtain rfl := Except.ok.inj hparse
      rw [connectTargets_rehost] at ht
      obtain ⟨t₀, ht₀, rfl⟩ := List.mem_map.mp ht
      exact ⟨t₀.host, ⟨user, c, parsed₀, huser, hp, t₀, ht₀, rfl⟩, rfl⟩
  · rintro ⟨host₀, ⟨user, c, parsed, huser, hparse, t, ht, rfl⟩, rfl⟩
    refine ⟨user, c, parsed.rehost f, huser, ?_, t.rehost f, ?_, rfl⟩
    · rw [parseForDialer_rehosted, hparse]
      rfl
    · rw [connectTargets_rehost]
      exact List.mem_map_of_mem ht

/-- The address of the instance metadata service. -/
def metadataAddr : Text := "169.254.169.254".toList

lemma parseAddr_metadataAddr : Net.parseAddr metadataAddr = some ⟨[169, 254, 169, 254], []⟩ := by
  decide

lemma neverBackend_metadataAddr : NeverBackend [169, 254, 169, 254] := .inr (.inl (by decide))

/-- **Refused addresses.**  What `Add` and `Reconfigure` accept never dials an address that is
refused if every literal address in the DSNs is the one of `backend_addr`.  No weaker condition on
the places where addresses stand would do: the promise is kept whatever addresses stand where the
check does not look if and only if there are no such places. -/
theorem refused_never_dialed_iff (U : CaseTables) (P : ParseConfig) (requireTLS : Bool)
    {r r' : PoolRegistry} {now : ℤ} {name : Text} {cfg : PoolConfig} (hr : r.Keyed)
    (haccepted : AcceptedBy r now name cfg r') :
    (OwnAddresses U P requireTLS cfg → NeverDialsRefused U P requireTLS r' name) ∧
      ((∀ f, SparesChecked cfg.backendAddr f →
          NeverDialsRefused U (rehosted f P) requireTLS r' name) ↔
        OwnAddresses U P requireTLS cfg) := by
  have hvalid := validateBackendAddr_of_validatePoolConfig
    (validatePoolConfig_of_acceptedBy haccepted)
  have hsafe : ∀ {P : ParseConfig}, OwnAddresses U P requireTLS cfg →
      NeverDialsRefused U P requireTLS r' name := by
    intro P hown host a hdial hparse
    exact not_neverBackend_of_isBackendHost hvalid
      (hown host a ((dials_iff hr haccepted).mp hdial) hparse)
  refine ⟨hsafe, fun h => ?_, fun hown f hf => hsafe ?_⟩
  · -- with the metadata service in every place that was not looked at
    classical
    intro host a hhost hparse
    by_contra hother
    let f : Text → Text := fun host =>
      if ∀ a, Net.parseAddr host = some a → IsBackendHost cfg.backendAddr a then host
      else metadataAddr
    have hf : f host = metadataAddr := if_neg fun hall => hother (hall a hparse)
    have hdial : Dials U (rehosted f P) requireTLS r' name metadataAddr :=
      (dials_iff hr haccepted).mpr (dsnHost_rehosted.mpr ⟨host, hhost, hf⟩)
    exact h f (fun host hall => if_pos hall) _ _ hdial parseAddr_metadataAddr
      neverBackend_metadataAddr
  · -- nothing is exchanged
    intro host a hhost hparse
    obtain ⟨host₀, hhost₀, rfl⟩ := dsnHost_rehosted.mp hhost
    have hsame : f host₀ = host₀ := hf host₀ fun a₀ ha₀ => hown host₀ a₀ hhost₀ ha₀
    rw [hsame] at hparse
    exact hown host₀ a hhost₀ hparse

/-- A pool whose DSN names the address of its `backend_addr`. -/
def ownDSN : Text := "host=10.0.0.5".toList

def ownParse : ParseConfig := fun dsn =>
  if dsn = ownDSN then some ⟨⟨"10.0.0.5".toList, 5432, none⟩, []⟩ else none

def ownPool : PoolConfig :=
  ⟨ownDSN, "10.0.0.5:5432".toList, 10, none, false, none, [], 0, 0, 0, 0, 0, 0⟩

lemma dsnHost_of_single {P : ParseConfig} {cfg : PoolConfig} {host h : Text}
    (husers : cfg.backendUsers = none)
    (hP : P cfg.backendDSN = some ⟨⟨h, 5432, none⟩, []⟩)
    (hhost : DSNHost asciiTables P false cfg host) : host = h := by
  obtain ⟨user, c, parsed, huser, hparse, t, ht, rfl⟩ := hhost
  have hc : c = cfg := by
    unfold PoolConfig.identity PoolConfig.users at huser
    rw [husers] at huser
    by_cases hu : user = []
    · simpa [Table.get, Table.empty, hu, eq_comm] using huser
    · simp [Table.get, Table.empty, hu] at huser
  subst hc
  simp only [parseForDialer, hP, Bool.false_and, Bool.false_eq_true, if_false] at hparse
  obtain rfl := Except.ok.inj hparse
  obtain rfl := List.mem_singleton.mp ht
  rfl

/-- A pool that is pointed at the address that was looked at. -/
theorem refused_never_dialed_own_address :
    ∃ r', AcceptedBy .empty 0 "shop".toList ownPool r' ∧
      NeverDialsRefused asciiTables ownParse false r' "shop".toList := by
  have haccepted : AcceptedBy .empty 0 "shop".toList ownPool
      (PoolRegistry.addEntries 0 "shop".toList ownPool .empty) := .added (by decide)
  refine ⟨_, haccepted, (refused_never_dialed_iff asciiTables ownParse false
    PoolRegistry.keyed_empty haccepted).1 fun host a hhost hparse => ?_⟩
  obtain rfl := dsnHost_of_single rfl rfl hhost
  obtain rfl : (⟨[10, 0, 0, 5], []⟩ : Addr) = a := Option.some.inj
    ((show _ = Net.parseAddr "10.0.0.5".toList by decide).trans hparse)
  exact ⟨"10.0.0.5".toList, "5432".toList, by decide, by decide, rfl⟩

/-- A pool whose `backend_addr` is harmless, and whose DSN is parsed to one host. -/
def metadataDSN : Text := "host=169.254.169.254 sslmode=disable".toList

def metadataParse : ParseConfig := fun dsn =>
  if dsn = metadataDSN then some ⟨⟨metadataAddr, 5432, none⟩, []⟩ else none

def metadataPool : PoolConfig :=
  ⟨metadataDSN, "db.internal:5432".toList, 10, none, false, none, [], 0, 0, 0, 0, 0, 0⟩

/-- The pool is accepted and dials the instance metadata service. -/
theorem metadata_service_dialed :
    ∃ r', AcceptedBy .empty 0 "shop".toList metadataPool r' ∧
      ∃ host a, Dials asciiTables metadataParse false r' "shop".toList host ∧
        Net.parseAddr host = some a ∧ NeverBackend a.bytes := by
  have haccepted : AcceptedBy .empty 0 "shop".toList metadataPool
      (PoolRegistry.addEntries 0 "shop".toList metadataPool .empty) := .added (by decide)
  have hhost : DSNHost asciiTables metadataParse false metadataPool metadataAddr :=
    ⟨[], metadataPool, ⟨⟨metadataAddr, 5432, none⟩, []⟩, rfl, rfl, _,
      List.mem_singleton_self _, rfl⟩
  exact ⟨_, haccepted, metadataAddr, _, (dials_iff PoolRegistry.keyed_empty haccepted).mpr hhost,
    parseAddr_metadataAddr, neverBackend_metadataAddr⟩

/-! ## TLS -/

/-- No target of the list is dialed in plain text. -/
def AllTLS (targets : List ConnectTarget) : Prop := ∀ t ∈ targets, t.tlsConfig.isSome = true

lemma parseForDialer_eq_ok {U : CaseTables} {P : ParseConfig} {dsn : Text} {cfg : PgConfig} :
    parseForDialer U P dsn true = .ok cfg ↔ P dsn = some cfg ∧ dsnRequiresTLS U cfg dsn = true := by
  unfold parseForDialer
  constructor
  · intro h
    split at h
    · cases h
    · next parsed hP =>
      split_ifs at h with hreq
      cases h
      exact ⟨hP, by simpa using hreq⟩
  · rintro ⟨hP, hreq⟩
    simp [hP, hreq]

/-- A target without fallbacks that has TLS is all there is. -/
lemma allTLS_of_structural {cfg : PgConfig}
    (h : (cfg.target.tlsConfig.isSome && cfg.fallbacks == []) = true) :
    AllTLS (connectTargets cfg) := by
  obtain ⟨htls, hnone⟩ := Bool.and_eq_true_iff.mp h
  intro t ht
  rw [connectTargets, eq_of_beq hnone, List.mem_singleton] at ht
  exact ht ▸ htls

/-- **`require_backend_tls`.**  The two dialers keep their promise for a DSN just when its text does
not mention one of the three modes, or it asks for TLS on every target anyway. -/
theorem requireTLS_sound_iff (U : CaseTables) (P : ParseConfig) (dsn user : Text) :
    ((∀ targets, newDialBackend U P dsn true = .ok targets → AllTLS targets) ∧
        ∀ held targets, newPassthroughDialer U P dsn user held true = .ok targets →
          AllTLS targets) ↔
      sniffsTLS U dsn = false ∨ ∀ cfg, P dsn = some cfg → AllTLS (connectTargets cfg) := by
  constructor
  · rintro ⟨hdirect, -⟩
    cases hsniff : sniffsTLS U dsn with
    | false => exact .inl rfl
    | true =>
      refine .inr fun cfg hcfg => hdirect _ ?_
      have hreq : dsnRequiresTLS U cfg dsn = true := by rw [dsnRequiresTLS, hsniff, Bool.or_true]
      rw [newDialBackend, parseForDialer_eq_ok.mpr ⟨hcfg, hreq⟩]
      rfl
  · intro h
    -- whatever a dialer parses and does not refuse has TLS throughout
    have hall : ∀ cfg, parseForDialer U P dsn true = .ok cfg → AllTLS (connectTargets cfg) := by
      intro cfg hcfg
      obtain ⟨hP, hreq⟩ := parseForDialer_eq_ok.mp hcfg
      rcases h with hsniff | htls
      · rw [dsnRequiresTLS, hsniff, Bool.or_false] at hreq
        exact allTLS_of_structural hreq
      · exact htls cfg hP
    constructor
    · intro targets hdial
      cases hparse : parseForDialer U P dsn true with
      | error err => rw [newDialBackend, hparse] at hdial; cases hdial
      | ok cfg =>
        rw [newDialBackend, hparse] at hdial
        cases hdial
        exact hall cfg hparse
    · intro held targets hdial
      unfold newPassthroughDialer at hdial
      split at hdial
      · cases hdial
      · next cfg hparse =>
        split_ifs at hdial
        cases hdial
        exact hall cfg hparse

/-- A DSN that names a mode in its application name and turns TLS off. -/
def nickDSN : Text := "host=db application_name=sslmode=require sslmode=disable".toList

def nickParse : ParseConfig := fun dsn =>
  if dsn = nickDSN then some ⟨⟨"db".toList, 5432, none⟩, []⟩ else none

theorem plain_text_despite_requireTLS :
    newDialBackend asciiTables nickParse nickDSN true = .ok [⟨"db".toList, 5432, none⟩] ∧
      ¬AllTLS [⟨"db".toList, 5432, none⟩] :=
  ⟨by decide, fun h => Bool.false_ne_true (h _ (List.mem_singleton_self _))⟩

end Pgman
