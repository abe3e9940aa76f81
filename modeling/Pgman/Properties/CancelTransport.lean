import Pgman.Construction.Backend.Connect

/-!
# The transport of a cancel

A cancel travels on a connection of its own, which has to repeat the transport of the one it
cancels.  `cancelTLSConfigFor` takes the TLS configuration from the parsed DSN, and that is the
configuration of its first target.  So a connection to another target with a configuration of its
own is recorded with the wrong one, or not handed out at all when the first target is plain text;
`cancel_transport_iff` says that these are the only ones.
-/

namespace Pgman

open Net (Text)

variable {U : CaseTables} {P : ParseConfig} {dsn addr : Text} {requireTLS : Bool}
  {cfg : PgConfig} {t : ConnectTarget} {peer : Peer} {c : DialedConn}
  {outcome : ℕ → TargetOutcome} {lastErr : Option ConnectError}

/-- Which TCP addresses are addresses of a target. -/
structure Addresses where
  addressOf : ConnectTarget → Text → Prop
  /-- dialing a target's own host and port reaches that target -/
  named : ∀ t : ConnectTarget, addressOf t t.addr

/-- A connection that has been established to a target, through pgconn. -/
structure Addresses.Established (N : Addresses) where
  target : ConnectTarget
  peer : Peer
  arrived : ∀ a, peer = .tcp a → N.addressOf target a

/-- The connection is handed out, with the address and the TLS configuration of its target. -/
def Repeats (N : Addresses) (t : ConnectTarget) (peer : Peer)
    (r : Except ConnectError DialedConn) : Prop :=
  ∃ c, r = .ok c ∧ c.conn = t.conn peer ∧ N.addressOf t c.addr ∧ c.cancelTLS = t.tlsConfig

/-- The target is plain text, or it has the configuration of the first one. -/
def TLSOfFirst (cfg : PgConfig) (t : ConnectTarget) : Prop :=
  t.tlsConfig = none ∨ t.tlsConfig = cfg.target.tlsConfig

/-! ## The configuration that is recorded -/

/-- It is none, or the first target's. -/
lemma cancelTLSConfigFor_cases {conn : NetConn} {tls : Option TLSConfig}
    (h : cancelTLSConfigFor conn (some cfg) = .ok tls) :
    tls = none ∨ tls = cfg.target.tlsConfig := by
  unfold cancelTLSConfigFor at h
  split at h
  · exact .inl (Except.ok.inj h).symm
  split at h
  · cases h
  next tls' hfirst =>
    right
    rw [Option.bind_some] at hfirst
    rw [hfirst]
    exact (Except.ok.inj h).symm

lemma cancelTLSConfigFor_of_first (h : TLSOfFirst cfg t) :
    cancelTLSConfigFor (t.conn peer) (some cfg) = .ok t.tlsConfig := by
  unfold cancelTLSConfigFor ConnectTarget.conn
  rcases htls : t.tlsConfig with _ | tls
  · rfl
  · rcases h with h | h
    · rw [htls] at h
      cases h
    · rw [Option.bind_some, ← h, htls]
      rfl

lemma connectedAddr_reaches {N : Addresses} (est : N.Established)
    (h : ∀ path, est.peer = .unix path → N.addressOf est.target addr) :
    N.addressOf est.target (connectedAddr (some (est.target.conn est.peer)) addr) := by
  unfold connectedAddr ConnectTarget.conn
  rcases hpeer : est.peer with a | path
  · exact est.arrived a hpeer
  · exact h path hpeer

/-! ## Both connectors -/

lemma dialBackend_hijacked (hparse : parseForDialer U P dsn requireTLS = .ok cfg) :
    dialBackend U P dsn addr requireTLS (.hijacked t peer) =
      (cancelTLSConfigFor (t.conn peer) (some cfg)).map fun tls =>
        ⟨t.conn peer, connectedAddr (some (t.conn peer)) addr, tls⟩ := by
  simp only [dialBackend, hparse]
  cases cancelTLSConfigFor (t.conn peer) (some cfg) with
  | error err => rfl
  | ok tls => rfl

lemma dialAndHandshake_completed (peer : Text) :
    dialAndHandshake cfg t (.ok peer) =
      (cancelTLSConfigFor (t.conn (.tcp peer)) (some cfg)).map fun tls =>
        ⟨t.conn (.tcp peer), t.addr, tls⟩ := by
  simp only [dialAndHandshake]
  cases cancelTLSConfigFor (t.conn (.tcp peer)) (some cfg) with
  | error err => rfl
  | ok tls => rfl

lemma exists_of_map_ok {α β ε : Type} {x : Except ε α} {f : α → β} {b : β}
    (h : x.map f = .ok b) : ∃ a, x = .ok a ∧ b = f a := by
  cases x with
  | error err => cases h
  | ok a => exact ⟨a, rfl, (Except.ok.inj h).symm⟩

lemma cancelTLS_of_dialAndHandshake {result : Except HandshakeStage Text}
    (h : dialAndHandshake cfg t result = .ok c) :
    c.cancelTLS = none ∨ c.cancelTLS = cfg.target.tlsConfig := by
  cases result with
  | error stage => cases h
  | ok peer =>
    rw [dialAndHandshake_completed] at h
    obtain ⟨tls, htls, rfl⟩ := exists_of_map_ok h
    exact cancelTLSConfigFor_cases htls

lemma cancelTLS_of_tryTargets {targets : List ConnectTarget}
    (h : tryTargets cfg outcome lastErr targets = .ok c) :
    c.cancelTLS = none ∨ c.cancelTLS = cfg.target.tlsConfig := by
  induction targets generalizing outcome lastErr with
  | nil => cases h
  | cons target rest ih =>
    unfold tryTargets at h
    split at h
    next conn hconn =>
      obtain rfl := Except.ok.inj h
      exact cancelTLS_of_dialAndHandshake hconn
    next err _ =>
      split at h
      · cases h
      · exact ih h

/-- The loop passes over the targets that fail. -/
lemma tryTargets_append {before after : List ConnectTarget}
    (h : ∀ i t', before[i]? = some t' →
      (∃ err, dialAndHandshake cfg t' (outcome i).result = .error err) ∧
        (outcome i).done = false) :
    ∃ lastErr', tryTargets cfg outcome lastErr (before ++ after) =
      tryTargets cfg (fun n => outcome (n + before.length)) lastErr' after := by
  induction before generalizing outcome lastErr with
  | nil => exact ⟨lastErr, rfl⟩
  | cons target before ih =>
    obtain ⟨⟨err, herr⟩, hdone⟩ := h 0 target rfl
    obtain ⟨lastErr', hrest⟩ : ∃ lastErr', tryTargets cfg (fun n => outcome (n + 1)) (some err)
        (before ++ after) = tryTargets cfg (fun n => outcome (n + before.length + 1)) lastErr'
          after :=
      ih fun i t' hi => h (i + 1) t' hi
    refine ⟨lastErr', ?_⟩
    rw [List.cons_append, tryTargets]
    simp only [herr, hdone, Bool.false_eq_true, if_false]
    exact hrest

lemma repeats_dialBackend_iff {N : Addresses} (hparse : parseForDialer U P dsn requireTLS = .ok cfg)
    (est : N.Established) :
    Repeats N est.target est.peer
        (dialBackend U P dsn addr requireTLS (.hijacked est.target est.peer)) ↔
      TLSOfFirst cfg est.target ∧
        ∀ path, est.peer = .unix path → N.addressOf est.target addr := by
  rw [dialBackend_hijacked hparse]
  constructor
  · rintro ⟨c, hok, -, haddr, htls⟩
    obtain ⟨tls, hcancel, rfl⟩ := exists_of_map_ok hok
    constructor
    · have hcases := cancelTLSConfigFor_cases hcancel
      dsimp only at htls
      rwa [htls] at hcases
    · intro path hpath
      rw [hpath] at haddr
      exact haddr
  · rintro ⟨hfirst, hunix⟩
    rw [cancelTLSConfigFor_of_first hfirst]
    exact ⟨_, rfl, rfl, connectedAddr_reaches est hunix, rfl⟩

lemma repeats_connectPassthrough_iff {N : Addresses} {before after : List ConnectTarget}
    {peer : Text} (htargets : connectTargets cfg = before ++ t :: after)
    (hbefore : ∀ i t', before[i]? = some t' →
      (∃ err, dialAndHandshake cfg t' (outcome i).result = .error err) ∧ (outcome i).done = false)
    (hdone : (outcome before.length).result = .ok peer) :
    Repeats N t (.tcp peer) (connectPassthrough cfg outcome) ↔ TLSOfFirst cfg t := by
  constructor
  · rintro ⟨c, hok, -, -, htls⟩
    have hcases := cancelTLS_of_tryTargets hok
    rwa [htls] at hcases
  · intro hfirst
    obtain ⟨lastErr', hrun⟩ : ∃ lastErr', connectPassthrough cfg outcome =
        tryTargets cfg (fun n => outcome (n + before.length)) lastErr' (t :: after) := by
      rw [connectPassthrough, htargets]
      exact tryTargets_append hbefore
    refine ⟨⟨t.conn (.tcp peer), t.addr, t.tlsConfig⟩, ?_, rfl, N.named t, rfl⟩
    rw [hrun, tryTargets]
    simp only [Nat.zero_add, hdone, dialAndHandshake_completed,
      cancelTLSConfigFor_of_first hfirst, Except.map]

/-! ## The result -/

/-- **The transport of a cancel.**  Whichever target a connection is established to, it is handed
out with that target's address and TLS configuration if and only if the target is plain text or
has the configuration of the first target and, where pgconn has reached it through a unix socket,
`backend_addr` is an address of it. -/
theorem cancel_transport_iff (N : Addresses) (U : CaseTables) (P : ParseConfig) (dsn addr : Text)
    (requireTLS : Bool) (cfg : PgConfig) (hparse : parseForDialer U P dsn requireTLS = .ok cfg) :
    (∀ est : N.Established, est.target ∈ connectTargets cfg →
      (Repeats N est.target est.peer
          (dialBackend U P dsn addr requireTLS (.hijacked est.target est.peer)) ↔
        TLSOfFirst cfg est.target ∧
          ∀ path, est.peer = .unix path → N.addressOf est.target addr)) ∧
    ∀ (outcome : ℕ → TargetOutcome) (before after : List ConnectTarget) (t : ConnectTarget)
      (peer : Text), connectTargets cfg = before ++ t :: after →
      (∀ i t', before[i]? = some t' →
        (∃ err, dialAndHandshake cfg t' (outcome i).result = .error err) ∧
          (outcome i).done = false) →
      (outcome before.length).result = .ok peer →
        (Repeats N t (.tcp peer) (connectPassthrough cfg outcome) ↔ TLSOfFirst cfg t) := by
  constructor
  · intro est _
    exact repeats_dialBackend_iff hparse est
  · intro outcome before after t peer htargets hbefore hdone
    exact repeats_connectPassthrough_iff htargets hbefore hdone

/-- Every target is known by its own host and port only. -/
def literalAddresses : Addresses where
  addressOf t a := a = t.addr
  named _ := rfl

/-- Two hosts under `sslmode=verify-full`: each configuration names its own server. -/
def verifyFull : PgConfig :=
  ⟨⟨"pg-1".toList, 5432, some 1⟩, [⟨"pg-2".toList, 5432, some 2⟩]⟩

/-- One host under `sslmode=allow`: plain text first, then TLS. -/
def allowTLS : PgConfig := ⟨⟨"pg-1".toList, 5432, none⟩, [⟨"pg-1".toList, 5432, some 1⟩]⟩

/-- A connection to a target, at its own host and port. -/
def directly (t : ConnectTarget) : literalAddresses.Established where
  target := t
  peer := .tcp t.addr
  arrived := by
    intro a ha
    exact (Peer.tcp.inj ha).symm

/-- Two hosts: cancels for the first use its own configuration, and cancels for the second, which
pass-through has reached after the first failed, do not. -/
theorem cancel_transport_iff_first :
    Repeats literalAddresses verifyFull.target (.tcp verifyFull.target.addr)
        (dialBackend asciiTables (fun _ => some verifyFull) [] [] false
          (.hijacked verifyFull.target (.tcp verifyFull.target.addr))) ∧
      ¬ Repeats literalAddresses ⟨"pg-2".toList, 5432, some 2⟩ (.tcp "pg-2".toList)
        (connectPassthrough verifyFull fun n =>
          ⟨if n = 0 then .error .dial else .ok "pg-2".toList, false⟩) := by
  have hiff := cancel_transport_iff literalAddresses asciiTables (fun _ => some verifyFull) [] []
    false verifyFull rfl
  constructor
  · refine (hiff.1 (directly verifyFull.target) List.mem_cons_self).mpr ⟨.inr rfl, ?_⟩
    intro path hpath
    cases hpath
  · rw [hiff.2 _ [verifyFull.target] [] _ _ rfl ?_ rfl]
    · rintro (hnone | hsame)
      · cases hnone
      · exact absurd (Option.some.inj hsame) (by decide)
    · intro i t' hi
      obtain ⟨rfl, rfl⟩ : i = 0 ∧ verifyFull.target = t' := by
        rcases i with _ | i
        · exact ⟨rfl, Option.some.inj hi⟩
        · cases hi
      exact ⟨⟨_, rfl⟩, rfl⟩

/-- After a failover under `verify-full` the cancels use the configuration of the host that is
down, and under `allow` the connection that needs TLS is not handed out. -/
theorem second_target_cancels_as_first :
    ¬ Repeats literalAddresses ⟨"pg-2".toList, 5432, some 2⟩
        (directly ⟨"pg-2".toList, 5432, some 2⟩).peer
        (dialBackend asciiTables (fun _ => some verifyFull) [] [] false
          (.hijacked ⟨"pg-2".toList, 5432, some 2⟩
            (directly ⟨"pg-2".toList, 5432, some 2⟩).peer)) ∧
      dialBackend asciiTables (fun _ => some allowTLS) [] [] false
          (.hijacked ⟨"pg-1".toList, 5432, some 1⟩
            (directly ⟨"pg-1".toList, 5432, some 1⟩).peer) = .error .noCancelTLS := by
  refine ⟨?_, rfl⟩
  rintro ⟨c, hok, -, -, htls⟩
  obtain rfl := Except.ok.inj hok
  exact absurd (Option.some.inj htls) (by decide)

end Pgman
