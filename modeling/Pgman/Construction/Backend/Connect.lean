import Pgman.Construction.Backend.Dialer

/-!
# Connecting to a backend

What a dialer returns once a target has answered: the function inside `newDialBackend` (`main.go`)
and `connectPassthrough` (`backend_connect.go`), with what a later cancel needs, the address and
the TLS configuration.

The outside world decides how an attempt ends.  `pgconn.Connect` reports one result for the whole
DSN (`PgconnResult`); `connectPassthrough` tries the targets itself, and `TargetOutcome` says how
the attempt at one of them ended.  A connection to a target with a TLS configuration is a
`*tls.Conn`, one to a target without is the bare socket.
-/

namespace Pgman

open Net (Text)

/-- The other end of a socket, `RemoteAddr`. -/
inductive Peer
  | tcp (addr : Text)
  | unix (path : Text)
  deriving DecidableEq

/-- A `net.Conn`; `isTLS` says that it is a `*tls.Conn`. -/
structure NetConn where
  peer : Peer
  isTLS : Bool
  deriving DecidableEq

/-- The connection that a target's answer gives. -/
def ConnectTarget.conn (t : ConnectTarget) (peer : Peer) : NetConn := ⟨peer, t.tlsConfig.isSome⟩

/-- What a `backendConn` keeps for cancels. -/
structure DialedConn where
  conn : NetConn
  addr : Text
  cancelTLS : Option TLSConfig
  deriving DecidableEq

/-- The steps of `dialAndHandshake` that can fail. -/
inductive HandshakeStage
  | dial
  | setDeadline
  | startTLS
  | sendStartup
  | authenticate
  | clearDeadline
  deriving DecidableEq

inductive ConnectError
  | dialer (err : DialError)
  | connect
  | sync
  | hijack
  | stage (stage : HandshakeStage)
  | noCancelTLS
  | cancelled
  | noTargets
  deriving DecidableEq

/-! ## What a cancel will use -/

def connectedAddr (conn : Option NetConn) (configured : Text) : Text :=
  match conn with
  | none => configured
  | some conn =>
    match conn.peer with
    | .tcp addr => addr
    | .unix _ => configured

def cancelTLSConfigFor (conn : NetConn) (parsed : Option PgConfig) :
    Except ConnectError (Option TLSConfig) :=
  if !conn.isTLS then .ok none
  else match parsed.bind fun cfg => cfg.target.tlsConfig with
    | none => .error .noCancelTLS
    | some tls => .ok (some tls)

/-! ## Through pgconn -/

/-- How `pgconn.Connect`, `SyncConn` and `Hijack` end. -/
inductive PgconnResult
  | connectFailed
  | syncFailed
  | hijackFailed
  | hijacked (target : ConnectTarget) (peer : Peer)

/-- The function that `newDialBackend` returns. -/
def dialBackend (U : CaseTables) (P : ParseConfig) (dsn addr : Text) (requireTLS : Bool)
    (result : PgconnResult) : Except ConnectError DialedConn :=
  match parseForDialer U P dsn requireTLS with
  | .error err => .error (.dialer err)
  | .ok parsed =>
    match result with
    | .connectFailed => .error .connect
    | .syncFailed => .error .sync
    | .hijackFailed => .error .hijack
    | .hijacked target peer =>
      let conn := target.conn peer
      match cancelTLSConfigFor conn (some parsed) with
      | .error err => .error err
      | .ok cancelTLS => .ok ⟨conn, connectedAddr (some conn) addr, cancelTLS⟩

/-! ## Pass-through -/

/-- `net.JoinHostPort`. -/
def joinHostPort (host port : Text) : Text :=
  if ':' ∈ host then '[' :: host ++ "]:".toList ++ port else host ++ ':' :: port

/-- The host and port that are dialed. -/
def ConnectTarget.addr (t : ConnectTarget) : Text := joinHostPort t.host (toString t.port).toList

/-- How the attempt at one target ends, and whether the context is done after it. -/
structure TargetOutcome where
  /-- the step that failed, or the peer -/
  result : Except HandshakeStage Text
  done : Bool

def dialAndHandshake (cfg : PgConfig) (target : ConnectTarget)
    (result : Except HandshakeStage Text) : Except ConnectError DialedConn :=
  match result with
  | .error stage => .error (.stage stage)
  | .ok peer =>
    let conn := target.conn (.tcp peer)
    match cancelTLSConfigFor conn (some cfg) with
    | .error err => .error err
    | .ok cancelTLS => .ok ⟨conn, target.addr, cancelTLS⟩

/-- The loop of `connectPassthrough`; `outcome n` is that of the `n`-th target from here. -/
def tryTargets (cfg : PgConfig) :
    (outcome : ℕ → TargetOutcome) → (lastErr : Option ConnectError) → List ConnectTarget →
      Except ConnectError DialedConn
  | _, lastErr, [] => .error (lastErr.getD .noTargets)
  | outcome, _, target :: rest =>
    match dialAndHandshake cfg target (outcome 0).result with
    | .ok conn => .ok conn
    | .error err =>
      if (outcome 0).done then .error .cancelled
      else tryTargets cfg (fun n => outcome (n + 1)) (some err) rest

def connectPassthrough (cfg : PgConfig) (outcome : ℕ → TargetOutcome) :
    Except ConnectError DialedConn :=
  tryTargets cfg outcome none (connectTargets cfg)

end Pgman
