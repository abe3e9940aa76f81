import Mathlib.Data.List.Infix
import Pgman.Construction.Auth.Hba
import Pgman.Construction.Backend.Config

/-!
# Addresses and dialers of a backend

`backend_addr.go`, and the two functions that build a pool's dialer: `newDialBackend` (`main.go`)
and `newPassthroughDialer` (`backend_connect.go`).

`pgconn.ParseConfig` is a parameter, `ParseConfig`: it makes of a DSN a first target and a list of
fallbacks, each with its own host, port and TLS configuration or none.  `pgconn.Connect` tries the
targets of the DSN it is given, and so does `connectPassthrough`.  A dialer is modelled by what a
call of it tries: the targets, or the error it returns without having tried any.
-/

namespace Pgman

open Net (Text IP)

/-! ## backend_addr -/

/-- Why an address is refused; the address itself is in every message. -/
inductive BackendAddrError
  | required
  | notHostPort (addr : Text)
  | noHost (addr : Text)
  | noPort (addr : Text)
  | unspecified (addr : Text)
  | linkLocal (addr : Text)
  | multicast (addr : Text)
  deriving DecidableEq

def checkBackendIP (ip : IP) (addr : Text) : Except BackendAddrError Unit :=
  if Net.isUnspecified ip then .error (.unspecified addr)
  else if Net.isLinkLocalUnicast ip || Net.isLinkLocalMulticast ip then .error (.linkLocal addr)
  else if Net.isMulticast ip then .error (.multicast addr)
  else .ok ()

/-- `strings.Trim(host, "[]")`. -/
def trimBrackets (host : Text) : Text :=
  (host.dropWhile fun c => c = '[' || c = ']').rdropWhile fun c => c = '[' || c = ']'

def validateBackendAddr (addr : Text) : Except BackendAddrError Unit :=
  if addr = [] then .error .required
  else match Net.splitHostPort addr with
    | none => .error (.notHostPort addr)
    | some (host, port) =>
      if host = [] then .error (.noHost addr)
      else if port = [] then .error (.noPort addr)
      else match Net.parseIP (trimBrackets host) with
        | none => .ok ()
        | some ip => checkBackendIP ip addr

/-! ## Targets -/

/-- A `*tls.Config`, by its identity. -/
abbrev TLSConfig := ℕ

structure ConnectTarget where
  host : Text
  port : ℕ
  tlsConfig : Option TLSConfig
  deriving DecidableEq

/-- What `pgconn.ParseConfig` makes of a DSN. -/
structure PgConfig where
  target : ConnectTarget
  fallbacks : List ConnectTarget

abbrev ParseConfig := Text → Option PgConfig

def connectTargets (cfg : PgConfig) : List ConnectTarget := cfg.target :: cfg.fallbacks

/-- The text search of `dsnRequiresTLS`. -/
def sniffsTLS (U : CaseTables) (dsn : Text) : Bool :=
  let lower := dsn.map U.toLower
  "sslmode=require".toList <:+: lower || "sslmode=verify-ca".toList <:+: lower ||
    "sslmode=verify-full".toList <:+: lower

def dsnRequiresTLS (U : CaseTables) (cfg : PgConfig) (dsn : Text) : Bool :=
  (cfg.target.tlsConfig.isSome && cfg.fallbacks == []) || sniffsTLS U dsn

/-! ## Dialers -/

inductive DialError
  | parse
  | tlsNotRequired
  | noCredentials (user : Text)
  deriving DecidableEq

/-- What both constructors do first: parse the DSN, and hold it against `require_backend_tls`. -/
def parseForDialer (U : CaseTables) (P : ParseConfig) (dsn : Text) (requireTLS : Bool) :
    Except DialError PgConfig :=
  match P dsn with
  | none => .error .parse
  | some cfg =>
    if requireTLS && !dsnRequiresTLS U cfg dsn then .error .tlsNotRequired else .ok cfg

def newDialBackend (U : CaseTables) (P : ParseConfig) (dsn : Text) (requireTLS : Bool) :
    Except DialError (List ConnectTarget) :=
  (parseForDialer U P dsn requireTLS).map connectTargets

/-- `held` says whose credentials the store holds when the dialer is called. -/
def newPassthroughDialer (U : CaseTables) (P : ParseConfig) (dsn backendUser : Text)
    (held : Text → Bool) (requireTLS : Bool) : Except DialError (List ConnectTarget) :=
  match parseForDialer U P dsn requireTLS with
  | .error err => .error err
  | .ok parsed =>
    if held backendUser then .ok (connectTargets parsed) else .error (.noCredentials backendUser)

end Pgman
