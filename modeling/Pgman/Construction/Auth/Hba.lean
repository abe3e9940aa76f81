import Mathlib.Algebra.GroupWithZero.Nat
import Mathlib.Data.List.DropRight
import Pgman.Construction.Net.Address

/-!
# Host-based authentication

`hba.go`: the `auth_hba_file`, its tokenizer and its parser, the search for the first rule that
matches a connection, and what the rule's method makes of the connection.

A line is split by `tokenizeHBALine` into fields and each field into items, an item remembering
whether it was quoted.  `parseHBALine` reads five fields off it, `LoadHBAFile` the lines of a
file.  `MatchHBA` walks the rules in order, and `HBAAuth.Authenticate` hands the connection to the
first match's method.

Texts are lists of characters: a file is taken to be valid UTF-8.  Unicode's case tables are a
parameter, `CaseTables`, of which only the ASCII part is fixed; the white space characters are few
and written out.  A connection is what the two accept loops can hand over: a TCP connection, a TLS
session on one, or a Unix socket (the loop of the Unix listener gets no TLS configuration, so a TLS
session never runs over one).  The answer of the operating system about a Unix peer is part of the
connection and of the parameters of `authenticatePeer`.
-/

namespace Pgman

open Net (Text IP IPNet)

/-- Unicode's simple case mappings, as `unicode.ToLower` and `unicode.SimpleFold` have them:
`fold` picks one character from each class of characters that differ in case. -/
structure CaseTables where
  toLower : Char → Char
  fold : Char → Char
  toLower_ascii : ∀ c, c.toNat < 128 → toLower c = c.toLower
  fold_ascii : ∀ c, c.toNat < 128 → fold c = c.toLower

/-- The case tables of ASCII texts. -/
def asciiTables : CaseTables := ⟨Char.toLower, Char.toLower, fun _ _ => rfl, fun _ _ => rfl⟩

/-- `strings.EqualFold`. -/
def equalFold (U : CaseTables) (s t : Text) : Bool := s.map U.fold = t.map U.fold

/-- `unicode.IsSpace`. -/
def isSpace (c : Char) : Bool :=
  let n := c.toNat
  (9 ≤ n && n ≤ 13) || n = 0x20 || n = 0x85 || n = 0xa0 || n = 0x1680 ||
    (0x2000 ≤ n && n ≤ 0x200a) || n = 0x2028 || n = 0x2029 || n = 0x202f || n = 0x205f ||
    n = 0x3000

/-- `strings.TrimSpace`. -/
def trimSpace (s : Text) : Text := (s.dropWhile isSpace).rdropWhile isSpace

/-! ## Rules -/

inductive HBAConnType
  | hostAny
  | hostSSL
  | hostNoSSL
  | unixLocal
  deriving DecidableEq, Repr

inductive HBAMethod
  | trust
  | reject
  | scram
  | peer
  | cert
  deriving DecidableEq, Repr

/-- `HBARule`. -/
structure HBARule where
  type : HBAConnType
  allDatabases : Bool
  allUsers : Bool
  databases : List Text
  users : List Text
  net : Option IPNet
  samehost : Bool
  method : HBAMethod
  lineNum : ℕ
  deriving DecidableEq

/-- What the parser complains about, with what it quotes. -/
inductive HBAError
  | cannotOpen (path : Text)
  | scan
  | line (num : ℕ) (err : HBAError)
  | unterminatedQuote
  | tooFewFields
  | tooManyFields (num : ℕ)
  | unknownType (value : Text)
  | takesNoList (what : String)
  | empty (what : String)
  | emptyName (what : String)
  | invalidAddress (value : Text)
  | unsupportedMethod (value : Text)
  deriving DecidableEq

/-! ## The tokenizer -/

/-- `hbaItem`. -/
structure HBAItem where
  value : Text
  quoted : Bool
  deriving DecidableEq

def HBAItem.isKeyword (U : CaseTables) (i : HBAItem) (word : Text) : Bool :=
  !i.quoted && equalFold U i.value word

/-- The variables of `tokenizeHBALine`. -/
structure Tokenizer where
  fields : List (List HBAItem)
  cur : List HBAItem
  item : Text
  quoted : Bool
  inQuotes : Bool
  started : Bool
  afterComma : Bool

namespace Tokenizer

def start : Tokenizer := ⟨[], [], [], false, false, false, false⟩

def endItem (t : Tokenizer) : Tokenizer :=
  { t with cur := t.cur ++ [⟨t.item, t.quoted⟩], item := [], quoted := false, started := false }

def endStarted (t : Tokenizer) : Tokenizer := if t.started then t.endItem else t

def endField (t : Tokenizer) : Tokenizer :=
  let t := t.endStarted
  if t.cur = [] then t else { t with fields := t.fields ++ [t.cur], cur := [] }

/-- A comma at the start of a field opens the previous one again. -/
def reopen (t : Tokenizer) : Tokenizer :=
  match t.cur, t.fields.getLast? with
  | [], some last => { t with cur := last, fields := t.fields.dropLast }
  | _, _ => t

/-- One character of the line. -/
def step (t : Tokenizer) (r : Char) : Tokenizer :=
  if t.inQuotes then
    if r = '"' then { t with inQuotes := false }
    else { t with item := t.item ++ [r], started := true }
  else if r = '"' then
    { t with inQuotes := true, quoted := true, started := true, afterComma := false }
  else if r = ',' then
    { (if t.started then t.endItem else t.reopen) with afterComma := true }
  else if isSpace r then
    let t := t.endStarted
    if t.afterComma then t else t.endField
  else { t with item := t.item ++ [r], started := true, afterComma := false }

end Tokenizer

def tokenizeHBALine (raw : Text) : Except HBAError (List (List HBAItem)) :=
  let t := raw.foldl Tokenizer.step .start
  if t.inQuotes then .error .unterminatedQuote else .ok t.endField.fields

/-! ## The parser -/

def singleItem (field : List HBAItem) (what : String) : Except HBAError HBAItem :=
  match field with
  | [item] => .ok item
  | _ => .error (.takesNoList what)

/-- The loop of `parseNameList`, with the names so far. -/
def parseNames (U : CaseTables) (what : String) :
    (names : List Text) → List HBAItem → Except HBAError (Bool × List Text)
  | names, [] => .ok (false, names)
  | names, item :: rest =>
      if item.isKeyword U "all".toList then .ok (true, [])
      else if item.value = [] then .error (.emptyName what)
      else parseNames U what (names ++ [item.value]) rest

def parseNameList (U : CaseTables) (field : List HBAItem) (what : String) :
    Except HBAError (Bool × List Text) :=
  if field = [] then .error (.empty what) else parseNames U what [] field

def parseType (U : CaseTables) (value : Text) : Except HBAError HBAConnType :=
  let word := value.map U.toLower
  if word = "host".toList then .ok .hostAny
  else if word = "hostssl".toList then .ok .hostSSL
  else if word = "hostnossl".toList then .ok .hostNoSSL
  else if word = "local".toList then .ok .unixLocal
  else .error (.unknownType value)

def parseMethod (U : CaseTables) (value : Text) : Except HBAError HBAMethod :=
  let word := value.map U.toLower
  if word = "trust".toList then .ok .trust
  else if word = "reject".toList then .ok .reject
  else if word = "scram-sha-256".toList then .ok .scram
  else if word = "peer".toList then .ok .peer
  else if word = "cert".toList then .ok .cert
  else .error (.unsupportedMethod value)

/-- The ADDRESS field: `Net` and `Samehost` of the rule. -/
def parseAddress (U : CaseTables) (addr : HBAItem) : Except HBAError (Option IPNet × Bool) :=
  if addr.isKeyword U "all".toList then .ok (none, false)
  else if addr.isKeyword U "samehost".toList then .ok (none, true)
  else match Net.parseCIDR addr.value with
    | some ipnet => .ok (some ipnet, false)
    | none => .error (.invalidAddress addr.value)

/-- The second half of `parseHBALine`, on the five fields of a line. -/
def parseFields (U : CaseTables) (type databases users address method : List HBAItem) :
    Except HBAError HBARule := do
  let type ← parseType U (← singleItem type "TYPE").value
  let databases ← parseNameList U databases "DATABASE"
  let users ← parseNameList U users "USER"
  let address ← parseAddress U (← singleItem address "ADDRESS")
  let method ← parseMethod U (← singleItem method "METHOD").value
  return ⟨type, databases.1, users.1, databases.2, users.2, address.1, address.2, method, 0⟩

def parseHBALine (U : CaseTables) (raw : Text) : Except HBAError HBARule :=
  match tokenizeHBALine raw with
  | .error err => .error err
  | .ok [type, databases, users, address, method] =>
      parseFields U type databases users address method
  | .ok fields =>
      if fields.length < 5 then .error .tooFewFields else .error (.tooManyFields fields.length)

/-! ## The file -/

/-- `bufio.MaxScanTokenSize`. -/
def maxScanTokenSize : ℕ := 64 * 1024

def utf8Len (s : Text) : ℕ := (s.map Char.utf8Size).sum

/-- The lines of a file as `bufio.ScanLines` cuts them, before it drops a carriage return: there
is no line after a final newline. -/
def rawLines (text : Text) : List Text :=
  let lines := text.splitOn '\n'
  if lines.getLast? = some [] then lines.dropLast else lines

/-- `bufio.ScanLines` drops a carriage return at the end of a line. -/
def dropCR (line : Text) : Text := if line.getLast? = some '\r' then line.dropLast else line

/-- The loop of `LoadHBAFile`, from line `line + 1` on.  The scanner refuses a line that does not
fit its buffer. -/
def loadLines (U : CaseTables) : (line : ℕ) → List Text → Except HBAError (List HBARule)
  | _, [] => .ok []
  | line, raw :: rest =>
      if maxScanTokenSize ≤ utf8Len raw then .error .scan
      else
        let raw := trimSpace (dropCR raw)
        if raw = [] ∨ raw.head? = some '#' then loadLines U (line + 1) rest
        else match parseHBALine U raw with
          | .error err => .error (.line (line + 1) err)
          | .ok rule =>
              match loadLines U (line + 1) rest with
              | .error err => .error err
              | .ok rules => .ok ({ rule with lineNum := line + 1 } :: rules)

/-- `LoadHBAFile`; `files` are the files that can be opened. -/
def loadHBAFile (U : CaseTables) (files : Text → Option Text) (path : Text) :
    Except HBAError (List HBARule) :=
  if path = [] then .ok []
  else match files path with
    | none => .error (.cannotOpen path)
    | some text => loadLines U 0 (rawLines text)

/-! ## Matching -/

def matchHBAType (t : HBAConnType) (tls isUnix : Bool) : Bool :=
  match t with
  | .unixLocal => isUnix
  | .hostAny => !isUnix
  | .hostSSL => !isUnix && tls
  | .hostNoSSL => !isUnix && !tls

def matchHBAName (U : CaseTables) (all : Bool) (names : List Text) (val : Text) : Bool :=
  all || names.any fun n => equalFold U n val

def matchHBAAddr (r : HBARule) (ip : Option IP) : Bool :=
  if r.samehost then ip.any Net.isLoopback
  else match r.net with
    | none => true
    | some net => ip.any net.contains

def matchHBA (U : CaseTables) (rules : List HBARule) (tls isUnix : Bool) (remoteIP : Option IP)
    (user database : Text) : Option HBARule :=
  rules.find? fun r =>
    matchHBAType r.type tls isUnix && matchHBAName U r.allDatabases r.databases database &&
      matchHBAName U r.allUsers r.users user && matchHBAAddr r remoteIP

/-! ## Authentication -/

/-- An address a TCP peer can have. -/
structure PeerIP where
  bytes : IP
  length : bytes.length = 4 ∨ bytes.length = 16

/-- A client's connection: what the type switches of `Authenticate` can tell apart.  A TLS session
comes with the Common Name of the first certificate the client presented. -/
inductive ClientConn
  | tcp (remote : PeerIP)
  | tls (remote : PeerIP) (commonName : Option Text)
  | unix (peerUID : Option ℕ)

def ClientConn.isTLS : ClientConn → Bool
  | .tls _ _ => true
  | _ => false

def ClientConn.isUnix : ClientConn → Bool
  | .unix _ => true
  | _ => false

/-- `remoteAddrIP`. -/
def ClientConn.remoteAddrIP : ClientConn → Option IP
  | .tcp remote | .tls remote _ => some remote.bytes
  | .unix _ => none

/-- The platform: `peerCredSupported` and `lookupUsernameByUID`. -/
structure Platform where
  peerCredSupported : Bool
  lookupUsernameByUID : ℕ → Option Text

/-- The startup parameters `HBAAuth` reads. -/
structure Startup where
  user : Text
  database : Text

/-- Why a client was turned away. -/
inductive HBADenial
  | noRule
  | rejected (line : ℕ)
  | inner
  | peerNeedsUnix (line : ℕ)
  | peerUnsupported (line : ℕ)
  | peerUnreadable
  | peerUnknownUID (uid : ℕ)
  | peerMismatch (line : ℕ)
  | certNeedsTLS (line : ℕ)
  | certMissing (line : ℕ)
  | certMismatch (line : ℕ)
  deriving DecidableEq

def authenticateCert (conn : ClientConn) (requestedUser : Text) (line : ℕ) :
    Except HBADenial Unit :=
  match conn with
  | .tls _ none => .error (.certMissing line)
  | .tls _ (some cn) => if cn = requestedUser then .ok () else .error (.certMismatch line)
  | _ => .error (.certNeedsTLS line)

def authenticatePeer (os : Platform) (conn : ClientConn) (requestedUser : Text) (line : ℕ) :
    Except HBADenial Unit :=
  match conn with
  | .unix peerUID =>
      if !os.peerCredSupported then .error (.peerUnsupported line)
      else match peerUID with
        | none => .error .peerUnreadable
        | some uid =>
            match os.lookupUsernameByUID uid with
            | none => .error (.peerUnknownUID uid)
            | some osUser =>
                if osUser = requestedUser then .ok () else .error (.peerMismatch line)
  | _ => .error (.peerNeedsUnix line)

/-- `HBAAuth.Authenticate`; `inner` is whether the inner backend accepts the client. -/
def authenticate (U : CaseTables) (os : Platform) (rules : List HBARule) (inner : Bool)
    (conn : ClientConn) (startup : Startup) : Except HBADenial Unit :=
  match matchHBA U rules conn.isTLS conn.isUnix conn.remoteAddrIP startup.user
      startup.database with
  | none => .error .noRule
  | some rule =>
      match rule.method with
      | .trust => .ok ()
      | .reject => .error (.rejected rule.lineNum)
      | .scram => if inner then .ok () else .error .inner
      | .peer => authenticatePeer os conn startup.user rule.lineNum
      | .cert => authenticateCert conn startup.user rule.lineNum

end Pgman
