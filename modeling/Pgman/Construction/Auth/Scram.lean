import Mathlib.Algebra.Group.Int.Defs
import Mathlib.Data.Int.Notation
import Mathlib.Data.List.Basic
import Pgman.Construction.Net.Address
import Pgman.Framework.Base64

/-!
# SCRAM pass-through

`scram_clientkey.go` recovers a client's key from the exchange by which it proved itself to the
proxy; `scram_passthrough.go` signs with that key when the proxy is the client of a server.

The hash, the MAC and base64 are parameters, `Primitives`: the first two have results of 32 bytes,
and base64 is a codec of `Framework/Base64`.  Messages are strings of bytes.  A run of
`scramClientAuth` is given what `Receive` returns, one reply after the other; a send that fails
ends it like a reply that does not come (`Reply.lost`).
-/

namespace Pgman.Scram

open Net (Byte)

abbrev Bytes := List Byte

def ascii (s : String) : Bytes := s.toList.map fun c => BitVec.ofNat 8 c.toNat

def comma : Byte := 44

structure Primitives extends Base64.Codec where
  sha256 : Bytes → Bytes
  hmacSHA256 : (key msg : Bytes) → Bytes
  length_sha256 : ∀ b, (sha256 b).length = 32
  length_hmac : ∀ k m, (hmacSHA256 k m).length = 32

lemma Primitives.comma_encode (C : Primitives) (b : Bytes) : comma ∉ C.encode b :=
  C.notMem_encode (by decide) b

inductive ScramError
  | noGS2Header
  | truncatedGS2Header
  | noProof
  | proofNotBase64
  | proofLength (got want : ℕ)
  | keyMismatch
  | noMechanism (offered : List Bytes)
  | lost
  | unexpectedMessage
  | saltNotBase64
  | notANumber (value : Bytes)
  | incomplete (serverFirst : Bytes)
  | nonceNotOurs
  | verifierMismatch (user : Bytes)
  | rejected (text : Bytes)
  | malformedFinal (serverFinal : Bytes)
  | signatureNotBase64
  | wrongSignature

/-! ## Recovering the client's key -/

structure ScramExchange where
  clientFirst : Bytes
  serverFirst : Bytes
  clientFinal : Bytes

def clientFirstBare (clientFirst : Bytes) : Except ScramError Bytes :=
  match clientFirst.dropWhile (· ≠ comma) with
  | [] => .error .noGS2Header
  | _ :: rest =>
    match rest.dropWhile (· ≠ comma) with
    | [] => .error .truncatedGS2Header
    | _ :: bare => .ok bare

/-- Cut a text at the last place where `sep` stands, as `strings.LastIndex` finds it. -/
def cutLast (sep : Bytes) : Bytes → Option (Bytes × Bytes)
  | [] => none
  | b :: m =>
    match cutLast sep m with
    | some (before, after) => some (b :: before, after)
    | none => if sep.isPrefixOf (b :: m) then some ([], (b :: m).drop sep.length) else none

variable (C : Primitives)

def splitClientFinal (clientFinal : Bytes) : Except ScramError (Bytes × Bytes) :=
  match cutLast (ascii ",p=") clientFinal with
  | none => .error .noProof
  | some (withoutProof, text) =>
    match C.decode text with
    | none => .error .proofNotBase64
    | some proof => .ok (withoutProof, proof)

def xorBytes (a b : Bytes) : Bytes := List.zipWith (· ^^^ ·) a b

def authMessage (bare serverFirst withoutProof : Bytes) : Bytes :=
  bare ++ comma :: serverFirst ++ comma :: withoutProof

def recoverClientKey (ex : ScramExchange) (storedKey : Bytes) : Except ScramError Bytes := do
  let bare ← clientFirstBare ex.clientFirst
  let (withoutProof, proof) ← splitClientFinal C ex.clientFinal
  let clientSignature := C.hmacSHA256 storedKey (authMessage bare ex.serverFirst withoutProof)
  if proof.length ≠ clientSignature.length then
    .error (.proofLength proof.length clientSignature.length)
  else
    let clientKey := xorBytes proof clientSignature
    if C.sha256 clientKey = storedKey then .ok clientKey else .error .keyMismatch

/-! ## The client half -/

/-- `scram.StoredCredentials`. -/
structure StoredCredentials where
  salt : Bytes
  iters : ℤ
  storedKey : Bytes
  serverKey : Bytes

structure PassthroughCreds where
  clientKey : Bytes
  creds : StoredCredentials

inductive Reply
  | saslContinue (data : Bytes)
  | saslFinal (data : Bytes)
  | other
  | lost

def digitValue (b : Byte) : Option ℕ :=
  if 48 ≤ b.toNat ∧ b.toNat ≤ 57 then some (b.toNat - 48) else none

/-- The value of a string of decimal digits. -/
def decimal : (acc : ℕ) → Bytes → Option ℕ
  | acc, [] => some acc
  | acc, b :: s => (digitValue b).bind fun d => decimal (acc * 10 + d) s

/-- `strconv.Atoi`, on a platform where `int` has 64 bits. -/
def atoi (s : Bytes) : Option ℤ :=
  let (neg, digits) := match s with
    | 43 :: digits => (false, digits)
    | 45 :: digits => (true, digits)
    | digits => (false, digits)
  if digits = [] then none
  else (decimal 0 digits).bind fun n =>
    let v : ℤ := if neg then -n else n
    if -2 ^ 63 ≤ v ∧ v < 2 ^ 63 then some v else none

/-- What `parseServerFirst` has read: nonce, salt and iteration count. -/
structure ServerFirst where
  nonce : Bytes
  salt : Bytes
  iters : ℤ

/-- One round of the loop of `parseServerFirst`. -/
def readField (acc : ServerFirst) (field : Bytes) : Except ScramError ServerFirst :=
  match field with
  | key :: 61 :: value =>
    if key = 114 then .ok { acc with nonce := value }
    else if key = 115 then
      match C.decode value with
      | none => .error .saltNotBase64
      | some salt => .ok { acc with salt := salt }
    else if key = 105 then
      match atoi value with
      | none => .error (.notANumber value)
      | some iters => .ok { acc with iters := iters }
    else .ok acc
  | _ => .ok acc

def parseServerFirst (s : Bytes) : Except ScramError ServerFirst := do
  let first ← (s.splitOn comma).foldlM (readField C) ⟨[], [], 0⟩
  if first.nonce = [] ∨ first.salt = [] ∨ first.iters ≤ 0 then .error (.incomplete s)
  else .ok first

def verifyServerSignature (serverFinal serverKey authMessage : Bytes) : Except ScramError Unit :=
  if (ascii "e=").isPrefixOf serverFinal then .error (.rejected (serverFinal.drop 2))
  else if !(ascii "v=").isPrefixOf serverFinal then .error (.malformedFinal serverFinal)
  else match C.decode (serverFinal.drop 2) with
    | none => .error .signatureNotBase64
    | some got =>
      if got = C.hmacSHA256 serverKey authMessage then .ok () else .error .wrongSignature

/-- `scramNonce`, of 18 random bytes. -/
def scramNonce (rand : Bytes) : Bytes := C.encode rand

def gs2Header : Bytes := ascii "n,,"

/-- The client's first message without its header. -/
def bareFor (nonce : Bytes) : Bytes := ascii "n=,r=" ++ nonce

/-- The client's final message without its proof. -/
def withoutProofFor (serverNonce : Bytes) : Bytes :=
  ascii "c=" ++ C.encode gs2Header ++ ascii ",r=" ++ serverNonce

/-- The proof of a client that holds the key. -/
def proofFor (clientKey authMessage : Bytes) : Bytes :=
  xorBytes clientKey (C.hmacSHA256 (C.sha256 clientKey) authMessage)

/-- The messages of an exchange, with the two that carried the server's words. -/
structure Transcript where
  exchange : ScramExchange
  serverFinal : Bytes

def nextReply : List Reply → Except ScramError (Reply × List Reply)
  | [] | .lost :: _ => .error .lost
  | r :: rest => .ok (r, rest)

def scramClientAuth (rand user : Bytes) (pc : PassthroughCreds) (mechanisms : List Bytes)
    (replies : List Reply) : Except ScramError Transcript := do
  if ascii "SCRAM-SHA-256" ∉ mechanisms then .error (.noMechanism mechanisms)
  else
    let nonce := scramNonce C rand
    let (msg, replies) ← nextReply replies
    match msg with
    | .saslContinue serverFirst =>
      let first ← parseServerFirst C serverFirst
      if ¬nonce <+: first.nonce then .error .nonceNotOurs
      else if first.salt ≠ pc.creds.salt ∨ first.iters ≠ pc.creds.iters then
        .error (.verifierMismatch user)
      else
        let withoutProof := withoutProofFor C first.nonce
        let message := authMessage (bareFor nonce) serverFirst withoutProof
        let clientFinal := withoutProof ++ ascii ",p=" ++ C.encode (proofFor C pc.clientKey message)
        let (msg, _) ← nextReply replies
        match msg with
        | .saslFinal serverFinal =>
          verifyServerSignature C serverFinal pc.creds.serverKey message
          return ⟨⟨gs2Header ++ bareFor nonce, serverFirst, clientFinal⟩, serverFinal⟩
        | _ => .error .unexpectedMessage
    | _ => .error .unexpectedMessage

end Pgman.Scram
