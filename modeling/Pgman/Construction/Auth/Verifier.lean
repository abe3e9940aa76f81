import Mathlib.Data.Nat.Digits.Defs
import Pgman.Construction.Auth.Scram

/-!
# SCRAM verifiers

`auth.go`: the text of a verifier, as Postgres keeps it in `rolpassword`, how it is read and how
`GenerateSCRAMVerifier` writes it.  `base64.StdEncoding` stands as any codec of `Framework/Base64`;
how the keys are derived from a password is a parameter.
-/

namespace Pgman.Scram

open Net (Byte)

def colon : Byte := 58

def dollar : Byte := 36

/-- `strings.Cut`, at a separator of one byte. -/
def cut (sep : Byte) : Bytes → Option (Bytes × Bytes)
  | [] => none
  | b :: s => if b = sep then some ([], s) else (cut sep s).map fun p => (b :: p.1, p.2)

inductive VerifierError
  | noPrefix
  | noKeys
  | noSalt
  | noServerKey
  | iterations
  | salt
  | storedKey
  | serverKey
  | iterationsNotPositive (iters : ℤ)
  | emptySalt
  | storedKeyLength (length : ℕ)
  | serverKeyLength (length : ℕ)
  deriving DecidableEq

/-- `sha256.Size`. -/
def sha256Size : ℕ := 32

def verifierPrefix : Bytes := ascii "SCRAM-SHA-256$"

/-- The credential inside a verifier can be used. -/
def checkCredentials (creds : StoredCredentials) : Except VerifierError StoredCredentials :=
  if creds.iters ≤ 0 then .error (.iterationsNotPositive creds.iters)
  else if creds.salt.length = 0 then .error .emptySalt
  else if creds.storedKey.length ≠ sha256Size then
    .error (.storedKeyLength creds.storedKey.length)
  else if creds.serverKey.length ≠ sha256Size then
    .error (.serverKeyLength creds.serverKey.length)
  else .ok creds

/-- The fields of a verifier, decoded in the order of the source. -/
def decodeFields (B : Base64.Codec) (iterStr saltB64 storedB64 serverB64 : Bytes) :
    Except VerifierError StoredCredentials :=
  match atoi iterStr with
  | none => .error .iterations
  | some iters =>
    match B.decode saltB64 with
    | none => .error .salt
    | some salt =>
      match B.decode storedB64 with
      | none => .error .storedKey
      | some storedKey =>
        match B.decode serverB64 with
        | none => .error .serverKey
        | some serverKey => .ok ⟨salt, iters, storedKey, serverKey⟩

def parseSCRAMVerifier (B : Base64.Codec) (s : Bytes) : Except VerifierError StoredCredentials :=
  if !verifierPrefix.isPrefixOf s then .error .noPrefix
  else match cut dollar (s.drop verifierPrefix.length) with
    | none => .error .noKeys
    | some (iterSalt, keys) =>
      match cut colon iterSalt with
      | none => .error .noSalt
      | some (iterStr, saltB64) =>
        match cut colon keys with
        | none => .error .noServerKey
        | some (storedB64, serverB64) =>
          (decodeFields B iterStr saltB64 storedB64 serverB64).bind checkCredentials

/-- The byte of a decimal digit. -/
def digitByte (d : ℕ) : Byte := BitVec.ofNat 8 (48 + d)

/-- `%d`. -/
def itoa (z : ℤ) : Bytes :=
  let digits := if z = 0 then [digitByte 0] else ((Nat.digits 10 z.natAbs).map digitByte).reverse
  if z < 0 then 45 :: digits else digits

/-- The text of a verifier, `SCRAM-SHA-256$%d:%s$%s:%s`. -/
def formatVerifier (B : Base64.Codec) (creds : StoredCredentials) : Bytes :=
  verifierPrefix ++ (itoa creds.iters ++ colon :: B.encode creds.salt) ++
    dollar :: (B.encode creds.storedKey ++ colon :: B.encode creds.serverKey)

/-- `GenerateSCRAMVerifier`, with sixteen random bytes; `derive` may refuse the password. -/
def generateSCRAMVerifier (B : Base64.Codec)
    (derive : (password salt : Bytes) → (iters : ℤ) → Option (Bytes × Bytes))
    (random password : Bytes) (iterations : ℤ) : Option Bytes :=
  (derive password random iterations).map fun keys =>
    formatVerifier B ⟨random, iterations, keys.1, keys.2⟩

end Pgman.Scram
