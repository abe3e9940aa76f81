import Mathlib.Data.Char
import Mathlib.Data.List.Lex
import Pgman.Construction.Auth.Hba
import Pgman.Construction.Relay.Machine
import Pgman.Framework.Table

/-!
# Replaying a client's parameters

`tracked_params.go`: which of a client's startup parameters `extractTrackedParams` picks out, the
statement by which `applyTrackedParams` sets them on a connection the client is given, and how a
server reads such a statement.

The reader knows quoted identifiers, string literals and the words between them.  In a literal a
doubled quote is a quote; with `standard_conforming_strings` off a backslash escapes what follows
it, and how is a parameter, `Escapes`, of which only one thing is asked: an escape stands for one
character and has one at least behind its backslash.  An identifier of no characters is an error,
and one of more than 63 bytes is cut (`NAMEDATALEN` is 64) where a character of it ends; a server's
encoding is UTF-8 here.
-/

namespace Pgman

open Net (Text)

/-- A parameter, as characters. -/
structure ParamText where
  name : Text
  value : Text
  deriving DecidableEq

def TrackedParam.text (p : TrackedParam) : ParamText := ⟨p.name.toList, p.value.toList⟩

/-! ## The parameters to replay -/

/-- `strings.ToLower`. -/
def lowered (U : CaseTables) (s : Text) : Text := s.map U.toLower

/-- A position of the whitelist that is passed over. -/
def skipsName (name : Text) : Bool := name = [] || name = ['-']

/-- The non-empty value under a key. -/
def sentValue (startup : Table Text Text) (key : Text) : Option Text :=
  (startup.get key).filter (· ≠ [])

/-- The entry of one position of the whitelist. -/
def trackedEntry (U : CaseTables) (startup : Table Text Text) (name : Text) : Option ParamText :=
  if skipsName name then none
  else match sentValue startup name with
    | some v => some ⟨name, v⟩
    | none => (sentValue startup (lowered U name)).map fun v => ⟨name, v⟩

def extractTrackedParams (U : CaseTables) (startup : Table Text Text) (whitelist : List Text) :
    List ParamText :=
  if startup.pairs = [] ∨ whitelist = [] then []
  else
    -- the set is built and then only asked whether it is empty
    let want := Table.ofList
      ((whitelist.filter fun name => !skipsName name).map fun name => (lowered U name, ()))
    if want.pairs = [] then [] else whitelist.filterMap (trackedEntry U startup)

/-! ## The statement -/

/-- `strings.ReplaceAll` of a character by two of it. -/
def double (q : Char) (s : Text) : Text := s.flatMap fun c => if c = q then [q, q] else [c]

def quoted (q : Char) (s : Text) : Text := q :: (double q s ++ [q])

def setStatement (p : ParamText) : Text :=
  "SET ".toList ++ quoted '"' p.name ++ " = ".toList ++ quoted '\'' p.value

/-- The query of `applyTrackedParams`. -/
def setQuery : List ParamText → Text
  | [] => []
  | [p] => setStatement p
  | p :: ps => setStatement p ++ ';' :: setQuery ps

-- by `delta`: the equation that `simp` would generate evaluates the string literals
lemma setStatement_eq (p : ParamText) : setStatement p =
    "SET ".toList ++ quoted '"' p.name ++ " = ".toList ++ quoted '\'' p.value := by
  delta setStatement
  rfl

lemma toList_quoteWith (q : Char) (s : String) :
    (Relay.quoteWith q s).toList = quoted q s.toList := by
  rw [Relay.quoteWith, String.toList_ofList]
  rfl

/-- The characters of the query that the relay sends. -/
lemma toList_setBatch : ∀ ps : List TrackedParam,
    (Relay.setBatch ps).toList = setQuery (ps.map TrackedParam.text)
  | [] => rfl
  | [p] => by
    simp [Relay.setBatch, setQuery, setStatement_eq, Relay.quoteIdent, Relay.quoteLiteral,
      toList_quoteWith, TrackedParam.text]
  | p :: q :: ps => by
    have ih := toList_setBatch (q :: ps)
    simp only [Relay.setBatch, List.map_cons] at ih ⊢
    rw [String.intercalate_cons_cons, String.toList_append, String.toList_append, ih]
    simp [setQuery, setStatement_eq, Relay.quoteIdent, Relay.quoteLiteral, toList_quoteWith,
      TrackedParam.text]

/-! ## The reader -/

/-- What stands behind the backslash of an escape, and the rest. -/
structure Escapes where
  read : Text → Option (Char × Text)
  shrinks : ∀ s c rest, read s = some (c, rest) → rest.length < s.length

/-- A quoted identifier, from behind its first quote on. -/
def readIdent : Text → Option (Text × Text)
  | [] => none
  | '"' :: '"' :: s => (readIdent s).map fun p => ('"' :: p.1, p.2)
  | c :: s => if c = '"' then some ([], s) else (readIdent s).map fun p => (c :: p.1, p.2)

/-- A string literal, from behind its first quote on. -/
def readLiteral (E : Escapes) (standard : Bool) (s : Text) : Option (Text × Text) :=
  match s with
  | [] => none
  | c :: s =>
    if c = '\'' then
      match s with
      | '\'' :: s => (readLiteral E standard s).map fun p => ('\'' :: p.1, p.2)
      | s => some ([], s)
    else if c = '\\' ∧ standard = false then
      match h : E.read s with
      | none => none
      | some (d, rest) =>
        have : rest.length < s.length := E.shrinks s d rest h
        (readLiteral E standard rest).map fun p => (d :: p.1, p.2)
    else (readLiteral E standard s).map fun p => (c :: p.1, p.2)
  termination_by s.length

/-- The longest beginning of a text that has at most `n` bytes. -/
def clip : (n : ℕ) → Text → Text
  | _, [] => []
  | n, c :: s => if c.utf8Size ≤ n then c :: clip (n - c.utf8Size) s else []

/-- The bytes of a text. -/
def byteLength (s : Text) : ℕ := (s.map Char.utf8Size).sum

/-- The bytes that are left of an identifier, `NAMEDATALEN - 1`. -/
def maxIdent : ℕ := 63

/-- The text behind a word it begins with. -/
def afterWord (word s : Text) : Option Text :=
  if word.isPrefixOf s then some (s.drop word.length) else none

/-- One `SET` statement, and the rest. -/
def readSet (E : Escapes) (standard : Bool) (s : Text) : Option (ParamText × Text) := do
  let s ← afterWord "SET \"".toList s
  let (name, s) ← readIdent s
  if name = [] then none
  else
    let s ← afterWord " = '".toList s
    let (value, s) ← readLiteral E standard s
    return (⟨clip maxIdent name, value⟩, s)

/-- The text is read as a sequence of `SET` statements. -/
inductive Reads (E : Escapes) (standard : Bool) : Text → List ParamText → Prop
  | none : Reads E standard [] []
  | last {s : Text} {p : ParamText} (h : readSet E standard s = some (p, [])) :
      Reads E standard s [p]
  | more {s rest : Text} {p q : ParamText} {ps : List ParamText}
      (h : readSet E standard s = some (p, ';' :: rest)) (hs : Reads E standard rest (q :: ps)) :
      Reads E standard s (p :: q :: ps)

end Pgman
