import Mathlib.Tactic.Common

/-!
# Base64

The standard encoding with padding: three bytes are written as four characters of six bits each,
and a last group of one or two bytes is filled up with `=`.  The decoder skips line breaks.
-/

namespace Pgman.Base64

/-- The characters of base64 texts, the padding included. -/
def IsChar (b : BitVec 8) : Prop :=
  65 ≤ b.toNat ∧ b.toNat ≤ 90 ∨ 97 ≤ b.toNat ∧ b.toNat ≤ 122 ∨ 48 ≤ b.toNat ∧ b.toNat ≤ 57 ∨
    b.toNat = 43 ∨ b.toNat = 47 ∨ b.toNat = 61

instance : DecidablePred IsChar := fun _ => inferInstanceAs (Decidable (_ ∨ _))

def pad : BitVec 8 := 61

/-- The character of six bits. -/
def charOf (n : ℕ) : BitVec 8 :=
  if n < 26 then BitVec.ofNat 8 (65 + n)
  else if n < 52 then BitVec.ofNat 8 (97 + (n - 26))
  else if n < 62 then BitVec.ofNat 8 (48 + (n - 52))
  else if n = 62 then 43 else 47

/-- The six bits of a character. -/
def valueOf (b : BitVec 8) : Option ℕ :=
  let c := b.toNat
  if 65 ≤ c ∧ c ≤ 90 then some (c - 65)
  else if 97 ≤ c ∧ c ≤ 122 then some (c - 97 + 26)
  else if 48 ≤ c ∧ c ≤ 57 then some (c - 48 + 52)
  else if c = 43 then some 62
  else if c = 47 then some 63
  else none

lemma valueOf_charOf_fin : ∀ n : Fin 64, valueOf (charOf n) = some n.val := by decide

lemma isChar_charOf_fin : ∀ n : Fin 64, IsChar (charOf n) ∧ charOf n ≠ pad := by decide

@[simp]
lemma valueOf_charOf {n : ℕ} (h : n < 64) : valueOf (charOf n) = some n :=
  valueOf_charOf_fin ⟨n, h⟩

lemma isChar_charOf {n : ℕ} (h : n < 64) : IsChar (charOf n) :=
  (isChar_charOf_fin ⟨n, h⟩).1

lemma charOf_ne_pad {n : ℕ} (h : n < 64) : charOf n ≠ pad :=
  (isChar_charOf_fin ⟨n, h⟩).2

/-- A line break, which the decoder skips. -/
def isBreak (b : BitVec 8) : Bool := b == 10 || b == 13

lemma isBreak_of_isChar {b : BitVec 8} (h : IsChar b) : isBreak b = false := by
  unfold IsChar at h
  rw [isBreak, Bool.or_eq_false_iff, beq_eq_false_iff_ne, beq_eq_false_iff_ne]
  constructor
  · rintro rfl
    simp at h
  · rintro rfl
    simp at h

def encode : List (BitVec 8) → List (BitVec 8)
  | [] => []
  | [a] => [charOf (a.toNat / 4), charOf (a.toNat % 4 * 16), pad, pad]
  | [a, b] => [charOf (a.toNat / 4), charOf (a.toNat % 4 * 16 + b.toNat / 16),
      charOf (b.toNat % 16 * 4), pad]
  | a :: b :: c :: rest => charOf (a.toNat / 4) :: charOf (a.toNat % 4 * 16 + b.toNat / 16) ::
      charOf (b.toNat % 16 * 4 + c.toNat / 64) :: charOf (c.toNat % 64) :: encode rest

/-- The first byte of a group. -/
def first (w x : ℕ) : BitVec 8 := BitVec.ofNat 8 (w * 4 + x / 16)

/-- The second byte of a group. -/
def second (x y : ℕ) : BitVec 8 := BitVec.ofNat 8 (x % 16 * 16 + y / 4)

/-- The third byte of a group. -/
def third (y z : ℕ) : BitVec 8 := BitVec.ofNat 8 (y % 4 * 64 + z)

/-- Groups of four characters; padding stands in the last group only. -/
def decodeGroups : List (BitVec 8) → Option (List (BitVec 8))
  | [] => some []
  | p :: q :: r :: s :: rest =>
    (valueOf p).bind fun w => (valueOf q).bind fun x =>
      if r = pad then if s = pad ∧ rest = [] then some [first w x] else none
      else (valueOf r).bind fun y =>
        if s = pad then if rest = [] then some [first w x, second x y] else none
        else (valueOf s).bind fun z =>
          (decodeGroups rest).map fun out => first w x :: second x y :: third y z :: out
  | _ => none

def decode (s : List (BitVec 8)) : Option (List (BitVec 8)) :=
  decodeGroups (s.filter fun b => !isBreak b)

/-! ## What is written is read back -/

lemma first_eq (a : BitVec 8) {r : ℕ} (h : r < 16) :
    first (a.toNat / 4) (a.toNat % 4 * 16 + r) = a := by
  apply BitVec.eq_of_toNat_eq
  have ha := a.isLt
  rw [first, BitVec.toNat_ofNat]
  omega

lemma second_eq (b : BitVec 8) (a : ℕ) {r : ℕ} (h : r < 4) :
    second (a % 4 * 16 + b.toNat / 16) (b.toNat % 16 * 4 + r) = b := by
  apply BitVec.eq_of_toNat_eq
  have hb := b.isLt
  rw [second, BitVec.toNat_ofNat]
  omega

lemma third_eq (c : BitVec 8) (b : ℕ) :
    third (b % 16 * 4 + c.toNat / 64) (c.toNat % 64) = c := by
  apply BitVec.eq_of_toNat_eq
  have hc := c.isLt
  rw [third, BitVec.toNat_ofNat]
  omega

lemma isChar_encode (s : List (BitVec 8)) : ∀ b ∈ encode s, IsChar b := by
  induction s using encode.induct with
  | case1 => simp [encode]
  | case2 a =>
    have ha := a.isLt
    simp only [encode, List.forall_mem_cons]
    exact ⟨isChar_charOf (by omega), isChar_charOf (by omega), by decide, by decide,
      List.forall_mem_nil _⟩
  | case3 a b =>
    have ha := a.isLt
    have hb := b.isLt
    simp only [encode, List.forall_mem_cons]
    exact ⟨isChar_charOf (by omega), isChar_charOf (by omega), isChar_charOf (by omega),
      by decide, List.forall_mem_nil _⟩
  | case4 a b c rest ih =>
    have ha := a.isLt
    have hb := b.isLt
    have hc := c.isLt
    simp only [encode, List.forall_mem_cons]
    exact ⟨isChar_charOf (by omega), isChar_charOf (by omega), isChar_charOf (by omega),
      isChar_charOf (by omega), ih⟩

lemma decodeGroups_encode (s : List (BitVec 8)) : decodeGroups (encode s) = some s := by
  induction s using encode.induct with
  | case1 => rfl
  | case2 a =>
    have ha := a.isLt
    rw [encode, decodeGroups, valueOf_charOf (by omega), valueOf_charOf (by omega)]
    have hfirst := first_eq a (show 0 < 16 by decide)
    rw [Nat.add_zero] at hfirst
    simp only [Option.bind_some, if_true, and_self, hfirst]
  | case3 a b =>
    have ha := a.isLt
    have hb := b.isLt
    have hsecond := second_eq b a.toNat (show 0 < 4 by decide)
    rw [Nat.add_zero] at hsecond
    rw [encode, decodeGroups, valueOf_charOf (by omega), valueOf_charOf (by omega),
      valueOf_charOf (by omega)]
    simp only [Option.bind_some, if_true,
      if_neg (charOf_ne_pad (show b.toNat % 16 * 4 < 64 by omega)),
      first_eq a (show b.toNat / 16 < 16 by omega), hsecond]
  | case4 a b c rest ih =>
    have ha := a.isLt
    have hb := b.isLt
    have hc := c.isLt
    have hthird : b.toNat % 16 * 4 + c.toNat / 64 < 64 := by omega
    have hfourth : c.toNat % 64 < 64 := by omega
    rw [encode, decodeGroups, valueOf_charOf (by omega), valueOf_charOf (by omega),
      valueOf_charOf hthird, valueOf_charOf hfourth, ih]
    simp only [Option.bind_some, Option.map_some, if_neg (charOf_ne_pad hthird),
      if_neg (charOf_ne_pad hfourth), first_eq a (show b.toNat / 16 < 16 by omega),
      second_eq b a.toNat (show c.toNat / 64 < 4 by omega), third_eq]

lemma decode_encode (s : List (BitVec 8)) : decode (encode s) = some s := by
  have hfilter : (encode s).filter (fun b => !isBreak b) = encode s := by
    rw [List.filter_eq_self]
    intro b hb
    rw [isBreak_of_isChar (isChar_encode s b hb), Bool.not_false]
  rw [decode, hfilter, decodeGroups_encode]

/-- A codec that reads back what it writes, in the characters of base64. -/
structure Codec where
  encode : List (BitVec 8) → List (BitVec 8)
  decode : List (BitVec 8) → Option (List (BitVec 8))
  encode_nil : encode [] = []
  decode_encode : ∀ s, decode (encode s) = some s
  isChar : ∀ s, ∀ b ∈ encode s, IsChar b

namespace Codec

variable (B : Codec)

lemma encode_ne_nil {s : List (BitVec 8)} (h : s ≠ []) : B.encode s ≠ [] := by
  intro hnil
  have hback := B.decode_encode s
  rw [hnil, ← B.encode_nil, B.decode_encode] at hback
  exact h (Option.some.inj hback).symm

/-- A separator that is no character of base64 stands in no text. -/
lemma notMem_encode {sep : BitVec 8} (h : ¬IsChar sep) (s : List (BitVec 8)) :
    sep ∉ B.encode s :=
  fun hmem => h (B.isChar s sep hmem)

end Codec

/-- The standard encoding is such a codec. -/
def std : Codec where
  encode := encode
  decode := decode
  encode_nil := rfl
  decode_encode := decode_encode
  isChar := isChar_encode

end Pgman.Base64
