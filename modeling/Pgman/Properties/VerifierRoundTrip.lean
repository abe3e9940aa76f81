import Mathlib.Data.Nat.Digits.Lemmas
import Mathlib.Tactic.Common
import Pgman.Construction.Auth.Verifier

/-!
# Verifiers there and back

The text of a verifier nests three separators, and each is cut at its first occurrence.  That the
cuts fall where the writer put the separators is because decimal numbers and base64 texts contain
none: `cut_append`, with `separator_notMem_itoa` and `separator_notMem_encode`.
-/

namespace Pgman.Scram

open Net (Byte)

variable {B : Base64.Codec} {creds : StoredCredentials} {s : Bytes} {sep : Byte} {z : ℤ}

/-- What `ParseSCRAMVerifier` asks of a credential; the iteration count is an `int`. -/
structure Usable (creds : StoredCredentials) : Prop where
  iters_pos : 0 < creds.iters
  iters_int : creds.iters < 2 ^ 63
  salt : creds.salt ≠ []
  storedKey : creds.storedKey.length = 32
  serverKey : creds.serverKey.length = 32

/-! ## Separators -/

lemma cut_append {a b : Bytes} (h : sep ∉ a) : cut sep (a ++ sep :: b) = some (a, b) := by
  induction a with
  | nil => exact if_pos rfl
  | cons c a ih =>
    have hc : c ≠ sep := fun heq => h (heq ▸ List.mem_cons_self)
    rw [List.cons_append, cut, if_neg hc, ih fun hmem => h (List.mem_cons_of_mem _ hmem)]
    rfl

lemma separator_notMem_encode (B : Base64.Codec) (b : Bytes) (h : sep = colon ∨ sep = dollar) :
    sep ∉ B.encode b := by
  rcases h with rfl | rfl
  · exact B.notMem_encode (by decide) b
  · exact B.notMem_encode (by decide) b

/-! ## Numbers -/

lemma toNat_digitByte {d : ℕ} (h : d < 10) : (digitByte d).toNat = 48 + d := by
  rw [digitByte, BitVec.toNat_ofNat]
  omega

lemma digitValue_digitByte {d : ℕ} (h : d < 10) : digitValue (digitByte d) = some d := by
  rw [digitValue, toNat_digitByte h, if_pos (by omega)]
  congr 1
  omega

/-- Reading digits is folding them. -/
lemma decimal_map {ds : List ℕ} (h : ∀ d ∈ ds, d < 10) (acc : ℕ) :
    decimal acc (ds.map digitByte) = some (ds.foldl (fun a d => a * 10 + d) acc) := by
  induction ds generalizing acc with
  | nil => rfl
  | cons d ds ih =>
    rw [List.map_cons, decimal, digitValue_digitByte (h d List.mem_cons_self)]
    exact ih (fun x hx => h x (List.mem_cons_of_mem _ hx)) _

/-- The digits that `%d` writes for a positive number. -/
lemma itoa_of_pos (h : 0 < z) :
    itoa z = ((Nat.digits 10 z.natAbs).reverse).map digitByte := by
  rw [itoa, if_neg (by omega), if_neg (by omega), List.map_reverse]

lemma digits_lt {n d : ℕ} (h : d ∈ (Nat.digits 10 n).reverse) : d < 10 :=
  Nat.digits_lt_base (by decide) (List.mem_reverse.mp h)

lemma decimal_itoa (h : 0 < z) : decimal 0 (itoa z) = some z.natAbs := by
  rw [itoa_of_pos h, decimal_map fun d hd => digits_lt hd, List.foldl_reverse]
  have hfold : (Nat.digits 10 z.natAbs).foldr (fun d a => a * 10 + d) 0 =
      Nat.ofDigits 10 (Nat.digits 10 z.natAbs) := by
    rw [Nat.ofDigits_eq_foldr]
    congr 1
    funext d a
    rw [Nat.cast_id, add_comm, mul_comm]
  rw [hfold, Nat.ofDigits_digits]

lemma itoa_isDigit (h : 0 < z) : ∀ b ∈ itoa z, 48 ≤ b.toNat ∧ b.toNat ≤ 57 := by
  rw [itoa_of_pos h]
  intro b hb
  obtain ⟨d, hd, rfl⟩ := List.mem_map.mp hb
  have hlt := digits_lt hd
  rw [toNat_digitByte hlt]
  omega

lemma itoa_ne_nil (h : 0 < z) : itoa z ≠ [] := by
  rw [itoa_of_pos h, ne_eq, List.map_eq_nil_iff, List.reverse_eq_nil_iff,
    Nat.digits_eq_nil_iff_eq_zero]
  omega

lemma separator_notMem_itoa (h : 0 < z) (hsep : sep = colon ∨ sep = dollar) : sep ∉ itoa z := by
  intro hmem
  have hdigit := itoa_isDigit h sep hmem
  rcases hsep with rfl | rfl
  · simp [colon] at hdigit
  · simp [dollar] at hdigit

/-- A text that starts with a digit has no sign. -/
lemma atoi_of_digits {ds : Bytes} (hdigits : ∀ b ∈ ds, 48 ≤ b.toNat ∧ b.toNat ≤ 57)
    (hne : ds ≠ []) : atoi ds = (decimal 0 ds).bind fun n =>
      if -(2 ^ 63) ≤ (n : ℤ) ∧ (n : ℤ) < 2 ^ 63 then some (n : ℤ) else none := by
  unfold atoi
  split
  next neg digits hsign =>
  split at hsign
  · exact absurd (hdigits _ List.mem_cons_self).1 (by decide)
  · exact absurd (hdigits _ List.mem_cons_self).1 (by decide)
  · obtain ⟨rfl, rfl⟩ := Prod.mk.inj hsign
    rw [if_neg hne]
    rfl

/-- `Atoi` reads what `%d` writes. -/
lemma atoi_itoa (h : 0 < z) (hint : z < 2 ^ 63) : atoi (itoa z) = some z := by
  have hz : (z.natAbs : ℤ) = z := Int.natAbs_of_nonneg h.le
  rw [atoi_of_digits (itoa_isDigit h) (itoa_ne_nil h), decimal_itoa h, Option.bind_some, hz]
  exact if_pos ⟨by omega, hint⟩

/-! ## The round trip -/

lemma decodeFields_format (h : Usable creds) :
    decodeFields B (itoa creds.iters) (B.encode creds.salt) (B.encode creds.storedKey)
      (B.encode creds.serverKey) = .ok creds := by
  simp only [decodeFields, atoi_itoa h.iters_pos h.iters_int, B.decode_encode]

lemma checkCredentials_eq_ok {c : StoredCredentials} : checkCredentials creds = .ok c ↔
    c = creds ∧ 0 < creds.iters ∧ creds.salt ≠ [] ∧ creds.storedKey.length = 32 ∧
      creds.serverKey.length = 32 := by
  unfold checkCredentials
  split_ifs with hiters hsalt hstored hserver
  · simp [hiters]
  · simp [List.length_eq_zero_iff.mp hsalt]
  · simp_all [sha256Size]
  · simp_all [sha256Size]
  · have hne : creds.salt ≠ [] := fun heq => hsalt (congrArg List.length heq)
    rw [not_not] at hstored hserver
    constructor
    · intro h
      exact ⟨(Except.ok.inj h).symm, not_le.mp hiters, hne, hstored, hserver⟩
    · rintro ⟨rfl, -⟩
      rfl

lemma parse_format (h : Usable creds) :
    parseSCRAMVerifier B (formatVerifier B creds) = .ok creds := by
  have hdrop : (formatVerifier B creds).drop verifierPrefix.length =
      (itoa creds.iters ++ colon :: B.encode creds.salt) ++
        dollar :: (B.encode creds.storedKey ++ colon :: B.encode creds.serverKey) := by
    rw [formatVerifier, List.append_assoc, List.drop_left]
  have hstart : verifierPrefix.isPrefixOf (formatVerifier B creds) = true := by
    rw [List.isPrefixOf_iff_prefix, formatVerifier, List.append_assoc]
    exact List.prefix_append _ _
  have hdollar : dollar ∉ itoa creds.iters ++ colon :: B.encode creds.salt := by
    simp only [List.mem_append, List.mem_cons, not_or]
    exact ⟨separator_notMem_itoa h.iters_pos (.inr rfl), by decide,
      separator_notMem_encode B _ (.inr rfl)⟩
  unfold parseSCRAMVerifier
  rw [hstart, hdrop, cut_append hdollar]
  simp only [Bool.not_true, Bool.false_eq_true, if_false,
    cut_append (separator_notMem_itoa h.iters_pos (.inl rfl)),
    cut_append (separator_notMem_encode B creds.storedKey (.inl rfl)), decodeFields_format h]
  exact checkCredentials_eq_ok.mpr ⟨rfl, h.iters_pos, h.salt, h.storedKey, h.serverKey⟩

/-- `Atoi` returns an `int`. -/
lemma atoi_lt (h : atoi s = some z) : z < 2 ^ 63 := by
  unfold atoi at h
  split at h
  next neg digits _ =>
  split at h
  · cases h
  · obtain ⟨n, -, hn⟩ := Option.bind_eq_some_iff.mp h
    dsimp only at hn
    generalize (if neg = true then -(n : ℤ) else (n : ℤ)) = v at hn
    split at hn
    next hrange => exact Option.some.inj hn ▸ hrange.2
    next => cases hn

lemma usable_of_parse (h : parseSCRAMVerifier B s = .ok creds) : Usable creds := by
  unfold parseSCRAMVerifier at h
  split at h
  · cases h
  split at h
  · cases h
  split at h
  · cases h
  split at h
  · cases h
  next storedB64 serverB64 _ =>
  unfold decodeFields at h
  split at h
  · cases h
  next iters hiters =>
  split at h
  · cases h
  split at h
  · cases h
  split at h
  · cases h
  obtain ⟨rfl, hpos, hsalt, hstored, hserver⟩ := checkCredentials_eq_ok.mp h
  exact ⟨hpos, atoi_lt hiters, hsalt, hstored, hserver⟩

/-- **Verifiers there and back.**  What is written is read back; what is read is usable; and what
`GenerateSCRAMVerifier` writes is read as the credential it has derived. -/
theorem verifier_round_trip (B : Base64.Codec) :
    (∀ creds, Usable creds → parseSCRAMVerifier B (formatVerifier B creds) = .ok creds) ∧
      (∀ s creds, parseSCRAMVerifier B s = .ok creds → Usable creds ∧
        parseSCRAMVerifier B (formatVerifier B creds) = .ok creds) ∧
      ∀ (derive : Bytes → Bytes → ℤ → Option (Bytes × Bytes)) (random password : Bytes)
        (iterations : ℤ) (storedKey serverKey : Bytes), random.length = 16 →
        0 < iterations → iterations < 2 ^ 63 → storedKey.length = 32 → serverKey.length = 32 →
        derive password random iterations = some (storedKey, serverKey) →
        ∃ text, generateSCRAMVerifier B derive random password iterations = some text ∧
          parseSCRAMVerifier B text = .ok ⟨random, iterations, storedKey, serverKey⟩ := by
  refine ⟨fun creds => parse_format, fun s creds h => ?_, ?_⟩
  · have husable := usable_of_parse h
    exact ⟨husable, parse_format husable⟩
  · intro derive random password iterations storedKey serverKey hrandom hpos hint hstored hserver
      hderive
    have hsalt : random ≠ [] := by
      rintro rfl
      cases hrandom
    refine ⟨formatVerifier B ⟨random, iterations, storedKey, serverKey⟩, ?_, ?_⟩
    · rw [generateSCRAMVerifier, hderive, Option.map_some]
    · exact parse_format ⟨hpos, hint, hsalt, hstored, hserver⟩

/-- The three parts at the standard encoding, for a credential of 4096 rounds. -/
theorem verifier_round_trip_std :
    Usable ⟨[1, 2, 3], 4096, List.replicate 32 7, List.replicate 32 255⟩ ∧
      parseSCRAMVerifier Base64.std (formatVerifier Base64.std
          ⟨[1, 2, 3], 4096, List.replicate 32 7, List.replicate 32 255⟩) =
        .ok ⟨[1, 2, 3], 4096, List.replicate 32 7, List.replicate 32 255⟩ ∧
      ∃ text, generateSCRAMVerifier Base64.std
          (fun _ _ _ => some (List.replicate 32 7, List.replicate 32 255)) (List.replicate 16 9)
          (ascii "s3cret") 4096 = some text ∧
        parseSCRAMVerifier Base64.std text =
          .ok ⟨List.replicate 16 9, 4096, List.replicate 32 7, List.replicate 32 255⟩ :=
  have husable : Usable ⟨[1, 2, 3], 4096, List.replicate 32 7, List.replicate 32 255⟩ :=
    ⟨by decide, by decide, by decide, by decide, by decide⟩
  have hall := verifier_round_trip Base64.std
  have hparse := hall.1 _ husable
  ⟨(hall.2.1 _ _ hparse).1, hparse, hall.2.2 _ _ _ _ _ _ (by decide) (by decide) (by decide)
    (by decide) (by decide) rfl⟩

end Pgman.Scram
