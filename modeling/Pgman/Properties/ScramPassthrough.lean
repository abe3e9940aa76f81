import Pgman.Construction.Auth.Scram

/-!
# The two halves of SCRAM pass-through

The proxy is a SCRAM server to its client and a SCRAM client to the database, and holds no password
for either.  `client_key_recovery` is about the first half: what `recoverClientKey` returns is the
key, and it returns it for every exchange a client can have.  `passthrough_agrees` is about the
second: a run of `scramClientAuth` that succeeds is one that the first half would accept, and it
succeeds against every server that holds the same verifier.
-/

namespace Pgman.Scram

open Net (Byte)

variable {C : Primitives}

/-! ## Cutting messages -/

lemma dropWhile_comma {a b : Bytes} (h : comma ∉ a) :
    (a ++ comma :: b).dropWhile (· ≠ comma) = comma :: b := by
  have hall : ∀ x ∈ a, decide (x ≠ comma) = true := by
    intro x hx
    exact decide_eq_true fun heq => h (heq ▸ hx)
  rw [List.dropWhile_append_of_pos hall]
  exact List.dropWhile_cons_of_neg (by simp)

/-- The header ends at the second comma. -/
lemma clientFirstBare_of_header {flag authzid bare : Bytes} (hflag : comma ∉ flag)
    (hauthzid : comma ∉ authzid) :
    clientFirstBare (flag ++ comma :: (authzid ++ comma :: bare)) = .ok bare := by
  rw [clientFirstBare, dropWhile_comma hflag]
  dsimp only
  rw [dropWhile_comma hauthzid]

lemma ascii_sep : ascii ",p=" = [comma, 112, 61] := by decide

lemma cutLast_none {m : Bytes} (h : comma ∉ m) : cutLast (ascii ",p=") m = none := by
  induction m with
  | nil => rfl
  | cons b m ih =>
    have hb : (comma == b) = false := beq_eq_false_iff_ne.mpr fun heq => h (heq ▸ .head _)
    have hno : (ascii ",p=").isPrefixOf (b :: m) = false := by
      rw [ascii_sep, List.isPrefixOf_cons_cons, hb, Bool.false_and]
    rw [cutLast, ih fun hm => h (.tail _ hm)]
    simp [hno]

/-- A proof without commas is cut off where it was put on. -/
lemma cutLast_of_proof {w t : Bytes} (h : comma ∉ t) :
    cutLast (ascii ",p=") (w ++ ascii ",p=" ++ t) = some (w, t) := by
  induction w with
  | nil =>
    have htail : comma ∉ (112 : Byte) :: 61 :: t := by
      simp only [List.mem_cons, not_or]
      exact ⟨by decide, by decide, h⟩
    rw [ascii_sep] at *
    change cutLast [comma, 112, 61] (comma :: 112 :: 61 :: t) = some ([], t)
    rw [cutLast, ← ascii_sep, cutLast_none htail, ascii_sep]
    simp
  | cons b w ih =>
    rw [List.cons_append, List.cons_append, cutLast, ih]

/-! ## The key -/

lemma length_xorBytes {a b : Bytes} (h : a.length = b.length) :
    (xorBytes a b).length = a.length := by
  rw [xorBytes, List.length_zipWith, h, Nat.min_self]

/-- The same mask twice. -/
lemma xorBytes_cancel : ∀ {a b : Bytes}, a.length = b.length → xorBytes (xorBytes a b) b = a
  | [], [], _ => rfl
  | x :: a, y :: b, h => by
    have hxy : x ^^^ y ^^^ y = x := by rw [BitVec.xor_assoc, BitVec.xor_self, BitVec.xor_zero]
    have hrest := xorBytes_cancel (Nat.succ.inj h)
    exact congrArg₂ List.cons hxy hrest

/-- What is returned was checked. -/
lemma recoverClientKey_sound {ex : ScramExchange} {storedKey key : Bytes}
    (h : recoverClientKey C ex storedKey = .ok key) :
    key.length = 32 ∧ C.sha256 key = storedKey := by
  unfold recoverClientKey at h
  cases hbare : clientFirstBare ex.clientFirst with
  | error err => rw [hbare] at h; cases h
  | ok bare =>
    cases hsplit : splitClientFinal C ex.clientFinal with
    | error err => rw [hbare, hsplit] at h; cases h
    | ok parts =>
      obtain ⟨withoutProof, proof⟩ := parts
      rw [hbare, hsplit] at h
      dsimp only [bind, Except.bind] at h
      split_ifs at h with hlen hkey
      cases h
      refine ⟨?_, hkey⟩
      rw [length_xorBytes (not_not.mp hlen), not_not.mp hlen, C.length_hmac]

/-- What a client sends for its proof is enough. -/
lemma recoverClientKey_complete {flag authzid bare serverFirst withoutProof key : Bytes}
    (hflag : comma ∉ flag) (hauthzid : comma ∉ authzid) (hkey : key.length = 32) :
    recoverClientKey C
      ⟨flag ++ comma :: (authzid ++ comma :: bare), serverFirst,
        withoutProof ++ ascii ",p=" ++
          C.encode (proofFor C key (authMessage bare serverFirst withoutProof))⟩
      (C.sha256 key) = .ok key := by
  generalize hmsg : authMessage bare serverFirst withoutProof = message
  have hlen : key.length = (C.hmacSHA256 (C.sha256 key) message).length := by
    rw [C.length_hmac, hkey]
  have hsplit : splitClientFinal C
      (withoutProof ++ ascii ",p=" ++ C.encode (proofFor C key message)) =
        .ok (withoutProof, proofFor C key message) := by
    rw [splitClientFinal, cutLast_of_proof (C.comma_encode _)]
    dsimp only
    rw [C.decode_encode]
  have hproof : (proofFor C key message).length =
      (C.hmacSHA256 (C.sha256 key) message).length := by
    rw [proofFor, length_xorBytes hlen, hlen]
  have hback : xorBytes (proofFor C key message) (C.hmacSHA256 (C.sha256 key) message) = key :=
    xorBytes_cancel hlen
  unfold recoverClientKey
  rw [clientFirstBare_of_header hflag hauthzid, hsplit]
  dsimp only [bind, Except.bind]
  rw [hmsg, if_neg (not_not.mpr hproof), hback, if_pos rfl]

/-- The first field of a GS2 header: whether and how the channel is bound. -/
inductive BindingFlag
  | unsupported
  | notOffered
  | required (name : Bytes)

def BindingFlag.text : BindingFlag → Bytes
  | .unsupported => ascii "n"
  | .notOffered => ascii "y"
  | .required name => ascii "p=" ++ name

def BindingFlag.CommaFree : BindingFlag → Prop
  | .required name => comma ∉ name
  | _ => True

/-- The second field: an identity to act as. -/
def authzidText : Option Bytes → Bytes
  | none => []
  | some name => ascii "a=" ++ name

lemma BindingFlag.comma_text {flag : BindingFlag} (h : flag.CommaFree) : comma ∉ flag.text := by
  cases flag with
  | unsupported => decide
  | notOffered => decide
  | required name =>
    have hp : comma ∉ ascii "p=" := by decide
    exact fun hmem => (List.mem_append.mp hmem).elim hp h

lemma comma_authzidText {authzid : Option Bytes} (h : ∀ name ∈ authzid, comma ∉ name) :
    comma ∉ authzidText authzid := by
  cases authzid with
  | none => exact List.not_mem_nil
  | some name =>
    have ha : comma ∉ ascii "a=" := by decide
    exact fun hmem => (List.mem_append.mp hmem).elim ha (h name rfl)

/-- **Recovery of the client's key** is sound for every three messages, and complete for every
exchange of a client that holds a key. -/
theorem client_key_recovery (C : Primitives) :
    (∀ ex storedKey key, recoverClientKey C ex storedKey = .ok key →
        key.length = 32 ∧ C.sha256 key = storedKey) ∧
      ∀ (key : Bytes) (flag : BindingFlag) (authzid : Option Bytes)
        (bare serverFirst withoutProof : Bytes),
        key.length = 32 → flag.CommaFree → (∀ name ∈ authzid, comma ∉ name) →
          recoverClientKey C
            ⟨flag.text ++ comma :: (authzidText authzid ++ comma :: bare), serverFirst,
              withoutProof ++ ascii ",p=" ++
                C.encode (proofFor C key (authMessage bare serverFirst withoutProof))⟩
            (C.sha256 key) = .ok key :=
  ⟨fun _ _ _ => recoverClientKey_sound, fun _ _ _ _ _ _ hkey hflag hauthzid =>
    recoverClientKey_complete (BindingFlag.comma_text hflag) (comma_authzidText hauthzid) hkey⟩

/-! ## The client half -/

/-- What a run that ends well has gone through. -/
lemma scramClientAuth_eq_ok {rand user : Bytes} {pc : PassthroughCreds} {mechanisms : List Bytes}
    {replies : List Reply} {t : Transcript} :
    scramClientAuth C rand user pc mechanisms replies = .ok t ↔
      ascii "SCRAM-SHA-256" ∈ mechanisms ∧
        ∃ serverFirst first serverFinal rest,
          replies = .saslContinue serverFirst :: .saslFinal serverFinal :: rest ∧
            parseServerFirst C serverFirst = .ok first ∧ scramNonce C rand <+: first.nonce ∧
            first.salt = pc.creds.salt ∧ first.iters = pc.creds.iters ∧
            let message := authMessage (bareFor (scramNonce C rand)) serverFirst
              (withoutProofFor C first.nonce)
            verifyServerSignature C serverFinal pc.creds.serverKey message = .ok () ∧
              t = ⟨⟨gs2Header ++ bareFor (scramNonce C rand), serverFirst,
                withoutProofFor C first.nonce ++ ascii ",p=" ++
                  C.encode (proofFor C pc.clientKey message)⟩, serverFinal⟩ := by
  constructor
  · intro h
    unfold scramClientAuth at h
    split_ifs at h with hmech
    refine ⟨hmech, ?_⟩
    match replies, h with
    | .saslContinue serverFirst :: replies, h =>
      dsimp only [nextReply, bind, Except.bind] at h
      cases hfirst : parseServerFirst C serverFirst with
      | error err => rw [hfirst] at h; cases h
      | ok first =>
        rw [hfirst] at h
        dsimp only at h
        split_ifs at h with hnonce hsame
        obtain ⟨hsalt, hiters⟩ := not_or.mp hsame
        match replies, h with
        | .saslFinal serverFinal :: rest, h =>
          dsimp only at h
          cases hsig : verifyServerSignature C serverFinal pc.creds.serverKey
              (authMessage (bareFor (scramNonce C rand)) serverFirst
                (withoutProofFor C first.nonce)) with
          | error err => rw [hsig] at h; cases h
          | ok u =>
            rw [hsig] at h
            cases h
            exact ⟨serverFirst, first, serverFinal, rest, rfl, hfirst, hnonce,
              not_not.mp hsalt, not_not.mp hiters, hsig, rfl⟩
  · rintro ⟨hmech, serverFirst, first, serverFinal, rest, rfl, hfirst, hnonce, hsalt, hiters,
      hsig, rfl⟩
    have hsame : ¬(first.salt ≠ pc.creds.salt ∨ first.iters ≠ pc.creds.iters) :=
      not_or.mpr ⟨not_not.mpr hsalt, not_not.mpr hiters⟩
    unfold scramClientAuth
    rw [if_neg (not_not.mpr hmech)]
    dsimp only [nextReply, bind, Except.bind]
    rw [hfirst]
    dsimp only
    rw [if_neg (not_not.mpr hnonce), if_neg hsame]
    rw [hsig]
    rfl

lemma verifyServerSignature_eq_ok {serverFinal serverKey message : Bytes} :
    verifyServerSignature C serverFinal serverKey message = .ok () ↔
      ∃ text, serverFinal = ascii "v=" ++ text ∧
        C.decode text = some (C.hmacSHA256 serverKey message) := by
  have hv : ascii "v=" = [118, 61] := by decide
  have he : ascii "e=" = [101, 61] := by decide
  constructor
  · intro h
    unfold verifyServerSignature at h
    split_ifs at h with herr hfinal
    rw [Bool.not_eq_true', Bool.not_eq_false] at hfinal
    obtain ⟨text, rfl⟩ := List.isPrefixOf_iff_prefix.mp hfinal
    have htext : (ascii "v=" ++ text).drop 2 = text := by
      rw [hv]
      rfl
    rw [htext] at h
    split at h
    · cases h
    · next got hgot =>
      split_ifs at h with heq
      exact ⟨text, rfl, heq ▸ hgot⟩
  · rintro ⟨text, rfl, htext⟩
    unfold verifyServerSignature
    rw [hv, he]
    simp [htext]

/-- A server's first message with the three fields in their order is read as they stand. -/
lemma parseServerFirst_of_fields {nonce salt iterText : Bytes} {iters : ℤ} (hnonce : comma ∉ nonce)
    (hne : nonce ≠ []) (hsalt : salt ≠ []) (hiter : atoi iterText = some iters)
    (hcomma : comma ∉ iterText) (hpos : 0 < iters) :
    parseServerFirst C (ascii "r=" ++ nonce ++ comma :: (ascii "s=" ++ C.encode salt ++
      comma :: (ascii "i=" ++ iterText))) = .ok ⟨nonce, salt, iters⟩ := by
  have hfree : ∀ {key : String} {value : Bytes}, comma ∉ ascii key → comma ∉ value →
      comma ∉ ascii key ++ value :=
    fun hkey hvalue hmem => (List.mem_append.mp hmem).elim hkey hvalue
  have hfields : (ascii "r=" ++ nonce ++ comma :: (ascii "s=" ++ C.encode salt ++
      comma :: (ascii "i=" ++ iterText))).splitOn comma =
        [ascii "r=" ++ nonce, ascii "s=" ++ C.encode salt, ascii "i=" ++ iterText] := by
    rw [List.splitOn_append_cons_self_of_not_mem (hfree (by decide) hnonce),
      List.splitOn_append_cons_self_of_not_mem (hfree (by decide) (C.comma_encode _)),
      List.splitOn_eq_singleton (hfree (by decide) hcomma)]
  have hr : ∀ acc, readField C acc (ascii "r=" ++ nonce) = .ok { acc with nonce := nonce } :=
    fun _ => rfl
  have hs : ∀ acc, readField C acc (ascii "s=" ++ C.encode salt) =
      .ok { acc with salt := salt } := by
    intro acc
    have hkey : ascii "s=" = [115, 61] := by decide
    simp [hkey, readField, C.decode_encode]
  have hi : ∀ acc, readField C acc (ascii "i=" ++ iterText) =
      .ok { acc with iters := iters } := by
    intro acc
    have hkey : ascii "i=" = [105, 61] := by decide
    simp [hkey, readField, hiter]
  have hfull : ¬(nonce = [] ∨ salt = [] ∨ iters ≤ 0) := by
    rintro (h | h | h)
    · exact hne h
    · exact hsalt h
    · omega
  unfold parseServerFirst
  rw [hfields, List.foldlM_cons, hr]
  change ((do
    let first ← [ascii "s=" ++ C.encode salt, ascii "i=" ++ iterText].foldlM (readField C)
      ⟨nonce, [], 0⟩
    if first.nonce = [] ∨ first.salt = [] ∨ first.iters ≤ 0 then .error (.incomplete _)
    else .ok first) : Except ScramError ServerFirst) = _
  rw [List.foldlM_cons, hs]
  change ((do
    let first ← [ascii "i=" ++ iterText].foldlM (readField C) ⟨nonce, salt, 0⟩
    if first.nonce = [] ∨ first.salt = [] ∨ first.iters ≤ 0 then .error (.incomplete _)
    else .ok first) : Except ScramError ServerFirst) = _
  rw [List.foldlM_cons, hi]
  exact if_neg hfull

/-- The exchange of a run that ends well is one the proxy's own server half takes a key from. -/
lemma recover_of_transcript {rand serverFirst serverNonce key : Bytes} (hkey : key.length = 32) :
    recoverClientKey C
      ⟨gs2Header ++ bareFor (scramNonce C rand), serverFirst,
        withoutProofFor C serverNonce ++ ascii ",p=" ++ C.encode (proofFor C key
          (authMessage (bareFor (scramNonce C rand)) serverFirst
            (withoutProofFor C serverNonce)))⟩
      (C.sha256 key) = .ok key := by
  have hfirst : gs2Header ++ bareFor (scramNonce C rand) =
      ascii "n" ++ comma :: ([] ++ comma :: bareFor (scramNonce C rand)) := rfl
  rw [hfirst]
  exact recoverClientKey_complete (by decide) List.not_mem_nil hkey

/-- **The pass-through client agrees with the server half.**  A run that succeeds has been offered
the mechanism and has got two replies: the server's first message, whose nonce, salt and iteration
count it has checked, and the server's final one, whose signature it has accepted.  The proof it has
sent yields the key, and is for the same message as that signature: the client's first message, the
server's and the client's final one.  A server that holds the verifier, extends our nonce and signs
the message is accepted. -/
theorem passthrough_agrees (C : Primitives) (rand user : Bytes) (pc : PassthroughCreds)
    (hrand : rand.length = 18) (hkey : pc.clientKey.length = 32) (hsalt : pc.creds.salt ≠ [])
    (hiters : 0 < pc.creds.iters) :
    (∀ mechanisms replies t, scramClientAuth C rand user pc mechanisms replies = .ok t →
        ascii "SCRAM-SHA-256" ∈ mechanisms ∧
        ∃ first signature rest,
          replies = .saslContinue t.exchange.serverFirst :: .saslFinal t.serverFinal :: rest ∧
          t.exchange.clientFirst = gs2Header ++ bareFor (scramNonce C rand) ∧
          parseServerFirst C t.exchange.serverFirst = .ok first ∧
          scramNonce C rand <+: first.nonce ∧ first.salt = pc.creds.salt ∧
          first.iters = pc.creds.iters ∧
          recoverClientKey C t.exchange (C.sha256 pc.clientKey) = .ok pc.clientKey ∧
          let message := authMessage (bareFor (scramNonce C rand)) t.exchange.serverFirst
            (withoutProofFor C first.nonce)
          t.exchange.clientFinal = withoutProofFor C first.nonce ++ ascii ",p=" ++
              C.encode (proofFor C pc.clientKey message) ∧
            t.serverFinal = ascii "v=" ++ signature ∧
            C.decode signature = some (C.hmacSHA256 pc.creds.serverKey message)) ∧
      ∀ mechanisms extension iterText rest,
        ascii "SCRAM-SHA-256" ∈ mechanisms → comma ∉ extension →
        atoi iterText = some pc.creds.iters → comma ∉ iterText →
        let nonce := scramNonce C rand ++ extension
        let serverFirst := ascii "r=" ++ nonce ++ comma :: (ascii "s=" ++
          C.encode pc.creds.salt ++ comma :: (ascii "i=" ++ iterText))
        let message := authMessage (bareFor (scramNonce C rand)) serverFirst
          (withoutProofFor C nonce)
        ∃ t, scramClientAuth C rand user pc mechanisms
          (.saslContinue serverFirst ::
            .saslFinal (ascii "v=" ++ C.encode (C.hmacSHA256 pc.creds.serverKey message)) ::
            rest) = .ok t := by
  constructor
  · intro mechanisms replies t h
    obtain ⟨hmech, serverFirst, first, serverFinal, rest, hreplies, hfirst, hnonce, hsame, hcount,
      hsig, rfl⟩ := scramClientAuth_eq_ok.mp h
    obtain ⟨signature, hfinal, hdecode⟩ := verifyServerSignature_eq_ok.mp hsig
    exact ⟨hmech, first, signature, rest, hreplies, rfl, hfirst, hnonce, hsame, hcount,
      recover_of_transcript hkey, rfl, hfinal, hdecode⟩
  · intro mechanisms extension iterText rest hmech hext hiter hcomma nonce serverFirst message
    have hne : nonce ≠ [] := by
      have hrandne : rand ≠ [] := by
        rintro rfl
        cases hrand
      exact List.append_ne_nil_of_left_ne_nil (C.encode_ne_nil hrandne) _
    have hfree : comma ∉ nonce := fun hmem =>
      (List.mem_append.mp hmem).elim (C.comma_encode rand) hext
    have hfirst : parseServerFirst C serverFirst =
        .ok ⟨nonce, pc.creds.salt, pc.creds.iters⟩ :=
      parseServerFirst_of_fields hfree hne hsalt hiter hcomma hiters
    have hsig : verifyServerSignature C
        (ascii "v=" ++ C.encode (C.hmacSHA256 pc.creds.serverKey message)) pc.creds.serverKey
          message = .ok () :=
      verifyServerSignature_eq_ok.mpr ⟨_, rfl, C.decode_encode _⟩
    exact ⟨_, scramClientAuth_eq_ok.mpr ⟨hmech, serverFirst, _, _, rest, rfl, hfirst,
      List.prefix_append _ _, rfl, rfl, hsig, rfl⟩⟩

/-! ## Stand-ins for the primitives -/

/-- A sum of the bytes in their order, one for every `seed`. -/
def checksum (b : Bytes) (seed : ℕ) : Byte :=
  b.foldl (fun acc x => acc * 31 + x) (BitVec.ofNat 8 seed)

/-- Base64 as it is, with 32 checksums for the hash and for the MAC. -/
def standIns : Primitives where
  toCodec := Base64.std
  sha256 b := (List.range 32).map (checksum b)
  hmacSHA256 key msg := (List.range 32).map (checksum (key ++ msg))
  length_sha256 b := by rw [List.length_map, List.length_range]
  length_hmac key msg := by rw [List.length_map, List.length_range]

theorem client_key_recovery_plain :
    recoverClientKey standIns
      ⟨BindingFlag.unsupported.text ++ comma :: (authzidText none ++ comma :: ascii "n=,r=x"),
        ascii "r=xy,s=AA,i=1", ascii "c=biws,r=xy" ++ ascii ",p=" ++
          standIns.encode (proofFor standIns (List.replicate 32 3)
            (authMessage (ascii "n=,r=x") (ascii "r=xy,s=AA,i=1") (ascii "c=biws,r=xy")))⟩
      (standIns.sha256 (List.replicate 32 3)) = .ok (List.replicate 32 3) :=
  (client_key_recovery standIns).2 _ .unsupported none _ _ _ rfl trivial (by simp)

/-- Credentials for the stand-ins. -/
def sampleCreds : PassthroughCreds :=
  ⟨List.replicate 32 3,
    ⟨ascii "salt", 4096, standIns.sha256 (List.replicate 32 3), List.replicate 32 5⟩⟩

/-- A server that holds the verifier is accepted, and its own half takes the key from the
exchange. -/
theorem passthrough_agrees_sample :
    let nonce := scramNonce standIns (List.replicate 18 7) ++ ascii "srv"
    let serverFirst := ascii "r=" ++ nonce ++ comma :: (ascii "s=" ++
      standIns.encode (ascii "salt") ++ comma :: (ascii "i=" ++ ascii "4096"))
    let message := authMessage (bareFor (scramNonce standIns (List.replicate 18 7))) serverFirst
      (withoutProofFor standIns nonce)
    ∃ t, scramClientAuth standIns (List.replicate 18 7) (ascii "alice") sampleCreds
      [ascii "SCRAM-SHA-256"]
      [.saslContinue serverFirst, .saslFinal (ascii "v=" ++
        standIns.encode (standIns.hmacSHA256 sampleCreds.creds.serverKey message))] = .ok t ∧
      recoverClientKey standIns t.exchange sampleCreds.creds.storedKey =
        .ok sampleCreds.clientKey := by
  have hboth := passthrough_agrees standIns (List.replicate 18 7) (ascii "alice") sampleCreds rfl
    rfl (by decide) (by decide)
  obtain ⟨t, ht⟩ := hboth.2 [ascii "SCRAM-SHA-256"] (ascii "srv") (ascii "4096") []
    (List.mem_singleton_self _) (by decide) (by decide) (by decide)
  obtain ⟨-, _, _, _, -, -, -, -, -, -, hrecover, -⟩ := hboth.1 _ _ t ht
  exact ⟨t, ht, hrecover⟩

end Pgman.Scram
