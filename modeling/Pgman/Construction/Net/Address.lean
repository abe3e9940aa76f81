import Mathlib.Data.List.Basic
import Mathlib.Data.Nat.Notation
import Mathlib.Tactic.Common

/-!
# Addresses

What the proxy uses of the packages `net` and `net/netip`: the parsers of IP literals and of CIDR
networks, `SplitHostPort`, and the address classes.  An address is a list of bytes, four or
sixteen of them as in `net.IP`; texts are lists of characters, and since every character these
parsers look for is an ASCII character it makes no difference that the library goes by bytes.

The host-based rules match clients against CIDR networks (`Construction/Auth/Hba.lean`), and the
check of a pool's address refuses some classes of IP literals.  The parsers are exact: leading
zeros, the places where `::` may stand, embedded IPv4 addresses and zones are treated as in the
library.
-/

namespace Pgman.Net

abbrev Text := List Char

/-- What is said of the characters of a text is decided by going through the text, and not by going
through all characters. -/
instance (priority := 2000) decidableForallMemText (p : Char → Prop) [DecidablePred p] (t : Text) :
    Decidable (∀ c ∈ t, p c) := List.decidableBAll p t

abbrev Byte := BitVec 8

/-- `net.IP`. -/
abbrev IP := List Byte

def digit (c : Char) : Option ℕ := if '0' ≤ c ∧ c ≤ '9' then some (c.toNat - 48) else none

def hexDigit (c : Char) : Option ℕ :=
  if '0' ≤ c ∧ c ≤ '9' then some (c.toNat - 48)
  else if 'a' ≤ c ∧ c ≤ 'f' then some (c.toNat - 87)
  else if 'A' ≤ c ∧ c ≤ 'F' then some (c.toNat - 55)
  else none

/-! ## IP literals -/

/-- `parseIPv4Fields`: the octets read so far, the value of the current one and its length. -/
def parseIPv4Fields : (octets : List Byte) → (val digLen : ℕ) → Text → Option (List Byte)
  | octets, val, _, [] =>
      if octets.length < 3 then none else some (octets ++ [BitVec.ofNat 8 val])
  | octets, val, digLen, c :: cs =>
      match digit c with
      | some d =>
          if digLen = 1 ∧ val = 0 then none
          else if 255 < val * 10 + d then none
          else parseIPv4Fields octets (val * 10 + d) (digLen + 1) cs
      | none =>
          if c = '.' then
            if digLen = 0 ∨ cs = [] then none
            else if octets.length = 3 then none
            else parseIPv4Fields (octets ++ [BitVec.ofNat 8 val]) 0 0 cs
          else none

/-- The hexadecimal digits of one group: how many there are, their value, and the rest. -/
def scanHex : (off acc : ℕ) → Text → Option (ℕ × ℕ × Text)
  | off, acc, [] => some (off, acc, [])
  | off, acc, c :: cs =>
      match hexDigit c with
      | none => some (off, acc, c :: cs)
      | some d =>
          if 3 < off ∨ 65535 < acc * 16 + d then none else scanHex (off + 1) (acc * 16 + d) cs

/-- The loop of `parseIPv6` over the groups: the bytes so far, where the `::` stood, the rest. -/
def parseIPv6Groups : (groups : ℕ) → IP → Option ℕ → Text → Option (IP × Option ℕ × Text)
  | 0, ip, ellipsis, s => some (ip, ellipsis, s)
  | groups + 1, ip, ellipsis, s =>
      match scanHex 0 0 s with
      | none | some (0, _, _) => none
      | some (_, _, '.' :: _) =>
          -- an embedded IPv4 address takes the place of the last two groups
          if ellipsis = none ∧ ip.length ≠ 12 then none
          else if 16 < ip.length + 4 then none
          else (parseIPv4Fields [] 0 0 s).map fun octets => (ip ++ octets, ellipsis, [])
      | some (_, acc, rest) =>
          let ip := ip ++ [BitVec.ofNat 8 (acc / 256), BitVec.ofNat 8 acc]
          match rest with
          | [] => some (ip, ellipsis, [])
          | [':'] => none
          | ':' :: ':' :: rest =>
              if ellipsis.isSome then none
              else if rest = [] then some (ip, some ip.length, [])
              else parseIPv6Groups groups ip (some ip.length) rest
          | ':' :: rest => parseIPv6Groups groups ip ellipsis rest
          | _ => none

/-- The end of `parseIPv6`: a `::` stands for the groups that are missing. -/
def expandEllipsis (ip : IP) : Option ℕ → Option IP
  | none => if ip.length < 16 then none else some ip
  | some e =>
      if ip.length < 16 then some (ip.take e ++ List.replicate (16 - ip.length) 0 ++ ip.drop e)
      else none

/-- `parseIPv6` on a text without its zone. -/
def parseIPv6Bare : Text → Option IP
  | [':', ':'] => some (List.replicate 16 0)
  | s =>
      let start := match s with
        | ':' :: ':' :: s => (some 0, s)
        | s => (none, s)
      match parseIPv6Groups 8 [] start.1 start.2 with
      | some (ip, ellipsis, []) => expandEllipsis ip ellipsis
      | _ => none

/-- `netip.Addr`: its bytes, and the zone of a scoped IPv6 address. -/
structure Addr where
  bytes : IP
  zone : Text
  deriving DecidableEq

def parseIPv6 (s : Text) : Option Addr :=
  match s.dropWhile (· ≠ '%') with
  | [] => (parseIPv6Bare s).map fun ip => ⟨ip, []⟩
  | ['%'] => none
  | _ :: zone => (parseIPv6Bare (s.takeWhile (· ≠ '%'))).map fun ip => ⟨ip, zone⟩

/-- `netip.ParseAddr`: the first of `.`, `:` and `%` decides. -/
def parseAddr (s : Text) : Option Addr :=
  match s.find? (fun c => c = '.' ∨ c = ':' ∨ c = '%') with
  | some '.' => (parseIPv4Fields [] 0 0 s).map fun ip => ⟨ip, []⟩
  | some ':' => parseIPv6 s
  | _ => none

def v4InV6Prefix : IP := List.replicate 10 0 ++ [0xff, 0xff]

/-- `Addr.As16`. -/
def as16 (ip : IP) : IP := if ip.length = 4 then v4InV6Prefix ++ ip else ip

/-- `net.ParseIP`: no zones. -/
def parseIP (s : Text) : Option IP :=
  match parseAddr s with
  | some ⟨ip, []⟩ => some (as16 ip)
  | _ => none

/-! ## Classes of addresses -/

/-- `IP.To4`. -/
def to4 (ip : IP) : Option IP :=
  if ip.length = 4 then some ip
  else if ip.length = 16 ∧ ip.take 12 = v4InV6Prefix then some (ip.drop 12)
  else none

def isUnspecified (ip : IP) : Bool :=
  match to4 ip with
  | some ip4 => ip4 = [0, 0, 0, 0]
  | none => ip = List.replicate 16 0

def isLoopback (ip : IP) : Bool :=
  match to4 ip with
  | some ip4 => ip4.head? = some 127
  | none => ip = List.replicate 15 0 ++ [1]

def isLinkLocalUnicast (ip : IP) : Bool :=
  match to4 ip with
  | some ip4 => ip4.take 2 = [169, 254]
  | none =>
      match ip with
      | a :: b :: _ => ip.length = 16 && a = 0xfe && b &&& 0xc0 = 0x80
      | _ => false

def isLinkLocalMulticast (ip : IP) : Bool :=
  match to4 ip with
  | some ip4 => ip4.take 3 = [224, 0, 0]
  | none =>
      match ip with
      | a :: b :: _ => ip.length = 16 && a = 0xff && b &&& 0x0f = 0x02
      | _ => false

def isMulticast (ip : IP) : Bool :=
  match to4 ip with
  | some ip4 => ip4.head?.any fun a => a &&& 0xf0 = 0xe0
  | none => ip.length = 16 && ip.head? = some 0xff

/-! ## Networks -/

/-- `net.IPNet`. -/
structure IPNet where
  ip : IP
  mask : List Byte
  deriving DecidableEq

/-- `net.CIDRMask`: `ones` leading bits in `len` bytes. -/
def cidrMask : (len ones : ℕ) → List Byte
  | 0, _ => []
  | len + 1, ones =>
      if 8 ≤ ones then 0xff :: cidrMask len (ones - 8)
      else (~~~(0xff#8 >>> ones)) :: cidrMask len 0

/-- `IP.Mask`, for a mask as long as the address or four bytes long. -/
def maskIP (ip : IP) (mask : List Byte) : IP :=
  let ip := if mask.length = 4 ∧ ip.length = 16 ∧ ip.take 12 = v4InV6Prefix then ip.drop 12 else ip
  List.zipWith (· &&& ·) ip mask

/-- `dtoi`: a decimal number below `0xFFFFFF` at the front of a text, and the rest. -/
def dtoi : (n : ℕ) → Text → Option (ℕ × Text)
  | n, [] => some (n, [])
  | n, c :: cs =>
      match digit c with
      | none => some (n, c :: cs)
      | some d => if 0xFFFFFF ≤ n * 10 + d then none else dtoi (n * 10 + d) cs

/-- `net.ParseCIDR`, its second result. -/
def parseCIDR (s : Text) : Option IPNet :=
  match s.dropWhile (· ≠ '/') with
  | [] => none
  | _ :: mask =>
      match parseAddr (s.takeWhile (· ≠ '/')), mask, dtoi 0 mask with
      | some ⟨ip, []⟩, _ :: _, some (n, []) =>
          if 8 * ip.length < n then none
          else
            let m := cidrMask ip.length n
            some ⟨maskIP (as16 ip) m, m⟩
      | _, _, _ => none

/-- `IPNet.Contains`.  An IPv4 network with a long mask is compared by the end of the mask. -/
def IPNet.contains (n : IPNet) (ip : IP) : Bool :=
  let nn := (to4 n.ip).getD n.ip
  let m := if nn.length = 4 ∧ n.mask.length = 16 then n.mask.drop 12 else n.mask
  let ip := (to4 ip).getD ip
  (nn.length = 4 || nn.length = 16) && nn.length = m.length && ip.length = nn.length &&
    (List.zipWith (· &&& ·) nn m == List.zipWith (· &&& ·) ip m)

/-! ## Lengths -/

lemma length_of_parseIPv4Fields {octets : List Byte} {val digLen : ℕ} {s : Text} {ip : IP}
    (hle : octets.length ≤ 3) (h : parseIPv4Fields octets val digLen s = some ip) :
    ip.length = 4 := by
  induction s generalizing octets val digLen with
  | nil =>
    rw [parseIPv4Fields] at h
    split_ifs at h with hfew
    cases h
    rw [List.length_append, List.length_singleton]
    omega
  | cons c s ih =>
    rw [parseIPv4Fields] at h
    split at h
    · split_ifs at h
      exact ih hle h
    · split_ifs at h with hdot hempty hfull
      refine ih ?_ h
      rw [List.length_append, List.length_singleton]
      omega

lemma length_of_parseIPv6Groups {groups : ℕ} {ip ip' : IP} {e e' : Option ℕ} {s s' : Text}
    (hle : ip.length + 2 * groups ≤ 16)
    (h : parseIPv6Groups groups ip e s = some (ip', e', s')) : ip'.length ≤ 16 := by
  induction groups generalizing ip e s with
  | zero =>
    cases h
    exact hle
  | succ groups ih =>
    have hgroup : ∀ a b : Byte, (ip ++ [a, b]).length + 2 * groups ≤ 16 := by
      intro a b
      rw [List.length_append, List.length_cons, List.length_singleton]
      omega
    have hshort : ∀ a b : Byte, (ip ++ [a, b]).length ≤ 16 := fun a b =>
      Nat.le_trans (Nat.le_add_right _ _) (hgroup a b)
    rw [parseIPv6Groups] at h
    split at h
    · cases h
    · cases h
    · split_ifs at h with hplace hroom
      obtain ⟨octets, hocts, heq⟩ := Option.map_eq_some_iff.mp h
      cases heq
      have hfour := length_of_parseIPv4Fields (by simp) hocts
      rw [List.length_append, hfour]
      omega
    · dsimp only at h
      split at h
      · cases h
        exact hshort _ _
      · cases h
      · split_ifs at h
        · cases h
          exact hshort _ _
        · exact ih (hgroup _ _) h
      · exact ih (hgroup _ _) h
      · cases h

lemma length_of_parseIPv6Bare {s : Text} {ip : IP} (h : parseIPv6Bare s = some ip) :
    ip.length = 16 := by
  unfold parseIPv6Bare at h
  split at h
  · cases h
    exact List.length_replicate
  · dsimp only at h
    split at h
    · next ip' e hgroups =>
      have hle : ip'.length ≤ 16 := length_of_parseIPv6Groups (by simp) hgroups
      cases e with
      | none =>
        simp only [expandEllipsis] at h
        split_ifs at h with hlt
        cases h
        omega
      | some e =>
        simp only [expandEllipsis] at h
        split_ifs at h with hlt
        cases h
        simp only [List.length_append, List.length_take, List.length_replicate, List.length_drop]
        omega
    · cases h

lemma length_of_parseIPv6 {s : Text} {a : Addr} (h : parseIPv6 s = some a) :
    a.bytes.length = 16 := by
  unfold parseIPv6 at h
  split at h
  · obtain ⟨ip, hip, rfl⟩ := Option.map_eq_some_iff.mp h
    exact length_of_parseIPv6Bare hip
  · cases h
  · obtain ⟨ip, hip, rfl⟩ := Option.map_eq_some_iff.mp h
    exact length_of_parseIPv6Bare hip

/-- A literal address has four or sixteen bytes. -/
lemma length_of_parseAddr {s : Text} {a : Addr} (h : parseAddr s = some a) :
    a.bytes.length = 4 ∨ a.bytes.length = 16 := by
  unfold parseAddr at h
  split at h
  · obtain ⟨ip, hip, rfl⟩ := Option.map_eq_some_iff.mp h
    exact .inl (length_of_parseIPv4Fields (by simp) hip)
  · exact .inr (length_of_parseIPv6 h)
  · cases h

/-! ## Membership by leading bits -/

/-- Bit `i` of an address, the most significant one first. -/
def bitAt : List Byte → ℕ → Bool
  | [], _ => false
  | b :: bs, i => if i < 8 then b.getMsbD i else bitAt bs (i - 8)

lemma bitAt_append_left {a : List Byte} (b : List Byte) {i : ℕ} (h : i < 8 * a.length) :
    bitAt (a ++ b) i = bitAt a i := by
  induction a generalizing i with
  | nil => simp at h
  | cons x a ih =>
    simp only [List.cons_append, bitAt]
    split
    · rfl
    · rw [List.length_cons] at h
      exact ih (by omega)

lemma bitAt_append_right (a b : List Byte) (i : ℕ) :
    bitAt (a ++ b) (8 * a.length + i) = bitAt b i := by
  induction a with
  | nil => simp
  | cons x a ih =>
    rw [List.cons_append, bitAt, if_neg (by simp; omega), ← ih]
    congr 1
    simp
    omega

lemma length_cidrMask (len ones : ℕ) : (cidrMask len ones).length = len := by
  induction len generalizing ones with
  | zero => rfl
  | succ len ih =>
    unfold cidrMask
    split <;> simp [ih]

lemma contains_self {n : IPNet} (hlen : n.ip.length = 4 ∨ n.ip.length = 16)
    (hmask : n.mask.length = n.ip.length) : n.contains n.ip = true := by
  rcases hlen with h4 | h16
  · simp [IPNet.contains, to4, h4, hmask]
  · by_cases hmapped : n.ip.take 12 = v4InV6Prefix
    · simp [IPNet.contains, to4, h16, hmask, hmapped]
    · simp [IPNet.contains, to4, h16, hmask, hmapped]

/-- A network that was parsed contains its own address. -/
lemma contains_of_parseCIDR {s : Text} {n : IPNet} (h : parseCIDR s = some n) :
    (n.ip.length = 4 ∨ n.ip.length = 16) ∧ n.contains n.ip = true := by
  unfold parseCIDR at h
  split at h
  · cases h
  · split at h
    · next _ _ _ _ ip _ _ ones hparse _ _ =>
      split_ifs at h
      cases h
      have hmask : (cidrMask ip.length ones).length = ip.length := length_cidrMask _ _
      have hip : (maskIP (as16 ip) (cidrMask ip.length ones)).length = ip.length := by
        rcases length_of_parseAddr hparse with hlen | hlen <;> dsimp only at hlen
        · have has : as16 ip = v4InV6Prefix ++ ip := if_pos hlen
          have htake : (v4InV6Prefix ++ ip).take 12 = v4InV6Prefix := List.take_left' rfl
          have hdrop : (v4InV6Prefix ++ ip).drop 12 = ip := List.drop_left' rfl
          have h16 : (v4InV6Prefix ++ ip).length = 16 := by rw [List.length_append, hlen]; rfl
          rw [maskIP, has, if_pos ⟨hmask.trans hlen, h16, htake⟩, hdrop, List.length_zipWith,
            hmask, Nat.min_self]
        · have has : as16 ip = ip := if_neg (by omega)
          rw [maskIP, has, if_neg (by omega), List.length_zipWith, hmask, Nat.min_self]
      have hlen : (maskIP (as16 ip) (cidrMask ip.length ones)).length = 4 ∨
          (maskIP (as16 ip) (cidrMask ip.length ones)).length = 16 := by
        rw [hip]
        exact length_of_parseAddr hparse
      exact ⟨hlen, contains_self hlen (hmask.trans hip.symm)⟩
    · cases h

lemma getMsbD_maskByte {n i : ℕ} (hn : n < 8) (hi : i < 8) :
    (~~~(0xff#8 >>> n)).getMsbD i = decide (i < n) := by
  have : ∀ n < 8, ∀ i < 8, (~~~(0xff#8 >>> n)).getMsbD i = decide (i < n) := by decide
  exact this n hn i hi

/-- One byte under a mask of `n` leading bits. -/
lemma maskByte_eq_iff {n : ℕ} (hn : n < 8) (x y : Byte) :
    x &&& ~~~(0xff#8 >>> n) = y &&& ~~~(0xff#8 >>> n) ↔
      ∀ i < n, x.getMsbD i = y.getMsbD i := by
  constructor
  · intro h i hi
    have hbit := congrArg (fun b : Byte => b.getMsbD i) h
    simp only [BitVec.getMsbD_and, getMsbD_maskByte hn (Nat.lt_trans hi hn)] at hbit
    simpa [hi] using hbit
  · intro h
    refine BitVec.eq_of_getMsbD_eq fun i hi => ?_
    rw [BitVec.getMsbD_and, BitVec.getMsbD_and, getMsbD_maskByte hn hi]
    by_cases hin : i < n
    · rw [h i hin]
    · simp [hin]

lemma byte_eq_iff (x y : Byte) : x = y ↔ ∀ i < 8, x.getMsbD i = y.getMsbD i :=
  ⟨fun h i _ => by rw [h], fun h => BitVec.eq_of_getMsbD_eq fun i hi => h i hi⟩

/-- Under the mask of a CIDR network, addresses are compared by their leading bits. -/
lemma masked_eq_iff {a b : List Byte} (hlen : a.length = b.length) {n : ℕ}
    (hn : n ≤ 8 * a.length) :
    List.zipWith (· &&& ·) a (cidrMask a.length n) =
        List.zipWith (· &&& ·) b (cidrMask a.length n) ↔
      ∀ i < n, bitAt a i = bitAt b i := by
  induction a generalizing b n with
  | nil =>
    obtain rfl : n = 0 := by simpa using hn
    have hb : b = [] := List.length_eq_zero_iff.mp hlen.symm
    simp [hb]
  | cons x a ih =>
    obtain ⟨y, b, rfl⟩ : ∃ y b', b = y :: b' := List.exists_cons_of_length_eq_add_one hlen.symm
    have hlen' : a.length = b.length := by simpa using hlen
    simp only [List.length_cons] at hn ⊢
    rw [cidrMask]
    split
    · rename_i h8
      simp only [List.zipWith_cons_cons, List.cons.injEq]
      rw [ih hlen' (by omega)]
      have hff : ∀ z : Byte, z &&& 0xff = z := fun z => BitVec.and_allOnes
      rw [hff, hff, byte_eq_iff]
      constructor
      · rintro ⟨hx, hrest⟩ i hi
        simp only [bitAt]
        split
        · exact hx i ‹_›
        · exact hrest (i - 8) (by omega)
      · intro h
        refine ⟨fun i hi => ?_, fun i hi => ?_⟩
        · simpa [bitAt, hi] using h i (by omega)
        · simpa [bitAt, show ¬i + 8 < 8 by omega] using h (i + 8) (by omega)
    · rename_i h8
      simp only [List.zipWith_cons_cons, List.cons.injEq]
      rw [ih hlen' (Nat.zero_le _), maskByte_eq_iff (by omega)]
      constructor
      · rintro ⟨hx, -⟩ i hi
        simpa [bitAt, show i < 8 by omega] using hx i hi
      · intro h
        exact ⟨fun i hi => by simpa [bitAt, show i < 8 by omega] using h i hi,
          fun i hi => absurd hi (by omega)⟩

lemma zipWith_and_idem (a m : List Byte) :
    List.zipWith (· &&& ·) (List.zipWith (· &&& ·) a m) m = List.zipWith (· &&& ·) a m := by
  induction a generalizing m with
  | nil => rfl
  | cons x a ih =>
    cases m with
    | nil => rfl
    | cons y m => simp [ih, BitVec.and_assoc]

lemma bits_append_iff (p a b : List Byte) (n : ℕ) :
    (∀ i < 8 * p.length + n, bitAt (p ++ a) i = bitAt (p ++ b) i) ↔
      ∀ i < n, bitAt a i = bitAt b i := by
  constructor
  · intro h i hi
    simpa only [bitAt_append_right] using h (8 * p.length + i) (by omega)
  · intro h i hi
    by_cases hp : i < 8 * p.length
    · rw [bitAt_append_left a hp, bitAt_append_left b hp]
    · obtain ⟨j, rfl⟩ := Nat.exists_eq_add_of_le (Nat.le_of_not_lt hp)
      rw [bitAt_append_right, bitAt_append_right]
      exact h j (by omega)

/-- A CIDR network as it is written, `base/ones`. -/
structure Network where
  base : IP
  ones : ℕ
  length : base.length = 4 ∨ base.length = 16
  bound : ones ≤ 8 * base.length

namespace Network

variable {n : Network} {ip : IP}

def toIPNet (n : Network) : IPNet :=
  ⟨List.zipWith (· &&& ·) n.base (cidrMask n.base.length n.ones), cidrMask n.base.length n.ones⟩

/-- The addresses of a network: those of its family that begin with the same bits.  An IPv6
address that stands for an IPv4 address counts as one. -/
def Has (n : Network) (ip : IP) : Prop :=
  ((to4 n.toIPNet.ip).isSome ↔ (to4 ip).isSome) ∧
    ∀ i < 8 * (16 - n.base.length) + n.ones, bitAt (as16 n.base) i = bitAt (as16 ip) i

lemma to4_some {ip4 : IP} (h : to4 ip = some ip4) :
    ip4.length = 4 ∧ as16 ip = v4InV6Prefix ++ ip4 := by
  unfold to4 at h
  split at h
  · cases h
    exact ⟨‹_›, if_pos ‹_›⟩
  · split at h
    · rename_i h4 h16
      cases h
      refine ⟨by simp [h16.1], ?_⟩
      rw [as16, if_neg h4, ← h16.2, List.take_append_drop]
    · cases h

lemma to4_none (hlen : ip.length = 4 ∨ ip.length = 16) (h : to4 ip = none) :
    ip.length = 16 ∧ as16 ip = ip := by
  unfold to4 at h
  split at h
  · cases h
  · exact ⟨hlen.resolve_left ‹_›, if_neg ‹_›⟩

lemma length_toIPNet (n : Network) :
    n.toIPNet.ip.length = n.base.length ∧ n.toIPNet.mask.length = n.base.length := by
  simp [toIPNet, length_cidrMask]

lemma contains_eq_true (net : IPNet) (ip : IP) :
    net.contains ip = true ↔
      let nn := (to4 net.ip).getD net.ip
      let m := if nn.length = 4 ∧ net.mask.length = 16 then net.mask.drop 12 else net.mask
      (nn.length = 4 ∨ nn.length = 16) ∧ nn.length = m.length ∧
        ((to4 ip).getD ip).length = nn.length ∧
        List.zipWith (· &&& ·) nn m = List.zipWith (· &&& ·) ((to4 ip).getD ip) m := by
  simp only [IPNet.contains, Bool.and_eq_true, Bool.or_eq_true, decide_eq_true_eq, beq_iff_eq,
    and_assoc]

/-- The masked comparison of `Contains`, over all sixteen bytes. -/
lemma masked_tail_iff {y x m : List Byte} (hm : m.length = 16) :
    List.zipWith (· &&& ·) y (m.drop 12) = List.zipWith (· &&& ·) x (m.drop 12) ↔
      List.zipWith (· &&& ·) (v4InV6Prefix ++ y) m =
        List.zipWith (· &&& ·) (v4InV6Prefix ++ x) m := by
  have hlen : v4InV6Prefix.length = (m.take 12).length := by simp [v4InV6Prefix, hm]
  have hsplit : ∀ z : List Byte, List.zipWith (· &&& ·) (v4InV6Prefix ++ z) m =
      List.zipWith (· &&& ·) v4InV6Prefix (m.take 12) ++ List.zipWith (· &&& ·) z (m.drop 12) := by
    intro z
    rw [← List.zipWith_append hlen, List.take_append_drop]
  rw [hsplit, hsplit, List.append_right_inj]

/-- **`Contains`** holds of the addresses of the network. -/
theorem contains_iff (hip : ip.length = 4 ∨ ip.length = 16) :
    n.toIPNet.contains ip = true ↔ n.Has ip := by
  obtain ⟨hN, hm⟩ := n.length_toIPNet
  have hbits : ∀ b : IP, b.length = n.base.length →
      (List.zipWith (· &&& ·) n.toIPNet.ip n.toIPNet.mask =
        List.zipWith (· &&& ·) b n.toIPNet.mask ↔ ∀ i < n.ones, bitAt n.base i = bitAt b i) := by
    intro b hb
    rw [← masked_eq_iff hb.symm n.bound, toIPNet, zipWith_and_idem]
  rw [contains_eq_true, Has]
  cases hy : to4 n.toIPNet.ip with
  | none =>
    obtain ⟨h16, -⟩ := to4_none (by rw [hN]; exact n.length) hy
    have hbase : n.base.length = 16 := hN ▸ h16
    cases hx : to4 ip with
    | none =>
      obtain ⟨hip16, has⟩ := to4_none hip hx
      have hbase16 : as16 n.base = n.base := if_neg (by omega)
      simp [hN, hm, hbase, hip16, has, hbase16, ← hbits ip (by omega)]
    | some x =>
      have hx4 := (to4_some hx).1
      simp [hN, hbase, hx4]
  | some y =>
    obtain ⟨hy4, hyas⟩ := to4_some hy
    cases hx : to4 ip with
    | none =>
      obtain ⟨hip16, -⟩ := to4_none hip hx
      simp [hy4, hip16]
    | some x =>
      obtain ⟨hx4, has⟩ := to4_some hx
      rcases n.length with h4 | h16
      · -- an IPv4 network
        have hyN : y = n.toIPNet.ip := by
          rw [to4, if_pos (hN.trans h4)] at hy
          exact (Option.some.inj hy).symm
        have hlead : 8 * (16 - n.base.length) + n.ones = 8 * v4InV6Prefix.length + n.ones := by
          rw [h4]
          rfl
        have hbase16 : as16 n.base = v4InV6Prefix ++ n.base := if_pos h4
        rw [hlead, hbase16, has, bits_append_iff, ← hbits x (by omega), ← hyN]
        simp [hy4, hx4, hm, h4]
      · -- an IPv6 network inside the range of the IPv4 addresses
        have hNas : n.toIPNet.ip = v4InV6Prefix ++ y := by rw [← hyas, as16, if_neg (by omega)]
        have hlead : 8 * (16 - n.base.length) + n.ones = n.ones := by omega
        have hbase16 : as16 n.base = n.base := if_neg (by omega)
        have hx16 : (as16 ip).length = n.base.length := by simp [has, hx4, h16, v4InV6Prefix]
        rw [hlead, hbase16, ← hbits (as16 ip) hx16, hNas, has,
          ← masked_tail_iff (hm.trans h16)]
        simp [hy4, hx4, hm, h16]

end Network

/-! ## Host and port -/

/-- `net.SplitHostPort`. -/
def splitHostPort (hostport : Text) : Option (Text × Text) :=
  -- what stands after the last colon, and before it
  let port := (hostport.reverse.takeWhile (· ≠ ':')).reverse
  match hostport.reverse.dropWhile (· ≠ ':') with
  | [] => none
  | _ :: before =>
      match hostport with
      | '[' :: rest =>
          -- the first closing bracket stands right before the last colon
          let host := rest.takeWhile (· ≠ ']')
          if rest.dropWhile (· ≠ ']') = ']' :: ':' :: port ∧ '[' ∉ rest ∧ ']' ∉ port then
            some (host, port)
          else none
      | _ =>
          let host := before.reverse
          if ':' ∈ host ∨ '[' ∈ hostport ∨ ']' ∈ hostport then none else some (host, port)

end Pgman.Net
