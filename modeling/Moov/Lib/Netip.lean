import Mathlib.Data.List.Basic

/-!
# Network addresses

The parts of Go's `net/netip` and `net` that decide where a connection goes.

* `Addr` — an address, with the zone that an IPv6 address may have;
* `parseAddr`, `splitHostPort`, `joinHostPort` — the spellings;
* `Prefix.covers` — the addresses of a range, whatever their zone, against `Prefix.contains`, which
  no address with a zone passes;
* `isLoopback_eq`, `isPrivate_eq`, … — what the predicates of `Addr` say, as ranges.
-/

namespace Moov.Netip

/-! ## Addresses -/

/-- `netip.Addr`. -/
inductive Addr
  | invalid
  | v4 (bits : BitVec 32)
  | v6 (bits : BitVec 128) (zone : List Char)
deriving DecidableEq

/-- The address is in `::ffff:0:0/96`. -/
def mapped (bits : BitVec 128) : Bool := bits >>> 32 = 0xffff#128

/-- `Addr.Unmap`; the zone goes with the prefix. -/
def Addr.unmap : Addr → Addr
  | .v6 bits zone => if mapped bits then .v4 (bits.extractLsb' 0 32) else .v6 bits zone
  | a => a

def Addr.isValid : Addr → Bool
  | .invalid => false
  | _ => true

def Addr.hasZone : Addr → Bool
  | .v6 _ zone => !zone.isEmpty
  | _ => false

/-- `Addr.v4`, of an IPv4 address. -/
def octet (bits : BitVec 32) (i : Nat) : BitVec 8 := bits.extractLsb' (24 - 8 * i) 8

/-- The first of the segments that `Addr.v6u16` returns. -/
def segment (bits : BitVec 128) : BitVec 16 := bits.extractLsb' 112 16

/-- `Addr.IsLoopback`, of an address that is not mapped. -/
def Addr.isLoopback : Addr → Bool
  | .v4 b => octet b 0 = 127#8
  | .v6 b _ => b = 1#128
  | .invalid => false

/-- `Addr.IsPrivate`. -/
def Addr.isPrivate : Addr → Bool
  | .v4 b =>
      octet b 0 = 10#8 || (octet b 0 = 172#8 && octet b 1 &&& 0xf0#8 = 16#8) ||
        (octet b 0 = 192#8 && octet b 1 = 168#8)
  | .v6 b _ => b.extractLsb' 120 8 &&& 0xfe#8 = 0xfc#8
  | .invalid => false

/-- `Addr.IsLinkLocalUnicast`. -/
def Addr.isLinkLocalUnicast : Addr → Bool
  | .v4 b => octet b 0 = 169#8 && octet b 1 = 254#8
  | .v6 b _ => segment b &&& 0xffc0#16 = 0xfe80#16
  | .invalid => false

/-- `Addr.IsLinkLocalMulticast`. -/
def Addr.isLinkLocalMulticast : Addr → Bool
  | .v4 b => octet b 0 = 224#8 && octet b 1 = 0#8 && octet b 2 = 0#8
  | .v6 b _ => segment b &&& 0xff0f#16 = 0xff02#16
  | .invalid => false

/-- `Addr.IsInterfaceLocalMulticast`. -/
def Addr.isInterfaceLocalMulticast : Addr → Bool
  | .v6 b _ => segment b &&& 0xff0f#16 = 0xff01#16
  | _ => false

/-- `Addr.IsMulticast`. -/
def Addr.isMulticast : Addr → Bool
  | .v4 b => octet b 0 &&& 0xf0#8 = 0xe0#8
  | .v6 b _ => b.extractLsb' 120 8 = 0xff#8
  | .invalid => false

/-- `Addr.IsUnspecified`: a comparison of whole values, the zone included. -/
def Addr.isUnspecified (a : Addr) : Bool := a = .v4 0#32 || a = .v6 0#128 []

/-! ## Ranges -/

/-- `netip.Prefix`. -/
inductive Prefix
  | v4 (bits : BitVec 32) (len : Nat)
  | v6 (bits : BitVec 128) (len : Nat)
deriving DecidableEq

/-- The address is in the range, whatever its zone. -/
def Prefix.covers : Prefix → Addr → Bool
  | .v4 p n, .v4 b => b >>> (32 - n) = p >>> (32 - n)
  | .v6 p n, .v6 b _ => b >>> (128 - n) = p >>> (128 - n)
  | _, _ => false

/-- `Prefix.Contains`: false of an address with a zone. -/
def Prefix.contains (p : Prefix) (a : Addr) : Bool := !a.hasZone && p.covers a

def octets (a b c d : Nat) : BitVec 32 := BitVec.ofNat 32 (((a * 256 + b) * 256 + c) * 256 + d)

def loopback : List Prefix := [.v4 (octets 127 0 0 0) 8, .v6 1#128 128]

/-- RFC 1918 and RFC 4193. -/
def privateUse : List Prefix :=
  [.v4 (octets 10 0 0 0) 8, .v4 (octets 172 16 0 0) 12, .v4 (octets 192 168 0 0) 16,
    .v6 0xfc000000000000000000000000000000#128 7]

def linkLocal : List Prefix :=
  [.v4 (octets 169 254 0 0) 16, .v6 0xfe800000000000000000000000000000#128 10]

def unspecified : List Prefix := [.v4 (octets 0 0 0 0) 32, .v6 0#128 128]

def multicast : List Prefix :=
  [.v4 (octets 224 0 0 0) 4, .v6 0xff000000000000000000000000000000#128 8]

/-- Two words agree under a mask if they agree in the bits that it keeps. -/
lemma and_mask_eq_iff {w : Nat} (x p : BitVec w) (n : Nat) :
    x &&& (BitVec.allOnes w <<< n) = p &&& (BitVec.allOnes w <<< n) ↔ x >>> n = p >>> n := by
  constructor
  · intro h
    ext i hi
    have hbit := congrArg (fun y => y.getLsbD (n + i)) h
    have hkept : ¬ n + i < n := by omega
    by_cases hn : n + i < w
    · simpa [hn, hkept] using hbit
    · simp [BitVec.getLsbD_of_ge, Nat.le_of_not_lt hn]
  · intro h
    ext i hi
    by_cases hn : i < n
    · simp [hn]
    · have hbit := congrArg (fun y => y.getLsbD (i - n)) h
      simp only [BitVec.getLsbD_ushiftRight, Nat.add_sub_cancel' (Nat.le_of_not_lt hn)] at hbit
      simpa [hi, hn] using hbit

open BitVec (toNat_eq extractLsb'_toNat toNat_ushiftRight)

open Addr

variable (a : Addr)

theorem isLoopback_eq : a.isLoopback = loopback.any fun p => p.covers a := by
  cases a with
  | invalid => rfl
  | v4 b =>
    have h : octet b 0 = 127#8 ↔ b >>> 24 = octets 127 0 0 0 >>> 24 := by
      simp only [octet, octets, toNat_eq, extractLsb'_toNat]
      bv_omega
    simp [isLoopback, loopback, Prefix.covers, h]
  | v6 => simp [isLoopback, loopback, Prefix.covers]

theorem isPrivate_eq : a.isPrivate = privateUse.any fun p => p.covers a := by
  cases a with
  | invalid => rfl
  | v4 b =>
    have hten : octet b 0 = 10#8 ↔ b >>> 24 = octets 10 0 0 0 >>> 24 := by
      simp only [octet, octets, toNat_eq, extractLsb'_toNat]
      bv_omega
    have hmask : ∀ x : BitVec 8, x &&& 0xf0#8 = 16#8 ↔ x.toNat / 16 = 1 := by decide
    have hclassB : (octet b 0 = 172#8 ∧ octet b 1 &&& 0xf0#8 = 16#8) ↔ b >>> 20 =
      octets 172 16 0 0 >>> 20 := by
      simp only [hmask, octet, octets, toNat_eq, extractLsb'_toNat]
      bv_omega
    have hclassC : (octet b 0 = 192#8 ∧ octet b 1 = 168#8) ↔ b >>> 16 =
      octets 192 168 0 0 >>> 16 := by
      simp only [octet, octets, toNat_eq, extractLsb'_toNat]
      bv_omega
    simp [isPrivate, privateUse, Prefix.covers, hten, ← hclassB, ← hclassC, Bool.or_assoc]
  | v6 b =>
    have hmask : ∀ x : BitVec 8, x &&& 0xfe#8 = 0xfc#8 ↔ x.toNat / 2 = 126 := by decide
    have h : b.extractLsb' 120 8 &&& 0xfe#8 = 0xfc#8 ↔ b >>> 121 =
      0xfc000000000000000000000000000000#128 >>> 121 := by
      simp only [hmask, toNat_eq, extractLsb'_toNat]
      bv_omega
    simp [isPrivate, privateUse, Prefix.covers, h]

lemma isLinkLocalUnicast_eq : a.isLinkLocalUnicast = linkLocal.any fun p => p.covers a := by
  cases a with
  | invalid => rfl
  | v4 b =>
    have h : (octet b 0 = 169#8 ∧ octet b 1 = 254#8) ↔ b >>> 16 = octets 169 254 0 0 >>> 16 := by
      simp only [octet, octets, toNat_eq, extractLsb'_toNat]
      bv_omega
    simp [isLinkLocalUnicast, linkLocal, Prefix.covers, ← h]
  | v6 b =>
    have hmask : segment b &&& 0xffc0#16 = 0xfe80#16 ↔ segment b >>> 6 = 0xfe80#16 >>> 6 :=
      and_mask_eq_iff _ 0xfe80#16 6
    have h : segment b &&& 0xffc0#16 = 0xfe80#16 ↔ b >>> 118 =
      0xfe800000000000000000000000000000#128 >>> 118 := by
      rw [hmask]
      simp only [segment, toNat_eq, extractLsb'_toNat, toNat_ushiftRight]
      bv_omega
    simp [isLinkLocalUnicast, linkLocal, Prefix.covers, h]

lemma isMulticast_eq : a.isMulticast = multicast.any fun p => p.covers a := by
  cases a with
  | invalid => rfl
  | v4 b =>
    have hmask : ∀ x : BitVec 8, x &&& 0xf0#8 = 0xe0#8 ↔ x.toNat / 16 = 14 := by decide
    have h : octet b 0 &&& 0xf0#8 = 0xe0#8 ↔ b >>> 28 = octets 224 0 0 0 >>> 28 := by
      simp only [hmask, octet, octets, toNat_eq, extractLsb'_toNat]
      bv_omega
    simp [isMulticast, multicast, Prefix.covers, h]
  | v6 b =>
    have h : b.extractLsb' 120 8 = 0xff#8 ↔ b >>> 120 =
      0xff000000000000000000000000000000#128 >>> 120 := by
      simp only [toNat_eq, extractLsb'_toNat]
      bv_omega
    simp [isMulticast, multicast, Prefix.covers, h]

/-- The narrower multicast predicates are covered by the wide one. -/
lemma isMulticast_of_scoped (h : (a.isLinkLocalMulticast || a.isInterfaceLocalMulticast) = true) :
    a.isMulticast = true := by
  cases a with
  | invalid => simp [isLinkLocalMulticast, isInterfaceLocalMulticast] at h
  | v4 b =>
    have hb : (octet b 0 = 224#8 ∧ octet b 1 = 0#8) ∧ octet b 2 = 0#8 := by
      simpa [isLinkLocalMulticast, isInterfaceLocalMulticast] using h
    simp [isMulticast, hb.1.1]
  | v6 b =>
    -- both values begin with the octet of the mask
    have hshift : ∀ x c : BitVec 16, x &&& 0xff0f#16 = c → x >>> 8 = c >>> 8 := by
      rintro x c rfl
      ext i hi
      by_cases hi' : i < 8
      · have : i = 0 ∨ i = 1 ∨ i = 2 ∨ i = 3 ∨ i = 4 ∨ i = 5 ∨ i = 6 ∨ i = 7 := by omega
        rcases this with rfl | rfl | rfl | rfl | rfl | rfl | rfl | rfl <;> simp
      · simp [BitVec.getLsbD_of_ge x (8 + i) (by omega)]
    have hfirst : segment b >>> 8 = 0xff#16 := by
      have hb : segment b &&& 0xff0f#16 = 0xff02#16 ∨ segment b &&& 0xff0f#16 = 0xff01#16 := by
        simpa [isLinkLocalMulticast, isInterfaceLocalMulticast] using h
      rcases hb with hb | hb
      · exact hshift _ _ hb
      · exact hshift _ _ hb
    simp only [isMulticast, decide_eq_true_eq]
    simp only [segment, toNat_eq, extractLsb'_toNat, toNat_ushiftRight] at hfirst ⊢
    bv_omega

/-- An unspecified address with a zone does not pass for one. -/
lemma isUnspecified_eq : a.isUnspecified = (!a.hasZone && unspecified.any fun p => p.covers a) := by
  cases a with
  | invalid => rfl
  | v4 => simp [isUnspecified, hasZone, unspecified, Prefix.covers, octets]
  | v6 b zone =>
    cases zone with
    | nil => simp [isUnspecified, hasZone, unspecified, Prefix.covers]
    | cons => simp [isUnspecified, hasZone]

/-! ## Spellings -/

/-- `parseIPv4Fields`: the number and the digits of the field that is being read, and the fields
before it. -/
def parseIPv4Fields : List Char → (val digLen : Nat) → List Nat → Option (List Nat)
  | [], val, _, fields => if fields.length < 3 then none else some (fields ++ [val])
  | c :: cs, val, digLen, fields =>
      if c.isDigit then
        if digLen = 1 ∧ val = 0 then none
        else if 255 < val * 10 + (c.toNat - 48) then none
        else parseIPv4Fields cs (val * 10 + (c.toNat - 48)) (digLen + 1) fields
      else if c = '.' then
        if digLen = 0 ∨ cs = [] then none
        else if fields.length = 3 then none
        else parseIPv4Fields cs 0 0 (fields ++ [val])
      else none

def isHex (c : Char) : Bool := c.isDigit || ('a' ≤ c && c ≤ 'f') || ('A' ≤ c && c ≤ 'F')

def hexValue (c : Char) : Nat :=
  if c.isDigit then c.toNat - 48 else if 'a' ≤ c then c.toNat - 87 else c.toNat - 55

/-- The two octets of a hexadecimal group. -/
def groupOctets (digits : List Char) : List Nat :=
  let n := digits.foldl (fun acc c => acc * 16 + hexValue c) 0
  [n / 256, n % 256]

/-- The loop of `parseIPv6`, with room for so many groups: what is left of the text, the octets
and the place of the `::`. -/
def parseGroups : (room : Nat) → List Char → (ip : List Nat) → (ellipsis : Option Nat) →
    Option (List Char × List Nat × Option Nat)
  | 0, s, ip, ellipsis => some (s, ip, ellipsis)
  | room + 1, s, ip, ellipsis =>
      let digits := s.takeWhile isHex
      if digits = [] ∨ 4 < digits.length then none
      else
        let next := ip ++ groupOctets digits
        match s.drop digits.length with
        | [] => some ([], next, ellipsis)
        | '.' :: _ =>
            if (ellipsis = none ∧ ip.length ≠ 12) ∨ 16 < ip.length + 4 then none
            else (parseIPv4Fields s 0 0 []).map fun fields => ([], ip ++ fields, ellipsis)
        | [':'] => none
        | [':', ':'] => if ellipsis.isSome then none else some ([], next, some next.length)
        | ':' :: ':' :: more =>
            if ellipsis.isSome then none else parseGroups room more next (some next.length)
        | ':' :: more => parseGroups room more next ellipsis
        | _ => none

def ofOctets (ip : List Nat) : BitVec 128 :=
  BitVec.ofNat 128 (ip.foldl (fun acc n => acc * 256 + n) 0)

/-- The octets, with the `::` written out. -/
def expand (ip : List Nat) : Option Nat → Option (List Nat)
  | none => if ip.length < 16 then none else some ip
  | some at_ =>
      if ip.length < 16 then some (ip.take at_ ++ List.replicate (16 - ip.length) 0 ++ ip.drop at_)
        else none

/-- `parseIPv6`. -/
def parseIPv6 (text : List Char) : Option Addr :=
  let s := text.takeWhile (· ≠ '%')
  let zone := (text.drop s.length).drop 1
  if s.length < text.length ∧ zone = [] then none
  else
    let leading := [':', ':'].isPrefixOf s
    if s = [':', ':'] then some (.v6 0#128 zone)
    else
      match parseGroups 8 (if leading then s.drop 2 else s) []
        (if leading then some 0 else none) with
      | some ([], ip, ellipsis) => (expand ip ellipsis).map fun ip => .v6 (ofOctets ip) zone
      | _ => none

/-- `netip.ParseAddr`: the first of `.`, `:` and `%` decides. -/
def parseAddr (s : List Char) : Option Addr :=
  match s.find? fun c => c = '.' || c = ':' || c = '%' with
  | some '.' =>
      match parseIPv4Fields s 0 0 [] with
      | some [a, b, c, d] => some (.v4 (octets a b c d))
      | _ => none
  | some ':' => parseIPv6 s
  | _ => none

/-- A text, up to the last colon and after it. -/
def cutLastColon (s : List Char) : Option (List Char × List Char) :=
  let tail := (s.reverse.takeWhile (· ≠ ':')).reverse
  if tail.length = s.length then none else some (s.take (s.length - tail.length - 1), tail)

/-- `net.SplitHostPort`. -/
def splitHostPort (hostport : List Char) : Option (List Char × List Char) :=
  match cutLastColon hostport with
  | none => none
  | some (before, port) =>
      match before with
      | '[' :: inner =>
          -- the first ']' is the last character before the colon
          if inner.takeWhile (· ≠ ']') ++ [']'] ≠ inner then none
          else
            let host := inner.takeWhile (· ≠ ']')
            if (host ++ port).any (· = '[') || port.any (· = ']') then none else some (host, port)
      | _ =>
          if before.any (· = ':') then none
          else if (before ++ port).any fun c => c = '[' || c = ']' then none
          else some (before, port)

/-- `net.JoinHostPort`. -/
def joinHostPort (host port : List Char) : List Char :=
  if host.any (· = ':') then ['['] ++ host ++ [']', ':'] ++ port else host ++ [':'] ++ port

end Moov.Netip
