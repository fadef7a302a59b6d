import Mathlib.Data.List.TakeWhile
import Moov.Lib.Decimal
import Moov.Lib.Search

/-!
# JSON

Go's `encoding/json`, as far as a value is a tree: what `Marshal` writes, and what `Unmarshal` reads
before it looks at types.

* `Value` — values; the members of an object in their order, and a number as its literal;
* `pieces` — the text of a value, for any way to escape strings;
* `parse` — the reader;
* `guardStars` — `*/` written as `*\/`, so that a text can stand in a comment;
* `parse_flat`, `guardStars_pieces` — what is written is read back, also in a comment;
* `written_pieces`, `apart_pieces` — where a marker can be found in the text of a value.
-/

namespace Moov.Json

open List Option

open Search (Piece flat flat_fixed flat_append written written_append inert_of_notMem)

/-! ## Values -/

/-- The characters of a number. -/
def numChar (c : Char) : Bool := c.isDigit || c = '-' || c = '+' || c = '.' || c = 'e' || c = 'E'

/-- The exponent of a number, or nothing. -/
def isExponent : List Char → Bool
  | [] => true
  | c :: r =>
      let digits := match r with
        | '+' :: r | '-' :: r => r
        | r => r
      (c = 'e' || c = 'E') && !digits.isEmpty && digits.all Char.isDigit

/-- What may follow the integer part of a number. -/
def isFraction : List Char → Bool
  | '.' :: r => !(r.takeWhile Char.isDigit).isEmpty && isExponent (r.dropWhile Char.isDigit)
  | r => isExponent r

/-- An integer part without a leading zero. -/
def isNatural (digits : List Char) : Bool :=
  !digits.isEmpty && (digits = ['0'] || digits.head? ≠ some '0')

/-- A literal that is a number. -/
def isNumber (lit : List Char) : Bool :=
  let r := match lit with
    | '-' :: r => r
    | r => r
  isNatural (r.takeWhile Char.isDigit) && isFraction (r.dropWhile Char.isDigit)

structure Number where
  lit : List Char
  chars : lit.all numChar = true
  valid : isNumber lit = true
deriving DecidableEq

inductive Value
  | null
  | bool (b : Bool)
  | num (n : Number)
  | str (s : List Char)
  | arr (xs : List Value)
  | obj (members : List (List Char × Value))

/-! ## Writing -/

def hexDigit (n : Nat) : Char := if n < 10 then Char.ofNat (48 + n) else Char.ofNat (87 + n)

/-- A character in a string, as `Marshal` escapes it. -/
def escapeChar (c : Char) : List Char :=
  if c = '"' then ['\\', '"']
  else if c = '\\' then ['\\', '\\']
  else if c = '\x08' then ['\\', 'b']
  else if c = '\x0c' then ['\\', 'f']
  else if c = '\n' then ['\\', 'n']
  else if c = '\r' then ['\\', 'r']
  else if c = '\t' then ['\\', 't']
  else if c.toNat < 0x20 ∨ c = '<' ∨ c = '>' ∨ c = '&' ∨ c.toNat = 0x2028 ∨ c.toNat = 0x2029 then
    ['\\', 'u', hexDigit (c.toNat / 4096 % 16), hexDigit (c.toNat / 256 % 16),
      hexDigit (c.toNat / 16 % 16), hexDigit (c.toNat % 16)]
  else [c]

def escape (s : List Char) : List Char := s.flatMap escapeChar

section

variable (esc : List Char → List Char)

mutual

/-- The text of a value. -/
def pieces : Value → List (Piece Char)
  | .null => [.fixed "null".toList]
  | .bool b => [.fixed (if b then "true".toList else "false".toList)]
  | .num n => [.fixed n.lit]
  | .str s => [.fixed ['"'], .written (esc s) ['"']]
  | .arr [] => [.fixed ['[', ']']]
  | .arr (x :: xs) => .fixed ['['] :: (pieces x ++ piecesItems xs)
  | .obj [] => [.fixed ['\x7b', '\x7d']]
  | .obj ((k, v) :: ms) =>
      .fixed (['\x7b', '"'] ++ esc k ++ ['"', ':']) :: (pieces v ++ piecesMembers ms)

/-- The items of an array after the first. -/
def piecesItems : List Value → List (Piece Char)
  | [] => [.fixed [']']]
  | x :: xs => .fixed [','] :: (pieces x ++ piecesItems xs)

/-- The members of an object after the first. -/
def piecesMembers : List (List Char × Value) → List (Piece Char)
  | [] => [.fixed ['\x7d']]
  | (k, v) :: ms => .fixed ([',', '"'] ++ esc k ++ ['"', ':']) :: (pieces v ++ piecesMembers ms)

end

end

/-! ## Reading -/

def skipSpace (s : List Char) : List Char :=
  s.dropWhile fun c => c = ' ' || c = '\t' || c = '\n' || c = '\r'

def hexValue (c : Char) : Option Nat :=
  if '0' ≤ c ∧ c ≤ '9' then some (c.toNat - 48)
  else if 'a' ≤ c ∧ c ≤ 'f' then some (c.toNat - 87)
  else if 'A' ≤ c ∧ c ≤ 'F' then some (c.toNat - 55)
  else none

def hex4 (a b c d : Char) : Option Nat :=
  match hexValue a, hexValue b, hexValue c, hexValue d with
  | some a, some b, some c, some d => some (a * 4096 + b * 256 + c * 16 + d)
  | _, _, _, _ => none

/-- A pair of surrogates. -/
def surrogates (u v : Nat) : Option Char :=
  if 0xD800 ≤ u ∧ u < 0xDC00 ∧ 0xDC00 ≤ v ∧ v < 0xE000 then
    some (Char.ofNat ((u - 0xD800) * 0x400 + (v - 0xDC00) + 0x10000))
  else none

/-- The character of a short escape. -/
def shortEscape (c : Char) : Option Char :=
  if c = '"' ∨ c = '\\' ∨ c = '/' then some c
  else if c = 'b' then some '\x08'
  else if c = 'f' then some '\x0c'
  else if c = 'n' then some '\n'
  else if c = 'r' then some '\r'
  else if c = 't' then some '\t'
  else none

/-- The escape at a place, after its backslash: its character, or two units of which the second may
be read with the first, and what follows. -/
def readEscape : List Char → Option (Char × List Char)
  | 'u' :: a :: b :: c :: d :: r =>
      match hex4 a b c d with
      | none => none
      | some u =>
          if u < 0xD800 ∨ 0xE000 ≤ u then some (Char.ofNat u, r)
          else
            match r with
            | '\\' :: 'u' :: a' :: b' :: c' :: d' :: r' =>
                match (hex4 a' b' c' d').bind fun v => surrogates u v with
                | some ch => some (ch, r')
                | none => some (Char.ofNat 0xFFFD, r)
            | _ => some (Char.ofNat 0xFFFD, r)
  | c :: r => (shortEscape c).map fun ch => (ch, r)
  | [] => none

/-- A string, after its opening quote, with a bound on its length. -/
def parseStr : (fuel : Nat) → List Char → Option (List Char × List Char)
  | 0, _ => none
  | fuel + 1, s =>
      match s with
      | [] => none
      | c :: r =>
          if c = '"' then some ([], r)
          else if c = '\\' then
            (readEscape r).bind fun e => (parseStr fuel e.2).map fun p => (e.1 :: p.1, p.2)
          else if c.toNat < 0x20 then none
          else (parseStr fuel r).map fun p => (c :: p.1, p.2)

/-- A number. -/
def parseNumber (s : List Char) : Option (Value × List Char) :=
  let lit := s.takeWhile numChar
  if h : lit.all numChar = true ∧ isNumber lit = true then
    some (.num ⟨lit, h.1, h.2⟩, s.dropWhile numChar)
  else none

/-- A word. -/
def parseWord (word : List Char) (value : Value) (s : List Char) : Option (Value × List Char) :=
  if word.isPrefixOf s then some (value, s.drop word.length) else none

mutual

def parseValue : (fuel : Nat) → List Char → Option (Value × List Char)
  | 0, _ => none
  | fuel + 1, s =>
      match skipSpace s with
      | '"' :: r => (parseStr (r.length + 1) r).map fun p => (.str p.1, p.2)
      | '[' :: r =>
          match skipSpace r with
          | ']' :: r' => some (.arr [], r')
          | _ => (parseValue fuel r).bind fun p => (parseItems fuel p.2).map fun q =>
              (.arr (p.1 :: q.1), q.2)
      | '\x7b' :: r =>
          match skipSpace r with
          | '\x7d' :: r' => some (.obj [], r')
          | _ => (parseMember fuel r).bind fun p => (parseMembers fuel p.2).map fun q =>
              (.obj (p.1 :: q.1), q.2)
      | 'n' :: r => parseWord "null".toList .null ('n' :: r)
      | 't' :: r => parseWord "true".toList (.bool true) ('t' :: r)
      | 'f' :: r => parseWord "false".toList (.bool false) ('f' :: r)
      | r => parseNumber r

/-- A key and its value. -/
def parseMember : (fuel : Nat) → List Char → Option ((List Char × Value) × List Char)
  | 0, _ => none
  | fuel + 1, s =>
      match skipSpace s with
      | '"' :: r =>
          (parseStr (r.length + 1) r).bind fun k =>
            match skipSpace k.2 with
            | ':' :: r' => (parseValue fuel r').map fun v => ((k.1, v.1), v.2)
            | _ => none
      | _ => none

def parseItems : (fuel : Nat) → List Char → Option (List Value × List Char)
  | 0, _ => none
  | fuel + 1, s =>
      match skipSpace s with
      | ']' :: r => some ([], r)
      | ',' :: r => (parseValue fuel r).bind fun p => (parseItems fuel p.2).map fun q =>
          (p.1 :: q.1, q.2)
      | _ => none

def parseMembers : (fuel : Nat) → List Char → Option (List (List Char × Value) × List Char)
  | 0, _ => none
  | fuel + 1, s =>
      match skipSpace s with
      | '\x7d' :: r => some ([], r)
      | ',' :: r => (parseMember fuel r).bind fun p => (parseMembers fuel p.2).map fun q =>
          (p.1 :: q.1, q.2)
      | _ => none

end

/-- A text that is one value. -/
def parse (s : List Char) : Option Value :=
  match parseValue (2 * s.length + 2) s with
  | some (v, r) => if (skipSpace r).isEmpty then some v else none
  | none => none

/-! ## Strings -/

lemma hexValue_hexDigit : ∀ n < 16, hexValue (hexDigit n) = some n := by decide

lemma hex4_hexDigit {n : Nat} (h : n < 65536) :
    hex4 (hexDigit (n / 4096 % 16)) (hexDigit (n / 256 % 16)) (hexDigit (n / 16 % 16))
      (hexDigit (n % 16)) = some n := by
  rw [hex4, hexValue_hexDigit _ (by omega), hexValue_hexDigit _ (by omega),
    hexValue_hexDigit _ (by omega), hexValue_hexDigit _ (by omega)]
  simp only [some.injEq]
  omega

variable {c : Char} {r k : List Char}

/-- An escape is read back. -/
lemma parseStr_escape_u (h : c.toNat < 0xD800) (n : Nat) (r : List Char) :
    parseStr (n + 1) (['\\', 'u', hexDigit (c.toNat / 4096 % 16), hexDigit (c.toNat / 256 % 16),
      hexDigit (c.toNat / 16 % 16), hexDigit (c.toNat % 16)] ++ r) = (parseStr n r).map fun p =>
      (c :: p.1, p.2) := by
  have hread : readEscape ('u' :: hexDigit (c.toNat / 4096 % 16) :: hexDigit (c.toNat / 256 % 16) ::
      hexDigit (c.toNat / 16 % 16) :: hexDigit (c.toNat % 16) :: r) = some (c, r) := by
    rw [readEscape, hex4_hexDigit (by omega)]
    simp only [if_pos (Or.inl h), Char.ofNat_toNat]
  simp [parseStr, hread]

lemma parseStr_escapeChar (c : Char) (n : Nat) (r : List Char) :
    parseStr (n + 1) (escapeChar c ++ r) = (parseStr n r).map fun p => (c :: p.1, p.2) := by
  unfold escapeChar
  split_ifs with h1 h2 _ _ _ _ _ h8
  iterate 7
    · subst c
      simp [parseStr, readEscape, shortEscape]
  · refine parseStr_escape_u ?_ n r
    rcases h8 with h | rfl | rfl | rfl | h | h
    · omega
    · decide
    · decide
    · decide
    · omega
    · omega
  · have hcontrol : ¬ c.toNat < 0x20 := fun h => h8 (.inl h)
    simp [parseStr, h1, h2, hcontrol]

/-- A way to escape strings that the reader takes back. -/
structure Reads (esc : List Char → List Char) : Prop where
  read : ∀ s r n, s.length < n → parseStr n (esc s ++ '"' :: r) = some (s, r)
  length_le : ∀ s, s.length ≤ (esc s).length

lemma length_escapeChar_pos (c : Char) : 1 ≤ (escapeChar c).length := by
  unfold escapeChar
  split_ifs <;> simp

/-! ## Values -/

/-- What follows does not go on with a number. -/
def Stops (r : List Char) : Prop := ∀ c r', r = c :: r' → numChar c = false

lemma stops_cons (h : numChar c = false) : Stops (c :: r) := fun _ _ hr => by
  cases hr
  exact h

mutual

/-- What a value takes of the bound of the reader. -/
def size : Value → Nat
  | .arr (x :: xs) => 1 + size x + sizeItems xs
  | .obj ((_, v) :: ms) => 2 + size v + sizeMembers ms
  | _ => 1

def sizeItems : List Value → Nat
  | [] => 1
  | x :: xs => 1 + size x + sizeItems xs

def sizeMembers : List (List Char × Value) → Nat
  | [] => 1
  | (_, v) :: ms => 2 + size v + sizeMembers ms

end

lemma takeWhile_append_of_stops {lit : List Char} (h : lit.all numChar = true) (hr : Stops r) :
    (lit ++ r).takeWhile numChar = lit ∧ (lit ++ r).dropWhile numChar = r := by
  have hall : ∀ c ∈ lit, numChar c = true := all_eq_true.1 h
  rw [takeWhile_append_of_pos hall, dropWhile_append_of_pos hall]
  cases r with
  | nil => simp
  | cons c r => simp [hr c r rfl]

variable (n : Number)

lemma Number.exists_cons : ∃ c l, n.lit = c :: l ∧ numChar c = true := by
  obtain ⟨lit, hchars, hvalid⟩ := n
  cases lit with
  | nil => simp [isNumber, isNatural] at hvalid
  | cons c l => exact ⟨c, l, rfl, by simpa using (all_eq_true.1 hchars) c mem_cons_self⟩

lemma parseValue_num (fuel : Nat) (hr : Stops r) :
    parseValue (fuel + 1) (n.lit ++ r) = some (.num n, r) := by
  obtain ⟨c, l, hlit, hc⟩ := n.exists_cons
  have hparse : parseNumber (n.lit ++ r) = some (.num n, r) := by
    obtain ⟨htake, hdrop⟩ := takeWhile_append_of_stops n.chars hr
    simp only [parseNumber, htake, hdrop, n.chars, n.valid, and_self, dite_true]
  have hskip : skipSpace (n.lit ++ r) = n.lit ++ r := by
    rw [hlit, cons_append, skipSpace, dropWhile_cons_of_neg]
    intro hspace
    simp only [Bool.or_eq_true, decide_eq_true_eq] at hspace
    rcases hspace with ((rfl | rfl) | rfl) | rfl <;> exact absurd hc (by decide)
  rw [parseValue, hskip]
  -- a number begins with none of the characters of the other values
  split
  case h_7 => exact hparse
  all_goals
    rename_i heq
    rw [hlit] at heq
    cases heq
    exact absurd hc (by decide)

variable {esc : List Char → List Char}

mutual

lemma size_le : ∀ v : Value, size v ≤ (flat (pieces esc v)).length
  | .null | .bool true | .bool false | .str _ | .arr [] | .obj [] => by
    simp [size, pieces, flat, Piece.text]
  | .num n => by
    obtain ⟨c, l, hlit, -⟩ := n.exists_cons
    have : 1 ≤ n.lit.length := by simp [hlit]
    simpa [size, pieces, flat, Piece.text] using this
  -- the brackets are as long as the commas
  | .arr (x :: xs) => sizeItems_le (x :: xs)
  | .obj ((k, v) :: ms) => by
    have := sizeMembers_le ((k, v) :: ms)
    simpa [size, sizeMembers, pieces, piecesMembers, flat_fixed] using this

lemma sizeItems_le : ∀ xs : List Value, sizeItems xs ≤ (flat (piecesItems esc xs)).length
  | [] => by simp [sizeItems, piecesItems, flat, Piece.text]
  | x :: xs => by
    have := size_le x
    have := sizeItems_le xs
    rw [sizeItems, piecesItems, flat_fixed, flat_append]
    simp only [length_append, length_cons, length_nil]
    omega

lemma sizeMembers_le :
    ∀ ms : List (List Char × Value), sizeMembers ms ≤ (flat (piecesMembers esc ms)).length
  | [] => by simp [sizeMembers, piecesMembers, flat, Piece.text]
  | (k, v) :: ms => by
    have := size_le v
    have := sizeMembers_le ms
    rw [sizeMembers, piecesMembers, flat_fixed, flat_append]
    simp only [length_append, length_cons, length_nil]
    omega

end

/-- The string at the start of a text, with the bound that its length gives. -/
lemma parseStr_esc (hesc : Reads esc) (s r : List Char) :
    parseStr ((esc s ++ '"' :: r).length + 1) (esc s ++ '"' :: r) = some (s, r) := by
  refine hesc.read s r _ ?_
  have := hesc.length_le s
  simp only [length_append, length_cons]
  omega

lemma skipSpace_mark (t : List Char) :
    skipSpace ('"' :: t) = '"' :: t ∧ skipSpace (':' :: t) = ':' :: t ∧
    skipSpace (',' :: t) = ',' :: t ∧ skipSpace ('[' :: t) = '[' :: t ∧ skipSpace ('\x7b' :: t) =
      '\x7b' :: t :=
  ⟨rfl, rfl, rfl, rfl, rfl⟩

lemma parseMember_esc (hesc : Reads esc) {v : Value} {n : Nat} {text : List Char}
    (h : parseValue n (text ++ r) = some (v, r)) :
    parseMember (n + 1) ('"' :: (esc k ++ '"' :: ':' :: (text ++ r))) = some ((k, v), r) := by
  simp only [parseMember, skipSpace_mark, parseStr_esc hesc, bind_some, h, map_some]

lemma stops_items (xs : List Value) (r : List Char) : Stops (flat (piecesItems esc xs) ++ r) := by
  cases xs with
  | nil | cons => exact stops_cons (by decide)

lemma stops_members (ms : List (List Char × Value)) (r : List Char) :
    Stops (flat (piecesMembers esc ms) ++ r) := by
  cases ms with
  | nil | cons => exact stops_cons (by decide)

/-- A value does not begin with the end of an array. -/
lemma parse_arr_cons (x : Value) (n : Nat) (t : List Char) :
    parseValue (n + 1) ('[' :: (flat (pieces esc x) ++ t)) =
      (parseValue n (flat (pieces esc x) ++ t)).bind fun p =>
        (parseItems n p.2).map fun q => (.arr (p.1 :: q.1), q.2) := by
  obtain ⟨c, l, hflat, hc⟩ : ∃ c l, flat (pieces esc x) = c :: l ∧
      (c ≠ ']' ∧ c ≠ ' ' ∧ c ≠ '\t' ∧ c ≠ '\n' ∧ c ≠ '\r') := by
    cases x with
    | null | str => exact ⟨_, _, rfl, by decide⟩
    | bool b | arr b | obj b => cases b <;> exact ⟨_, _, rfl, by decide⟩
    | num k =>
      obtain ⟨c, l, hlit, hc⟩ := k.exists_cons
      refine ⟨c, l, by simp [pieces, flat, Piece.text, hlit], ?_⟩
      refine ⟨?_, ?_, ?_, ?_, ?_⟩ <;> (rintro rfl; exact absurd hc (by decide))
  have hskip : skipSpace (c :: (l ++ t)) = c :: (l ++ t) := by
    rw [skipSpace, dropWhile_cons_of_neg]
    simp [hc]
  rw [parseValue, hflat, cons_append]
  simp only [skipSpace_mark, hskip]
  split
  · rename_i heq
    cases heq
    exact absurd rfl hc.1
  · rfl

lemma size_pos (v : Value) : 0 < size v := by
  unfold size
  split <;> omega

mutual

/-- What is written of a value is read back, whatever follows it that does not go on with a
number. -/
lemma parseValue_flat (hesc : Reads esc) :
    ∀ (v : Value) (n : Nat) (r : List Char), size v ≤ n → Stops r →
    parseValue n (flat (pieces esc v) ++ r) = some (v, r)
  | .null, n + 1, r, _, _ => rfl
  | .bool true, n + 1, r, _, _ => rfl
  | .bool false, n + 1, r, _, _ => rfl
  | .num k, n + 1, r, _, hr => by
    rw [pieces, flat_fixed, append_assoc]
    exact parseValue_num k n hr
  | .str s, n + 1, r, _, _ => by
    have hflat : flat (pieces esc (.str s)) ++ r = '"' :: (esc s ++ '"' :: r) := by
      simp [pieces, flat, Piece.text]
    rw [hflat, parseValue]
    simp only [skipSpace_mark, parseStr_esc hesc, map_some]
  | .arr [], n + 1, r, _, _ => rfl
  | .arr (x :: xs), n + 1, r, h, _ => by
    rw [size] at h
    have hx :=
      parseValue_flat hesc x n (flat (piecesItems esc xs) ++ r) (by omega) (stops_items xs r)
    have hxs := parseItems_flat hesc xs n r (by omega)
    rw [pieces, flat_fixed, flat_append, append_assoc, append_assoc, singleton_append,
      parse_arr_cons, hx]
    simp only [hxs, bind_some, map_some]
  | .obj [], n + 1, r, _, _ => rfl
  | .obj ((k, v) :: ms), n + 2, r, h, _ => by
    rw [size] at h
    have hv :=
      parseValue_flat hesc v n (flat (piecesMembers esc ms) ++ r) (by omega) (stops_members ms r)
    have hms := parseMembers_flat hesc ms (n + 1) r (by omega)
    have hmember := parseMember_esc hesc (k := k) hv
    rw [pieces, flat_fixed, flat_append]
    simp only [append_assoc, cons_append, nil_append]
    rw [parseValue]
    simp only [skipSpace_mark, hmember, hms, bind_some, map_some]
    rfl
  | .obj ((_, _) :: _), 1, _, h, _ => by rw [size] at h; omega
  | v, 0, _, h, _ => absurd h (Nat.not_le.2 (size_pos v))

lemma parseItems_flat (hesc : Reads esc) :
    ∀ (xs : List Value) (n : Nat) (r : List Char), sizeItems xs ≤ n →
    parseItems n (flat (piecesItems esc xs) ++ r) = some (xs, r)
  | [], n + 1, r, _ => rfl
  | x :: xs, n + 1, r, h => by
    rw [sizeItems] at h
    have hx :=
      parseValue_flat hesc x n (flat (piecesItems esc xs) ++ r) (by omega) (stops_items xs r)
    have hxs := parseItems_flat hesc xs n r (by omega)
    rw [piecesItems, flat_fixed, flat_append, append_assoc, append_assoc,
      singleton_append, parseItems]
    simp only [skipSpace_mark, hx, hxs, bind_some, map_some]
  | [], 0, _, h => by simp [sizeItems] at h
  | _ :: _, 0, _, h => by simp [sizeItems] at h

lemma parseMembers_flat (hesc : Reads esc) :
    ∀ (ms : List (List Char × Value)) (n : Nat) (r : List Char), sizeMembers ms ≤ n →
    parseMembers n (flat (piecesMembers esc ms) ++ r) = some (ms, r)
  | [], n + 1, r, _ => rfl
  | (k, v) :: ms, n + 2, r, h => by
    rw [sizeMembers] at h
    have hv :=
      parseValue_flat hesc v n (flat (piecesMembers esc ms) ++ r) (by omega) (stops_members ms r)
    have hms := parseMembers_flat hesc ms (n + 1) r (by omega)
    have hmember := parseMember_esc hesc (k := k) hv
    rw [piecesMembers, flat_fixed, flat_append]
    simp only [append_assoc, cons_append, nil_append]
    rw [parseMembers]
    simp only [skipSpace_mark, hmember, hms, bind_some, map_some]
  | [], 0, _, h => by simp [sizeMembers] at h
  | (_, _) :: _, 0, _, h => by simp [sizeMembers] at h
  | (_, _) :: _, 1, _, h => by rw [sizeMembers] at h; omega

end

/-- **The round trip.** -/
theorem parse_flat (hesc : Reads esc) (v : Value) : parse (flat (pieces esc v)) = some v := by
  have hsize : size v ≤ (flat (pieces esc v)).length := size_le v
  have hparse := parseValue_flat hesc v (2 * (flat (pieces esc v)).length + 2) [] (by omega) nofun
  rw [append_nil] at hparse
  rw [parse, hparse]
  rfl

/-! ## In a comment -/

/-- `strings.ReplaceAll(s, "*/", "*\\/")`. -/
def guardStars : List Char → List Char
  | '*' :: '/' :: s => '*' :: '\\' :: '/' :: guardStars s
  | c :: s => c :: guardStars s
  | [] => []

/-- A string as it is escaped in a comment. -/
def escapeGuarded : List Char → List Char
  | '*' :: '/' :: s => '*' :: '\\' :: '/' :: escapeGuarded s
  | c :: s => escapeChar c ++ escapeGuarded s
  | [] => []

lemma head?_guardStars (s : List Char) : (guardStars s).head? = s.head? := by
  fun_cases guardStars s <;> rfl

/-- No end of a comment is left. -/
lemma not_infix_guardStars (s : List Char) : ¬ ['*', '/'] <:+: guardStars s := by
  fun_induction guardStars s with
  | case1 s ih =>
    intro h
    simp only [infix_cons_iff, cons_prefix_cons] at h
    rcases h with ⟨-, h, -⟩ | ⟨h, -⟩ | ⟨h, -⟩ | h
    · exact absurd h (by decide)
    · exact absurd h (by decide)
    · exact absurd h (by decide)
    · exact ih h
  | case2 c s hne ih =>
    intro h
    rw [infix_cons_iff, cons_prefix_cons] at h
    rcases h with ⟨rfl, h⟩ | h
    · -- the text goes on with a slash, and the pair would have been taken
      have hhead : s.head? = some '/' := by
        rw [← head?_guardStars]
        obtain ⟨t, ht⟩ := h
        rw [← ht]
        rfl
      cases s with
      | nil => cases hhead
      | cons d s =>
        cases hhead
        exact hne s rfl rfl
    · exact ih h
  | case3 => simp [infix_nil]

/-- Two texts are guarded one by one, unless the pair is at their border. -/
lemma guardStars_append {a b : List Char} (h : b.head? ≠ some '/') :
    guardStars (a ++ b) = guardStars a ++ guardStars b := by
  fun_induction guardStars a with
  | case1 a ih =>
    simp only [cons_append, guardStars, ih]
  | case2 c a hne ih =>
    rw [cons_append, guardStars, ih, cons_append]
    intro s hc hs
    cases a with
    | nil =>
      rw [nil_append] at hs
      rw [hs] at h
      exact h rfl
    | cons d a =>
      cases hs
      exact hne a hc rfl
  | case3 => rfl

/-- A text without a star stays as it is. -/
lemma guardStars_append_of_notMem {a b : List Char} (h : '*' ∉ a) :
    guardStars (a ++ b) = a ++ guardStars b := by
  induction a with
  | nil => rfl
  | cons c a ih =>
    rw [cons_append, guardStars, ih fun hm => h (mem_cons_of_mem _ hm), cons_append]
    rintro s rfl -
    exact h mem_cons_self

/-- Only a slash is written as one, at the start of a character. -/
lemma head?_escapeChar (h : (escapeChar c ++ r).head? = some '/') : c = '/' := by
  unfold escapeChar at h
  split_ifs at h <;> simp_all

lemma star_notMem_escapeChar (h : c ≠ '*') : '*' ∉ escapeChar c := by
  have hhex : ∀ n < 16, hexDigit n ≠ '*' := by decide
  unfold escapeChar
  split_ifs
  any_goals decide
  · simp only [mem_cons, not_mem_nil, or_false, not_or]
    refine ⟨by decide, by decide, ?_, ?_, ?_, ?_⟩ <;> exact Ne.symm (hhex _ (by omega))
  · simpa using Ne.symm h

/-- The escapes of a string, in a comment. -/
lemma guardStars_escape (s r : List Char) :
    guardStars (escape s ++ '"' :: r) = escapeGuarded s ++ '"' :: guardStars r := by
  fun_induction escapeGuarded s with
  | case1 s ih =>
    have hflat : escape ('*' :: '/' :: s) ++ '"' :: r = '*' :: '/' :: (escape s ++ '"' :: r) := by
      rfl
    rw [hflat, guardStars, ih]
    rfl
  | case2 c s hne ih =>
    have hflat : escape (c :: s) ++ '"' :: r = escapeChar c ++ (escape s ++ '"' :: r) := by
      rw [escape, flatMap_cons, append_assoc]
      rfl
    rw [hflat, append_assoc, ← ih]
    by_cases hc : c = '*'
    · subst hc
      refine guardStars_append fun hhead => ?_
      cases s with
      | nil => cases hhead
      | cons d s =>
        have hd : d = '/' := by
          rw [escape, flatMap_cons, append_assoc] at hhead
          exact head?_escapeChar hhead
        exact hne s rfl (by rw [hd])
    · exact guardStars_append_of_notMem (star_notMem_escapeChar hc)
  | case3 => rfl

lemma reads_escapeGuarded : Reads escapeGuarded where
  read s r n h := by
    fun_induction escapeGuarded s generalizing n with
    | case1 s ih =>
      simp only [length_cons] at h
      obtain ⟨n, rfl⟩ : ∃ k, n = k + 2 := ⟨n - 2, by omega⟩
      have hs := ih n (by omega)
      simp [parseStr, readEscape, shortEscape, hs]
    | case2 c s hne ih =>
      simp only [length_cons] at h
      obtain ⟨n, rfl⟩ : ∃ k, n = k + 1 := ⟨n - 1, by omega⟩
      rw [append_assoc, parseStr_escapeChar, ih n (by omega)]
      rfl
    | case3 =>
      obtain ⟨n, rfl⟩ : ∃ k, n = k + 1 := ⟨n - 1, by simp at h; omega⟩
      simp [parseStr]
  length_le s := by
    fun_induction escapeGuarded s with
    | case1 =>
      simp only [length_cons]
      omega
    | case2 c =>
      have := length_escapeChar_pos c
      rw [length_append, length_cons]
      omega
    | case3 => simp

lemma Number.notMem_lit {n : Number} {c : Char} (hc : ¬ numChar c = true) : c ∉ n.lit :=
  fun h => hc (all_eq_true.1 n.chars c h)

/-- A key, in a comment. -/
lemma guardStars_key (k r : List Char) :
    guardStars (escape k ++ (['"', ':'] ++ r)) = escapeGuarded k ++
      (['"', ':'] ++ guardStars r) := by
  have hcolon : guardStars ([':'] ++ r) = [':'] ++ guardStars r :=
    guardStars_append_of_notMem (by decide)
  have := guardStars_escape k ([':'] ++ r)
  exact this

mutual

/-- A value, in a comment. -/
lemma guardStars_flat : ∀ (v : Value) (r : List Char),
    guardStars (flat (pieces escape v) ++ r) = flat (pieces escapeGuarded v) ++ guardStars r
  | .null, r => rfl
  | .bool true, r => rfl
  | .bool false, r => rfl
  | .num n, r => by
    have hflat : ∀ esc, flat (pieces esc (.num n)) = n.lit :=
      fun esc => by simp [pieces, flat, Piece.text]
    rw [hflat, hflat]
    exact guardStars_append_of_notMem (Number.notMem_lit (by decide))
  | .str s, r => by
    have hflat : ∀ esc, flat (pieces esc (.str s)) = ['"'] ++ (esc s ++ ['"']) := fun esc => by
      simp [pieces, flat, Piece.text]
    rw [hflat, hflat, append_assoc, guardStars_append_of_notMem (by decide), append_assoc]
    have := guardStars_escape s r
    simpa using this
  | .arr [], r => rfl
  | .arr (x :: xs), r => by
    simp only [pieces, flat_fixed, flat_append, append_assoc]
    rw [guardStars_append_of_notMem (by decide), guardStars_flat x, guardStars_flat_items xs]
  | .obj [], r => rfl
  | .obj ((k, v) :: ms), r => by
    simp only [pieces, flat_fixed, flat_append, append_assoc]
    rw [guardStars_append_of_notMem (by decide), guardStars_key, guardStars_flat v,
      guardStars_flat_members ms]

lemma guardStars_flat_items : ∀ (xs : List Value) (r : List Char),
    guardStars (flat (piecesItems escape xs) ++ r) =
      flat (piecesItems escapeGuarded xs) ++ guardStars r
  | [], r => rfl
  | x :: xs, r => by
    simp only [piecesItems, flat_fixed, flat_append, append_assoc]
    rw [guardStars_append_of_notMem (by decide), guardStars_flat x, guardStars_flat_items xs]

lemma guardStars_flat_members : ∀ (ms : List (List Char × Value)) (r : List Char),
    guardStars (flat (piecesMembers escape ms) ++ r) =
      flat (piecesMembers escapeGuarded ms) ++ guardStars r
  | [], r => rfl
  | (k, v) :: ms, r => by
    simp only [piecesMembers, flat_fixed, flat_append, append_assoc]
    rw [guardStars_append_of_notMem (by decide), guardStars_key, guardStars_flat v,
      guardStars_flat_members ms]

end

/-- The text of a value in a comment is that of the value, with its strings escaped in that way. -/
theorem guardStars_pieces (v : Value) :
    guardStars (flat (pieces escape v)) = flat (pieces escapeGuarded v) := by
  have := guardStars_flat v []
  simpa [guardStars] using this

variable (esc)

/-- What is written of the members of an object ends in its brace. -/
lemma flat_members_eq (ms : List (List Char × Value)) :
    ∃ t, flat (piecesMembers esc ms) = t ++ ['\x7d'] := by
  induction ms with
  | nil => exact ⟨[], rfl⟩
  | cons m ms ih =>
    obtain ⟨t, ht⟩ := ih
    exact ⟨_, by rw [piecesMembers, flat_fixed, flat_append, ht, ← append_assoc, ← append_assoc]⟩

/-- What is written of an object stands in braces. -/
lemma flat_obj_eq (ms : List (List Char × Value)) :
    ∃ t, flat (pieces esc (.obj ms)) = '\x7b' :: (t ++ ['\x7d']) := by
  cases ms with
  | nil => exact ⟨[], rfl⟩
  | cons m ms =>
    obtain ⟨t, ht⟩ := flat_members_eq esc ms
    obtain ⟨k, v⟩ := m
    refine ⟨'"' :: (esc k ++ ['"', ':'] ++ (flat (pieces esc v) ++ t)), ?_⟩
    rw [pieces, flat_fixed, flat_append, ht]
    simp only [cons_append, nil_append, append_assoc]

/-! ## Whole numbers -/

/-- The number of a numeral. -/
lemma isNumber_digits {digits : List Char} (hall : digits.all Char.isDigit = true)
    (hnatural : isNatural digits = true) :
    isNumber digits = true ∧ isNumber ('-' :: digits) = true := by
  have htake := takeWhile_eq_self_iff.2 fun c hc => all_eq_true.1 hall c hc
  have hdrop := dropWhile_eq_nil_iff.2 fun c hc => all_eq_true.1 hall c hc
  have hminus : digits.head? ≠ some '-' := by
    intro hhead
    have hdigit := all_eq_true.1 hall '-' (mem_of_head? hhead)
    exact absurd hdigit (by decide)
  constructor
  · cases digits with
    | nil => exact absurd hnatural (by decide)
    | cons c =>
      have hc : c ≠ '-' := fun h => hminus (by rw [h]; rfl)
      simp only [isNumber]
      split
      · rename_i heq
        exact absurd (cons.inj heq).1 hc
      · simp [htake, hdrop, hnatural, isFraction, isExponent]
  · simp [isNumber, htake, hdrop, hnatural, isFraction, isExponent]

lemma isNatural_toDigits (n : Nat) : isNatural (Nat.toDigits 10 n) = true := by
  have hne : (Nat.toDigits 10 n).isEmpty = false := isEmpty_eq_false_iff.2 Nat.toDigits_ne_nil
  by_cases h : n = 0
  · subst h
    decide
  · have hhead := Decimal.head?_toDigits h
    simp [isNatural, hne, hhead]

lemma all_numChar_toDigits (n : Nat) : (Nat.toDigits 10 n).all numChar = true :=
  all_eq_true.2 fun _ hc => by simp [numChar, Decimal.isDigit_toDigits hc]

/-- A whole number, as `Marshal` writes it. -/
def Number.ofInt : Int → Number
  | .ofNat n =>
      ⟨Nat.toDigits 10 n, all_numChar_toDigits n,
        (isNumber_digits (Decimal.all_isDigit_toDigits n) (isNatural_toDigits n)).1⟩
  | .negSucc n =>
      ⟨'-' :: Nat.toDigits 10 (n + 1), List.all_cons ▸ all_numChar_toDigits (n + 1),
        (isNumber_digits (Decimal.all_isDigit_toDigits (n + 1)) (isNatural_toDigits (n + 1))).2⟩

/-- The whole number of a literal that has neither a fraction nor an exponent. -/
def readInt : List Char → Option Int
  | '-' :: r => if r.all Char.isDigit then some (-(Nat.ofDigitChars 10 r 0 : Int)) else none
  | r => if r.all Char.isDigit then some (Nat.ofDigitChars 10 r 0 : Int) else none

lemma readInt_ofInt (n : Int) : readInt (Number.ofInt n).lit = some n := by
  cases n with
  | ofNat n =>
    have hall := Decimal.all_isDigit_toDigits n
    simp only [Number.ofInt, readInt]
    split
    · rename_i r heq
      rw [heq] at hall
      exact absurd (all_eq_true.1 hall '-' mem_cons_self) (by decide)
    · rw [if_pos hall, Nat.ofDigitChars_ten_toDigits]
      rfl
  | negSucc =>
    simp only [Number.ofInt, readInt, Decimal.all_isDigit_toDigits, if_true,
      Nat.ofDigitChars_ten_toDigits]
    rfl

/-! ## Markers in the text of a value -/

mutual

/-- The strings of a value, in their order; its keys apart. -/
def strings : Value → List (List Char)
  | .null | .bool _ | .num _ => []
  | .str s => [s]
  | .arr xs => stringsItems xs
  | .obj ms => stringsMembers ms

def stringsItems : List Value → List (List Char)
  | [] => []
  | x :: xs => strings x ++ stringsItems xs

def stringsMembers : List (List Char × Value) → List (List Char)
  | [] => []
  | (_, v) :: ms => strings v ++ stringsMembers ms

end

mutual

/-- The keys of a value, at any depth. -/
def keys : Value → List (List Char)
  | .null | .bool _ | .num _ | .str _ => []
  | .arr xs => keysItems xs
  | .obj ms => keysMembers ms

def keysItems : List Value → List (List Char)
  | [] => []
  | x :: xs => keys x ++ keysItems xs

def keysMembers : List (List Char × Value) → List (List Char)
  | [] => []
  | (k, v) :: ms => k :: (keys v ++ keysMembers ms)

end

mutual

/-- What others have written in the text of a value are its strings. -/
theorem written_pieces : ∀ v : Value, written (pieces esc v) = (strings v).map esc
  | .null | .bool _ | .num _ | .str _ | .arr [] | .obj [] => rfl
  | .arr (x :: xs) => written_items (x :: xs)
  | .obj (m :: ms) => written_members (m :: ms)

lemma written_items :
    ∀ xs : List Value, written (piecesItems esc xs) = (stringsItems xs).map esc
  | [] => rfl
  | x :: xs => by
      rw [piecesItems, written, written_append, written_pieces x, written_items xs,
        stringsItems, map_append]

lemma written_members :
    ∀ ms : List (List Char × Value), written (piecesMembers esc ms) = (stringsMembers ms).map esc
  | [] => rfl
  | (k, v) :: ms => by
      rw [piecesMembers, written, written_append, written_pieces v, written_members ms,
        stringsMembers, map_append]

end

/-- A character that is nowhere in a text of values but in what others write. -/
structure Foreign (c : Char) : Prop where
  number : numChar c = false
  punctuation : c ∉ "\"[]\x7b\x7d,:nulltruefalse".toList

/-- A piece without a character, which a string may hold. -/
def Without (c : Char) : Piece Char → Prop
  | .fixed t => c ∉ t
  | .written _ close => close = ['"']

lemma Foreign.literal (h : Foreign c) (n : Number) : c ∉ n.lit := fun hmem => by
  have hnum := all_eq_true.1 n.chars c hmem
  rw [h.number] at hnum
  cases hnum

lemma Foreign.fixed (h : Foreign c) {u : List Char}
    (hu : u ⊆ "\"[]\x7b\x7d,:nulltruefalse".toList) :
    Without c (.fixed u) := fun hmem => h.punctuation (hu hmem)

lemma Foreign.key {c d : Char} (h : Foreign c) (hd : d ∈ ['\x7b', ',']) (hk : c ∉ k) :
    Without c (.fixed ([d, '"'] ++ k ++ ['"', ':'])) := by
  have hpunct := h.punctuation
  simp only [mem_cons, not_mem_nil, or_false] at hd
  rcases hd with rfl | rfl <;> simp_all [Without]

mutual

lemma without_pieces (hc : Foreign c) :
    ∀ v : Value, (∀ k ∈ keys v, c ∉ esc k) → ∀ p ∈ pieces esc v, Without c p
  | .null, _, p, hp | .bool true, _, p, hp | .bool false, _, p, hp | .arr [], _, p, hp
  | .obj [], _, p, hp => by
      rw [mem_singleton.1 hp]
      exact hc.fixed (by decide)
  | .num n, _, p, hp => by
      rw [mem_singleton.1 hp]
      exact hc.literal n
  | .str s, _, p, hp => by
      simp only [pieces, mem_cons, not_mem_nil, or_false] at hp
      rcases hp with rfl | rfl
      · exact hc.fixed (by decide)
      · rfl
  | .arr (x :: xs), hk, p, hp => by
      rcases mem_cons.1 hp with rfl | hp
      · exact hc.fixed (by decide)
      · exact without_items hc (x :: xs) hk p (mem_cons_of_mem _ hp)
  | .obj ((k, v) :: ms), hk, p, hp => by
      rcases mem_cons.1 hp with rfl | hp
      · exact hc.key (by simp) (hk k mem_cons_self)
      · exact without_members hc ((k, v) :: ms) hk p (mem_cons_of_mem _ hp)

lemma without_items (hc : Foreign c) :
    ∀ xs : List Value, (∀ k ∈ keysItems xs, c ∉ esc k) → ∀ p ∈ piecesItems esc xs, Without c p
  | [], _, p, hp => by
      rw [mem_singleton.1 hp]
      exact hc.fixed (by decide)
  | x :: xs, hk, p, hp => by
      rw [piecesItems, mem_cons, mem_append] at hp
      rcases hp with rfl | hp | hp
      · exact hc.fixed (by decide)
      · exact without_pieces hc x (fun k hx => hk k (mem_append_left _ hx)) p hp
      · exact without_items hc xs (fun k hx => hk k (mem_append_right _ hx)) p hp

lemma without_members (hc : Foreign c) :
    ∀ ms : List (List Char × Value), (∀ k ∈ keysMembers ms, c ∉ esc k) →
      ∀ p ∈ piecesMembers esc ms, Without c p
  | [], _, p, hp => by
      rw [mem_singleton.1 hp]
      exact hc.fixed (by decide)
  | (k, v) :: ms, hk, p, hp => by
      rw [piecesMembers, mem_cons, mem_append] at hp
      rcases hp with rfl | hp | hp
      · exact hc.key (by simp) (hk k mem_cons_self)
      · exact without_pieces hc v (fun k hx => hk k (mem_cons_of_mem _ (mem_append_left _ hx))) p hp
      · exact without_members hc ms
          (fun k hx => hk k (mem_cons_of_mem _ (mem_append_right _ hx))) p hp

end

/-- A marker that begins with such a character is found only in what others write. -/
theorem apart_pieces {m : List Char} {esc : List Char → List Char} {v : Value} (hc : Foreign c)
    (hm : '"' ∉ c :: m) (hk : ∀ k ∈ keys v, c ∉ esc k) : ∀ p ∈ pieces esc v, p.Apart (c :: m) := by
  intro p hp
  have hwithout := without_pieces _ hc v hk p hp
  cases p with
  | fixed => exact inert_of_notMem hwithout
  | written =>
    exact ⟨'"', [], hwithout, hm, inert_of_notMem (by simp)⟩

end Moov.Json
