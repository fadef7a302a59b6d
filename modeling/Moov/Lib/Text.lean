import Mathlib.Data.List.Sort

/-!
# Text

Strings as lists of characters, with the functions of Go's `strings`, `unicode` and
`unicode/utf16` that the program calls on them.
-/

namespace Moov.Text

/-- `unicode.ToLower`, as far as its result can be ASCII. -/
def toLowerChar (c : Char) : Char :=
  if 'A' ≤ c ∧ c ≤ 'Z' then Char.ofNat (c.toNat + 32)
  else if c.toNat = 0x212A then 'k'
  else if c.toNat = 0x130 then 'i'
  else c

/-- `strings.ToLower`. -/
def toLower (s : List Char) : List Char := s.map toLowerChar

/-- `unicode.IsSpace`. -/
def isSpace (c : Char) : Bool :=
  c.toNat ∈ [0x20, 0x09, 0x0A, 0x0B, 0x0C, 0x0D, 0x85, 0xA0, 0x1680, 0x2028, 0x2029, 0x202F, 0x205F,
    0x3000] || (0x2000 ≤ c.toNat && c.toNat ≤ 0x200A)

/-- `strings.TrimSpace`. -/
def trimSpace (s : List Char) : List Char :=
  ((s.dropWhile isSpace).reverse.dropWhile isSpace).reverse

lemma toNat_ofNat {n : Nat} (h : n < 0xD800) : (Char.ofNat n).toNat = n := by
  rw [Char.ofNat, dif_pos (Or.inl h)]
  rfl

/-- The lower case of a character is the character, or a lower case letter. -/
lemma toLowerChar_cases (c : Char) :
    toLowerChar c = c ∨ (97 ≤ (toLowerChar c).toNat ∧ (toLowerChar c).toNat ≤ 122) := by
  unfold toLowerChar
  split
  · rename_i h
    have hlo : 65 ≤ c.toNat := h.1
    have hhi : c.toNat ≤ 90 := h.2
    right
    rw [toNat_ofNat (by omega)]
    omega
  · split
    · exact .inr (by decide)
    · split
      · exact .inr (by decide)
      · exact .inl rfl

lemma toLowerChar_of_lower {c : Char} (h : 97 ≤ c.toNat ∧ c.toNat ≤ 122) : toLowerChar c = c := by
  have hupper : ¬ ('A' ≤ c ∧ c ≤ 'Z') := fun hc => absurd (show c.toNat ≤ 90 from hc.2) (by omega)
  rw [toLowerChar, if_neg hupper, if_neg (by omega), if_neg (by omega)]

lemma toLowerChar_idem (c : Char) : toLowerChar (toLowerChar c) = toLowerChar c := by
  rcases toLowerChar_cases c with h | h
  · rw [h, h]
  · exact toLowerChar_of_lower h

lemma toLower_idem (s : List Char) : toLower (toLower s) = toLower s := by
  rw [toLower, toLower, List.map_map]
  exact List.map_congr_left fun c _ => toLowerChar_idem c

lemma trimSpace_eq {s : List Char} (h : ∀ c ∈ s, isSpace c = false) : trimSpace s = s := by
  have hdrop : ∀ t : List Char, (∀ c ∈ t, isSpace c = false) → t.dropWhile isSpace = t := by
    intro t ht
    cases t with
    | nil => rfl
    | cons c =>
      rw [List.dropWhile_cons_of_neg (by rw [ht c List.mem_cons_self]; exact Bool.false_ne_true)]
  rw [trimSpace, hdrop s h, hdrop s.reverse fun c hc => h c (List.mem_reverse.1 hc),
    List.reverse_reverse]

/-- `strings.ReplaceAll(path, "\\", "/")`. -/
def slashes (path : List Char) : List Char := path.map fun c => if c = '\\' then '/' else c

/-- `path.Base`. -/
def base (path : List Char) : List Char :=
  match path.reverse.dropWhile (· = '/') with
  | [] => if path = [] then ['.'] else ['/']
  | c :: cs => ((c :: cs).takeWhile (· ≠ '/')).reverse

/-- `path.Ext`. -/
def ext (path : List Char) : List Char :=
  let last := (path.reverse.takeWhile (· ≠ '/')).reverse
  if '.' ∈ last then '.' :: (last.reverse.takeWhile (· ≠ '.')).reverse else []

/-- `strings.Trim(s, cutset)`. -/
def trimChars (cutset s : List Char) : List Char :=
  ((s.dropWhile (· ∈ cutset)).reverse.dropWhile (· ∈ cutset)).reverse

/-- The length of a character in UTF-8. -/
def utf8Len (c : Char) : Nat :=
  if c.toNat < 0x80 then 1 else if c.toNat < 0x800 then 2 else if c.toNat < 0x10000 then 3 else 4

/-- The length of a text in UTF-8. -/
def byteLen : List Char → Nat
  | [] => 0
  | c :: cs => utf8Len c + byteLen cs

/-- The order of `sort.Strings`: that of the bytes is that of the characters. -/
def sortsBefore : List Char → List Char → Bool
  | [], _ => true
  | _ :: _, [] => false
  | c :: cs, d :: ds => c.toNat < d.toNat || (c = d && sortsBefore cs ds)

/-- `sort.Strings`. -/
def sortStrings (l : List (List Char)) : List (List Char) :=
  l.insertionSort fun a b => sortsBefore a b

lemma mem_sortStrings {l : List (List Char)} {s : List Char} : s ∈ sortStrings l ↔ s ∈ l :=
  (List.perm_insertionSort _ _).mem_iff

/-- The longest part at the start of a text that takes at most `n` bytes in UTF-8. -/
def takeBytes : (n : Nat) → List Char → List Char
  | _, [] => []
  | n, c :: cs => if utf8Len c ≤ n then c :: takeBytes (n - utf8Len c) cs else []

/-- `utf16.Decode`. -/
def utf16Decode : List Nat → List Char
  | [] => []
  | [u] => [if 0xD800 ≤ u ∧ u < 0xE000 then Char.ofNat 0xFFFD else Char.ofNat u]
  | u :: v :: us =>
      if 0xD800 ≤ u ∧ u < 0xDC00 ∧ 0xDC00 ≤ v ∧ v < 0xE000 then
        Char.ofNat ((u - 0xD800) * 0x400 + (v - 0xDC00) + 0x10000) :: utf16Decode us
      else
        (if 0xD800 ≤ u ∧ u < 0xE000 then Char.ofNat 0xFFFD else Char.ofNat u) :: utf16Decode
          (v :: us)

/-- The UTF-16 units of a text. -/
def utf16Encode : List Char → List Nat
  | [] => []
  | c :: cs =>
      if c.toNat < 0x10000 then c.toNat :: utf16Encode cs
      else ((c.toNat - 0x10000) / 0x400 + 0xD800) :: ((c.toNat - 0x10000) % 0x400 + 0xDC00) ::
        utf16Encode cs

/-- `charmap.Windows1252`, from `0x80` to `0x9F`. -/
def windows1252Table : List Nat :=
  [0x20AC, 0x81, 0x201A, 0x0192, 0x201E, 0x2026, 0x2020, 0x2021, 0x02C6, 0x2030, 0x0160, 0x2039,
    0x0152, 0x8D, 0x017D, 0x8F, 0x90, 0x2018, 0x2019, 0x201C, 0x201D, 0x2022, 0x2013,
    0x2014, 0x02DC,
    0x2122, 0x0161, 0x203A, 0x0153, 0x9D, 0x017E, 0x0178]

/-- `charmap.Windows1252`. -/
def windows1252 (b : UInt8) : Char :=
  Char.ofNat
    (if 0x80 ≤ b.toNat ∧ b.toNat < 0xA0 then windows1252Table.getD (b.toNat - 0x80) 0 else b.toNat)

end Moov.Text
