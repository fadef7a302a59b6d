import Moov.Lib.Text

/-!
# UTF-8

Bytes that are UTF-8, as an automaton that reads them one by one, and what is made of bytes
that are not.

* `valid_append`, `valid_filter`, `valid_drop_bom` — what keeps bytes UTF-8;
* `valid_encode` — the bytes of a text are;
* `valid_toValid` — bytes that are not can be made so.
-/

namespace Moov.Utf8

open Text List

/-- What is still to come of a character. -/
inductive State
  | start
  | one
  | two
  | three
  | afterE0
  | afterED
  | afterF0
  | afterF4
deriving DecidableEq

/-- A byte that continues a character. -/
def continues (b : Nat) : Bool := 0x80 ≤ b && b ≤ 0xBF

def next (q : State) (byte : UInt8) : Option State :=
  let b := byte.toNat
  match q with
  | .start =>
      if b < 0x80 then some .start
      else if b < 0xC2 then none
      else if b < 0xE0 then some .one
      else if b = 0xE0 then some .afterE0
      else if b = 0xED then some .afterED
      else if b < 0xF0 then some .two
      else if b = 0xF0 then some .afterF0
      else if b < 0xF4 then some .three
      else if b = 0xF4 then some .afterF4
      else none
  | .one => if continues b then some .start else none
  | .two => if continues b then some .one else none
  | .three => if continues b then some .two else none
  | .afterE0 => if 0xA0 ≤ b ∧ b ≤ 0xBF then some .one else none
  | .afterED => if 0x80 ≤ b ∧ b ≤ 0x9F then some .one else none
  | .afterF0 => if 0x90 ≤ b ∧ b ≤ 0xBF then some .two else none
  | .afterF4 => if 0x80 ≤ b ∧ b ≤ 0x8F then some .two else none

def read : State → List UInt8 → Option State
  | q, [] => some q
  | q, b :: bs =>
      match next q b with
      | none => none
      | some q' => read q' bs

/-- `utf8.Valid`. -/
def valid (bs : List UInt8) : Bool := read .start bs = some .start

variable {q q' : State} {a b bs : List UInt8} {byte : UInt8}

lemma read_append : read q (a ++ b) = (read q a).bind fun q' => read q' b := by
  induction a generalizing q with
  | nil => rfl
  | cons c a ih =>
    rw [cons_append, read, read]
    cases next q c with
    | none => rfl
    | some => exact ih

lemma read_append_of (h : read q a = some q') : read q (a ++ b) = read q' b := by
  rw [read_append, h]
  rfl

@[simp]
lemma valid_nil : valid [] := by decide

theorem valid_append (ha : valid a) (hb : valid b) : valid (a ++ b) := by
  unfold valid at *
  rw [decide_eq_true_iff] at *
  rw [read_append_of ha, hb]

lemma valid_flatMap {α : Type*} {f : α → List UInt8} {l : List α} (h : ∀ x ∈ l, valid (f x)) :
    valid (l.flatMap f) := by
  induction l with
  | nil => exact valid_nil
  | cons x l ih =>
    exact valid_append (h x mem_cons_self) (ih fun y hy => h y (mem_cons_of_mem _ hy))

/-- A NUL is a character of its own. -/
lemma next_zero (h : next q 0 = some q') : q = .start ∧ q' = .start := by
  cases q <;> simp [next, continues] at h
  exact ⟨rfl, h.symm⟩

/-- Without its NULs a text is a text. -/
lemma read_filter (h : read q a = some q') : read q (a.filter (· ≠ 0)) = some q' := by
  induction a generalizing q with
  | nil => exact h
  | cons c a ih =>
    rw [read] at h
    cases hq : next q c with
    | none =>
      rw [hq] at h
      cases h
    | some =>
      rw [hq] at h
      by_cases hc : c = 0
      · subst hc
        obtain ⟨rfl, rfl⟩ := next_zero hq
        exact ih h
      · rw [filter_cons_of_pos (by simpa using hc), read, hq]
        exact ih h

theorem valid_filter (h : valid a) : valid (a.filter (· ≠ 0)) := by
  unfold valid at *
  rw [decide_eq_true_iff] at *
  exact read_filter h

/-- `"\xEF\xBB\xBF"`, the byte order mark. -/
def bom : List UInt8 := [0xEF, 0xBB, 0xBF]

theorem valid_drop_bom (h : valid (bom ++ a)) : valid a := by
  unfold valid at *
  have hbom : read .start bom = some .start := by decide
  rwa [read_append_of hbom] at h

lemma not_valid_of_next (h : next .start byte = none) : ¬ valid (byte :: a) := by
  unfold valid
  rw [decide_eq_true_iff, read, h]
  exact Option.some_ne_none _ ∘ Eq.symm

/-! ## Characters -/

/-- The bytes of a character. -/
def encodeChar (c : Char) : List UInt8 :=
  let n := c.toNat
  if n < 0x80 then [UInt8.ofNat n]
  else if n < 0x800 then [UInt8.ofNat (0xC0 + n / 64), UInt8.ofNat (0x80 + n % 64)]
  else if n < 0x10000 then
    [UInt8.ofNat (0xE0 + n / 4096), UInt8.ofNat (0x80 + n / 64 % 64), UInt8.ofNat (0x80 + n % 64)]
  else
    [UInt8.ofNat (0xF0 + n / 262144), UInt8.ofNat (0x80 + n / 4096 % 64),
      UInt8.ofNat (0x80 + n / 64 % 64), UInt8.ofNat (0x80 + n % 64)]

/-- `string(runes)`, as bytes. -/
def encode (s : List Char) : List UInt8 := s.flatMap encodeChar

lemma toNat_ofNat_of_lt {n : Nat} (h : n < 256) : (UInt8.ofNat n).toNat = n := by
  rw [UInt8.toNat_ofNat', Nat.mod_eq_of_lt h]

lemma valid_encodeChar (c : Char) : valid (encodeChar c) := by
  have hchar : c.toNat < 0xD800 ∨ (0xDFFF < c.toNat ∧ c.toNat < 0x110000) := c.valid
  unfold valid encodeChar
  dsimp only
  generalize c.toNat = n at hchar
  split
  · simp only [read, next, toNat_ofNat_of_lt (show n < 256 by omega)]
    grind
  · split
    · simp only [read, next, continues, toNat_ofNat_of_lt (show 0xC0 + n / 64 < 256 by omega),
        toNat_ofNat_of_lt (show 0x80 + n % 64 < 256 by omega)]
      grind
    · split
      · simp only [read, next, continues, toNat_ofNat_of_lt (show 0xE0 + n / 4096 < 256 by omega),
          toNat_ofNat_of_lt (show 0x80 + n / 64 % 64 < 256 by omega),
          toNat_ofNat_of_lt (show 0x80 + n % 64 < 256 by omega)]
        grind
      · simp only [read, next, continues, toNat_ofNat_of_lt (show 0xF0 + n / 262144 < 256 by omega),
          toNat_ofNat_of_lt (show 0x80 + n / 4096 % 64 < 256 by omega),
          toNat_ofNat_of_lt (show 0x80 + n / 64 % 64 < 256 by omega),
          toNat_ofNat_of_lt (show 0x80 + n % 64 < 256 by omega)]
        grind

theorem valid_encode (s : List Char) : valid (encode s) :=
  valid_flatMap fun c _ => valid_encodeChar c

/-! ## Bytes that are not UTF-8 -/

/-- The bytes start with a character of `n` bytes. -/
def starts (n : Nat) (bs : List UInt8) : Bool := n ≤ bs.length && valid (bs.take n)

/-- The length of the character at the start, or zero if there is none. -/
def charLen (bs : List UInt8) : Nat :=
  if starts 1 bs then 1
  else if starts 2 bs then 2
  else if starts 3 bs then 3
  else if starts 4 bs then 4
  else 0

/-- `strings.ToValidUTF8(s, "\uFFFD")`, with the bytes that are left of a character, and
whether what came before is not UTF-8. -/
def toValidFrom : (left : Nat) → (replaced : Bool) → List UInt8 → List UInt8
  | _, _, [] => []
  | left + 1, _, b :: bs => b :: toValidFrom left false bs
  | 0, replaced, b :: bs =>
      match charLen (b :: bs) with
      | 0 => (if replaced then [] else encodeChar (Char.ofNat 0xFFFD)) ++ toValidFrom 0 true bs
      | left + 1 => b :: toValidFrom left false bs

def toValid (bs : List UInt8) : List UInt8 := toValidFrom 0 false bs

lemma starts_of_charLen {n : Nat} (h : charLen bs = n + 1) : starts (n + 1) bs := by
  unfold charLen at h
  split at h
  · rename_i hs
    obtain rfl : n = 0 := by omega
    exact hs
  · split at h
    · rename_i hs
      obtain rfl : n = 1 := by omega
      exact hs
    · split at h
      · rename_i hs
        obtain rfl : n = 2 := by omega
        exact hs
      · split at h
        · rename_i hs
          obtain rfl : n = 3 := by omega
          exact hs
        · cases h

/-- What is written is UTF-8 once the character that was begun is complete. -/
lemma read_toValidFrom :
    ∀ {q left replaced}, left ≤ bs.length → read q (bs.take left) = some .start →
      read q (toValidFrom left replaced bs) = some .start := by
  induction bs with
  | nil =>
    intro q left replaced _ hread
    cases left <;> exact hread
  | cons b bs ih =>
    intro q left replaced hleft hread
    cases left with
    | succ =>
      rw [take_succ_cons, read] at hread
      rw [toValidFrom, read]
      cases hq : next q b with
      | none =>
        rw [hq] at hread
        cases hread
      | some =>
        rw [hq] at hread
        exact ih (Nat.le_of_succ_le_succ hleft) hread
    | zero =>
      have hq : q = .start := Option.some.inj hread
      subst hq
      rw [toValidFrom]
      split
      · have hrest : read .start (toValidFrom 0 true bs) = some .start := ih (Nat.zero_le _) rfl
        split
        · exact hrest
        · have hreplaced : read .start (encodeChar (Char.ofNat 0xFFFD)) = some .start := by decide
          rw [read_append_of hreplaced]
          exact hrest
      · rename_i left hlen
        have hs := starts_of_charLen hlen
        rw [starts, Bool.and_eq_true, decide_eq_true_iff, valid, decide_eq_true_iff, take_succ_cons,
          read] at hs
        rw [read]
        cases hb : next .start b with
        | none =>
          rw [hb] at hs
          cases hs.2
        | some =>
          rw [hb] at hs
          exact ih (Nat.le_of_succ_le_succ hs.1) hs.2

theorem valid_toValid (bs : List UInt8) : valid (toValid bs) := by
  unfold valid toValid
  rw [decide_eq_true_iff]
  exact read_toValidFrom (Nat.zero_le _) rfl

/-- Making bytes UTF-8 brings in no NUL. -/
lemma zero_not_mem_toValidFrom (h : 0 ∉ bs) :
    ∀ {left replaced}, 0 ∉ toValidFrom left replaced bs := by
  induction bs with
  | nil =>
    intro left replaced
    cases left <;> exact h
  | cons b bs ih =>
    obtain ⟨hb, hbs⟩ := not_or.1 (mem_cons.not.1 h)
    intro left replaced
    cases left with
    | succ => exact mem_cons.not.2 (not_or.2 ⟨hb, ih hbs⟩)
    | zero =>
      rw [toValidFrom]
      split
      · refine mem_append.not.2 (not_or.2 ⟨?_, ih hbs⟩)
        cases replaced <;> decide
      · exact mem_cons.not.2 (not_or.2 ⟨hb, ih hbs⟩)

/-- The number that the bytes of a character stand for. -/
def scalar : List UInt8 → Nat
  | [] => 0
  | [b] => b.toNat
  | [b, c] => (b.toNat - 0xC0) * 64 + (c.toNat - 0x80)
  | [b, c, d] => (b.toNat - 0xE0) * 4096 + (c.toNat - 0x80) * 64 + (d.toNat - 0x80)
  | b :: c :: d :: e :: _ =>
      (b.toNat - 0xF0) * 262144 + (c.toNat - 0x80) * 4096 + (d.toNat - 0x80) * 64 + (e.toNat - 0x80)

/-- The characters of bytes, with the bytes that are left of one; a byte of none is
`utf8.RuneError`. -/
def charsFrom : (left : Nat) → List UInt8 → List Char
  | _, [] => []
  | left + 1, _ :: bs => charsFrom left bs
  | 0, b :: bs =>
      match charLen (b :: bs) with
      | 0 => Char.ofNat 0xFFFD :: charsFrom 0 bs
      | left + 1 => Char.ofNat (scalar ((b :: bs).take (left + 1))) :: charsFrom left bs

/-- `range string(b)`. -/
def chars (bs : List UInt8) : List Char := charsFrom 0 bs

example : chars [0x61, 0xC3, 0xA9, 0xFF, 0xE2, 0x82, 0xAC] = "aé\uFFFD€".toList := by decide +kernel

end Moov.Utf8
