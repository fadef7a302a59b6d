import Moov.Parser.Scan

/-!
# Charsets

`parser/charset.go`: bytes in a declared, detected or assumed charset, as UTF-8.

* `Charsets` — the tables of the encoding libraries and the detector: any decoders that write
  UTF-8;
* `decodeCharset` — the cascade: the declaration, the detector, windows-1252;
* `decodeCharset_valid` — what it writes is UTF-8, whatever the bytes and the declaration.
-/

namespace Moov.Parser

open Text Utf8

/-! ## Decoders -/

/-- An `encoding.Decoder`, as `transform.Bytes` runs it: what it converts of the bytes, and
whether it stops at a fault.  What it writes is UTF-8. -/
structure Decoder where
  run : Data → Data × Bool
  valid : ∀ raw, Utf8.valid (run raw).1

/-- `charmap.Windows1252`. -/
def windows1252Decoder : Decoder where
  run raw := (encode (raw.map windows1252), false)
  valid _ := valid_encode _

/-- The encodings of `golang.org/x/text` by name, its decoders for UTF-16 with a byte order
mark, and the best guess of `chardet` with its confidence. -/
structure Charsets where
  lookupEncoding : List Char → Option Decoder
  utf16BE : Decoder
  utf16LE : Decoder
  detectBest : Data → Option (List Char × Int)

/-- The search of `decodePrefix` between two lengths. -/
def searchPrefix (enc : Decoder) (raw : Data) : (fuel : Nat) → (lo hi : Int) → Data → Data
  | 0, _, _, best => best
  | fuel + 1, lo, hi, best =>
      if hi < lo then best
      else
        let mid := (lo + hi) / 2
        let out := enc.run (raw.take mid.toNat)
        if out.2 then searchPrefix enc raw fuel lo (mid - 1) best
        else searchPrefix enc raw fuel (mid + 1) hi out.1

/-- `decodePrefix`.  The range gets shorter with each turn. -/
def decodePrefix (enc : Decoder) (raw : Data) : Data :=
  searchPrefix enc raw (raw.length + 2) 0 raw.length []

/-- `transformBytes`. -/
def transformBytes (enc : Decoder) (raw : Data) : Data × Bool :=
  if (enc.run raw).2 && (enc.run raw).1 = [] then (decodePrefix enc raw, true) else enc.run raw

/-! ## Names -/

/-- `normalizeCharsetName`. -/
def normalizeCharsetName (name : List Char) : List Char :=
  let name := trimSpace (trimChars ['"', '\''] (trimSpace name))
  if name = [] then []
  else
    let name :=
      if name.any fun c => c = ';' || c = ',' then
        trimSpace (name.takeWhile fun c => !(c = ';' || c = ','))
      else name
    let lower := toLower name
    if lower = "x-user-defined".toList then "windows-1252".toList
    else if lower = "iso-8859-8-i".toList || lower = "iso-8859-8i".toList then "iso-8859-8".toList
    else if lower = "cp932".toList || lower = "windows-932".toList then "shift_jis".toList
    else if lower = "utf8".toList then "utf-8".toList
    else lower

/-- `isUTF8Name`. -/
def isUTF8Name (name : List Char) : Bool :=
  name ∈ ["utf-8".toList, "utf8".toList, "unicode-1-1-utf-8".toList, "csutf8".toList]

/-! ## The cascade -/

/-- The defects that decoding records. -/
inductive CharsetDefect
  | charsetGuessed
  | partialDecode
  | charsetUnknown
deriving DecidableEq

/-- `charsetResult`. -/
structure CharsetResult where
  text : Data
  charset : List Char
  guessed : Bool
  defects : List CharsetDefect

variable (cs : Charsets)

/-- `detectCharset`. -/
def detectCharset (raw : Data) : Option (List Char) :=
  if raw.length < 16 then none
  else
    match cs.detectBest (raw.take 65536) with
    | none => none
    | some (charset, confidence) => if confidence < 30 then none else some (toLower charset)

/-- The last step of `detectAndDecode`. -/
def fallThrough (raw : Data) (prior : List CharsetDefect) : CharsetResult :=
  ⟨(transformBytes windows1252Decoder raw).1, "windows-1252".toList, true, prior ++
    [.charsetGuessed]⟩

/-- `detectAndDecode`. -/
def detectAndDecode (raw : Data) (prior : List CharsetDefect) : CharsetResult :=
  match detectCharset cs raw with
  | none => fallThrough raw prior
  | some name =>
      match cs.lookupEncoding name with
      | none => fallThrough raw prior
      | some enc =>
          let out := transformBytes enc raw
          if !out.2 || 0 < out.1.length then
            ⟨out.1, name, true, prior ++ [.charsetGuessed] ++
              (if out.2 then [.partialDecode] else [])⟩
          else fallThrough raw prior

/-- `decodeCharset`. -/
def decodeCharset (raw : Data) (declared : List Char) : CharsetResult :=
  if raw = [] then ⟨raw, if declared = [] then "utf-8".toList else declared, false, []⟩
  else
    let normalized := normalizeCharsetName declared
    if normalized ≠ [] then
      match cs.lookupEncoding normalized with
      | some enc =>
          if isUTF8Name normalized then
            if Utf8.valid raw then ⟨raw, "utf-8".toList, false, []⟩
            else detectAndDecode cs raw [.charsetGuessed]
          else
            let out := transformBytes enc raw
            ⟨out.1, declared, false, if out.2 then [.partialDecode] else []⟩
      | none => detectAndDecode cs raw [.charsetUnknown]
    else if Utf8.valid raw then ⟨raw, "utf-8".toList, false, []⟩
    else detectAndDecode cs raw []

/-- `stripBOM`. -/
def stripBOM : Data → Data
  | 0xEF :: 0xBB :: 0xBF :: rest => rest
  | 0xFE :: 0xFF :: rest => rest
  | 0xFF :: 0xFE :: rest => rest
  | b => b

/-- `utf16BOMDecode`. -/
def utf16BOMDecode (raw : Data) : Option Data :=
  let decode (enc : Decoder) :=
    let out := transformBytes enc raw
    if out.2 && out.1 = [] then none else some out.1
  match raw with
  | 0xFE :: 0xFF :: _ => decode cs.utf16BE
  | 0xFF :: 0xFE :: _ => decode cs.utf16LE
  | _ => none

/-- `sanitizeBytes`. -/
def sanitizeBytes (b : Data) : Data := b.filter (· ≠ 0)

/-! ## What is written is UTF-8 -/

variable {cs} {raw : Data} {enc : Decoder} {declared : List Char}

lemma searchPrefix_valid {fuel : Nat} :
    ∀ {lo hi best}, Utf8.valid best → Utf8.valid (searchPrefix enc raw fuel lo hi best) := by
  induction fuel with
  | zero => exact fun h => h
  | succ fuel ih =>
    intro lo hi best h
    rw [searchPrefix]
    split
    · exact h
    · dsimp only
      split
      · exact ih h
      · exact ih (enc.valid _)

lemma transformBytes_valid (enc : Decoder) (raw : Data) :
    Utf8.valid (transformBytes enc raw).1 := by
  unfold transformBytes
  split
  · exact searchPrefix_valid valid_nil
  · exact enc.valid raw

lemma detectAndDecode_valid (raw : Data) (prior : List CharsetDefect) :
    Utf8.valid (detectAndDecode cs raw prior).text := by
  unfold detectAndDecode
  split
  · exact transformBytes_valid _ raw
  · split
    · exact transformBytes_valid _ raw
    · dsimp only
      split
      · exact transformBytes_valid _ raw
      · exact transformBytes_valid _ raw

theorem decodeCharset_valid (raw : Data) (declared : List Char) :
    Utf8.valid (decodeCharset cs raw declared).text := by
  unfold decodeCharset
  split
  · rename_i hnil
    rw [hnil]
    exact valid_nil
  · dsimp only
    split
    · split
      · split
        · split
          · assumption
          · exact detectAndDecode_valid raw _
        · exact transformBytes_valid _ raw
      · exact detectAndDecode_valid raw _
    · split
      · assumption
      · exact detectAndDecode_valid raw _

lemma utf16BOMDecode_valid {text : Data} (h : utf16BOMDecode cs raw = some text) :
    Utf8.valid text := by
  unfold utf16BOMDecode at h
  dsimp only at h
  split at h
  · split at h
    · cases h
    · cases h
      exact transformBytes_valid _ _
  · split at h
    · cases h
    · cases h
      exact transformBytes_valid _ _
  · cases h

lemma stripBOM_valid (h : Utf8.valid raw) : Utf8.valid (stripBOM raw) := by
  unfold stripBOM
  split
  · exact valid_drop_bom h
  · exact absurd h (not_valid_of_next (by decide))
  · exact absurd h (not_valid_of_next (by decide))
  · exact h

lemma sanitizeBytes_valid (h : Utf8.valid raw) : Utf8.valid (sanitizeBytes raw) := valid_filter h

lemma zero_not_mem_sanitizeBytes (raw : Data) : 0 ∉ sanitizeBytes raw := by
  intro h
  simpa using (List.mem_filter.1 h).2

end Moov.Parser
