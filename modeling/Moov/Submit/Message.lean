import Mathlib.Data.Nat.Digits.Defs

/-!
# Preparing a draft for transmission

`PrepareTransmission` turns the bytes of a draft into the bytes that travel:
line endings become CRLF, every `Bcc` field goes, and `Message-ID` and `Date`
are put in front when the header section has none.  This file is the byte-level
model of `internal/submit/message.go`; strings and byte slices are both lists
of bytes here.

Two things of the language are spelled out because the results depend on them:
`strings.TrimSpace` trims Unicode white space, so its runes are listed in their
UTF-8 encoding, and `strings.EqualFold` between two strings of the same number
of bytes, one of them ASCII, is ASCII case folding.
-/

namespace Moov.Submit

abbrev Bytes := List UInt8

def CR : UInt8 := 13
def LF : UInt8 := 10
def SP : UInt8 := 32
def HT : UInt8 := 9
def COLON : UInt8 := 58

def crlf : Bytes := [CR, LF]

def ofChars (cs : List Char) : Bytes := cs.map Char.toUInt8

def bccName : Bytes := ofChars ['B', 'c', 'c']
def messageIDName : Bytes := ofChars ['M', 'e', 's', 's', 'a', 'g', 'e', '-', 'I', 'D']
def dateName : Bytes := ofChars ['D', 'a', 't', 'e']

/-! ## Line endings -/

/-- The check at the start of `normalizeCRLF`: every LF follows a CR and every
CR is followed by an LF.  `prev` is the byte before. -/
def cleanFrom (prev : Option UInt8) : Bytes → Bool
  | [] => true
  | c :: rest =>
      (if c = LF then prev = some CR else if c = CR then rest.head? = some LF else true) &&
        cleanFrom (some c) rest

/-- The rewriting loop of `normalizeCRLF`. -/
def rewriteCRLF : Bytes → Bytes
  | [] => []
  | [c] => if c = CR ∨ c = LF then crlf else [c]
  | c :: d :: rest =>
      if c = CR then
        if d = LF then crlf ++ rewriteCRLF rest else crlf ++ rewriteCRLF (d :: rest)
      else if c = LF then crlf ++ rewriteCRLF (d :: rest)
      else c :: rewriteCRLF (d :: rest)

/-- `normalizeCRLF`: input that is clean already is returned as it is. -/
def normalizeCRLF (raw : Bytes) : Bytes :=
  if cleanFrom none raw then raw else rewriteCRLF raw

/-- `splitLines`: each line keeps its terminator; only the last may have none. -/
def splitLines : Bytes → List Bytes
  | [] => []
  | c :: rest =>
      if c = LF then [LF] :: splitLines rest
      else
        match splitLines rest with
        | [] => [[c]]
        | line :: lines => (c :: line) :: lines

/-! ## Header and body -/

/-- The first CRLFCRLF: what is before it and what is after it. -/
def cutBlankLine : Bytes → Option (Bytes × Bytes)
  | [] => none
  | c :: rest =>
      if (crlf ++ crlf).isPrefixOf (c :: rest) then some ([], (c :: rest).drop 4)
      else (cutBlankLine rest).map fun p => (c :: p.1, p.2)

/-- `splitHeaderBody`; a body of `none` is the nil slice. -/
def splitHeaderBody (raw : Bytes) : Bytes × Option Bytes :=
  match cutBlankLine raw with
  | some (before, after) => (before ++ crlf, some after)
  | none => (raw, none)

def lowerASCII (c : UInt8) : UInt8 := if 65 ≤ c ∧ c ≤ 90 then c + 32 else c

def lower (b : Bytes) : Bytes := b.map lowerASCII

/-- `cutFold`: what follows `name` in front of the line, whatever its case. -/
def cutFold (line name : Bytes) : Option Bytes :=
  if line.length < name.length then none
  else if lower (line.take name.length) ≠ lower name then none
  else some (line.drop name.length)

def isWSP (c : UInt8) : Bool := c == SP || c == HT

/-- `isHeaderNamed`: the name, then white space, then the colon. -/
def isHeaderNamed (line name : Bytes) : Bool :=
  match cutFold line name with
  | none => false
  | some rest => (rest.dropWhile isWSP).head? == some COLON

/-- A line that continues the field before it. -/
def isContinuation (line : Bytes) : Bool :=
  match line with
  | [] => false
  | c :: _ => isWSP c

/-- The loop of `stripHeader` over the lines of the header block. -/
def stripLines (name : Bytes) : Bool → List Bytes → List Bytes
  | _, [] => []
  | skipping, line :: lines =>
      if isContinuation line then
        if skipping then stripLines name skipping lines
        else line :: stripLines name skipping lines
      else if isHeaderNamed line name then stripLines name true lines
      else line :: stripLines name false lines

/-- `stripHeader`. -/
def stripHeader (raw name : Bytes) : Bytes :=
  let (header, body) := splitHeaderBody raw
  (stripLines name false (splitLines header)).flatten ++ match body with
    | none => []
    | some body => crlf ++ body

/-! ## Reading a field -/

/-- The runes `unicode.IsSpace` accepts, in UTF-8. -/
def spaceRunes : List Bytes :=
  [[9], [10], [11], [12], [13], [32], [0xC2, 0x85], [0xC2, 0xA0], [0xE1, 0x9A, 0x80],
    [0xE2, 0x80, 0x80], [0xE2, 0x80, 0x81], [0xE2, 0x80, 0x82], [0xE2, 0x80, 0x83],
    [0xE2, 0x80, 0x84], [0xE2, 0x80, 0x85], [0xE2, 0x80, 0x86], [0xE2, 0x80, 0x87],
    [0xE2, 0x80, 0x88], [0xE2, 0x80, 0x89], [0xE2, 0x80, 0x8A], [0xE2, 0x80, 0xA8],
    [0xE2, 0x80, 0xA9], [0xE2, 0x80, 0xAF], [0xE2, 0x81, 0x9F], [0xE3, 0x80, 0x80]]

/-- Drop runes of the set from the front, as long as there are any. -/
def trimFront (runes : List Bytes) : Nat → Bytes → Bytes
  | 0, b => b
  | fuel + 1, b =>
      match runes.find? (·.isPrefixOf b) with
      | none => b
      | some r => trimFront runes fuel (b.drop r.length)

/-- `strings.TrimSpace`. -/
def trimSpace (b : Bytes) : Bytes :=
  let l := trimFront spaceRunes b.length b
  (trimFront (spaceRunes.map List.reverse) l.length l.reverse).reverse

/-- `strings.TrimRight(b, "\r\n")`. -/
def trimBreaks (b : Bytes) : Bytes := (b.reverse.dropWhile fun c => c == CR || c == LF).reverse

/-- The value of a field, unfolded: its own line and the continuations after it. -/
def fieldValue (line : Bytes) (lines : List Bytes) : Bytes :=
  let first := trimBreaks ((line.dropWhile (· != COLON)).drop 1)
  let more := (lines.takeWhile isContinuation).map fun next => SP :: trimSpace (trimBreaks next)
  trimSpace (first ++ more.flatten)

/-- `headerValue` over the lines of a header block. -/
def headerValueOf (name : Bytes) : List Bytes → Bytes
  | [] => []
  | line :: lines =>
      if isHeaderNamed line name then fieldValue line lines else headerValueOf name lines

/-- `headerValue`: the first field of that name, empty when there is none. -/
def headerValue (header name : Bytes) : Bytes := headerValueOf name (splitLines header)

/-! ## The two fields that are added -/

/-- The Message-ID kept on the intent row: text with no line break in it. -/
structure MessageID where
  text : Bytes
  no_cr : CR ∉ text
  no_lf : LF ∉ text

def digit (n : Nat) : UInt8 := (48 + n % 10).toUInt8

def twoDigits (n : Nat) : Bytes := [digit (n / 10), digit n]

/-- The year, padded to four digits. -/
def yearDigits (y : Nat) : Bytes :=
  if y < 10000 then [digit (y / 1000), digit (y / 100), digit (y / 10), digit y]
  else (Nat.digits 10 y).reverse.map digit

def weekdays : List (List Char) :=
  [['T', 'h', 'u'], ['F', 'r', 'i'], ['S', 'a', 't'], ['S', 'u', 'n'], ['M', 'o', 'n'],
    ['T', 'u', 'e'], ['W', 'e', 'd']]

def months : List (List Char) :=
  [['J', 'a', 'n'], ['F', 'e', 'b'], ['M', 'a', 'r'], ['A', 'p', 'r'], ['M', 'a', 'y'],
    ['J', 'u', 'n'], ['J', 'u', 'l'], ['A', 'u', 'g'], ['S', 'e', 'p'], ['O', 'c', 't'],
    ['N', 'o', 'v'], ['D', 'e', 'c']]

/-- Year, month (from 1) and day of a day counted from 1970-01-01. -/
def civil (days : Nat) : Nat × Nat × Nat :=
  let z := days + 719468
  let era := z / 146097
  let doe := z % 146097
  let yoe := (doe - doe / 1460 + doe / 36524 - doe / 146096) / 365
  let doy := doe - (365 * yoe + yoe / 4 - yoe / 100)
  let mp := (5 * doy + 2) / 153
  let d := doy - (153 * mp + 2) / 5 + 1
  let m := if mp < 10 then mp + 3 else mp - 9
  (yoe + era * 400 + (if m ≤ 2 then 1 else 0), m, d)

/-- `createdAt.UTC().Format(rfc5322Date)`, for a time in seconds since 1970. -/
def formatDate (t : Nat) : Bytes :=
  let days := t / 86400
  let (y, m, d) := civil days
  ofChars (weekdays.getD (days % 7) ['T', 'h', 'u']) ++ ofChars [',', ' '] ++ twoDigits d ++ [SP] ++
    ofChars (months.getD (m - 1) ['J', 'a', 'n']) ++ [SP] ++ yearDigits y ++ [SP] ++
    twoDigits (t / 3600 % 24) ++ [COLON] ++ twoDigits (t / 60 % 60) ++ [COLON] ++
    twoDigits (t % 60) ++ ofChars [' ', '+', '0', '0', '0', '0']

def messageIDLine (id : MessageID) : Bytes :=
  messageIDName ++ ofChars [':', ' ', '<'] ++ id.text ++ ofChars ['>'] ++ crlf

def dateLine (createdAt : Nat) : Bytes :=
  dateName ++ ofChars [':', ' '] ++ formatDate createdAt ++ crlf

/-- The lines put in front of a message with this header block. -/
def addedLines (id : MessageID) (createdAt : Nat) (header : Bytes) : List Bytes :=
  (if headerValue header messageIDName = [] ∧ id.text ≠ [] then [messageIDLine id] else []) ++
    (if headerValue header dateName = [] then [dateLine createdAt] else [])

/-- `PrepareTransmission`. -/
def prepareTransmission (raw : Bytes) (id : MessageID) (createdAt : Nat) : Bytes :=
  let out := stripHeader (normalizeCRLF raw) bccName
  (addedLines id createdAt (splitHeaderBody out).1).flatten ++ out

end Moov.Submit
