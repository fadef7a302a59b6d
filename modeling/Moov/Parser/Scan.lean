import Moov.Lib.Utf8

/-!
# Looking at the raw message

The scans of `parser/prescan.go` and `parser/normalize.go`, which look at the bytes of a
message before and beside the libraries.
-/

namespace Moov.Parser

open Text Utf8

abbrev Data := List UInt8

/-- The bytes of an ASCII text. -/
def ascii (s : String) : Data := s.toList.map fun c => UInt8.ofNat c.toNat

/-! ## `prescan.go` -/

/-- `lowerASCII`. -/
def lowerASCII (c : UInt8) : UInt8 := if 0x41 ≤ c ∧ c ≤ 0x5A then c + 32 else c

/-- `hasPrefixFoldASCII`. -/
def hasPrefixFoldASCII (b start : Data) : Bool :=
  (start.map lowerASCII).isPrefixOf (b.map lowerASCII)

def isBlank (c : UInt8) : Bool := c = 0x20 || c = 0x09

/-- The loop of `prescanDepth`, with the bytes of a match that are left. -/
def countBoundaries : (left : Nat) → Data → Nat
  | _, [] => 0
  | left + 1, _ :: bs => countBoundaries left bs
  | 0, b :: bs =>
      if hasPrefixFoldASCII (b :: bs) (ascii "boundary") then
        (if (((b :: bs).drop 8).dropWhile isBlank).head? = some 0x3D then 1 else 0) +
          countBoundaries 7 bs
      else countBoundaries 0 bs

/-- `prescanDepth`. -/
def prescanDepth (raw : Data) : Nat := countBoundaries 0 (raw.take 1048576)

/-- `bytes.Count`, with the bytes of a match that are left. -/
def count (pattern : Data) : (left : Nat) → Data → Nat
  | _, [] => 0
  | left + 1, _ :: bs => count pattern left bs
  | 0, b :: bs =>
      if pattern.isPrefixOf (b :: bs) then 1 + count pattern (pattern.length - 1) bs
        else count pattern 0 bs

/-- `isUnterminatedNest`. -/
def isUnterminatedNest (raw : Data) (declared : Nat) : Bool :=
  if declared = 0 then false
  else
    let closes := count [0x2D, 0x2D, 0x0D, 0x0A] 0 raw + count [0x2D, 0x2D, 0x0A] 0 raw
    let closes := if [0x2D, 0x2D].isSuffixOf raw then closes + 1 else closes
    closes < declared

/-! ## `normalize.go` -/

/-- `normalizeLineEndings`. -/
def normalizeLineEndings (raw : Data) : Data :=
  if 0x0D ∈ raw ∧ 0x0A ∉ raw then raw.flatMap fun c => if c = 0x0D then [0x0D, 0x0A]
    else [c] else raw

/-- `repairHeaderName` accepts the name. -/
def repairHeaderName (name : Data) : Bool :=
  let trimmed := trimSpace (chars name)
  trimmed ≠ [] && !trimmed.any fun c => c = ' ' || c = '\t'

/-- `bytes.SplitN(b, "\n", n)`. -/
def splitLines : (n : Nat) → (line : Data) → Data → List Data
  | _, line, [] => [line]
  | n, line, b :: bs =>
      if b = 0x0A ∧ 1 < n then line :: splitLines (n - 1) [] bs else splitLines n (line ++ [b]) bs

/-- `bytes.TrimRight(line, cutset)`. -/
def trimRight (cutset : List UInt8) (line : Data) : Data :=
  (line.reverse.dropWhile (· ∈ cutset)).reverse

/-- The loop of `looksLikeHeaderBlock`. -/
def seesHeader : List Data → Bool
  | [] => false
  | line :: lines =>
      match trimRight [0x0D] line with
      | [] => false
      | c :: rest =>
          let name := (c :: rest).takeWhile (· ≠ 0x3A)
          (!isBlank c && 0x3A ∈ c :: rest && name ≠ [] && repairHeaderName name) || seesHeader lines

/-- `looksLikeHeaderBlock`. -/
def looksLikeHeaderBlock (b : Data) : Bool := seesHeader (splitLines 6 [] (b.take 8192))

/-- The loop of `splitHeaderBody`, with the lines and the part of a line it has passed. -/
def splitHeaderBodyFrom (passed line : Data) : Data → Data × Option Data
  | [] =>
      if line ≠ [] ∧ trimRight [0x20, 0x09, 0x0D] line = [] then (passed, some [])
        else (passed ++ line, none)
  | b :: bs =>
      if b = 0x0A then
        if trimRight [0x20, 0x09, 0x0D] line = [] then (passed, some bs)
        else splitHeaderBodyFrom (passed ++ line ++ [b]) [] bs
      else splitHeaderBodyFrom passed (line ++ [b]) bs

/-- `splitHeaderBody`; the body is `nil` when there is no blank line. -/
def splitHeaderBody (raw : Data) : Data × Option Data := splitHeaderBodyFrom [] [] raw

/-- `headersEndMidLine`. -/
def headersEndMidLine (raw : Data) : Bool :=
  raw ≠ [] && !(raw.getLast? = some 0x0A || raw.getLast? = some 0x0D) &&
    ((splitHeaderBody raw).2.isNone && looksLikeHeaderBlock raw)

end Moov.Parser
