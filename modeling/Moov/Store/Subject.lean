import Mathlib.Tactic.Lemma
/-!
# Subjects, references and thread keys

`store/threading.go` and `store/threadkey.go`: how a subject is reduced to the key that
the subject fallback compares, which ancestors a message names, and the durable key of
a conversation.  Go's strings are valid UTF-8 here (`sanitizeText`), so that they are
lists of characters; lengths that the source takes in bytes are taken in bytes.
-/

namespace Moov.Threads

/-- What the standard library supplies: `unicode.ToLower`, `unicode.IsDigit`, and the first
sixteen bytes of the SHA-256 of a text, in hexadecimal. -/
structure Texts where
  toLower : Char → Char
  isDigit : Char → Bool
  digest : String → String

/-- `unicode.IsSpace`. -/
def isSpace (c : Char) : Bool :=
  let n := c.toNat
  (9 ≤ n && n ≤ 13) || n == 0x20 || n == 0x85 || n == 0xA0 || n == 0x1680 ||
    (0x2000 ≤ n && n ≤ 0x200A) || n == 0x2028 || n == 0x2029 || n == 0x202F ||
    n == 0x205F || n == 0x3000

/-- `len` of a string. -/
def byteLen : List Char → Nat
  | [] => 0
  | c :: s => c.utf8Size + byteLen s

/-- `strings.TrimSpace`. -/
def trimSpace (s : List Char) : List Char :=
  ((s.dropWhile isSpace).reverse.dropWhile isSpace).reverse

/-- What stands before the first `sep` and what stands after it. -/
def cutAt (sep : Char) : List Char → Option (List Char × List Char)
  | [] => none
  | c :: s =>
      if c = sep then some ([], s) else (cutAt sep s).map fun p => (c :: p.1, p.2)

/-- `truncateRunes`: the longest run of whole characters within the bound. -/
def truncateRunes : List Char → Nat → List Char
  | [], _ => []
  | c :: s, maxBytes =>
      if c.utf8Size ≤ maxBytes then c :: truncateRunes s (maxBytes - c.utf8Size) else []

/-! ## `NormalizeSubject` -/

def maxSubjectKeyLength : Nat := 512

def minSubjectKeyLength : Nat := 3

/-- The tokens of a reply or a forward. -/
def replyPrefixes : List String :=
  ["re", "fw", "fwd", "forward", "rv", "res", "resp", "reenv", "enc", "r", "ref", "tr", "rif",
    "aw", "wg", "antw", "doorst", "sv", "vs", "vb", "vl"]

section Normalize

variable (txt : Texts)

/-- `stripCounter`: `re[2]` and `re(3)` are `re`. -/
def stripCounter (token : List Char) : List Char :=
  if byteLen token < 3 then token
  else
    let strip (opening : Char) (rest : List Char) : List Char :=
      -- The token is read from its end: `rest` is what stands before the bracket.
      match cutAt opening rest with
      | none | some (_, []) => token
      | some (counter, before) =>
          if counter.all txt.isDigit then trimSpace before.reverse else token
    match token.reverse with
    | ']' :: rest => strip '[' rest
    | ')' :: rest => strip '(' rest
    | _ => token

/-- `stripOnePrefix`: the remainder, and whether the prefix marks a reply. -/
def stripOnePrefix (s : List Char) : Option (List Char × Bool) :=
  match s.dropWhile isSpace with
  | [] => none
  | '[' :: s =>
      match cutAt ']' s with
      | none | some ([], _) => none
      | some (inner, rest) => if '[' ∈ inner then none else some (rest, false)
  | s =>
      match cutAt ':' s with
      | none => none
      | some (before, rest) =>
          if byteLen before = 0 ∨ 16 < byteLen before then none
          else
            let token := stripCounter txt ((trimSpace before).map txt.toLower)
            if String.ofList token ∈ replyPrefixes then some (rest, true) else none

/-- The loop over the prefixes.  Each one stripped is a character at least, so that the
length of the subject is enough fuel. -/
def stripPrefixes : Nat → List Char → Bool → List Char × Bool
  | 0, s, isReply => (s, isReply)
  | fuel + 1, s, isReply =>
      match stripOnePrefix txt s with
      | none => (s, isReply)
      | some (rest, marker) => stripPrefixes fuel rest (isReply || marker)

/-- The loop of `collapseSubject`: `space` is set when white space was passed over, and
`started` when something was written. -/
def collapseFrom (space started : Bool) : List Char → List Char
  | [] => []
  | c :: s =>
      if isSpace c then collapseFrom true started s
      else if space && started then ' ' :: txt.toLower c :: collapseFrom false true s
      else txt.toLower c :: collapseFrom false true s

/-- `NormalizeSubject`: the key, and whether a marker of a reply was there. -/
def normalizeSubject (subject : String) : String × Bool :=
  let s := trimSpace subject.toList
  let (rest, isReply) := stripPrefixes txt s.length s false
  let key := collapseFrom txt false false rest
  if key.length < minSubjectKeyLength then ("", isReply)
  else (String.ofList (truncateRunes key maxSubjectKeyLength), isReply)

end Normalize

/-! ## Candidates -/

/-- The headers that threading reads. -/
structure ThreadCandidate where
  messageID : String
  references : List String
  subject : String
deriving DecidableEq

namespace ThreadCandidate

/-- `referenceSet`: the distinct ancestors that the candidate names, itself apart. -/
def referenceSet (c : ThreadCandidate) : List String :=
  (c.references.filter fun ref => ref ≠ "" ∧ ref ≠ c.messageID).eraseDups

lemma mem_referenceSet {c : ThreadCandidate} {ref : String} :
    ref ∈ c.referenceSet ↔ ref ∈ c.references ∧ ref ≠ "" ∧ ref ≠ c.messageID := by
  simp [referenceSet]

end ThreadCandidate

/-! ## `ThreadKey` -/

def maxThreadKeyLength : Nat := 512

def truncateThreadKey (key : String) : String :=
  String.ofList (truncateRunes key.toList maxThreadKeyLength)

/-- `strings.TrimSpace`, on strings. -/
def trimmed (s : String) : String := String.ofList (trimSpace s.toList)

/-- `ThreadKey`: the Message-ID, or else the first reference, or else a digest of the
subject. -/
def threadKey (txt : Texts) (c : ThreadCandidate) : String :=
  if trimmed c.messageID ≠ "" then truncateThreadKey ("mid:" ++ trimmed c.messageID)
  else
    match c.references.find? fun ref => trimmed ref ≠ "" with
    | some ref => truncateThreadKey ("ref:" ++ trimmed ref)
    | none => "sub:" ++ txt.digest (normalizeSubject txt c.subject).1

end Moov.Threads
