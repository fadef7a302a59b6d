import Mathlib.Data.List.Dedup
import Moov.Lib.Text

/-!
# Keywords

The four vocabularies of a message's flags and the tables between them.

* `interpretEmailPatch` (`jmap/mail/email_set.go`) reads what an update asks for, and
  `imapNameForKeyword` (`mapping.go`) puts it into the names the writer takes;
* `flagToGoIMAP` (`imap/convert.go`) makes a flag of the server of each name;
* `splitFlags` and `storeFlags` make a row of what the server answers;
* `jmapKeywords` shows the row to the client.

The server is what its protocol says of it: flags are compared without regard to case, a
`STORE` adds, removes or replaces them, and its answer may spell and order them as it likes
(`Stored`).
-/

namespace Moov.Keywords

open Text

abbrev Name := List Char

/-! ## `imap/convert.go` -/

/-- The system flags that are stored. -/
inductive System
  | seen
  | answered
  | flagged
  | deleted
  | draft
deriving DecidableEq

def System.all : List System := [.seen, .answered, .flagged, .deleted, .draft]

/-- The keys of `systemFlags`. -/
def System.bare : System → Name
  | .seen => "seen".toList
  | .answered => "answered".toList
  | .flagged => "flagged".toList
  | .deleted => "deleted".toList
  | .draft => "draft".toList

/-- The values of `systemFlags`. -/
def System.wire : System → Name
  | .seen => "\\Seen".toList
  | .answered => "\\Answered".toList
  | .flagged => "\\Flagged".toList
  | .deleted => "\\Deleted".toList
  | .draft => "\\Draft".toList

/-- `systemFlags`. -/
def systemFlags (name : Name) : Option System := System.all.find? fun s => s.bare = name

/-- `flagToGoIMAP`. -/
def flagToGoIMAP (name : Name) : Name :=
  match systemFlags (toLower name) with
  | some f => f.wire
  | none => name

/-- `flagsToGoIMAP`. -/
def flagsToGoIMAP (names : List Name) : List Name := names.map flagToGoIMAP

/-- One turn of `splitFlags`: a system flag, a keyword, or neither. -/
def splitFlag : Name → Option (System ⊕ Name)
  | '\\' :: rest =>
      if toLower rest = "recent".toList then none
      else
        match systemFlags (toLower rest) with
        | some s => some (.inl s)
        | none => some (.inr ('\\' :: rest))
  | s => some (.inr s)

/-- `splitFlags`. -/
def splitFlags (flags : List Name) : List System × List Name :=
  ((flags.filterMap splitFlag).filterMap Sum.getLeft?,
    (flags.filterMap splitFlag).filterMap Sum.getRight?)

/-! ## The stored row -/

/-- The flags of a row: the bits of the mask in their order, and the keywords. -/
structure Row where
  flags : List System
  keywords : List Name
deriving DecidableEq

/-- `storeFlags`. -/
def storeFlags (flags : List System) : List System := System.all.filter (· ∈ flags)

/-- `sanitizeText`. -/
def sanitizeText (s : Name) : Name := s.filter fun c => c.toNat ≠ 0

/-- What `reflectFlags` writes of the flags of the server. -/
def reflectFlags (flags : List Name) : Row :=
  ⟨storeFlags (splitFlags flags).1, (splitFlags flags).2.map sanitizeText⟩

/-- `invisibleFlags`. -/
def invisibleFlags (st : Row) : List Name :=
  (if .deleted ∈ st.flags then ["deleted".toList] else []) ++ st.keywords.filter fun k =>
    k.head? = some '\\'

/-! ## `mapping.go` -/

/-- `KeywordSeen` and so on; a deleted message has no keyword. -/
def System.keyword : System → Option Name
  | .seen => some "$seen".toList
  | .answered => some "$answered".toList
  | .flagged => some "$flagged".toList
  | .deleted => none
  | .draft => some "$draft".toList

/-- `imapFlagKeyword`. -/
def imapFlagKeyword : Name → Option (Option Name)
  | '\\' :: rest => some ((systemFlags (toLower rest)).bind System.keyword)
  | _ => none

/-- What the loop of `jmapKeywords` makes of one stored keyword. -/
def storedKeyword (k : Name) : Option Name :=
  let k := trimSpace k
  if k = [] then none
  else
    match imapFlagKeyword k with
    | some norm => norm
    | none => some (if k.head? = some '$' then toLower k else k)

/-- `jmapKeywords`. -/
def jmapKeywords (row : Row) : List Name :=
  sortStrings (row.flags.filterMap System.keyword ++ row.keywords.filterMap storedKeyword).dedup

/-- The system keyword a keyword is. -/
def systemKeyword (k : Name) : Option System :=
  System.all.find? fun s => s.keyword = some (toLower k)

/-- `imapNameForKeyword`. -/
def imapNameForKeyword (k : Name) : Name :=
  match systemKeyword k with
  | some s => s.bare
  | none => if k.head? = some '$' then toLower k else k

/-- `validKeyword`. -/
def validKeyword (k : Name) : Bool :=
  k ≠ [] && byteLen k ≤ 255 && k.all fun c => !(c.toNat ≤ 0x1f || c.toNat = 0x7f || c = ' ') &&
      !(c ∈ ['(', ')', '\x7b', ']', '%', '*', '"', '\\'])

/-! ## `email_set.go` -/

/-- The values of a member of a set, as `boolPatchValue` tells them apart. -/
inductive Member
  | yes
  | null
  | other
deriving DecidableEq

/-- The value of a key of a patch. -/
inductive Value
  | member (m : Member)
  | object (members : List (Name × Member))

/-- A key of a patch for keywords, as `splitPatchPointer` splits it: the whole set, or one of
its members, with the key as it is written. -/
inductive Pointer
  | keywords
  | keyword (key k : Name)

/-- The half of `emailUpdate` that is about keywords. -/
structure EmailUpdate where
  kwReplace : Bool
  kwSet : List Name
  kwAdd : List Name
  kwRemove : List Name
  sawKeywords : Bool
deriving DecidableEq

inductive SetError
  | invalidPatch
  | invalidProperties (properties : List Name)
deriving DecidableEq

def badMembers (members : List (Name × Member)) : List Name :=
  (members.filter fun e => !(e.2 = .yes && validKeyword e.1)).map fun e => "keywords/".toList ++ e.1

/-- `parseKeywordSet`. -/
def parseKeywordSet : Value → Except SetError (List Name)
  | .member _ => .error (.invalidProperties ["keywords".toList])
  | .object members =>
      if badMembers members ≠ [] then
        .error (.invalidProperties (sortStrings (badMembers members)))
      else .ok (sortStrings (members.map fun e => imapNameForKeyword e.1))

/-- The turn of one key of a patch in `interpretEmailPatch`, with the keys that are bad so far. -/
def interpretKey (upd : EmailUpdate) (bad : List Name) :
    Pointer × Value → Except SetError (EmailUpdate × List Name)
  | (.keywords, v) =>
      if upd.sawKeywords then .error .invalidPatch
      else
        match parseKeywordSet v with
        | .error e => .error e
        | .ok set => .ok ({ upd with sawKeywords := true, kwReplace := true, kwSet := set }, bad)
  | (.keyword key k, v) =>
      if upd.kwReplace then .error .invalidPatch
      else
        let upd := { upd with sawKeywords := true }
        if !validKeyword k then .ok (upd, bad ++ [key])
        else
          match v with
          | .member .yes => .ok ({ upd with kwAdd := upd.kwAdd ++ [imapNameForKeyword k] }, bad)
          | .member .null =>
              .ok ({ upd with kwRemove := upd.kwRemove ++ [imapNameForKeyword k] }, bad)
          | _ => .ok (upd, bad ++ [key])

def interpretKeys :
    EmailUpdate → List Name → List (Pointer × Value) → Except SetError (EmailUpdate × List Name)
  | upd, bad, [] => .ok (upd, bad)
  | upd, bad, e :: es =>
      match interpretKey upd bad e with
      | .error err => .error err
      | .ok (upd, bad) => interpretKeys upd bad es

/-- `interpretEmailPatch`, of a patch with keys for keywords. -/
def interpretEmailPatch (patch : List (Pointer × Value)) : Except SetError EmailUpdate :=
  match interpretKeys ⟨false, [], [], [], false⟩ [] patch with
  | .error e => .error e
  | .ok (upd, bad) =>
      if bad ≠ [] then .error (.invalidProperties (sortStrings bad)) else .ok upd

/-! ## The server -/

/-- A character of an atom. -/
def atomChar (c : Char) : Bool :=
  0x21 ≤ c.toNat && c.toNat ≤ 0x7e && !(c ∈ ['(', ')', '\x7b', ']', '%', '*', '"', '\\'])

def atom (s : Name) : Bool := s ≠ [] && s.all atomChar

/-- A flag: a keyword, or a system flag. -/
def validFlag : Name → Bool
  | '\\' :: rest => atom rest
  | s => atom s

/-- The flags have a flag, in some spelling. -/
def Has (flags : List Name) (f : Name) : Prop := ∃ g ∈ flags, toLower g = toLower f

instance (flags : List Name) (f : Name) : Decidable (Has flags f) :=
  inferInstanceAs (Decidable (∃ _ ∈ _, _))

inductive FlagOp
  | add
  | remove
  | set

/-- What a `STORE` leaves of a flag.  `\Recent` cannot be changed. -/
def FlagOp.leaves (op : FlagOp) (old fs : List Name) (f : Name) : Prop :=
  match op with
  | .add => Has old f ∨ Has fs f
  | .remove => Has old f ∧ ¬ Has fs f
  | .set => Has fs f ∨ (toLower f = "\\recent".toList ∧ Has old f)

/-- The server has carried out a `STORE`: the flags it was given are flags, and those it
answers are what is left. -/
structure Stored (op : FlagOp) (fs old new : List Name) : Prop where
  given : ∀ f ∈ fs, validFlag f
  valid : ∀ f ∈ new, validFlag f
  has : ∀ f, Has new f ↔ op.leaves old fs f

/-- A `STORE` that is left out when there is nothing to store. -/
def StoredIfAny (op : FlagOp) (names old new : List Name) : Prop :=
  if names = [] then new = old else Stored op (flagsToGoIMAP names) old new

/-- `ApplyFlagChange` has succeeded on a message whose row is the server's. -/
def Applied (upd : EmailUpdate) (old new : List Name) : Prop :=
  if upd.kwReplace then
    Stored .set (flagsToGoIMAP (upd.kwSet ++ invisibleFlags (reflectFlags old))) old new
  else ∃ mid, StoredIfAny .add upd.kwAdd old mid ∧ StoredIfAny .remove upd.kwRemove mid new

end Moov.Keywords
