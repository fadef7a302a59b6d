import Moov.Parser.Tnef
import Moov.Parser.Walk

/-!
# Parsing a message

`parser/parse.go` and `parser/salvage.go`: the cascade of go-message, enmime and salvage, and
what is derived from the part list once there is one.

The libraries, and what the program reads in the header of a message, are an `Env`: whatever
they return.
-/

namespace Moov.Parser

open Text Utf8 Tnef

/-! ## The surroundings -/

/-- `CanonHeaders`, by name. -/
abbrev CanonHeaders := List (List Char × List Data)

/-- What the program has from the libraries, and what it reads in headers and texts. -/
structure Env where
  charsets : Charsets
  /-- `message.Read`, with the headers of the message. -/
  goMessage : Data → Option (Node × CanonHeaders)
  /-- `enmime.ReadEnvelope`, with the headers of the message and whether there is a severe
  error among those it reports. -/
  enmime : Data → Option (Node × CanonHeaders × Bool)
  salvageHeaders : Data → CanonHeaders
  /-- `salvageDeclaredCharset`, and `salvageMediaType` of the content type. -/
  declared : CanonHeaders → List Char × List Char
  /-- `unicode.IsPrint`. -/
  isPrint : Char → Bool
  /-- `mime.TypeByExtension`, without parameters. -/
  typeByExtension : List Char → List Char
  /-- The content id of a part is referred to in a text of the message. -/
  referenced : List Part → Part → Bool
  /-- The subject, `assembleAddressText` and `assembleBodyText`. -/
  subject : CanonHeaders → Data
  addresses : CanonHeaders → Data
  body : List Part → Data

/-- The layer that a result is from. -/
inductive ParserName
  | none
  | goMessage
  | enmime
  | salvage
deriving DecidableEq

/-- `ParsedMessage`. -/
structure ParsedMessage where
  status : Status
  parser : ParserName
  headers : CanonHeaders
  parts : List Part
  subjectText : Data
  addressText : Data
  bodyText : Data
  truncatedHeaders : Bool

/-- `failedMessage`. -/
def failedMessage (parser : ParserName) : ParsedMessage :=
  ⟨.failed, parser, [], [], [], [], [], false⟩

variable (env : Env) (limits : Limits)

/-! ## `tnef.go` -/

/-- The part of an unpacked file. -/
def filePart (index parent depth : Nat) (f : TnefAttachment) : Part :=
  let name := sanitizeTNEFFilename f.filename index
  { index := index
    parent := parent
    depth := depth + 1
    mediaType := tnefMediaType env.typeByExtension name
    charset := []
    charsetGuessed := false
    disposition := "attachment".toList
    filename := name
    contentID := []
    isAttachment := true
    isMultipart := false
    isRFC822 := false
    content := f.data
    partiallyDecoded := false
    size := f.data.length }

/-- The loop over the files of one part; at the cap it returns. -/
def appendFiles (parent depth : Nat) : List TnefAttachment → Build → Build × Bool
  | [], b => (b, false)
  | f :: fs, b =>
      if limits.maxParts ≤ b.parts.length then (b.downgradeIf true, true)
      else appendFiles parent depth fs (b.push (filePart env b.parts.length parent depth f))

/-- The part carries a TNEF stream. -/
def Part.packed (p : Part) : Bool :=
  !(p.isMultipart || p.isRFC822 || p.content = []) && isTNEFPart p.mediaType p.filename

/-- The loop of `extractTNEFParts`, from the `i`-th part on. -/
def extractFrom : (i : Nat) → List Part → Build → Build
  | _, [], b => b
  | i, p :: ps, b =>
      if limits.maxParts ≤ b.parts.length then b
      else if !p.packed then extractFrom (i + 1) ps b
      else
        let (files, err) := decodeTNEF limits.maxPartSize limits.maxPartSize p.content
        if files = [] then
          extractFrom (i + 1) ps (b.downgradeIf (err ≠ none && err ≠ some .notTNEF))
        else
          match appendFiles env limits i p.depth files b with
          | (b, true) => b
          | (b, false) => extractFrom (i + 1) ps (b.downgradeIf (err ≠ none))

/-- `extractTNEFParts`. -/
def extractTNEFParts (b : Build) : Build := extractFrom env limits 0 b.parts b

/-! ## `finish` -/

/-- `resolveInlineReferences`. -/
def resolveInlineReferences (parts : List Part) : List Part :=
  parts.map fun p => if env.referenced parts p then { p with isAttachment := false } else p

/-- `toStorableText`. -/
def toStorableText (s : Data) : Data :=
  let s := sanitizeBytes s
  if Utf8.valid s then s else toValid s

/-- `finish`, of what a layer has built. -/
def finish (parser : ParserName) (headers : CanonHeaders) (raw : Data) (b : Build) :
    ParsedMessage :=
  let b := extractTNEFParts env limits b
  let parts := resolveInlineReferences env b.parts
  { status := b.status
    parser := parser
    headers := headers
    parts := parts
    subjectText := toStorableText (env.subject headers)
    addressText := toStorableText (env.addresses headers)
    bodyText := toStorableText (env.body parts)
    truncatedHeaders := headersEndMidLine raw }

/-- `isContentless`. -/
def isContentless (b : Build) : Bool := b.parts.all (·.isMultipart)

/-- The parts that are interior to an embedded message. -/
def insideRFC822 (parts : List Part) : List Bool :=
  parts.foldl (fun inside p =>
    inside ++ [0 ≤ p.parent &&
    ((parts[p.parent.toNat]?.any (·.isRFC822)) || inside.getD p.parent.toNat false)]) []

/-- `LeafParts`. -/
def leafParts (m : ParsedMessage) : List Part :=
  let inside := insideRFC822 m.parts
  m.parts.filter fun p =>
    !(inside.getD p.index false) && (p.isRFC822 || !(m.parts.any fun c => c.parent = p.index)) &&
      !(p.index = 0 && p.parent = -1 && m.parts.length = 1 && p.content = [] && m.truncatedHeaders)

/-! ## The layers -/

/-- What a layer answers: it refuses, a cap fires, or it has built a tree. -/
inductive Answer
  | refused
  | capped
  | built (headers : CanonHeaders) (b : Build)

/-- `parseGoMessage`. -/
def parseGoMessage (data : Data) : Answer :=
  match env.goMessage data with
  | none => .refused
  | some (root, headers) =>
      match treeWalkerWalk env.charsets limits root with
      | none => .capped
      | some b => .built headers b

/-- `parseEnmimeChecked`. -/
def parseEnmimeChecked (data : Data) : Answer :=
  match env.enmime data with
  | none => .refused
  | some (root, headers, severe) =>
      match enmimeWalkerWalk env.charsets limits root with
      | none => .capped
      | some b => .built headers (b.downgradeIf severe)

/-- `isLegibleText`.  Whether the quotient of the counts is `0.85` is asked without rounding. -/
def isLegibleText (b : Data) : Bool :=
  let runes := chars b
  !runes.all isSpace && Utf8.valid b && !(Char.ofNat 0xFFFD ∈ runes) &&
    85 * runes.length ≤ 100 * (runes.filter fun r => env.isPrint r || isSpace r).length

/-- The header of a message that is salvaged, and the body. -/
def salvageSplit (raw : Data) : Data × Data :=
  let (header, body) := splitHeaderBody raw
  if looksLikeHeaderBlock header then (header, body.getD []) else ([], raw)

/-- The text that is salvaged of a message. -/
def salvageText (raw : Data) : CharsetResult :=
  let (header, body) := salvageSplit raw
  let res := decodeCharset env.charsets body (env.declared (env.salvageHeaders header)).1
  { res with text := sanitizeBytes (stripBOM res.text) }

/-- The type of the salvaged part: the declared one, unless that is a multipart. -/
def salvageType (raw : Data) : List Char :=
  let mediaType := (env.declared (env.salvageHeaders (salvageSplit raw).1)).2
  if mediaType = [] || "multipart/".toList.isPrefixOf mediaType then "text/plain".toList
    else mediaType

/-- `parseSalvage`. -/
def parseSalvage (raw : Data) : Option (CanonHeaders × Build) :=
  if (chars raw).all isSpace then none
  else
    let headers := env.salvageHeaders (salvageSplit raw).1
    let res := salvageText env raw
    if !isLegibleText env res.text then none
    else
      let part : Part :=
        { newPart 0 (-1) 0 ⟨salvageType env raw, res.charset, [], [], [], false⟩ with
          charsetGuessed := res.guessed
          content := res.text
          size := res.text.length
          partiallyDecoded := true
          isAttachment := false
          isRFC822 := false }
      some (headers, ⟨[part], .partially, false⟩)

/-! ## `Parse` -/

/-- What the cascade makes of a message: it refuses it, or it takes the tree of a layer. -/
inductive Outcome
  | refused (parser : ParserName)
  | taken (parser : ParserName) (headers : CanonHeaders) (b : Build)

/-- The fallback of a message that go-message cannot read. -/
def fallBack (data : Data) : Outcome :=
  match parseEnmimeChecked env limits data with
  | .built headers b => .taken .enmime headers (b.downgradeIf true)
  | .capped => .refused .enmime
  | .refused =>
      match parseSalvage env data with
      | some (headers, b) => .taken .salvage headers b
      | none => .refused .none

/-- The richer of the trees when go-message reports that its own is truncated. -/
def richer (data : Data) (headers : CanonHeaders) (b : Build) : Outcome :=
  match parseEnmimeChecked env limits data with
  | .built headers' b' =>
      let b' := b'.downgradeIf true
      if (leafParts (finish env limits .goMessage headers data b)).length <
          (leafParts (finish env limits .enmime headers' data b')).length then
        .taken .enmime headers' b'
      else .taken .goMessage headers b
  | _ => .taken .goMessage headers b

/-- The cascade, over bytes that are within the size cap. -/
def cascade (data : Data) : Outcome :=
  if data = [] then .refused .none
  else
    let data := normalizeLineEndings data
    if limits.maxUnterminatedDepth < prescanDepth data ∧ isUnterminatedNest data
      (prescanDepth data) then
      .refused .none
    else
      match parseGoMessage env limits data with
      | .built headers b =>
          if isContentless b then fallBack env limits data
          else if b.truncated then richer env limits data headers b
          else .taken .goMessage headers b
      | .capped => .refused .goMessage
      | .refused => fallBack env limits data

/-- The message of an outcome. -/
def Outcome.message (data : Data) : Outcome → ParsedMessage
  | .refused parser => failedMessage parser
  | .taken parser headers b => finish env limits parser headers (normalizeLineEndings data) b

/-- What the cascade makes of a reader. -/
def outcome (limits : Limits) (raw : Data) : Outcome :=
  let limits := limits.withDefaults
  let data := limitRead limits.maxTotalSize raw
  if limits.maxTotalSize < data.length then .refused .none else cascade env limits data

/-- `Parse`. -/
def parse (limits : Limits) (raw : Data) : ParsedMessage :=
  (outcome env limits raw).message env limits.withDefaults
    (limitRead limits.withDefaults.maxTotalSize raw)

end Moov.Parser
