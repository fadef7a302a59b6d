import Moov.Parser.Charset

/-!
# Walking a MIME tree

`parser/gomessage.go` and `parser/enmime.go`: the tree that a MIME library returns, flattened
into the part list of a message, under the caps of the engine.

* `Node` — a tree of either library, whatever it is: what the library says of each part, and
  what it reads in it;
* `walk` — the walk of both layers; what differs between them is in `Layer`;
* `leafText` — what becomes of the bytes of a text.
-/

namespace Moov.Parser

open Text Utf8

/-! ## Limits -/

/-- `Limits`. -/
structure Limits where
  maxDepth : Int
  maxParts : Int
  maxTotalSize : Int
  maxRFC822Depth : Int
  maxPartSize : Int
  maxUnterminatedDepth : Int

/-- A limit, or its default. -/
def orDefault (limit standard : Int) : Int := if limit ≤ 0 then standard else limit

/-- `Limits.withDefaults`. -/
def Limits.withDefaults (l : Limits) : Limits where
  maxDepth := orDefault l.maxDepth 512
  maxParts := orDefault l.maxParts 2048
  maxTotalSize := orDefault l.maxTotalSize 104857600
  maxRFC822Depth := orDefault l.maxRFC822Depth 10
  maxPartSize := orDefault l.maxPartSize 26214400
  maxUnterminatedDepth := orDefault l.maxUnterminatedDepth 16

/-- `io.LimitReader(r, max+1)`, read to its end; one more than the greatest `int64` is
negative. -/
def limitRead (max : Int) (data : Data) : Data :=
  if 9223372036854775807 ≤ max then [] else data.take (max.toNat + 1)

/-! ## Parts -/

/-- `Part`. -/
structure Part where
  index : Nat
  parent : Int
  depth : Nat
  mediaType : List Char
  charset : List Char
  charsetGuessed : Bool
  disposition : List Char
  filename : List Char
  contentID : List Char
  isAttachment : Bool
  isMultipart : Bool
  isRFC822 : Bool
  content : Data
  partiallyDecoded : Bool
  size : Nat
deriving DecidableEq

/-- A media type that is a text. -/
def isTextType (mediaType : List Char) : Bool := "text/".toList.isPrefixOf mediaType

/-- `Part.IsText`. -/
def Part.isText (p : Part) : Bool := isTextType p.mediaType

/-- What the header of a part says, as `newPart` reads it. -/
structure Info where
  mediaType : List Char
  charset : List Char
  disposition : List Char
  filename : List Char
  contentID : List Char
  malformed : Bool
deriving DecidableEq

/-- `isProtocolPart`. -/
def isProtocolPart (mediaType : List Char) : Bool :=
  ["application/pkcs7-signature".toList, "application/x-pkcs7-signature".toList,
    "application/pgp-signature".toList, "application/pgp-encrypted".toList,
    "message/delivery-status".toList, "message/disposition-notification".toList,
    "message/feedback-report".toList, "text/rfc822-headers".toList].any fun t => mediaType = t

/-- `isAttachmentPart`, of a part that is not known to be a multipart yet. -/
def isAttachmentPart (i : Info) : Bool :=
  if isProtocolPart i.mediaType then false
  else if i.disposition = "attachment".toList then true
  else i.filename ≠ [] && !isTextType i.mediaType

/-- `newPart`. -/
def newPart (index : Nat) (parent : Int) (depth : Nat) (i : Info) : Part where
  index := index
  parent := parent
  depth := depth
  mediaType := i.mediaType
  charset := i.charset
  charsetGuessed := false
  disposition := i.disposition
  filename := i.filename
  contentID := i.contentID
  isAttachment := isAttachmentPart i
  isMultipart := false
  isRFC822 := i.mediaType = "message/rfc822".toList
  content := []
  partiallyDecoded := false
  size := 0

/-- A part of a library's tree: what its header says, whether the library takes it for a
multipart, the bytes that can be read of its body and whether they end in a fault, whether
the list of its parts ends in a fault, the message that can be read in its body, if any, and
its parts. -/
inductive Node
  | mk (info : Info) (multipart : Bool) (body : Data) (fault cut : Bool) (inner parts : List Node)

/-! ## Text -/

/-- A `ParseStatus`. -/
inductive Status
  | ok
  | partially
  | failed
deriving DecidableEq

/-- The layers that walk a tree. -/
inductive Layer
  | goMessage
  | enmime
deriving DecidableEq

/-- A text, the charset it was read in, whether that is a guess, and whether anything is
amiss. -/
structure LeafText where
  text : Data
  charset : List Char
  guessed : Bool
  amiss : Bool

variable (cs : Charsets)

/-- The text of a leaf in `finishLeaf`, before it is cleaned.  enmime has decoded it already,
as long as it is UTF-8. -/
def readText (layer : Layer) (content : Data) (charset : List Char) : LeafText :=
  match utf16BOMDecode cs content with
  | some text => ⟨text, "utf-16".toList, true, false⟩
  | none =>
      if layer = .enmime && Utf8.valid content then ⟨content, charset, false, false⟩
      else
        let res := decodeCharset cs content charset
        ⟨res.text, res.charset, res.guessed, layer = .enmime || res.defects ≠ []⟩

/-- The text of a leaf. -/
def leafText (layer : Layer) (content : Data) (charset : List Char) : LeafText :=
  let read := readText cs layer content charset
  let stripped := stripBOM read.text
  { read with text := sanitizeBytes stripped, amiss := read.amiss || 0 ∈ stripped }

/-! ## The walk -/

/-- The message that is being built, and `truncatedMultipart`. -/
structure Build where
  parts : List Part
  status : Status
  truncated : Bool
deriving DecidableEq

/-- `downgrade(StatusPartial)`, if something is amiss. -/
def Build.downgradeIf (b : Build) (amiss : Bool) : Build :=
  { b with status := if amiss && b.status = .ok then .partially else b.status }

def Build.push (b : Build) (p : Part) : Build := { b with parts := b.parts ++ [p] }

variable (limits : Limits)

/-- What is read of a body, and whether it is cut short: `readPartBody`, or the cut in
`enmimeWalker.walk`. -/
def readBody (layer : Layer) (body : Data) (fault : Bool) : Data × Bool :=
  match layer with
  | .goMessage =>
      let content := limitRead limits.maxPartSize body
      (content.take limits.maxPartSize.toNat,
        (fault && limits.maxPartSize < 9223372036854775807 && content.length = body.length) ||
          limits.maxPartSize < content.length)
  | .enmime => (body.take limits.maxPartSize.toNat, limits.maxPartSize < body.length)

/-- How a part is finished. -/
inductive Kind
  | multipart
  | message
  | leaf
deriving DecidableEq

/-- The branch of the walk that a part takes. -/
def kindOf (layer : Layer) (info : Info) (multipart : Bool) (content : Data) (parts : List Node) :
    Kind :=
  let rfc822 := info.mediaType = "message/rfc822".toList
  match layer with
  | .goMessage => if multipart then .multipart else if rfc822 then .message else .leaf
  | .enmime => if rfc822 && content ≠ [] then .message else if parts.isEmpty then
    .leaf
  else .multipart

/-- The part with its content, as it stands in the list when its own parts are walked. -/
def finishPart (layer : Layer) (p : Part) (kind : Kind) (content : Data) (short : Bool) : Part :=
  match kind with
  | .multipart => { p with isMultipart := true, partiallyDecoded := layer = .enmime && short }
  | .message =>
      { p with content := content, size := content.length, partiallyDecoded :=
        layer = .enmime && short }
  | .leaf =>
      if p.isText then
        let t := leafText cs layer content p.charset
        { p with
          content := t.text
          size := t.text.length
          charset := t.charset
          charsetGuessed := t.guessed
          partiallyDecoded := short }
      else { p with content := content, size := content.length, partiallyDecoded := short }

/-- Something is amiss with a part. -/
def amissPart (layer : Layer) (info : Info) (kind : Kind) (content : Data) (short : Bool) : Bool :=
  info.malformed || (short && !(layer = .goMessage && kind = .multipart)) ||
    (kind = .leaf && isTextType info.mediaType && (leafText cs layer content info.charset).amiss)

/-- `descendRFC822` goes on to the embedded message. -/
def descends (kind : Kind) (content : Data) (rfc822Depth : Nat) : Bool :=
  kind = .message && rfc822Depth < limits.maxRFC822Depth && content ≠ []

/-- Something is amiss with an embedded message: it is too deep, or enmime reads none. -/
def amissMessage (layer : Layer) (kind : Kind) (content : Data) (rfc822Depth : Nat)
    (inner : List Node) : Bool :=
  kind = .message &&
    (limits.maxRFC822Depth ≤ rfc822Depth || (content ≠ [] && inner.isEmpty && layer = .enmime))

mutual

/-- `treeWalker.walk` and `enmimeWalker.walk`; `none` is `errCapExceeded`.  The part is appended
with its content, then the message in it is walked, if it is one, and then its parts.
go-message has parts in a multipart only. -/
def walk (layer : Layer) (parent : Int) (depth rfc822Depth : Nat) (b : Build) : Node → Option Build
  | .mk info multipart body fault cut inner parts =>
      if limits.maxDepth < depth then none
      else if limits.maxParts ≤ b.parts.length then none
      else
        let index := b.parts.length
        let content := (readBody limits layer body fault).1
        let short := (readBody limits layer body fault).2
        let kind := kindOf layer info multipart content parts
        let part := finishPart cs layer (newPart index parent depth info) kind content short
        let pushed := (b.push part).downgradeIf
          (amissPart cs layer info kind content short ||
            amissMessage limits layer kind content rfc822Depth inner)
        match (if descends limits kind content rfc822Depth then
            walkAll layer index (depth + 1) (rfc822Depth + 1) pushed inner else some pushed) with
        | none => none
        | some b =>
            match (if layer = Layer.goMessage ∧ kind ≠ Kind.multipart then some b
              else walkAll layer index (depth + 1) rfc822Depth b parts) with
            | none => none
            | some b =>
                if layer = Layer.goMessage ∧ kind = Kind.multipart ∧ cut then
                  some { b.downgradeIf true with truncated := true }
                else some b

def walkAll (layer : Layer) (parent : Int) (depth rfc822Depth : Nat) (b : Build) :
    List Node → Option Build
  | [] => some b
  | n :: ns =>
      match walk layer parent depth rfc822Depth b n with
      | none => none
      | some b => walkAll layer parent depth rfc822Depth b ns

end

/-- `treeWalker.walk`. -/
def treeWalkerWalk (root : Node) : Option Build :=
  walk cs limits .goMessage (-1) 0 0 ⟨[], .ok, false⟩ root

/-- `enmimeWalker.walk`. -/
def enmimeWalkerWalk (root : Node) : Option Build :=
  walk cs limits .enmime (-1) 0 0 ⟨[], .ok, false⟩ root

end Moov.Parser
