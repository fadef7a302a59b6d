import Moov.Lib.Bytes
import Moov.Lib.Text

/-!
# Unpacking `winmail.dat`

`parser/tnef.go`: the walk over the attributes of a TNEF stream that recovers the files in it.

* `decodeTNEF` walks the attributes; an attachment is open from its `attAttachRendData` to the
  next, and is emitted when it is complete and has data;
* `longFilenameFromProps` scans the property blob of an attachment for its long name;
* `decodeTNEFString` reads a name, in UTF-16 or in windows-1252.
-/

namespace Moov.Tnef

open Bytes Text

abbrev Data := List UInt8

/-! ## Constants -/

def tnefSignature : Nat := 0x223E9F78

def tnefLevelMessage : UInt8 := 0x01

def tnefLevelAttachment : UInt8 := 0x02

def attAttachRendData : Nat := 0x9002

def attAttachData : Nat := 0x800F

def attAttachTitle : Nat := 0x8010

def attAttachment : Nat := 0x9005

def mapiTagAttachLongFilename : Nat := 0x3707

def mapiTypeUnicode : Nat := 0x001F

def mapiTypeString8 : Nat := 0x001E

def maxTNEFAttributes : Nat := 4096

def maxTNEFAttachments : Nat := 256

def maxTNEFFilename : Nat := 255

def maxTNEFPropScan : Nat := 1048576

/-! ## Names -/

/-- `looksUTF16LE`: every second byte of the first thirty-two is NUL. -/
def looksUTF16LE (b : Data) : Bool :=
  if b.length < 4 || b.length % 2 ≠ 0 then false
  else (List.range (min 16 (b.length / 2))).all fun i => b.getD (2 * i + 1) 0 = 0

/-- `trimTNEFString`.  Removing every NUL removes those at the end. -/
def trimTNEFString (s : List Char) : List Char :=
  takeBytes maxTNEFFilename (trimSpace (s.filter fun c => c.toNat ≠ 0))

/-- The UTF-16 units of a buffer, up to the first zero. -/
def units : Data → List Nat
  | lo :: hi :: rest =>
      if leNat [lo, hi] = 0 then [] else leNat [lo, hi] :: units rest
  | _ => []

/-- `decodeTNEFString`. -/
def decodeTNEFString (b : Data) : List Char :=
  let b := b.take (maxTNEFFilename * 2)
  if looksUTF16LE b then trimTNEFString (utf16Decode (units b))
  else trimTNEFString ((b.takeWhile fun c => c ≠ 0).map windows1252)

/-- The scan of `longFilenameFromProps` for one type, from a position of the blob on. -/
def scanProps (want : Nat) : (fuel : Nat) → Data → List Char
  | 0, _ => []
  | fuel + 1, props =>
      if props.length < 12 then []
      else
        let n := leNat ((props.drop 8).take 4)
        let name :=
          if leNat (props.take 4) ≠ want then []
          else if leNat ((props.drop 4).take 4) ≠ 1 then []
          else if n > props.length - 12 ∨ n = 0 then []
          else if n > maxTNEFFilename * 2 then []
          else decodeTNEFString ((props.drop 12).take n)
        if name ≠ [] then name else scanProps want fuel (props.drop 4)

/-- `longFilenameFromProps`. -/
def longFilenameFromProps (props : Data) : List Char :=
  if props.length < 12 || props.length > maxTNEFPropScan then []
  else
    let wanted (typ : Nat) := scanProps (mapiTagAttachLongFilename * 65536 + typ) props.length props
    if wanted mapiTypeUnicode ≠ [] then wanted mapiTypeUnicode else wanted mapiTypeString8

/-- `isTNEFPart`. -/
def isTNEFPart (mediaType filename : List Char) : Bool :=
  let type := toLower (trimSpace mediaType)
  if type = "application/ms-tnef".toList || type = "application/vnd.ms-tnef".toList then true
  else
    let name := toLower (trimSpace filename)
    if name = [] then false else base (slashes name) = "winmail.dat".toList

/-! ## The walk -/

/-- `tnefAttachment`. -/
structure TnefAttachment where
  filename : List Char
  data : Data
deriving DecidableEq

/-- The ways a walk ends early. -/
inductive TnefError
  | notTNEF
  | attributeCap
  | lengthExceeds
  | unknownLevel
  | attachmentCap
  | totalCap
deriving DecidableEq

/-- The variables of `decodeTNEF`. -/
structure Walk where
  out : List TnefAttachment
  cur : Option TnefAttachment
  total : Int
  pendingProps : Data
deriving DecidableEq

def Walk.start : Walk := ⟨[], none, 0, []⟩

/-- `flush`. -/
def Walk.flush (w : Walk) : Walk :=
  match w.cur with
  | none => w
  | some cur =>
      let name := longFilenameFromProps w.pendingProps
      let cur := if name ≠ [] then { cur with filename := name } else cur
      { w with
        out := if cur.data ≠ [] then w.out ++ [cur] else w.out
        cur := none
        pendingProps := [] }

section Decode

variable (maxAttachment maxTotal : Int)

/-- The `switch` over the attributes of an attachment. -/
def attachmentAttribute (id : Nat) (payload : Data) (w : Walk) : Walk × Option TnefError :=
  if id = attAttachRendData then
    if w.flush.out.length ≥ maxTNEFAttachments then (w.flush, some .attachmentCap)
    else ({ w.flush with cur := some ⟨[], []⟩ }, none)
  else
    match w.cur with
    | none => (w, none)
    | some cur =>
        if id = attAttachTitle then
          let name := decodeTNEFString payload
          if name ≠ [] ∧ cur.filename = [] then
            ({ w with cur := some { cur with filename := name } }, none)
          else (w, none)
        else if id = attAttachment then
          if payload.length ≤ maxTNEFPropScan then ({ w with pendingProps := payload }, none)
          else (w, none)
        else if id = attAttachData then
          if payload.length > maxAttachment then
            ({ w with cur := some { cur with data := [] } }, none)
          else if w.total + payload.length > maxTotal then (w.flush, some .totalCap)
          else
            ({ w with cur := some { cur with data := payload }, total := w.total + payload.length },
              none)
        else (w, none)

/-- After an attribute: the error it ended with, or the rest of the stream. -/
def proceed (r : Walk × Option TnefError) (rest : Walk → List TnefAttachment × Option TnefError) :
    List TnefAttachment × Option TnefError :=
  match r with
  | (w, some e) => (w.out, some e)
  | (w, none) => rest w

/-- The loop of `decodeTNEF` over what is left of the stream, with what is left of the
attributes it may read. -/
def walk : (attributes : Nat) → Walk → Data → List TnefAttachment × Option TnefError
  | _, w, [] => (w.flush.out, none)
  | 0, w, _ :: _ => (w.flush.out, some .attributeCap)
  | attributes + 1, w, level :: rest =>
      if rest.length < 8 then (w.flush.out, none)
      else
        let id := leNat (rest.take 4)
        let length := leNat ((rest.drop 4).take 4)
        let after := rest.drop 8
        if length > after.length then (w.flush.out, some .lengthExceeds)
        else if level ≠ tnefLevelAttachment ∧ level ≠ tnefLevelMessage then
          (w.flush.out, some .unknownLevel)
        else if level ≠ tnefLevelAttachment then walk attributes w (after.drop (length + 2))
        else
          proceed (attachmentAttribute maxAttachment maxTotal id (after.take length) w) fun w =>
            walk attributes w (after.drop (length + 2))

/-- `decodeTNEF`. -/
def decodeTNEF (data : Data) : List TnefAttachment × Option TnefError :=
  if data.length < 6 then ([], some .notTNEF)
  else if leNat (data.take 4) ≠ tnefSignature then ([], some .notTNEF)
  else walk maxAttachment maxTotal maxTNEFAttributes .start (data.drop 6)

end Decode

/-! ## Files -/

/-- A decimal number. -/
def itoa (n : Nat) : List Char := (Nat.toDigits 10 n)

/-- `sanitizeTNEFFilename`. -/
def sanitizeTNEFFilename (name : List Char) (index : Nat) : List Char :=
  let name := trimSpace (trimChars ['.'] (base (slashes name)))
  let name := name.filter fun c => !(c.toNat < 0x20 || c.toNat = 0x7f || c = '/')
  if name = [] || name = ['.'] || name = ['.', '.'] then
    "attachment-".toList ++ itoa index
  else name

/-- `tnefMediaType`, where `mime.TypeByExtension` gives the type without its parameters. -/
def tnefMediaType (typeByExtension : List Char → List Char) (filename : List Char) : List Char :=
  let e := ext (toLower filename)
  if e = [] || typeByExtension e = [] then "application/octet-stream".toList
  else toLower (typeByExtension e)

end Moov.Tnef
