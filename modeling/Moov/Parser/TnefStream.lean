import Moov.Parser.Tnef

/-!
# Well-formed streams

TNEF streams as the format has them, and what the decoder makes of them.  An attribute is
named by 32 bits: the word of its data type, and its number.  `tnef.go` compares these 32 bits
with the number alone, so that no attribute of an attachment is recognised.

* `Stream.encode` — the bytes of a stream; `Stream.files` — the files in it;
* `decodeTNEF_encode` — the decoder finds no file in any well-formed stream;
* `decodeTNEF_eq_files_iff` — which is right exactly when there is none.
-/

namespace Moov.Tnef

open Bytes Text List

/-! ## The format -/

/-- The attributes of an attachment, other than the one that opens it. -/
inductive AttachName
  | title
  | data
  | metaFile
  | createDate
  | modifyDate
  | transportFilename
  | properties
deriving DecidableEq

/-- The data types of attributes. -/
inductive DataType
  | string
  | date
  | byte

def DataType.word : DataType → Nat
  | .string => 0x0001
  | .date => 0x0003
  | .byte => 0x0006

def AttachName.type : AttachName → DataType
  | .title => .string
  | .createDate | .modifyDate => .date
  | .data | .metaFile | .transportFilename | .properties => .byte

def AttachName.number : AttachName → Nat
  | .title => 0x8010
  | .data => 0x800F
  | .metaFile => 0x8011
  | .createDate => 0x8012
  | .modifyDate => 0x8013
  | .transportFilename => 0x9001
  | .properties => 0x9005

/-- The 32 bits that name an attribute. -/
def attributeID (type number : Nat) : Nat := type * 65536 + number

def AttachName.id (a : AttachName) : Nat := attributeID a.type.word a.number

/-- `attAttachRenddata`, which opens an attachment. -/
def rendDataID : Nat := attributeID DataType.byte.word 0x9002

/-- The bytes of an attribute: level, name, length, data and checksum. -/
def encodeAttribute (level : UInt8) (id : Nat) (payload : Data) : Data :=
  level :: (leBytes 4 id ++ leBytes 4 payload.length ++ payload ++
    leBytes 2 (payload.map UInt8.toNat).sum)

/-- A name in a property blob, in one of the two string types, or another property. -/
inductive Property
  | longFilename (name : List Char)
  | longFilename8 (name : Data)
  | other (tag : Nat) (value : Data)

/-- A value of variable length, filled up to a multiple of four. -/
def encodeValue (value : Data) : Data :=
  leBytes 4 1 ++ leBytes 4 value.length ++ value ++ List.replicate ((4 - value.length % 4) % 4) 0

def Property.encode : Property → Data
  | .longFilename name =>
      leBytes 4 (mapiTagAttachLongFilename * 65536 + mapiTypeUnicode) ++
        encodeValue ((utf16Encode name ++ [0]).flatMap (leBytes 2))
  | .longFilename8 name =>
      leBytes 4 (mapiTagAttachLongFilename * 65536 + mapiTypeString8) ++ encodeValue (name ++ [0])
  | .other tag value => leBytes 4 tag ++ value

/-- An attribute of an attachment.  A title is a string that ends in NUL. -/
inductive AttachAttribute
  | title (name : Data)
  | data (bytes : Data)
  | properties (props : List Property)
  | other (name : AttachName) (payload : Data)

def AttachAttribute.name : AttachAttribute → AttachName
  | .title _ => .title
  | .data _ => .data
  | .properties _ => .properties
  | .other name _ => name

def AttachAttribute.payload : AttachAttribute → Data
  | .title name => name ++ [0]
  | .data bytes => bytes
  | .properties props => leBytes 4 props.length ++ props.flatMap Property.encode
  | .other _ payload => payload

/-- An attachment: how it is drawn, and its attributes, each of them once and none longer than
its length field can say. -/
structure Attachment where
  rendData : Data
  attributes : List AttachAttribute
  once : (attributes.map AttachAttribute.name).Nodup
  named : ∀ name payload, .other name payload ∈ attributes → name ∉ [.title, .data, .properties]
  fits : rendData.length < 4294967296 ∧ ∀ a ∈ attributes, a.payload.length < 4294967296

/-- An attribute of the message. -/
structure MessageAttribute where
  id : Nat
  payload : Data
  fits : payload.length < 4294967296

/-- A stream: the attributes of the message and its attachments, with the code page of its
8-bit strings. -/
structure Stream where
  key : Nat
  codePage : UInt8 → Char
  message : List MessageAttribute
  attachments : List Attachment

def Attachment.encode (a : Attachment) : Data :=
  encodeAttribute tnefLevelAttachment rendDataID a.rendData ++
    a.attributes.flatMap fun x => encodeAttribute tnefLevelAttachment x.name.id x.payload

def Stream.encode (s : Stream) : Data :=
  leBytes 4 tnefSignature ++ leBytes 2 s.key ++
    (s.message.flatMap fun m => encodeAttribute tnefLevelMessage m.id m.payload) ++
    s.attachments.flatMap Attachment.encode

/-! ## The files of a stream -/

/-- The bytes of an attachment. -/
def Attachment.bytes (a : Attachment) : Data :=
  (a.attributes.findSome? fun
    | .data bytes => some bytes
    | _ => none).getD []

/-- The long name in a property blob. -/
def longName (codePage : UInt8 → Char) (props : List Property) : Option (List Char) :=
  props.findSome? fun
    | .longFilename name => some name
    | .longFilename8 name => some (name.map codePage)
    | .other _ _ => none

/-- The name of an attachment: the long one, or else the title. -/
def Attachment.filename (codePage : UInt8 → Char) (a : Attachment) : List Char :=
  let long := a.attributes.findSome? fun
    | .properties props => longName codePage props
    | _ => none
  let title := a.attributes.findSome? fun
    | .title name => some (name.map codePage)
    | _ => none
  (long.or title).getD []

/-- The attachments that carry data, in the order of the stream. -/
def Stream.files (s : Stream) : List TnefAttachment :=
  (s.attachments.filter fun a => a.bytes ≠ []).map fun a => ⟨a.filename s.codePage, a.bytes⟩

/-- The number of attributes of a stream. -/
def Stream.attributeCount (s : Stream) : Nat :=
  s.message.length + (s.attachments.map fun a => a.attributes.length + 1).sum

/-- The bytes of all files of a stream. -/
def Stream.totalBytes (s : Stream) : Nat := (s.attachments.map fun a => a.bytes.length).sum

/-- The stream is within the caps of the decoder. -/
structure Stream.Within (s : Stream) (maxAttachment maxTotal : Int) : Prop where
  attributes : s.attributeCount ≤ maxTNEFAttributes
  attachments : s.attachments.length ≤ maxTNEFAttachments
  each : ∀ a ∈ s.attachments, (a.bytes.length : Int) ≤ maxAttachment
  total : (s.totalBytes : Int) ≤ maxTotal

/-! ## What the decoder finds -/

section Decoder

variable {maxAttachment maxTotal : Int} {w : Walk} {level : UInt8} {id n : Nat}
  {payload rest : Data}

/-- The turn of one attribute. -/
lemma walk_encodeAttribute (hlevel : level = tnefLevelMessage ∨ level = tnefLevelAttachment)
    (hfits : payload.length < 4294967296) :
    walk maxAttachment maxTotal (n + 1) w (encodeAttribute level id payload ++ rest) =
      if level = tnefLevelMessage then walk maxAttachment maxTotal n w rest
      else
        proceed (attachmentAttribute maxAttachment maxTotal (id % 4294967296) payload w) fun w =>
          walk maxAttachment maxTotal n w rest := by
  have hid : leNat (leBytes 4 id) = id % 4294967296 := leNat_leBytes 4 id
  have hlength : leNat (leBytes 4 payload.length) = payload.length := leNat_leBytes_of_lt hfits
  generalize hsum : leBytes 2 (payload.map UInt8.toNat).sum = sum
  have hsumlen : sum.length = 2 := by rw [← hsum, length_leBytes]
  have hbytes : encodeAttribute level id payload ++ rest =
      level :: (leBytes 4 id ++ (leBytes 4 payload.length ++ (payload ++ (sum ++ rest)))) := by
    rw [encodeAttribute, hsum]
    simp only [cons_append, append_assoc]
  generalize htail : payload ++ (sum ++ rest) = tail at hbytes
  have htailtake : tail.take payload.length = payload := by rw [← htail, take_left]
  have htaildrop : tail.drop (payload.length + 2) = rest := by
    rw [← htail, drop_append, drop_of_length_le (Nat.le_add_right _ _), Nat.add_sub_cancel_left,
      nil_append, ← hsumlen, drop_left]
  have htaillength : payload.length ≤ tail.length := by
    rw [← htail, length_append]
    exact Nat.le_add_right _ _
  have hrest : (leBytes 4 id ++ (leBytes 4 payload.length ++ tail)).length = 8 + tail.length := by
    rw [length_append, length_append, length_leBytes, length_leBytes]
    omega
  have hdrop : (leBytes 4 id ++ (leBytes 4 payload.length ++ tail)).drop 8 = tail := by
    rw [← append_assoc]
    exact drop_left' (by rw [length_append, length_leBytes, length_leBytes])
  rw [hbytes, walk]
  simp only [hrest, take_left' (length_leBytes 4 _), drop_left' (length_leBytes 4 _), hdrop, hid,
    hlength, htailtake, htaildrop]
  rw [if_neg (by omega), if_neg (by omega)]
  rcases hlevel with rfl | rfl
  · rw [if_neg (by decide), if_pos (by decide), if_pos rfl]
  · rw [if_neg (by decide), if_neg (by decide), if_neg (by decide)]

/-- A level, a name and the data of an attribute. -/
abbrev Flat := UInt8 × Nat × Data

/-- The attribute is passed over while no attachment is open. -/
structure Passed (a : Flat) : Prop where
  level : a.1 = tnefLevelMessage ∨ a.1 = tnefLevelAttachment
  unknown : a.1 = tnefLevelAttachment → a.2.1 % 4294967296 ≠ attAttachRendData
  fits : a.2.2.length < 4294967296

lemma walk_passed {l : List Flat} (hl : ∀ a ∈ l, Passed a) (hw : w.cur = none) :
    ∀ {n}, l.length ≤ n →
      walk maxAttachment maxTotal n w (l.flatMap fun a => encodeAttribute a.1 a.2.1 a.2.2) =
      (w.out, none) := by
  induction l with
  | nil =>
    intro n _
    have hflush : w.flush = w := by rw [Walk.flush, hw]
    rw [flatMap_nil, walk, hflush]
  | cons a l ih =>
    intro n hn
    obtain ⟨n, rfl⟩ : ∃ k, n = k + 1 := ⟨n - 1, by rw [length_cons] at hn; omega⟩
    have ha := hl a mem_cons_self
    have hrest := @ih (fun b hb => hl b (mem_cons_of_mem _ hb)) n (Nat.le_of_succ_le_succ hn)
    rw [flatMap_cons, walk_encodeAttribute ha.level ha.fits]
    split
    · exact hrest
    · rename_i hlevel
      rw [attachmentAttribute, if_neg (ha.unknown (ha.level.resolve_left hlevel)), hw]
      exact hrest

end Decoder

/-! ## Streams -/

/-- The attributes of an attachment, in the order of the stream. -/
def Attachment.flat (a : Attachment) : List Flat :=
  (tnefLevelAttachment, rendDataID, a.rendData) ::
    a.attributes.map fun x => (tnefLevelAttachment, x.name.id, x.payload)

def Stream.flat (s : Stream) : List Flat :=
  (s.message.map fun m => (tnefLevelMessage, m.id, m.payload)) ++
    s.attachments.flatMap Attachment.flat

lemma Attachment.encode_eq (a : Attachment) :
    a.encode = a.flat.flatMap fun x => encodeAttribute x.1 x.2.1 x.2.2 := by
  rw [Attachment.encode, Attachment.flat, flatMap_cons, flatMap_map]

lemma Stream.encode_eq (s : Stream) : s.encode = leBytes 4 tnefSignature ++ (leBytes 2 s.key ++
      s.flat.flatMap fun x => encodeAttribute x.1 x.2.1 x.2.2) := by
  rw [Stream.encode, Stream.flat, flatMap_append, flatMap_map, flatMap_assoc,
    append_assoc, append_assoc]
  simp only [← Attachment.encode_eq]

lemma Stream.length_flat (s : Stream) : s.flat.length = s.attributeCount := by
  rw [Stream.flat, Stream.attributeCount, length_append, length_map, length_flatMap]
  simp only [Attachment.flat, length_cons, length_map]

/-- The name of no attribute of an attachment is one the decoder knows. -/
lemma AttachName.id_unknown (a : AttachName) : a.id % 4294967296 ≠ attAttachRendData := by
  cases a <;> decide

lemma rendDataID_unknown : rendDataID % 4294967296 ≠ attAttachRendData := by decide

lemma levels_ne : tnefLevelMessage ≠ tnefLevelAttachment := by decide

lemma Stream.passed (s : Stream) : ∀ x ∈ s.flat, Passed x := by
  intro x hx
  rcases mem_append.1 hx with hm | ha
  · obtain ⟨m, -, rfl⟩ := mem_map.1 hm
    exact ⟨.inl rfl, fun h => absurd h levels_ne, m.fits⟩
  · obtain ⟨a, -, hx⟩ := mem_flatMap.1 ha
    rcases mem_cons.1 hx with rfl | hx
    · exact ⟨.inr rfl, fun _ => rendDataID_unknown, a.fits.1⟩
    · obtain ⟨y, hy, rfl⟩ := mem_map.1 hx
      exact ⟨.inr rfl, fun _ => y.name.id_unknown, a.fits.2 y hy⟩

variable {s : Stream} {maxAttachment maxTotal : Int}

/-- No file is found in a well-formed stream. -/
theorem decodeTNEF_encode (h : s.attributeCount ≤ maxTNEFAttributes) :
    decodeTNEF maxAttachment maxTotal s.encode = ([], none) := by
  have hsig : s.encode.take 4 = leBytes 4 tnefSignature := by
    exact take_left' (length_leBytes 4 _)
  have hdrop : s.encode.drop 6 = s.flat.flatMap fun x => encodeAttribute x.1 x.2.1 x.2.2 := by
    rw [s.encode_eq, ← append_assoc]
    exact drop_left' (by rw [length_append, length_leBytes, length_leBytes])
  have hlength : ¬ s.encode.length < 6 := by
    rw [s.encode_eq, length_append, length_append, length_leBytes, length_leBytes]
    omega
  rw [decodeTNEF, if_neg hlength, hsig, if_neg (by decide), hdrop]
  exact walk_passed s.passed rfl (s.length_flat ▸ h)

/-- **What is unpacked.**  Of a well-formed stream within the caps the decoder returns the
files, with their names and in their order, exactly when there are none. -/
theorem decodeTNEF_eq_files_iff (h : s.Within maxAttachment maxTotal) :
    decodeTNEF maxAttachment maxTotal s.encode = (s.files, none) ↔ ∀ a ∈ s.attachments,
      a.bytes = [] := by
  rw [decodeTNEF_encode h.attributes]
  constructor
  · intro heq a ha
    have hfiles : s.files = [] := (congrArg Prod.fst heq).symm
    have hfilter := map_eq_nil_iff.1 hfiles
    simpa using filter_eq_nil_iff.1 hfilter a ha
  · intro hall
    have hfiles : s.files = [] := by
      rw [Stream.files, filter_eq_nil_iff.2 fun a ha => by simp [hall a ha], map_nil]
    rw [hfiles]

/-- A stream with one file, as Outlook writes it. -/
def oneFile : Stream where
  key := 1
  codePage := windows1252
  message := []
  attachments :=
    [{ rendData := List.replicate 14 0
       attributes := [.title [0x41, 0x2E, 0x54, 0x58, 0x54], .data [0x68, 0x69]]
       once := by decide
       named := by
         intro name payload h
         simp at h
       fits := by decide }]

/-- A stream with a message class and an attachment without data. -/
def noFile : Stream where
  key := 1
  codePage := windows1252
  message := [⟨0x00078008, [0x49, 0x50, 0x4D, 0], by decide⟩]
  attachments :=
    [{ rendData := List.replicate 14 0
       attributes := [.title [0x41, 0x2E, 0x54, 0x58, 0x54]]
       once := by decide
       named := by
         intro name payload h
         simp at h
       fits := by decide }]

theorem decodeTNEF_eq_files_iff_noFile : decodeTNEF 100 100 noFile.encode = (noFile.files, none) :=
  (decodeTNEF_eq_files_iff ⟨by decide, by decide, by decide, by decide⟩).2 (by decide)

/-- The file of a stream with one file is not found. -/
theorem oneFile_not_found : decodeTNEF 100 100 oneFile.encode = ([], none) ∧
      oneFile.files = [⟨"A.TXT".toList, [0x68, 0x69]⟩] := by
  decide +kernel

end Moov.Tnef
