import Moov.Parser.Unpack

/-!
# What `Parse` guarantees

The invariants of a parsed message, as `FuzzParse` states them, for every input, all limits and
whatever the libraries return.

* `Sound` — the invariants: the part list is a tree within the caps, the sizes are those of the
  contents, and texts are clean;
* `Fit` — no text is longer than a part may be once it is in UTF-8, and no unpacked file that
  passes for a text is anything else;
* `parse_sound_iff` — a parsed message is sound exactly if what it is taken from fits.

The caps are applied to bytes, before they are decoded, and the salvaged text is not capped at
all; the files of a TNEF stream are neither decoded nor cleaned.
-/

namespace Moov.Parser

open Text Utf8 Tnef List

/-! ## The invariants -/

/-- The text can be stored. -/
def Clean (text : Data) : Prop := Utf8.valid text ∧ 0 ∉ text

/-- The content of a part is within the cap, and is clean if it is a text. -/
structure PartSound (limits : Limits) (p : Part) : Prop where
  size : p.size = p.content.length
  capped : (p.size : Int) ≤ limits.maxPartSize
  text : p.isText = true → Clean p.content

/-- The invariants of a parsed message. -/
structure Sound (limits : Limits) (m : ParsedMessage) : Prop where
  failed : m.status = .failed → m.parts = [] ∧ m.headers = []
  nonempty : m.status ≠ .failed → m.parts ≠ []
  index : ∀ (i : Nat) (p : Part), m.parts[i]? = some p → p.index = i
  root : ∀ (i : Nat) (p : Part), m.parts[i]? = some p → (p.parent = -1 ↔ i = 0)
  parent : ∀ (i : Nat) (p : Part), m.parts[i]? = some p → i ≠ 0 →
    ∃ (j : Nat) (q : Part), j < i ∧ m.parts[j]? = some q ∧ p.parent = j ∧ p.depth = q.depth + 1
  depth : ∀ p ∈ m.parts, (p.depth : Int) ≤ limits.maxDepth + 1
  count : (m.parts.length : Int) ≤ limits.maxParts
  contents : ∀ p ∈ m.parts, PartSound limits p
  subject : Clean m.subjectText
  addresses : Clean m.addressText
  body : Clean m.bodyText

/-! ## The sources of a message -/

/-- The type of an unpacked file, at its index. -/
def fileType (env : Env) (f : TnefAttachment × Nat) : List Char :=
  tnefMediaType env.typeByExtension (sanitizeTNEFFilename f.1.filename f.2)

/-- What is decoded is still within the cap, and the files that pass for texts are clean. -/
structure Fit (env : Env) (limits : Limits) (items : List Item) : Prop where
  decoded : ∀ item ∈ items, item.decoded = true → (item.content.length : Int) ≤ limits.maxPartSize
  files : ∀ f ∈ unpacked limits items, isTextType (fileType env f) = true → Clean f.1.data

/-- The text that is salvaged, as the only item of a message. -/
def salvageItem (env : Env) (data : Data) : Item where
  mediaType := salvageType env data
  filename := []
  kind := .leaf
  rfc822 := false
  decoded := true
  content := (salvageText env data).text

/-- What the layer of a result reads in the input. -/
def layerItems (env : Env) (limits : Limits) (data : Data) : ParserName → Option (List Item)
  | .none => none
  | .goMessage => (env.goMessage data).map fun root => root.1.items env.charsets limits .goMessage 0
  | .enmime => (env.enmime data).map fun root => root.1.items env.charsets limits .enmime 0
  | .salvage => some [salvageItem env data]

/-! ## Contents -/

section Contents

variable {env : Env} {limits : Limits} {p : Part} {f : TnefAttachment × Nat}

lemma clean_nil : Clean [] := ⟨valid_nil, not_mem_nil⟩

/-- `toStorableText` cleans any text. -/
lemma toStorableText_clean (s : Data) : Clean (toStorableText s) := by
  unfold toStorableText
  dsimp only
  split
  · rename_i hvalid
    exact ⟨hvalid, zero_not_mem_sanitizeBytes s⟩
  · exact ⟨valid_toValid _, zero_not_mem_toValidFrom (zero_not_mem_sanitizeBytes s)⟩

lemma Finished.partSound_iff {item : Item} (h : Finished limits p item) :
    PartSound limits p ↔
      (item.decoded = true → (item.content.length : Int) ≤ limits.maxPartSize) := by
  constructor
  · intro hp _
    rw [← h.content, ← h.size]
    exact hp.capped
  · intro hfit
    refine ⟨h.size, ?_, fun htext => ?_⟩
    · rw [h.size, h.content]
      cases hdecoded : item.decoded with
      | true => exact hfit hdecoded
      | false => exact h.binary hdecoded
    · rw [Part.isText, h.mediaType] at htext
      rw [h.content]
      exact h.text htext

lemma IsFile.partSound_iff (h : IsFile env p f)
    (hcap : (f.1.data.length : Int) ≤ limits.maxPartSize) :
    PartSound limits p ↔ (isTextType (fileType env f) = true → Clean f.1.data) := by
  obtain ⟨parent, depth, hp⟩ := h
  have hsize : p.size = p.content.length := by rw [hp, filePart]
  have hcontent : p.content = f.1.data := by rw [hp, filePart]
  have htype : p.isText = isTextType (fileType env f) := by rw [hp, Part.isText, filePart, fileType]
  constructor
  · intro hsound htext
    rw [← hcontent]
    exact hsound.text (htype.trans htext)
  · intro hclean
    refine ⟨hsize, by rw [hsize, hcontent]; exact hcap, fun htext => ?_⟩
    rw [hcontent]
    exact hclean (htype.symm.trans htext)

/-- What holds along two lists that match. -/
lemma forall_mem_iff_of_forall₂ {α β : Type*} {R : α → β → Prop} {P : α → Prop}
    {Q : β → Prop} {l : List α}
    {l' : List β} (h : List.Forall₂ R l l') (hR : ∀ a, ∀ b ∈ l', R a b → (P a ↔ Q b)) :
    (∀ a ∈ l, P a) ↔ ∀ b ∈ l', Q b := by
  induction h with
  | nil => exact ⟨nofun, nofun⟩
  | @cons a b l l' hab _ ih =>
    rw [forall_mem_cons, forall_mem_cons, hR a b mem_cons_self hab,
      ih fun a b hb => hR a b (mem_cons_of_mem _ hb)]

/-- The unpacked files are within the cap. -/
lemma unpacked_data_le (hmax : 0 ≤ limits.maxPartSize) {items : List Item}
    (hf : f ∈ unpacked limits items) : (f.1.data.length : Int) ≤ limits.maxPartSize := by
  have hmem := mem_of_mem_take (fst_mem_of_mem_zipIdx hf)
  obtain ⟨item, -, hfile⟩ := mem_flatMap.1 hmem
  unfold Item.files at hfile
  split at hfile
  · exact decodeTNEF_data_le hmax item.content f.1 hfile
  · exact absurd hfile not_mem_nil

/-- A reference to a part changes neither its place nor its content. -/
lemma resolve_place (parts : List Part) (p : Part) :
    let p' := if env.referenced parts p then { p with isAttachment := false } else p
    (p'.index = p.index ∧ p'.parent = p.parent ∧ p'.depth = p.depth) ∧
      (PartSound limits p' ↔ PartSound limits p) := by
  intro p'
  cases href : env.referenced parts p with
  | false =>
    have hp' : p' = p := if_neg (ne_true_of_eq_false href)
    rw [hp']
    exact ⟨⟨rfl, rfl, rfl⟩, Iff.rfl⟩
  | true =>
    have hp' : p' = { p with isAttachment := false } := if_pos href
    rw [hp']
    exact ⟨⟨rfl, rfl, rfl⟩, ⟨fun h => { h with }, fun h => { h with }⟩⟩

end Contents

/-! ## `finish` -/

/-- What a layer has built, of the items it reads. -/
structure Taken (limits : Limits) (b : Build) (items : List Item) : Prop where
  parts : List.Forall₂ (Finished limits) b.parts items
  tree : Tree limits limits.maxDepth b.parts
  nonempty : b.parts ≠ []
  status : b.status ≠ .failed

section Finish

variable {env : Env} {limits : Limits} {b : Build} {items : List Item}

lemma Taken.worse {b' : Build} (h : Taken limits b items) (hw : Worse b b') :
    Taken limits b' items :=
  ⟨by rw [hw.parts]; exact h.parts, by rw [hw.parts]; exact h.tree,
    by rw [hw.parts]; exact h.nonempty, hw.status h.status⟩

/-- The contents of the list are sound exactly if the items fit. -/
lemma extract_contents_iff (hmax : 0 ≤ limits.maxPartSize) (h : Taken limits b items) :
    (∀ p ∈ (extractTNEFParts env limits b).parts, PartSound limits p) ↔ Fit env limits items := by
  obtain ⟨new, hnew, hfiles⟩ := (@extractTNEFParts_spec env _ _ _ h.parts h.tree).appended
  rw [h.parts.length_eq] at hfiles
  have hfiles := forall_mem_iff_of_forall₂ hfiles fun p f hf hp =>
    hp.partSound_iff (unpacked_data_le hmax hf)
  rw [hnew, forall_mem_append, forall_mem_iff_of_forall₂ h.parts fun p item _ hp =>
    hp.partSound_iff, hfiles]
  exact ⟨fun hfit => ⟨hfit.1, hfit.2⟩, fun hfit => ⟨hfit.decoded, hfit.files⟩⟩

lemma resolve_contents_iff (parts : List Part) :
    (∀ p ∈ resolveInlineReferences env parts, PartSound limits p) ↔ ∀ p ∈ parts,
      PartSound limits p := by
  unfold resolveInlineReferences
  rw [forall_mem_map]
  exact ⟨fun h p hp => (resolve_place parts p).2.1 (h p hp), fun h p hp =>
    (resolve_place parts p).2.2 (h p hp)⟩

/-- A message that is finished is sound exactly if what it is taken from fits. -/
lemma finish_sound_iff (hmax : 0 ≤ limits.maxPartSize) (h : Taken limits b items)
    (parser : ParserName)
    (headers : CanonHeaders) (raw : Data) :
    Sound limits (finish env limits parser headers raw b) ↔ Fit env limits items := by
  have hunpack := @extractTNEFParts_spec env _ _ _ h.parts h.tree
  have htree : Tree limits (limits.maxDepth + 1) (finish env limits parser headers raw b).parts :=
    (hunpack.tree (h.tree.mono (by omega))).map fun p => (@resolve_place env limits _ p).1
  have hcontents : (∀ p ∈ (finish env limits parser headers raw b).parts, PartSound limits p) ↔
      Fit env limits items := (resolve_contents_iff _).trans (extract_contents_iff hmax h)
  constructor
  · intro hs
    exact hcontents.1 hs.contents
  · intro hfit
    have hstatus := hunpack.status h.status
    refine ⟨fun hfailed => absurd hfailed hstatus, fun _ hnil => ?_, htree.index, fun i p hp => ?_,
      fun i p hp hi => ?_, htree.depth, htree.count, hcontents.2 hfit, toStorableText_clean _,
      toStorableText_clean _, toStorableText_clean _⟩
    · obtain ⟨new, hnew, -⟩ := hunpack.appended
      have hnil := map_eq_nil_iff.1 hnil
      rw [hnew] at hnil
      exact h.nonempty (append_eq_nil_iff.1 hnil).1
    · obtain ⟨rfl, hroot⟩ | ⟨j, q, hj, -, hparent, -⟩ := htree.parent i p hp
      · exact ⟨fun _ => rfl, fun _ => hroot⟩
      · constructor <;> intro _ <;> omega
    · obtain ⟨rfl, -⟩ | hparent := htree.parent i p hp
      · exact absurd rfl hi
      · exact hparent

end Finish

/-! ## The cascade -/

/-- The limits are set. -/
structure Limits.Positive (limits : Limits) : Prop where
  maxDepth : 0 < limits.maxDepth
  maxParts : 0 < limits.maxParts
  maxPartSize : 0 < limits.maxPartSize

lemma withDefaults_positive (limits : Limits) : limits.withDefaults.Positive := by
  have horDefault : ∀ limit standard : Int, 0 < standard → 0 < orDefault limit standard := by
    intro limit standard h
    unfold orDefault
    split
    · exact h
    · rename_i hpos
      exact not_le.1 hpos
  exact ⟨horDefault _ _ (by decide), horDefault _ _ (by decide), horDefault _ _ (by decide)⟩

section Cascade

variable {env : Env} {limits : Limits} {data : Data} {headers : CanonHeaders} {b b' : Build}
  {parser : ParserName}

/-- The items of a layer, and what it has built of them. -/
def TakenFrom (env : Env) (limits : Limits) (data : Data) (parser : ParserName)
    (b : Build) : Prop :=
  ∃ items, layerItems env limits data parser = some items ∧ Taken limits b items

lemma TakenFrom.worse (h : TakenFrom env limits data parser b) (hw : Worse b b') :
    TakenFrom env limits data parser b' := by
  obtain ⟨items, hitems, htaken⟩ := h
  exact ⟨items, hitems, htaken.worse hw⟩

/-- A walk from the root. -/
lemma walk_taken {cs : Charsets} {layer : Layer} {root : Node} (hl : limits.Positive)
    (h : walk cs limits layer (-1) 0 0 ⟨[], .ok, false⟩ root = some b) :
    Taken limits b (root.items cs limits layer 0) := by
  have hwalk := walk_spec (le_of_lt hl.maxPartSize) root h
  obtain ⟨new, hnew, hitems⟩ := hwalk.appended
  rw [nil_append] at hnew
  refine ⟨by rw [hnew]; exact hitems, hwalk.tree (tree_nil hl.maxParts) (.inl ⟨rfl, rfl⟩),
    fun hnil => ?_, hwalk.status (by decide)⟩
  obtain ⟨info, multipart, body, fault, cut, inner, parts⟩ := root
  rw [← hnew, hnil, Node.items] at hitems
  cases hitems

lemma parseGoMessage_taken (hl : limits.Positive)
    (h : parseGoMessage env limits data = .built headers b) :
    TakenFrom env limits data .goMessage b := by
  unfold parseGoMessage at h
  split at h
  · cases h
  · rename_i root headers' hread
    split at h
    · cases h
    · rename_i b' hwalk
      cases h
      exact ⟨_, by rw [layerItems, hread]; rfl, walk_taken hl hwalk⟩

lemma parseEnmimeChecked_taken (hl : limits.Positive)
    (h : parseEnmimeChecked env limits data = .built headers b) :
    TakenFrom env limits data .enmime b := by
  unfold parseEnmimeChecked at h
  split at h
  · cases h
  · rename_i root headers' severe hread
    split at h
    · cases h
    · rename_i b' hwalk
      cases h
      exact ⟨_, by rw [layerItems, hread]; rfl, (walk_taken hl hwalk).worse (worse_downgradeIf _ _)⟩

section

variable (hl : limits.Positive)
include hl

lemma parseSalvage_taken (h : parseSalvage env data = some (headers, b)) :
    TakenFrom env limits data .salvage b := by
  unfold parseSalvage at h
  split at h
  · cases h
  · dsimp only at h
    split at h
    · cases h
    · cases h
      refine ⟨[salvageItem env data], rfl, ⟨.cons ?_ .nil, ?_, by simp, by simp⟩⟩
      · exact ⟨rfl, rfl, rfl, rfl, rfl, rfl, fun _ =>
        ⟨sanitizeBytes_valid (stripBOM_valid (decodeCharset_valid _ _)),
        zero_not_mem_sanitizeBytes _⟩, nofun⟩
      · refine (tree_nil hl.maxParts).push (.inl ⟨rfl, rfl⟩) rfl ?_ hl.maxParts
        exact le_of_lt hl.maxDepth

lemma fallBack_taken (h : fallBack env limits data = .taken parser headers b) :
    TakenFrom env limits data parser b := by
  unfold fallBack at h
  split at h
  · rename_i headers' b' hbuilt
    cases h
    exact (parseEnmimeChecked_taken hl hbuilt).worse (worse_downgradeIf _ _)
  · cases h
  · split at h
    · rename_i headers' b' hsalvage
      cases h
      exact parseSalvage_taken hl hsalvage
    · cases h

lemma richer_taken {headers' : CanonHeaders}
    (hgo : TakenFrom env limits data .goMessage b')
    (h : richer env limits data headers' b' = .taken parser headers b) :
    TakenFrom env limits data parser b := by
  unfold richer at h
  split at h
  · rename_i headers₂ b₂ hbuilt
    dsimp only at h
    split at h
    · cases h
      exact (parseEnmimeChecked_taken hl hbuilt).worse (worse_downgradeIf _ _)
    · cases h
      exact hgo
  · cases h
    exact hgo

/-- Whatever the cascade takes is the reading of a layer. -/
lemma cascade_taken (h : cascade env limits data = .taken parser headers b) :
    TakenFrom env limits (normalizeLineEndings data) parser b := by
  unfold cascade at h
  split at h
  · cases h
  · dsimp only at h
    split at h
    · cases h
    · split at h
      · rename_i headers' b' hbuilt
        have hgo := parseGoMessage_taken hl hbuilt
        split at h
        · exact fallBack_taken hl h
        · split at h
          · exact richer_taken hl hgo h
          · cases h
            exact hgo
      · cases h
      · exact fallBack_taken hl h

end

end Cascade

/-! ## `Parse` -/

/-- The layer whose reading is taken. -/
def Outcome.layer : Outcome → ParserName
  | .refused _ => .none
  | .taken parser _ _ => parser

/-- What a message is taken from: the reading of the first layer that has one. -/
def sourceItems (env : Env) (limits : Limits) (raw : Data) : Option (List Item) :=
  layerItems env limits.withDefaults
    (normalizeLineEndings (limitRead limits.withDefaults.maxTotalSize raw))
    (outcome env limits raw).layer

lemma failedMessage_sound {limits : Limits} (hl : limits.Positive) (parser : ParserName) :
    Sound limits (failedMessage parser) where
  failed _ := ⟨rfl, rfl⟩
  nonempty h := absurd rfl h
  index _ _ h := absurd h (by simp [failedMessage])
  root _ _ h := absurd h (by simp [failedMessage])
  parent _ _ h := absurd h (by simp [failedMessage])
  depth := forall_mem_nil _
  count := le_of_lt hl.maxParts
  contents := forall_mem_nil _
  subject := clean_nil
  addresses := clean_nil
  body := clean_nil

/-- A parsed message is sound exactly if what it is taken from fits. -/
theorem parse_sound_iff (env : Env) (limits : Limits) (raw : Data) :
    Sound limits.withDefaults (parse env limits raw) ↔
      ∀ items ∈ sourceItems env limits raw, Fit env limits.withDefaults items := by
  have hl := withDefaults_positive limits
  unfold parse sourceItems
  cases hout : outcome env limits raw with
  | refused parser =>
    exact ⟨fun _ items h => absurd h (Option.not_mem_none items), fun _ =>
      failedMessage_sound hl parser⟩
  | taken parser headers b =>
    have htaken : TakenFrom env limits.withDefaults
        (normalizeLineEndings (limitRead limits.withDefaults.maxTotalSize raw)) parser b := by
      unfold outcome at hout
      dsimp only at hout
      split at hout
      · cases hout
      · exact cascade_taken hl hout
    obtain ⟨items, hitems, htaken⟩ := htaken
    have hsound := @finish_sound_iff env _ _ _ (le_of_lt hl.maxPartSize) htaken parser headers
      (normalizeLineEndings (limitRead limits.withDefaults.maxTotalSize raw))
    rw [Outcome.message, Outcome.layer, hitems, hsound]
    exact ⟨fun hfit items' h => Option.some.inj h ▸ hfit, fun hfit => hfit items rfl⟩

/-! ## A text that outgrows the cap -/

/-- A library that reads every message as one text of a byte, `é` in latin-1. -/
def latinEnv : Env where
  charsets :=
    ⟨fun _ => some windows1252Decoder, windows1252Decoder, windows1252Decoder, fun _ => none⟩
  goMessage _ := some (.mk ⟨"text/plain".toList, "iso-8859-1".toList, [], [], [], false⟩ false
    [0xE9] false false [] [], [])
  enmime _ := none
  salvageHeaders _ := []
  declared _ := ([], [])
  isPrint _ := true
  typeByExtension _ := []
  referenced _ _ := false
  subject _ := []
  addresses _ := []
  body _ := []

/-- Parts of one byte. -/
def oneByte : Limits := ⟨0, 0, 0, 0, 1, 0⟩

/-- The byte is within the cap, and its text is of two bytes. -/
theorem latin_outgrows_cap : ¬ Sound oneByte.withDefaults (parse latinEnv oneByte [0xE9]) := by
  intro h
  have hpart : ∃ p ∈ (parse latinEnv oneByte [0xE9]).parts, p.size = 2 := by decide +kernel
  obtain ⟨p, hp, hsize⟩ := hpart
  have hcapped := (h.contents p hp).capped
  rw [hsize] at hcapped
  exact absurd hcapped (by decide)

end Moov.Parser
