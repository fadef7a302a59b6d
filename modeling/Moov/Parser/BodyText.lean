import Moov.Parser.Walk

/-!
# The text of a message for the search index

`assembleBodyText` (`parser/parse.go`) joins the texts of the parts.  An HTML part is left out when
the `multipart/alternative` it stands in has a `text/plain` part as well.  Texts are valid UTF-8
here, and are read as characters once their tags and entities are gone.

* `complete_iff` — every part with a text is in the joined text, or a plain sibling is in its
  place, exactly when no such sibling is blank where the HTML is not: the code asks only whether
  it is there.
-/

namespace Moov.Parser

open Text Utf8 List

/-! ## The text of a part -/

/-- The loop of `stripHTMLTags`, with the closing tag it skips to, and the bytes of one it has met
that are left. -/
def stripTags (skipUntil : Data) (inTag : Bool) : (left : Nat) → Data → Data
  | _, [] => []
  | left + 1, _ :: bs => stripTags skipUntil inTag left bs
  | 0, b :: bs =>
      if skipUntil ≠ [] then
        if hasPrefixFoldASCII (b :: bs) skipUntil then stripTags [] false (skipUntil.length - 1) bs
        else stripTags skipUntil inTag 0 bs
      else if b = 0x3C then
        if hasPrefixFoldASCII (b :: bs) (ascii "<script") then
          stripTags (ascii "</script>") inTag 0 bs
        else if hasPrefixFoldASCII (b :: bs) (ascii "<style") then
          stripTags (ascii "</style>") inTag 0 bs
        else 0x20 :: stripTags [] true 0 bs
      else if b = 0x3E then stripTags [] false 0 bs
      else if inTag then stripTags [] inTag 0 bs
      else b :: stripTags [] inTag 0 bs

def entities : List (Data × UInt8) :=
  [(ascii "&amp;", 0x26), (ascii "&lt;", 0x3C), (ascii "&gt;", 0x3E), (ascii "&quot;", 0x22),
    (ascii "&apos;", 0x27), (ascii "&nbsp;", 0x20), (ascii "&#39;", 0x27), (ascii "&#34;", 0x22)]

/-- `unescapeHTMLEntities`, with the bytes of an entity that are left. -/
def unescapeHTMLEntities : (left : Nat) → Data → Data
  | _, [] => []
  | left + 1, _ :: bs => unescapeHTMLEntities left bs
  | 0, b :: bs =>
      match entities.find? (·.1.isPrefixOf (b :: bs)) with
      | some e => e.2 :: unescapeHTMLEntities (e.1.length - 1) bs
      | none => b :: unescapeHTMLEntities 0 bs

/-- `stripHTMLTags`: the words that are left. -/
def stripHTMLTags (content : Data) : List Char :=
  let text := chars (unescapeHTMLEntities 0 (stripTags [] false 0 content))
  [' '].intercalate ((text.splitOnP isSpace).filter (· ≠ []))

/-- The text of a part for the index. -/
def Part.text (p : Part) : List Char :=
  trimSpace (if p.mediaType = "text/html".toList then stripHTMLTags p.content else chars p.content)

/-! ## `assembleBodyText` -/

/-- The part at `i` has a `text/plain` child. -/
def hasPlain (parts : List Part) (i : Nat) : Bool :=
  parts.any fun q => q.parent = i && q.mediaType = "text/plain".toList

/-- `skip`, for one part. -/
def skip (parts : List Part) (p : Part) : Bool :=
  parts.zipIdx.any fun a => a.1.mediaType = "multipart/alternative".toList && hasPlain parts a.2 &&
    (p.parent = a.2 && p.mediaType = "text/html".toList)

/-- The parts whose texts are joined. -/
def indexed (parts : List Part) : List Part :=
  parts.filter fun p =>
    !(skip parts p || p.isMultipart || p.content.isEmpty || !p.isText) && p.text ≠ []

def join (b : List Char) (p : Part) : List Char := if b = [] then p.text else b ++ '\n' :: p.text

/-- `assembleBodyText`. -/
def assembleBodyText (parts : List Part) : List Char := (indexed parts).foldl join []

/-! ## What is left out -/

/-- A text part with a text that is not blank. -/
def Part.readable (p : Part) : Bool := !p.isMultipart && p.isText && p.text ≠ []

/-- An HTML child of a `multipart/alternative`, the part at `i`. -/
def HTMLIn (parts : List Part) (i : Nat) (p : Part) : Prop :=
  (∃ a, parts[i]? = some a ∧ a.mediaType = "multipart/alternative".toList) ∧
    p.parent = i ∧ p.mediaType = "text/html".toList

/-- A plain child of the part at `i`. -/
def PlainIn (i : Nat) (q : Part) : Prop := q.parent = i ∧ q.mediaType = "text/plain".toList

/-- Every readable part is joined, or a plain sibling is for it; the texts that are joined stay; and
there is a text if there is a readable part. -/
structure Complete (parts : List Part) : Prop where
  kept : ∀ p ∈ parts, p.readable = true →
    p ∈ indexed parts ∨ ∃ i, HTMLIn parts i p ∧ ∃ q ∈ indexed parts, PlainIn i q
  joined : ∀ p ∈ indexed parts, p.text <:+: assembleBodyText parts
  text : (∃ p ∈ parts, p.readable = true) → assembleBodyText parts ≠ []

variable {parts : List Part} {p : Part} {i : Nat}

lemma skip_iff : skip parts p = true ↔ ∃ i, HTMLIn parts i p ∧ ∃ q ∈ parts, PlainIn i q := by
  simp only [skip, hasPlain, any_eq_true, Prod.exists, mem_zipIdx_iff_getElem?, Bool.and_eq_true,
    decide_eq_true_eq, HTMLIn, PlainIn]
  constructor
  · rintro ⟨a, i, ha, ⟨halt, q, hq, hqi⟩, hp⟩
    exact ⟨i, ⟨⟨a, ha, halt⟩, hp⟩, q, hq, hqi⟩
  · rintro ⟨i, ⟨⟨a, ha, halt⟩, hp⟩, q, hq, hqi⟩
    exact ⟨a, i, ha, ⟨halt, q, hq, hqi⟩, hp⟩

lemma mem_indexed : p ∈ indexed parts ↔ p ∈ parts ∧ p.readable = true ∧ skip parts p = false := by
  have hcontent : p.text ≠ [] → p.content ≠ [] := by
    intro htext hnil
    apply htext
    rw [Part.text, hnil]
    split <;> rfl
  simp only [indexed, mem_filter, Part.readable]
  grind

/-- A plain part is never left out. -/
lemma PlainIn.mem_indexed (hp : PlainIn i p) (hmem : p ∈ parts) (h : p.readable = true) :
    p ∈ indexed parts := by
  refine Parser.mem_indexed.2 ⟨hmem, h, Bool.eq_false_iff.2 fun hskip => ?_⟩
  obtain ⟨j, hj, -⟩ := skip_iff.1 hskip
  exact absurd (hp.2.symm.trans hj.2.2) (by decide)

/-- Each text that is joined stays in what the loop builds. -/
lemma infix_joined {l : List Part} {b t : List Char}
    (h : t <:+: b ∨ ∃ p ∈ l, p.text = t) : t <:+: l.foldl join b := by
  induction l generalizing b with
  | nil => simpa using h
  | cons q l ih =>
    refine ih ?_
    rw [join]
    rcases h with hb | ⟨p, hp, rfl⟩
    · left
      split
      · rename_i hnil
        rw [hnil, infix_nil] at hb
        exact hb ▸ nil_infix
      · exact hb.trans (prefix_append b _).isInfix
    · rcases mem_cons.1 hp with rfl | hl
      · left
        split
        · exact infix_rfl
        · exact ⟨b ++ ['\n'], [], by simp⟩
      · exact .inr ⟨p, hl, rfl⟩

def textPart (index : Nat) (parent : Int) (mediaType : String) (content : Data) : Part :=
  ⟨index, parent, 0, mediaType.toList, [], false, [], [], [], false, content.isEmpty, false,
    content, false, content.length⟩

def blankPlain : List Part :=
  [textPart 0 (-1) "multipart/alternative" [], textPart 1 0 "text/plain" (ascii " "),
    textPart 2 0 "text/html" (ascii "<p>hi</p>")]

/-- **When the text is complete.**  For every list of parts: exactly when each
`multipart/alternative` with a readable HTML part and a plain part has a readable plain part. -/
theorem complete_iff (parts : List Part) : Complete parts ↔
    ∀ i, ∀ p ∈ parts, HTMLIn parts i p → p.readable = true →
      (∃ q ∈ parts, PlainIn i q) → ∃ q ∈ parts, PlainIn i q ∧ q.readable = true := by
  constructor
  · intro hc i p hp hhtml hread hplain
    rcases hc.kept p hp hread with hin | ⟨j, hj, q, hq, hqj⟩
    · have hskip := (mem_indexed.1 hin).2.2
      rw [skip_iff.2 ⟨i, hhtml, hplain⟩] at hskip
      cases hskip
    · have hij : i = j := Int.ofNat.inj (hhtml.2.1.symm.trans hj.2.1)
      exact ⟨q, (mem_indexed.1 hq).1, hij ▸ hqj, (mem_indexed.1 hq).2.1⟩
  · intro h
    have hkept : ∀ p ∈ parts, p.readable = true →
        p ∈ indexed parts ∨ ∃ i, HTMLIn parts i p ∧ ∃ q ∈ indexed parts, PlainIn i q := by
      intro p hp hread
      cases hskip : skip parts p with
      | false => exact .inl (mem_indexed.2 ⟨hp, hread, hskip⟩)
      | true =>
        obtain ⟨i, hhtml, hplain⟩ := skip_iff.1 hskip
        obtain ⟨q, hq, hqi, hqr⟩ := h i p hp hhtml hread hplain
        exact .inr ⟨i, hhtml, q, hqi.mem_indexed hq hqr, hqi⟩
    have hjoined : ∀ p ∈ indexed parts, p.text <:+: assembleBodyText parts :=
      fun p hp => infix_joined (.inr ⟨p, hp, rfl⟩)
    have hne : ∀ p ∈ indexed parts, assembleBodyText parts ≠ [] := by
      intro p hp hnil
      have htext := hnil ▸ hjoined p hp
      simp_all [mem_indexed, Part.readable]
    refine ⟨hkept, hjoined, ?_⟩
    rintro ⟨p, hp, hread⟩
    rcases hkept p hp hread with hin | ⟨-, -, q, hq, -⟩
    · exact hne p hin
    · exact hne q hq

/-- A blank plain part keeps the HTML next to it out of the text. -/
theorem blank_plain_hides_html :
    assembleBodyText blankPlain = [] ∧ ∃ p ∈ blankPlain, p.readable = true := by
  decide +kernel

end Moov.Parser
