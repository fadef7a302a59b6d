import Moov.Jmap.BodyLists
import Moov.Parser.Tnef

/-!
# What of a message is shown

The lists of a message against its parts, for every stored part list.

* `visible_iff` — when every part can be found: the only parts that fall through the lists are
  the texts of a branch of a `multipart/alternative` that is followed for neither list;
* `ownText_iff` — when the body lists have the message's own text only: what they take from
  inside an embedded message or an attachment are its texts, where they follow it.
-/

namespace Moov.Body

open Text

/-! ## Parts that are found -/

/-- How the root of a message is followed. -/
def Mode.followed : Mode := .body true true

/-- A part without parts. -/
def Node.leaf (n : Node) : Bool := !n.part.multipart && n.children.isEmpty

def StructurePart.plainOrHTML (p : StructurePart) : Bool :=
  p.media = "text/plain".toList || p.media = "text/html".toList

def Node.alternative (n : Node) : Bool :=
  n.part.multipart && n.part.media = "multipart/alternative".toList

/-- The part is in one of the lists. -/
def Lists.Has (l : Lists) (x : Nat) : Prop :=
  x ∈ l.textBody ∨ x ∈ l.htmlBody ∨ x ∈ l.attachments

instance (l : Lists) (x : Nat) : Decidable (l.Has x) := inferInstanceAs (Decidable (_ ∨ _))

/-- A part is in a branch of a `multipart/alternative` of which another branch is listed. -/
def Redundant (root : Node) (l : Lists) (x : Nat) : Prop :=
  ∃ a ∈ root.nodes, a.alternative ∧ ∃ c ∈ a.children, x ∈ c.positions ∧
    ∃ d ∈ a.children, d.pos ≠ c.pos ∧ ∃ y ∈ d.positions, l.Has y

instance (root : Node) (l : Lists) (x : Nat) : Decidable (Redundant root l x) :=
  inferInstanceAs (Decidable (∃ _ ∈ _, _))

/-- Every part can be found in the lists, or what it says. -/
structure Visible (root : Node) (l : Lists) : Prop where
  others : ∀ n ∈ root.nodes, n.leaf → (n.part.plainOrHTML = false ∨ n.part.attachment) → l.Has n.pos
  once : l.textBody.Nodup ∧ l.htmlBody.Nodup ∧ l.attachments.Nodup
  texts : ∀ n ∈ root.nodes, n.leaf → n.part.plainOrHTML → ¬ l.Has n.pos → Redundant root l n.pos

/-- The part has something to put into the lists where it is. -/
def Node.shownIn (m : Mode) (n : Node) : Bool :=
  if n.part.multipart then m = .all && n.children.isEmpty
  else !(n.children.isEmpty && n.part.inlineText && m = .hidden)

/-- A part is in a branch of a `multipart/alternative` of which another branch has something
to put into the lists. -/
def Excused (root : Node) (x : Nat) : Prop :=
  ∃ a ∈ root.places .followed, a.2.alternative ∧ ∃ b ∈ a.2.branches a.1, x ∈ b.2.positions ∧
    ∃ d ∈ a.2.branches a.1, d.2.pos ≠ b.2.pos ∧ ∃ q ∈ d.2.places d.1, q.2.shownIn q.1

instance (root : Node) (x : Nat) : Decidable (Excused root x) :=
  inferInstanceAs (Decidable (∃ _ ∈ _, _))

/-- The inline texts of the branches that are followed for neither list are plain or HTML, and
another branch speaks for them. -/
def HiddenExcused (root : Node) : Prop :=
  ∀ p ∈ root.places .followed, p.2.leaf → p.2.part.inlineText → p.1 = .hidden →
    p.2.part.plainOrHTML ∧ Excused root p.2.pos

instance (root : Node) : Decidable (HiddenExcused root) :=
  inferInstanceAs (Decidable (∀ _ ∈ _, _))

variable {root n : Node} {m : Mode} {x : Nat} {p : Mode × Node} {parts : List StructurePart}

lemma Lists.has_iff (l : Lists) (x : Nat) : l.Has x ↔ ∃ w, x ∈ l.get w := by
  constructor
  · rintro (h | h | h)
    · exact ⟨.textBody, h⟩
    · exact ⟨.htmlBody, h⟩
    · exact ⟨.attachments, h⟩
  · rintro ⟨w, h⟩
    cases w with
    | textBody => exact .inl h
    | htmlBody => exact .inr (.inl h)
    | attachments => exact .inr (.inr h)

lemma has_ownIn (n : Node) (m : Mode) : (n.ownIn m).Has n.pos ↔ n.shownIn m := by
  unfold Node.ownIn Node.shownIn
  cases m with
  | all =>
    rw [own]
    cases n.part.multipart <;> cases n.children.isEmpty <;>
      simp [Lists.Has, Lists.empty, Mode.hidden]
  | body t h =>
    rw [own]
    cases n.part.multipart <;> cases n.children.isEmpty <;> cases n.part.inlineText <;>
      cases t <;> cases h <;> simp [Lists.Has, Lists.empty, Lists.restrict, Mode.hidden]

/-- The program lists a part exactly when it has something to put where it is. -/
lemma has_bodyStructureLists (hn : root.positions.Nodup) (hp : p ∈ root.places .followed) :
    root.bodyStructureLists.Has p.2.pos ↔ p.2.shownIn p.1 := by
  rw [← has_ownIn, Lists.has_iff, Lists.has_iff]
  refine exists_congr fun w => ?_
  rw [((bodyStructureLists_perm root).get w).mem_iff]
  exact mem_listsIn_iff hn hp

lemma bodyStructureLists_nodup (hn : root.positions.Nodup) (w : Which) :
    (root.bodyStructureLists.get w).Nodup :=
  ((bodyStructureLists_perm root).get w).nodup_iff.2 ((listsIn_sublist root _ w).nodup hn)

lemma mem_nodes_of_place (hp : p ∈ root.places m) : p.2 ∈ root.nodes := by
  rw [← places_snd root m]
  exact List.mem_map_of_mem hp

lemma exists_place_of_pos (m : Mode) (hx : x ∈ root.positions) :
    ∃ p ∈ root.places m, p.2.pos = x := by
  rw [← places_pos root m] at hx
  exact List.mem_map.1 hx

lemma redundant_iff (hn : root.positions.Nodup) :
    Redundant root root.bodyStructureLists x ↔ Excused root x := by
  constructor
  · rintro ⟨a, ha, halt, c, hc, hx, d, hd, hne, y, hy, hhas⟩
    obtain ⟨ma, ha⟩ := exists_place .followed ha
    obtain ⟨mc, hc⟩ := exists_branch ma hc
    obtain ⟨md, hd⟩ := exists_branch ma hd
    obtain ⟨q, hq, rfl⟩ := exists_place_of_pos md hy
    have hqroot : q ∈ root.places .followed := places_trans root (branch_mem_places ha hd) hq
    exact ⟨_, ha, halt, _, hc, hx, _, hd, hne, q, hq, (has_bodyStructureLists hn hqroot).1 hhas⟩
  · rintro ⟨a, ha, halt, b, hb, hx, d, hd, hne, q, hq, hshown⟩
    have hqroot : q ∈ root.places .followed := places_trans root (branch_mem_places ha hd) hq
    exact ⟨a.2, mem_nodes_of_place ha, halt, b.2, branch_child hb, hx, d.2, branch_child hd, hne,
      q.2.pos, places_pos d.2 _ ▸ List.mem_map_of_mem hq,
      (has_bodyStructureLists hn hqroot).2 hshown⟩

/-- A leaf that is in no list. -/
lemma not_shownIn_leaf (hleaf : n.leaf) : ¬ n.shownIn m ↔ n.part.inlineText ∧ m = .hidden := by
  unfold Node.leaf at hleaf
  unfold Node.shownIn
  simp only [Bool.and_eq_true, Bool.not_eq_true', List.isEmpty_iff] at hleaf
  simp [hleaf.1, hleaf.2]

lemma attachment_of_inlineText (h : n.part.inlineText) : n.part.attachment = false := by
  rw [StructurePart.inlineText, Bool.and_eq_true] at h
  simpa using h.2

/-- **What is found.**  Each part that is not plain or HTML text, and each attachment, is in a
list, none is in a list twice, and a plain or HTML text is left out only where another branch
of a `multipart/alternative` is listed, exactly when that can be said of the texts in the
branches that are followed for neither list. -/
theorem visible_iff (h : bodyPartTree parts = some root) :
    root.entries.Perm parts.zipIdx ∧
      (Visible root root.bodyStructureLists ↔ HiddenExcused root) := by
  have hn := bodyPartTree_nodup h
  refine ⟨bodyPartTree_entries h, ?_, ?_⟩
  · intro hvisible p hp hleaf htext hmode
    have hnode := mem_nodes_of_place hp
    have hnot : ¬ root.bodyStructureLists.Has p.2.pos := by
      rw [has_bodyStructureLists hn hp]
      exact (not_shownIn_leaf hleaf).2 ⟨htext, hmode⟩
    have hplain : p.2.part.plainOrHTML := by
      by_contra hother
      exact hnot (hvisible.others p.2 hnode hleaf (.inl (Bool.not_eq_true _ ▸ hother)))
    exact ⟨hplain, (redundant_iff hn).1 (hvisible.texts p.2 hnode hleaf hplain hnot)⟩
  · intro hidden
    refine ⟨fun n hnode hleaf hother => ?_, ⟨bodyStructureLists_nodup hn .textBody,
      bodyStructureLists_nodup hn .htmlBody, bodyStructureLists_nodup hn .attachments⟩,
      fun n hnode hleaf hplain hnot => ?_⟩
    · obtain ⟨m, hp⟩ := exists_place .followed hnode
      by_contra hnot
      rw [has_bodyStructureLists hn hp] at hnot
      obtain ⟨htext, hmode⟩ := (not_shownIn_leaf hleaf).1 hnot
      rcases hother with hother | hattach
      · exact absurd (hidden _ hp hleaf htext hmode).1 (by rw [hother]; exact Bool.false_ne_true)
      · rw [attachment_of_inlineText htext] at hattach
        exact Bool.false_ne_true hattach
    · obtain ⟨m, hp⟩ := exists_place .followed hnode
      rw [has_bodyStructureLists hn hp] at hnot
      obtain ⟨htext, hmode⟩ := (not_shownIn_leaf hleaf).1 hnot
      exact (redundant_iff hn).2 (hidden _ hp hleaf htext hmode).2

/-! ### Two messages -/

/-- A part as the parser stores it, without a file name. -/
def storedPart (index parent : Int) (mediaType : String) : StructurePart where
  index := index
  parent := parent
  mediaType := mediaType.toList
  disposition := []
  filename := []
  isAttachment := false
  isMultipart := "multipart/".toList.isPrefixOf mediaType.toList
  isRFC822 := mediaType = "message/rfc822"

/-- An invitation as calendars send it: the same event as text, as HTML and as data. -/
def invitation : List StructurePart :=
  [storedPart 0 (-1) "multipart/alternative", storedPart 1 0 "text/plain",
    storedPart 2 0 "text/html", storedPart 3 0 "text/calendar"]

/-- The invitation as an attachment beside the text and the HTML. -/
def attachedInvitation : List StructurePart :=
  [storedPart 0 (-1) "multipart/mixed", storedPart 1 0 "multipart/alternative",
    storedPart 2 1 "text/plain", storedPart 3 1 "text/html", storedPart 4 0 "text/calendar"]

def attachedInvitationTree : Node :=
  .mk 0 (storedPart 0 (-1) "multipart/mixed")
    [.mk 1 (storedPart 1 0 "multipart/alternative")
      [.mk 2 (storedPart 2 1 "text/plain") [], .mk 3 (storedPart 3 1 "text/html") []],
      .mk 4 (storedPart 4 0 "text/calendar") []]

theorem visible_iff_attachedInvitation :
    Visible attachedInvitationTree attachedInvitationTree.bodyStructureLists :=
  (@visible_iff attachedInvitationTree attachedInvitation rfl).2.2 (by decide +kernel)

/-- The calendar data of an invitation is in none of the lists. -/
theorem invitation_without_calendar :
    ∃ root, bodyPartTree invitation = some root ∧ ¬ Visible root root.bodyStructureLists := by
  refine ⟨_, rfl, fun h => ?_⟩
  have hcalendar := h.others (.mk 3 (storedPart 3 0 "text/calendar") [])
    (List.mem_of_getElem? (i := 3) rfl) rfl (.inl rfl)
  exact absurd hcalendar (by decide +kernel)

/-! ## The message's own text -/

/-- `isTNEFPart`. -/
def StructurePart.isTNEFPart (p : StructurePart) : Bool := Tnef.isTNEFPart p.mediaType p.filename

/-- What is inside the part is not the message's own: an embedded message, an unpacked TNEF
container, an attachment. -/
def StructurePart.embeds (p : StructurePart) : Bool :=
  p.isRFC822 || p.media = "message/rfc822".toList || (!p.multipart && p.isTNEFPart) || p.attachment

/-- The part is inside one that embeds. -/
def Foreign (root : Node) (x : Nat) : Prop :=
  ∃ a ∈ root.nodes, a.part.embeds ∧ ∃ c ∈ a.children, x ∈ c.positions

instance (root : Node) (x : Nat) : Decidable (Foreign root x) :=
  inferInstanceAs (Decidable (∃ _ ∈ _, _))

/-- The body lists have parts of the message itself. -/
def OwnText (root : Node) (l : Lists) : Prop :=
  ∀ x, Foreign root x → x ∉ l.textBody ∧ x ∉ l.htmlBody

/-- The inline texts inside an embedding part are in a branch that is followed for neither
list, or that is taken over as attachments. -/
def ForeignHidden (root : Node) : Prop :=
  ∀ p ∈ root.places .followed, p.2.leaf → p.2.part.inlineText → Foreign root p.2.pos →
    p.1 = .hidden ∨ p.1 = .all

instance (root : Node) : Decidable (ForeignHidden root) :=
  inferInstanceAs (Decidable (∀ _ ∈ _, _))

/-- What a part puts into the body lists: itself, as an inline text that is followed. -/
lemma mem_ownIn_body (n : Node) (m : Mode) :
    (n.pos ∈ (n.ownIn m).textBody ∨ n.pos ∈ (n.ownIn m).htmlBody) ↔
      n.leaf ∧ n.part.inlineText ∧ ¬ (m = .hidden ∨ m = .all) := by
  unfold Node.ownIn Node.leaf
  cases m with
  | all =>
    rw [own]
    cases n.part.multipart <;> cases n.children.isEmpty <;> simp [Lists.empty]
  | body t h =>
    rw [own]
    cases n.part.multipart <;> cases n.children.isEmpty <;> cases n.part.inlineText <;>
      cases t <;> cases h <;> simp [Lists.empty, Lists.restrict, Mode.hidden]

/-- **Whose text it is.**  The body lists have nothing from inside an embedded message, an
unpacked TNEF container or an attachment, exactly when the inline texts in there stand where
the lists do not follow them. -/
theorem ownText_iff (h : bodyPartTree parts = some root) :
    OwnText root root.bodyStructureLists ↔ ForeignHidden root := by
  have hn := bodyPartTree_nodup h
  have hperm := bodyStructureLists_perm root
  have hbody : ∀ p ∈ root.places .followed,
      (p.2.pos ∈ root.bodyStructureLists.textBody ∨ p.2.pos ∈ root.bodyStructureLists.htmlBody) ↔
        p.2.leaf ∧ p.2.part.inlineText ∧ ¬ (p.1 = .hidden ∨ p.1 = .all) := by
    intro p hp
    rw [← mem_ownIn_body, hperm.textBody.mem_iff, hperm.htmlBody.mem_iff]
    exact or_congr (@mem_listsIn_iff _ root .textBody p hn hp)
      (@mem_listsIn_iff _ root .htmlBody p hn hp)
  constructor
  · intro hown p hp hleaf htext hforeign
    by_contra hmode
    obtain ⟨htextBody, hhtmlBody⟩ := hown p.2.pos hforeign
    rcases (hbody p hp).2 ⟨hleaf, htext, hmode⟩ with hin | hin
    · exact htextBody hin
    · exact hhtmlBody hin
  · intro hidden x hforeign
    refine not_or.1 fun hin => ?_
    -- a part in a list is a part of the tree
    have hx : x ∈ root.positions := by
      rcases hin with hin | hin
      · exact (listsIn_sublist root _ .textBody).subset (hperm.textBody.mem_iff.1 hin)
      · exact (listsIn_sublist root _ .htmlBody).subset (hperm.htmlBody.mem_iff.1 hin)
    obtain ⟨p, hp, rfl⟩ := exists_place_of_pos .followed hx
    obtain ⟨hleaf, htext, hmode⟩ := (hbody p hp).1 hin
    exact hmode (hidden p hp hleaf htext hforeign)

/-- A note with a forwarded message. -/
def forwarded : List StructurePart :=
  [storedPart 0 (-1) "multipart/mixed", storedPart 1 0 "text/plain",
    storedPart 2 0 "message/rfc822", storedPart 3 2 "text/html"]

/-- A forwarded message that is a picture. -/
def forwardedPictureTree : Node :=
  .mk 0 (storedPart 0 (-1) "multipart/mixed") [.mk 1 (storedPart 1 0 "text/plain") [],
      .mk 2 (storedPart 2 0 "message/rfc822") [.mk 3 (storedPart 3 2 "image/png") []]]

def forwardedPicture : List StructurePart :=
  [storedPart 0 (-1) "multipart/mixed", storedPart 1 0 "text/plain",
    storedPart 2 0 "message/rfc822", storedPart 3 2 "image/png"]

theorem ownText_iff_forwardedPicture :
    OwnText forwardedPictureTree forwardedPictureTree.bodyStructureLists :=
  (@ownText_iff forwardedPictureTree forwardedPicture rfl).2 (by decide +kernel)

/-- The text of a forwarded message is listed as the text of the message that forwards it. -/
theorem forwarded_text_is_body :
    ∃ root, bodyPartTree forwarded = some root ∧ ¬ OwnText root root.bodyStructureLists := by
  refine ⟨_, rfl, fun h => ?_⟩
  exact absurd (h 3 (by decide +kernel)) (by decide +kernel)

end Moov.Body
