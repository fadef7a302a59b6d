import Moov.Parser.Walk

/-!
# The part list of a walk

What a walk that no cap stops leaves, for both layers and every tree.

* `Tree` — the list is a tree: each part stands at its index, under a part before it, one level
  down;
* `Node.items` — what is read of the parts of a library's tree, in their order;
* `walk_spec` — a walk keeps the list a tree, and appends the items of the node.
-/

namespace Moov.Parser

open Text Utf8 List Option

/-! ## Trees -/

/-- A part list that is a tree within the caps, down to a depth. -/
structure Tree (limits : Limits) (deepest : Int) (parts : List Part) : Prop where
  index : ∀ (i : Nat) (p : Part), parts[i]? = some p → p.index = i
  parent : ∀ (i : Nat) (p : Part), parts[i]? = some p → (i = 0 ∧ p.parent = -1) ∨
    ∃ (j : Nat) (q : Part), j < i ∧ parts[j]? = some q ∧ p.parent = j ∧ p.depth = q.depth + 1
  depth : ∀ p ∈ parts, (p.depth : Int) ≤ deepest
  count : (parts.length : Int) ≤ limits.maxParts

/-- The place of the next part: the root, or under a part of the list. -/
def Placed (parts : List Part) (parent : Int) (depth : Nat) : Prop :=
  (parts = [] ∧ parent = -1) ∨ ∃ (j : Nat) (q : Part), parts[j]? = some q ∧ parent = j ∧
    depth = q.depth + 1

variable {limits : Limits} {deepest : Int} {parts parts' new : List Part} {p : Part} {parent : Int}
  {depth rfc822Depth : Nat} {items : List Item}

lemma tree_nil (h : 0 < limits.maxParts) : Tree limits deepest [] where
  index _ _ h := by cases h
  parent _ _ h := by cases h
  depth := forall_mem_nil _
  count := by
    exact le_of_lt h

section

variable (h : Tree limits deepest parts)
include h

/-- A part that is appended in its place. -/
lemma Tree.push (hplace : Placed parts p.parent p.depth)
    (hindex : p.index = parts.length) (hdepth : (p.depth : Int) ≤ deepest)
    (hcount : (parts.length : Int) < limits.maxParts) : Tree limits deepest (parts ++ [p]) := by
  have hlast : ∀ i q, (parts ++ [p])[i]? = some q → parts[i]? = some q ∨
    (i = parts.length ∧ q = p) := by
    intro i q hq
    rcases Nat.lt_trichotomy i parts.length with hlt | rfl | hgt
    · exact .inl (by rwa [getElem?_append_left hlt] at hq)
    · rw [getElem?_concat_length] at hq
      exact .inr ⟨rfl, (some.inj hq).symm⟩
    · rw [getElem?_eq_none (by rw [length_append]; exact hgt)] at hq
      cases hq
  refine ⟨fun i q hq => ?_, fun i q hq => ?_, fun q hq => ?_, ?_⟩
  · rcases hlast i q hq with hq | ⟨rfl, rfl⟩
    · exact h.index i q hq
    · exact hindex
  · rcases hlast i q hq with hq | ⟨rfl, rfl⟩
    · obtain hroot | ⟨j, r, hj, hr, hpar, hdep⟩ := h.parent i q hq
      · exact .inl hroot
      · exact .inr ⟨j, r,
          hj, by rw [List.getElem?_append_left (List.getElem?_eq_some_iff.1 hr).1, hr], hpar, hdep⟩
    · obtain ⟨rfl, hpar⟩ | ⟨j, r, hr, hpar, hdep⟩ := hplace
      · exact .inl ⟨rfl, hpar⟩
      · have hj := (List.getElem?_eq_some_iff.1 hr).1
        exact .inr ⟨j, r, hj, by rw [getElem?_append_left hj, hr], hpar, hdep⟩
  · exact forall_mem_append.2 ⟨h.depth, forall_mem_singleton.2 hdepth⟩ q hq
  · rw [length_append, length_singleton]
    omega

lemma Tree.mono {deeper : Int} (hle : deepest ≤ deeper) :
    Tree limits deeper parts :=
  ⟨h.index, h.parent, fun p hp => le_trans (h.depth p hp) hle, h.count⟩

/-- What keeps the places of the parts keeps the tree. -/
lemma Tree.map {f : Part → Part}
    (hf : ∀ p, (f p).index = p.index ∧ (f p).parent = p.parent ∧ (f p).depth = p.depth) :
    Tree limits deepest (parts.map f) := by
  refine ⟨fun i p hp => ?_, fun i p hp => ?_, fun p hp => ?_, by rw [length_map]; exact h.count⟩
  · rw [getElem?_map] at hp
    obtain ⟨q, hq, rfl⟩ := map_eq_some_iff.1 hp
    rw [(hf q).1, h.index i q hq]
  · rw [getElem?_map] at hp
    obtain ⟨q, hq, rfl⟩ := map_eq_some_iff.1 hp
    obtain ⟨hi, hroot⟩ | ⟨j, r, hj, hr, hpar, hdep⟩ := h.parent i q hq
    · exact .inl ⟨hi, (hf q).2.1.trans hroot⟩
    · refine .inr ⟨j, f r, hj, by rw [getElem?_map, hr]; rfl, (hf q).2.1.trans hpar, ?_⟩
      rw [(hf q).2.2, (hf r).2.2, hdep]
  · obtain ⟨q, hq, rfl⟩ := mem_map.1 hp
    rw [(hf q).2.2]
    exact h.depth q hq

end

/-! ## Items -/

/-- What is read of a part, and whether it is decoded: the content is a text in UTF-8 then. -/
structure Item where
  mediaType : List Char
  filename : List Char
  kind : Kind
  rfc822 : Bool
  decoded : Bool
  content : Data

section Nodes

variable (cs : Charsets) (limits : Limits) (layer : Layer)

def itemOf (info : Info) (kind : Kind) (content : Data) : Item where
  mediaType := info.mediaType
  filename := info.filename
  kind := kind
  rfc822 := info.mediaType = "message/rfc822".toList
  decoded := kind = .leaf && isTextType info.mediaType
  content :=
    match kind with
    | .multipart => []
    | .message => content
    | .leaf => if isTextType info.mediaType then
      (leafText cs layer content info.charset).text
    else content

mutual

/-- What is read of a tree, in the order of the walk. -/
def Node.items (rfc822Depth : Nat) : Node → List Item
  | .mk info multipart body fault _ inner parts =>
      let content := (readBody limits layer body fault).1
      let kind := kindOf layer info multipart content parts
      itemOf cs layer info kind content ::
        ((if descends limits kind content rfc822Depth then
          itemsAll (rfc822Depth + 1) inner
        else []) ++
          (if layer = .goMessage ∧ kind ≠ .multipart then [] else itemsAll rfc822Depth parts))

def itemsAll (rfc822Depth : Nat) : List Node → List Item
  | [] => []
  | n :: ns => n.items rfc822Depth ++ itemsAll rfc822Depth ns

end

/-- Induction over a tree. -/
@[elab_as_elim]
lemma Node.ind {motive : Node → Prop}
    (mk : ∀ info multipart body fault cut inner parts, (∀ c ∈ inner, motive c) →
      (∀ c ∈ parts, motive c) →
      motive (mk info multipart body fault cut inner parts)) : ∀ n, motive n
  | .mk info multipart body fault cut inner parts =>
      mk info multipart body fault cut inner parts (all inner) (all parts)
where
  all : ∀ ns : List Node, ∀ c ∈ ns, motive c
    | [], _, h => absurd h List.not_mem_nil
    | n :: rest, c, h =>
      match List.mem_cons.1 h with
      | .inl heq => heq ▸ ind mk n
      | .inr h => all rest c h

/-! ## The walk -/

/-- Two builds differ in nothing but that more may be amiss. -/
structure Worse (b b' : Build) : Prop where
  parts : b'.parts = b.parts
  status : b.status ≠ .failed → b'.status ≠ .failed

lemma worse_downgradeIf (b : Build) (amiss : Bool) : Worse b (b.downgradeIf amiss) := by
  refine ⟨rfl, fun h => ?_⟩
  unfold Build.downgradeIf
  dsimp only
  split
  · decide
  · exact h

variable {cs limits layer} {b b' b₁ : Build} {info : Info} {multipart fault cut : Bool}
  {body content : Data}
  {inner nodes : List Node} {kind : Kind}

/-- A walk that no cap stops: the part is appended, then the message in it is walked, and then
its parts. -/
lemma walk_eq_some
    (h : walk cs limits layer parent depth rfc822Depth b
      (.mk info multipart body fault cut inner nodes) =
      some b') :
    let content := (readBody limits layer body fault).1
    let kind := kindOf layer info multipart content nodes
    (depth : Int) ≤ limits.maxDepth ∧ (b.parts.length : Int) < limits.maxParts ∧
    ∃ short b₀ b₁ b₂,
      Worse (b.push
        (finishPart cs layer (newPart b.parts.length parent depth info) kind content short)) b₀ ∧
      (if descends limits kind content rfc822Depth then
        walkAll cs limits layer b.parts.length (depth + 1) (rfc822Depth + 1) b₀ inner
        else some b₀) = some b₁ ∧
      (if layer = .goMessage ∧ kind ≠ .multipart then some b₁ else
        walkAll cs limits layer b.parts.length (depth + 1) rfc822Depth b₁ nodes) = some b₂ ∧
      Worse b₂ b' := by
  intro content kind
  obtain ⟨hdepth, h⟩ := ite_none_left_eq_some.1 h
  obtain ⟨hcount, h⟩ := ite_none_left_eq_some.1 h
  refine ⟨not_lt.1 hdepth, not_le.1 hcount, (readBody limits layer body fault).2, ?_⟩
  dsimp only at h
  split at h
  · cases h
  · rename_i b₁ hinner
    split at h
    · cases h
    · rename_i b₂ hparts
      refine ⟨_, b₁, b₂, worse_downgradeIf _ _, hinner, hparts, ?_⟩
      split at h
      · rw [← some.inj h]
        exact ⟨rfl, (worse_downgradeIf b₂ true).status⟩
      · rw [← some.inj h]
        exact ⟨rfl, fun h => h⟩

/-- A stored part is what was read of its item. -/
structure Finished (limits : Limits) (p : Part) (item : Item) : Prop where
  mediaType : p.mediaType = item.mediaType
  filename : p.filename = item.filename
  content : p.content = item.content
  size : p.size = p.content.length
  isMultipart : p.isMultipart = decide (item.kind = .multipart)
  isRFC822 : p.isRFC822 = item.rfc822
  /-- A text is cleaned, and what is not decoded is capped. -/
  text : isTextType item.mediaType = true → Utf8.valid item.content ∧ 0 ∉ item.content
  binary : item.decoded = false → (item.content.length : Int) ≤ limits.maxPartSize

/-- What a walk leaves: the items at the end of the list, which is a tree if it was one and the
walk began at a place in it. -/
structure Walked (limits : Limits) (parent : Int) (depth : Nat) (b b' : Build) (items : List Item) :
    Prop where
  appended : ∃ new, b'.parts = b.parts ++ new ∧ List.Forall₂ (Finished limits) new items
  status : b.status ≠ .failed → b'.status ≠ .failed
  tree : Tree limits limits.maxDepth b.parts → Placed b.parts parent depth →
    Tree limits limits.maxDepth b'.parts

lemma readBody_length (hmax : 0 ≤ limits.maxPartSize) (layer : Layer) (body : Data) (fault : Bool) :
    ((readBody limits layer body fault).1.length : Int) ≤ limits.maxPartSize := by
  have htake : ∀ data : Data, ((data.take limits.maxPartSize.toNat).length : Int) ≤
    limits.maxPartSize := by
    intro data
    have := length_take_le limits.maxPartSize.toNat data
    omega
  cases layer with
  | goMessage | enmime => exact htake _

/-- Only a message takes the branch of messages. -/
lemma mediaType_of_message (h : kindOf layer info multipart content nodes = .message) :
    isTextType info.mediaType = false := by
  have hrfc : info.mediaType = "message/rfc822".toList := by
    unfold kindOf at h
    cases layer with
    | goMessage =>
      dsimp only at h
      split at h
      · cases h
      · split at h
        · rename_i hrfc
          exact hrfc
        · cases h
    | enmime =>
      dsimp only at h
      split at h
      · rename_i hrfc
        exact of_decide_eq_true (Bool.and_eq_true_iff.1 hrfc).1
      · split at h <;> cases h
  rw [hrfc]
  decide

lemma leafText_valid (layer : Layer) (content : Data) (charset : List Char) :
    Utf8.valid (leafText cs layer content charset).text ∧
      0 ∉ (leafText cs layer content charset).text := by
  refine ⟨sanitizeBytes_valid (stripBOM_valid ?_), zero_not_mem_sanitizeBytes _⟩
  unfold readText
  split
  · rename_i text htext
    exact utf16BOMDecode_valid htext
  · split
    · rename_i hvalid
      exact (Bool.and_eq_true_iff.1 hvalid).2
    · exact decodeCharset_valid content charset

variable (cs) in
/-- A part is finished as its item is read. -/
lemma finishPart_finished (hmax : (content.length : Int) ≤ limits.maxPartSize)
    (hkind : kindOf layer info multipart content nodes = kind) (index : Nat) (parent : Int)
    (depth : Nat) (short : Bool) :
    Finished limits (finishPart cs layer (newPart index parent depth info) kind content short)
      (itemOf cs layer info kind content) := by
  cases kind with
  | multipart =>
    exact ⟨rfl, rfl, rfl, rfl, rfl, rfl, fun _ => ⟨valid_nil, not_mem_nil⟩,
      fun _ => le_trans (Int.natCast_nonneg _) hmax⟩
  | message =>
    refine ⟨rfl, rfl, rfl, rfl, rfl, rfl, fun h => ?_, fun _ => hmax⟩
    rw [itemOf, mediaType_of_message hkind] at h
    cases h
  | leaf =>
    cases htext : isTextType info.mediaType with
    | true =>
      have hpart : (newPart index parent depth info).isText = true := htext
      rw [finishPart, itemOf, if_pos hpart, if_pos htext]
      exact ⟨rfl, rfl, rfl, rfl, rfl, rfl, fun _ => leafText_valid layer content info.charset,
        fun h => by rw [htext] at h; cases h⟩
    | false =>
      have hpart : ¬ (newPart index parent depth info).isText = true := by
        exact ne_true_of_eq_false htext
      rw [finishPart, itemOf, if_neg hpart, if_neg (ne_true_of_eq_false htext)]
      exact ⟨rfl, rfl, rfl, rfl, rfl, rfl, fun h => absurd h (ne_true_of_eq_false htext),
        fun _ => hmax⟩

variable (cs layer) in
lemma finishPart_placed (p : Part) (kind : Kind) (content : Data) (short : Bool) :
    (finishPart cs layer p kind content short).index = p.index ∧
      (finishPart cs layer p kind content short).parent = p.parent ∧
      (finishPart cs layer p kind content short).depth = p.depth := by
  unfold finishPart
  split
  · exact ⟨rfl, rfl, rfl⟩
  · exact ⟨rfl, rfl, rfl⟩
  · split
    · exact ⟨rfl, rfl, rfl⟩
    · exact ⟨rfl, rfl, rfl⟩

lemma walked_refl (limits : Limits) (parent : Int) (depth : Nat) (b : Build) :
    Walked limits parent depth b b [] :=
  ⟨⟨[], by rw [append_nil], .nil⟩, fun h => h, fun h _ => h⟩

lemma Walked.worse (h : Walked limits parent depth b b₁ items)
    (hw : Worse b₁ b') : Walked limits parent depth b b' items :=
  ⟨by rw [hw.parts]; exact h.appended, fun hs =>
    hw.status (h.status hs), by rw [hw.parts]; exact h.tree⟩

/-- The parts of a list stay where they are. -/
lemma Walked.getElem? {j : Nat} {q : Part} (h : Walked limits parent depth b b' items)
    (hq : b.parts[j]? = some q) : b'.parts[j]? = some q := by
  obtain ⟨new, hnew, -⟩ := h.appended
  rw [hnew, List.getElem?_append_left (List.getElem?_eq_some_iff.1 hq).1, hq]

/-- Two walks at one place, under a part of the list. -/
lemma Walked.append {items' : List Item} {j : Nat} {q : Part} (hq : b.parts[j]? = some q)
    (h : Walked limits j (q.depth + 1) b b₁ items)
    (h' : Walked limits j (q.depth + 1) b₁ b' items') :
    Walked limits j (q.depth + 1) b b' (items ++ items') := by
  obtain ⟨new, hnew, hitems⟩ := h.appended
  obtain ⟨new', hnew', hitems'⟩ := h'.appended
  refine ⟨⟨new ++ new', by rw [hnew', hnew, append_assoc], rel_append hitems hitems'⟩,
    fun hs => h'.status (h.status hs), fun ht hp => ?_⟩
  exact h'.tree (h.tree ht hp) (.inr ⟨j, q, h.getElem? hq, rfl, rfl⟩)

/-- A part, and a walk under it. -/
lemma Walked.under {item : Item} (hp : Finished limits p item)
    (hindex : p.index = b.parts.length) (hdepth : (p.depth : Int) ≤ limits.maxDepth)
    (hcount : (b.parts.length : Int) < limits.maxParts)
    (h : Walked limits b.parts.length (p.depth + 1) (b.push p) b' items) :
    Walked limits p.parent p.depth b b' (item :: items) := by
  obtain ⟨new, hnew, hitems⟩ := h.appended
  refine ⟨⟨p :: new, by rw [hnew, Build.push, append_assoc]; rfl, .cons hp hitems⟩, h.status,
    fun ht hplace => ?_⟩
  exact h.tree (ht.push hplace hindex hdepth hcount)
    (.inr ⟨b.parts.length, p, getElem?_concat_length, rfl, rfl⟩)

/-- The walk over the parts of a part of the list. -/
lemma walkAll_spec {ns : List Node}
    (hns : ∀ n ∈ ns, ∀ {parent depth rfc822Depth b b'},
      walk cs limits layer parent depth rfc822Depth b n = some b' →
      Walked limits parent depth b b' (n.items cs limits layer rfc822Depth)) :
    ∀ {b b' : Build} {j : Nat} {q : Part}, b.parts[j]? = some q →
      walkAll cs limits layer j (q.depth + 1) rfc822Depth b ns = some b' →
      Walked limits j (q.depth + 1) b b' (itemsAll cs limits layer rfc822Depth ns) := by
  induction ns with
  | nil =>
    intro b b' j q _ h
    cases h
    exact walked_refl _ _ _ _
  | cons n ns ih =>
    intro b b' j q hq h
    rw [walkAll] at h
    split at h
    · cases h
    · rename_i b₁ hwalk
      have hn := hns n mem_cons_self hwalk
      exact hn.append hq (ih (fun m hm => hns m (mem_cons_of_mem _ hm)) (hn.getElem? hq) h)

/-- What a walk leaves. -/
theorem walk_spec (hmax : 0 ≤ limits.maxPartSize) (n : Node) : ∀ {parent depth rfc822Depth b b'},
    walk cs limits layer parent depth rfc822Depth b n = some b' →
      Walked limits parent depth b b' (n.items cs limits layer rfc822Depth) := by
  induction n using Node.ind with
  | mk info multipart body fault cut inner nodes hinner hnodes =>
    intro parent depth rfc822Depth b b' h
    obtain ⟨hdepth, hcount, short, b₀, b₁, b₂, h₀, h₁, h₂, h'⟩ := walk_eq_some h
    have hlen := readBody_length hmax layer body fault
    rw [Node.items]
    generalize (readBody limits layer body fault).1 = content at *
    generalize hkind : kindOf layer info multipart content nodes = kind at *
    have hp := finishPart_finished cs hlen hkind b.parts.length parent depth short
    obtain ⟨hindex, hparent, hdep⟩ :=
      finishPart_placed cs layer (newPart b.parts.length parent depth info) kind content short
    generalize finishPart cs layer (newPart b.parts.length parent depth info) kind content short =
      p at *
    change p.parent = parent at hparent
    change p.depth = depth at hdep
    subst hparent hdep
    refine Walked.worse ?_ h'
    refine Walked.under hp hindex hdepth hcount ?_
    have hq : (b.push p).parts[b.parts.length]? = some p := getElem?_concat_length
    have hb₀ := (walked_refl limits b.parts.length (p.depth + 1) (b.push p)).worse h₀
    have hq₀ := hb₀.getElem? hq
    have hb₁ : Walked limits b.parts.length (p.depth + 1) b₀ b₁
        (if descends limits kind content rfc822Depth then
          itemsAll cs limits layer (rfc822Depth + 1) inner
        else []) := by
      split at h₁
      · rename_i hdescends
        rw [if_pos hdescends]
        exact walkAll_spec (fun n hn => hinner n hn) hq₀ h₁
      · rename_i hdescends
        rw [if_neg hdescends]
        cases h₁
        exact walked_refl _ _ _ _
    have hb₂ : Walked limits b.parts.length (p.depth + 1) b₁ b₂
        (if layer = .goMessage ∧ kind ≠ .multipart then
          []
        else itemsAll cs limits layer rfc822Depth nodes) := by
      split at h₂
      · rename_i hleaf
        rw [if_pos hleaf]
        cases h₂
        exact walked_refl _ _ _ _
      · rename_i hleaf
        rw [if_neg hleaf]
        exact walkAll_spec (fun n hn => hnodes n hn) (hb₁.getElem? hq₀) h₂
    have hall := hb₀.append hq (hb₁.append hq₀ hb₂)
    exact hall

end Nodes

end Moov.Parser
