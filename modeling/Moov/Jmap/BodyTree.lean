import Mathlib.Data.List.Perm.Basic
import Moov.Jmap.BodyPart

/-!
# The tree of a stored part list

Whatever the parents of the stored parts are — missing, out of range, in a cycle — each part
is in the tree exactly once.

* `entries_attach` — attaching a part adds it, and nothing else;
* `bodyPartTree_entries` — the parts of the tree are the stored parts;
* `bodyPartTree_treeOf` — and a part that its parents lead to the root from is the child of its own.
-/

namespace Moov.Body

open List Node

variable {parts : List StructurePart} {n c tree root : Node} {q i : Nat}
  {l : List (StructurePart × Nat)}

lemma entriesAll_eq (cs : List Node) : entriesAll cs = cs.flatMap Node.entries := by
  induction cs with
  | nil => rfl
  | cons c cs ih => rw [entriesAll, ih, flatMap_cons]

lemma entries_mk (pos : Nat) (part : StructurePart) (cs : List Node) :
    (Node.mk pos part cs).entries = (part, pos) :: cs.flatMap Node.entries := by
  rw [entries, entriesAll_eq]

lemma attachAll_eq (q : Nat) (c : Node) (cs : List Node) :
    attachAll q c cs = cs.map (Node.attach q c) := by
  induction cs with
  | nil => rfl
  | cons d cs ih => rw [attachAll, ih, map_cons]

lemma sortAll_eq (cs : List Node) : sortAll cs = cs.map Node.sortChildren := by
  induction cs with
  | nil => rfl
  | cons c cs ih => rw [sortAll, ih, map_cons]

lemma pos_mem_positions (n : Node) : n.pos ∈ n.positions := by
  cases n with
  | mk pos part => exact mem_map.2 ⟨(part, pos), by rw [entries_mk]; exact mem_cons_self, rfl⟩

lemma positions_mk (pos : Nat) (part : StructurePart) (cs : List Node) :
    (Node.mk pos part cs).positions = pos :: cs.flatMap Node.positions := by
  rw [positions, entries_mk, map_cons, map_flatMap]
  rfl

/-! ## Attaching -/

lemma pos_attach (q : Nat) (c n : Node) : (Node.attach q c n).pos = n.pos := by
  cases n
  rw [Node.attach]
  split <;> rfl

/-- Without the parent nothing is attached. -/
lemma attach_of_not_mem (hq : q ∉ n.positions) : Node.attach q c n = n := by
  induction n using ind with
  | mk pos part cs ih =>
    rw [positions_mk, mem_cons, mem_flatMap, not_or] at hq
    rw [Node.attach, if_neg fun heq => hq.1 heq.symm, attachAll_eq]
    congr 1
    calc cs.map (attach q c) = cs.map id :=
          map_congr_left fun d hd => ih d hd fun hin => hq.2 ⟨d, hd, hin⟩
      _ = cs := map_id cs

/-- Attaching under a part that is there once adds what is attached. -/
theorem entries_attach (hn : n.positions.Nodup) (hq : q ∈ n.positions) :
    (Node.attach q c n).entries.Perm (c.entries ++ n.entries) := by
  induction n using ind with
  | mk pos part cs ih =>
    rw [positions_mk] at hn hq
    obtain ⟨hpos, hrest⟩ := nodup_cons.1 hn
    rw [Node.attach]
    split
    · rw [entries_mk, entries_mk, flatMap_append]
      simp only [flatMap_cons, flatMap_nil, append_nil]
      exact ((perm_append_comm.cons _)).trans perm_middle.symm
    · rename_i hne
      have hin : q ∈ cs.flatMap positions := (mem_cons.1 hq).resolve_left fun h => hne h.symm
      rw [entries_mk, entries_mk, attachAll_eq]
      -- one of the children has the parent, and the others do not
      have hchildren : ∀ ds : List Node, (∀ d ∈ ds, d ∈ cs) → (ds.flatMap positions).Nodup →
          q ∈ ds.flatMap positions →
          ((ds.map (attach q c)).flatMap entries).Perm (c.entries ++ ds.flatMap entries) := by
        intro ds
        induction ds with
        | nil => exact nofun
        | cons d ds ihds =>
          intro hsub hnodup hmem
          obtain ⟨hd, hds, hdisj⟩ := nodup_append.1 hnodup
          rw [map_cons, flatMap_cons, flatMap_cons]
          by_cases hqd : q ∈ d.positions
          · have hrest : ds.map (attach q c) = ds := by
              calc ds.map (attach q c) = ds.map id := by
                    refine map_congr_left fun e he => attach_of_not_mem fun hqe => ?_
                    exact hdisj q hqd q (mem_flatMap.2 ⟨e, he, hqe⟩) rfl
                _ = ds := map_id ds
            rw [hrest]
            have := ih d (hsub d mem_cons_self) hd hqd
            rw [← append_assoc]
            exact this.append_right _
          · rw [attach_of_not_mem hqd]
            have := ihds (fun e he => hsub e (mem_cons_of_mem _ he)) hds
              ((mem_append.1 hmem).resolve_left hqd)
            refine (this.append_left d.entries).trans ?_
            rw [← append_assoc, ← append_assoc]
            exact perm_append_comm.append_right _
      exact ((hchildren cs (fun d hd => hd) hrest hin).cons _).trans perm_middle.symm

lemma positions_attach (hn : n.positions.Nodup) (hq : q ∈ n.positions) :
    (Node.attach q c n).positions.Perm (c.positions ++ n.positions) := by
  have := (@entries_attach n c q hn hq).map (·.2)
  rwa [map_append] at this

lemma entries_sortChildren (n : Node) : n.sortChildren.entries.Perm n.entries := by
  induction n using ind with
  | mk pos part cs ih =>
    rw [sortChildren, entries_mk, entries_mk, sortAll_eq]
    refine List.Perm.cons _ (((perm_insertionSort _ _).flatMap_right _).trans ?_)
    rw [flatMap_map]
    exact List.Perm.flatMap_left cs fun c hc => ih c hc

lemma positions_sortChildren (n : Node) : n.sortChildren.positions.Perm n.positions :=
  (entries_sortChildren n).map _

/-! ## Growing -/

/-- A tree of stored parts, each of them once, under the root. -/
structure Grown (parts : List StructurePart) (tree : Node) : Prop where
  root : tree.pos = rootPos parts
  nodup : tree.positions.Nodup
  stored : ∀ h ∈ tree.entries, h ∈ parts.zipIdx

/-- A step that keeps the tree as it should be, and what is in it. -/
structure Grows (parts : List StructurePart) (f : Node → Node) : Prop where
  grown : ∀ tree, Grown parts tree → Grown parts (f tree)
  keeps : ∀ tree, Grown parts tree → ∀ x ∈ tree.positions, x ∈ (f tree).positions

variable {f g : Node → Node} {h : StructurePart × Nat}

lemma Grown.attach (ht : Grown parts tree) (hh : h ∈ parts.zipIdx) (hnew : h.2 ∉ tree.positions)
    (hq : q ∈ tree.positions) : Grown parts (.attach q (.mk h.2 h.1 []) tree) := by
  have hentries := @entries_attach tree (.mk h.2 h.1 []) q ht.nodup hq
  have hpositions := @positions_attach tree (.mk h.2 h.1 []) q ht.nodup hq
  refine ⟨(pos_attach q _ tree).trans ht.root,
    hpositions.nodup_iff.2 (nodup_cons.2 ⟨hnew, ht.nodup⟩), fun e he => ?_⟩
  rcases mem_cons.1 (hentries.mem_iff.1 he) with rfl | hold
  · exact hh
  · exact ht.stored e hold

lemma Grown.sortChildren (ht : Grown parts tree) : Grown parts tree.sortChildren := by
  refine ⟨?_, (positions_sortChildren tree).nodup_iff.2 ht.nodup,
    fun h hh => ht.stored h ((entries_sortChildren tree).mem_iff.1 hh)⟩
  cases tree
  exact ht.root

lemma mem_positions_attach (ht : Grown parts tree) (hq : q ∈ tree.positions) {x : Nat} :
    x ∈ (Node.attach q (.mk h.2 h.1 []) tree).positions ↔ x = h.2 ∨ x ∈ tree.positions := by
  have hpositions := @positions_attach tree (.mk h.2 h.1 []) q ht.nodup hq
  exact hpositions.mem_iff.trans mem_cons

lemma tryAttach_cases (parts : List StructurePart) (tree : Node) (h : StructurePart × Nat) :
    (tryAttach parts tree h = tree ∧
        ∀ q, byIndex parts h.1.parent = some q → q ∈ tree.positions → h.2 ∈ tree.positions) ∨
      ∃ q, byIndex parts h.1.parent = some q ∧ q ∈ tree.positions ∧ h.2 ∉ tree.positions ∧
        tryAttach parts tree h = .attach q (.mk h.2 h.1 []) tree := by
  unfold tryAttach
  grind

lemma grows_tryAttach (hh : h ∈ parts.zipIdx) : Grows parts fun tree => tryAttach parts tree h := by
  constructor <;> intro tree ht <;>
    rcases tryAttach_cases parts tree h with ⟨heq, -⟩ | ⟨q, -, hq, hnew, heq⟩ <;> simp only [heq]
  · exact ht
  · exact ht.attach hh hnew hq
  · exact fun _ hx => hx
  · exact fun _ hx => (mem_positions_attach ht hq).2 (.inr hx)

/-- A loop over parts, of which each turn lets the tree grow. -/
lemma grows_foldl {turn : Node → StructurePart × Nat → Node}
    (hturn : ∀ h ∈ l, Grows parts fun tree => turn tree h) :
    Grows parts fun tree => l.foldl turn tree := by
  induction l with
  | nil => exact ⟨fun _ ht => ht, fun _ _ _ hx => hx⟩
  | cons h l ih =>
    have hhead := hturn h mem_cons_self
    have htail := ih fun h' hh' => hturn h' (mem_cons_of_mem _ hh')
    exact ⟨fun tree ht => htail.grown _ (hhead.grown tree ht), fun tree ht x hx =>
      htail.keeps _ (hhead.grown tree ht) x (hhead.keeps tree ht x hx)⟩

lemma grows_attachPasses (fuel : Nat) : Grows parts (attachPasses parts fuel) := by
  have hpass : Grows parts (attachPass parts) := grows_foldl fun h hh => grows_tryAttach hh
  induction fuel with
  | zero => exact ⟨fun _ ht => ht, fun _ _ _ hx => hx⟩
  | succ fuel ih =>
    constructor
    · intro tree ht
      simp only [attachPasses]
      split
      · exact hpass.grown tree ht
      · exact ih.grown _ (hpass.grown tree ht)
    · intro tree ht x hx
      simp only [attachPasses]
      split
      · exact hpass.keeps tree ht x hx
      · exact ih.keeps _ (hpass.grown tree ht) x (hpass.keeps tree ht x hx)

/-- The last loop attaches whatever is left. -/
lemma attachLeft_all {root : Nat} (hl : ∀ h ∈ l, h ∈ parts.zipIdx) :
    ∀ tree, Grown parts tree → root ∈ tree.positions →
      Grown parts (l.foldl (attachLeft root) tree) ∧
        (∀ x ∈ tree.positions, x ∈ (l.foldl (attachLeft root) tree).positions) ∧
        ∀ h ∈ l, h.2 ∈ (l.foldl (attachLeft root) tree).positions := by
  induction l with
  | nil => exact fun tree ht _ => ⟨ht, fun _ hx => hx, forall_mem_nil _⟩
  | cons h l ih =>
    intro tree ht hroot
    have hstep : Grown parts (attachLeft root tree h) ∧
        (∀ x ∈ tree.positions, x ∈ (attachLeft root tree h).positions) ∧
        h.2 ∈ (attachLeft root tree h).positions := by
      unfold attachLeft
      split
      · rename_i hin
        exact ⟨ht, fun _ hx => hx, hin⟩
      · rename_i hnew
        exact ⟨ht.attach (hl h mem_cons_self) hnew hroot,
          fun x hx => (mem_positions_attach ht hroot).2 (.inr hx),
          (mem_positions_attach ht hroot).2 (.inl rfl)⟩
    obtain ⟨hgrown, hkeeps, hin⟩ := hstep
    obtain ⟨hgrown', hkeeps', hall⟩ :=
      ih (fun h' hh' => hl h' (mem_cons_of_mem _ hh')) _ hgrown (hkeeps root hroot)
    refine ⟨hgrown', fun x hx => hkeeps' x (hkeeps x hx), fun h' hh' => ?_⟩
    rcases mem_cons.1 hh' with rfl | hh'
    · exact hkeeps' _ hin
    · exact hall h' hh'

/-- The parts of a tree that has every stored part. -/
lemma Grown.entries_perm (ht : Grown parts tree) (hall : ∀ h ∈ parts.zipIdx, h.2 ∈ tree.positions) :
    tree.entries.Perm parts.zipIdx := by
  have hentries : tree.entries.Nodup := List.Nodup.of_map _ ht.nodup
  have hplaces : (parts.zipIdx.map (·.2)).Nodup := by
    rw [zipIdx_map_snd]
    exact nodup_range'
  refine (perm_ext_iff_of_nodup hentries (List.Nodup.of_map _ hplaces)).2 fun h =>
    ⟨ht.stored h, fun hh => ?_⟩
  obtain ⟨e, he, heq⟩ := mem_map.1 (hall h hh)
  rw [← inj_on_of_nodup_map hplaces (ht.stored e he) hh heq]
  exact he

lemma grown_root {p : StructurePart} (hp : parts[rootPos parts]? = some p) :
    Grown parts (.mk (rootPos parts) p []) where
  root := rfl
  nodup := nodup_singleton _
  stored e he := by
    rw [mem_singleton.1 he]
    exact mk_mem_zipIdx_iff_getElem?.2 hp

lemma bodyPartTree_grown (h : bodyPartTree parts = some root) :
    Grown parts root ∧ ∀ h ∈ parts.zipIdx, h.2 ∈ root.positions := by
  unfold bodyPartTree at h
  split at h
  · cases h
  · rename_i p hp
    cases h
    have hstart := grown_root hp
    have hroot := pos_mem_positions (.mk (rootPos parts) p [])
    have hpasses := @grows_attachPasses parts parts.length
    obtain ⟨hgrown, -, hall⟩ := attachLeft_all (fun h hh => hh) _ (hpasses.grown _ hstart)
      (hpasses.keeps _ hstart _ hroot)
    exact ⟨hgrown.sortChildren, fun h hh => (positions_sortChildren _).mem_iff.2 (hall h hh)⟩

/-- **The tree.**  It has every stored part, once. -/
theorem bodyPartTree_entries (h : bodyPartTree parts = some root) :
    root.entries.Perm parts.zipIdx := by
  obtain ⟨hgrown, hall⟩ := bodyPartTree_grown h
  exact hgrown.entries_perm hall

lemma bodyPartTree_nodup (h : bodyPartTree parts = some root) : root.positions.Nodup :=
  (bodyPartTree_grown h).1.nodup

/-! ## Parents -/

/-- In a tree the node at `q` has a child that is the part at `i`. -/
inductive ChildOf (q i : Nat) : Node → Prop
  | here {part : StructurePart} {cs : List Node} {c : Node} :
      c ∈ cs → c.pos = i → ChildOf q i (.mk q part cs)
  | deeper {pos : Nat} {part : StructurePart} {cs : List Node} {c : Node} :
      c ∈ cs → ChildOf q i c → ChildOf q i (.mk pos part cs)

/-- The children of every node are sorted by their index. -/
inductive Ordered : Node → Prop
  | mk {pos : Nat} {part : StructurePart} {cs : List Node} :
      cs.Pairwise (fun a b => a.part.index ≤ b.part.index) → (∀ c ∈ cs, Ordered c) →
        Ordered (.mk pos part cs)

/-- The parents of the part at `i`, and theirs, lead to the root. -/
inductive Reaches (parts : List StructurePart) : Nat → Prop
  | root : Reaches parts (rootPos parts)
  | parent {i q : Nat} {p : StructurePart} :
      parts[i]? = some p → byIndex parts p.parent = some q → Reaches parts q → Reaches parts i

lemma ChildOf.attach (h : ChildOf q i n) (p : Nat) (c : Node) : ChildOf q i (.attach p c n) := by
  induction h with
  | here hmem hpos =>
    rw [Node.attach]
    split
    · exact .here (mem_append_left _ hmem) hpos
    · rw [attachAll_eq]
      exact .here (mem_map_of_mem hmem) ((pos_attach p c _).trans hpos)
  | deeper hmem _ ih =>
    rw [Node.attach]
    split
    · exact .deeper (mem_append_left _ hmem) ‹_›
    · rw [attachAll_eq]
      exact .deeper (mem_map_of_mem hmem) ih

lemma childOf_attach (hq : q ∈ n.positions) : ChildOf q c.pos (.attach q c n) := by
  induction n using ind with
  | mk pos part cs ih =>
    rw [positions_mk, mem_cons, mem_flatMap] at hq
    rw [Node.attach]
    split
    · rename_i heq
      subst heq
      exact .here (mem_append_right _ (mem_singleton_self c)) rfl
    · rename_i hne
      obtain ⟨d, hd, hqd⟩ := hq.resolve_left (Ne.symm hne)
      rw [attachAll_eq]
      exact .deeper (mem_map_of_mem hd) (ih d hd hqd)

lemma ChildOf.sortChildren (h : ChildOf q i n) : ChildOf q i n.sortChildren := by
  have hsorted : ∀ {c : Node} {cs : List Node}, c ∈ cs →
      c.sortChildren ∈ (sortAll cs).insertionSort fun a b => a.part.index ≤ b.part.index := by
    intro c cs hc
    rw [mem_insertionSort, sortAll_eq]
    exact mem_map_of_mem hc
  induction h with
  | @here _ _ c hmem hpos =>
    rw [Node.sortChildren]
    refine .here (hsorted hmem) ?_
    cases c
    exact hpos
  | deeper hmem _ ih =>
    rw [Node.sortChildren]
    exact .deeper (hsorted hmem) ih

lemma ordered_sortChildren (n : Node) : Ordered n.sortChildren := by
  induction n using ind with
  | mk pos part cs ih =>
    rw [Node.sortChildren]
    refine .mk (pairwise_insertionSort (fun a b : Node => a.part.index ≤ b.part.index) _) ?_
    intro c hc
    rw [mem_insertionSort, sortAll_eq] at hc
    obtain ⟨d, hd, rfl⟩ := mem_map.1 hc
    exact ih d hd

/-- Every part of the tree but the root is the child of the part that its parent names. -/
def Named (parts : List StructurePart) (tree : Node) : Prop :=
  ∀ h ∈ tree.entries, h.2 ≠ rootPos parts →
    ∃ q, byIndex parts h.1.parent = some q ∧ ChildOf q h.2 tree

/-- Every part whose parent is in the tree is in the tree. -/
def Closed (parts : List StructurePart) (tree : Node) : Prop :=
  ∀ h ∈ parts.zipIdx, ∀ q, byIndex parts h.1.parent = some q → q ∈ tree.positions →
    h.2 ∈ tree.positions

lemma named_tryAttach (ht : Grown parts tree) (hn : Named parts tree) :
    Named parts (tryAttach parts tree h) := by
  rcases tryAttach_cases parts tree h with ⟨heq, -⟩ | ⟨q, hparent, hq, -, heq⟩ <;> rw [heq]
  · exact hn
  · intro e he hroot
    rcases mem_cons.1 ((entries_attach ht.nodup hq).mem_iff.1 he) with rfl | hold
    · exact ⟨q, hparent, childOf_attach (c := .mk h.2 h.1 []) hq⟩
    · obtain ⟨q', hparent', hchild⟩ := hn e hold hroot
      exact ⟨q', hparent', hchild.attach _ _⟩

/-- After the turns of some parts, those of them are attached whose parent was. -/
lemma foldl_tryAttach (hl : ∀ h ∈ l, h ∈ parts.zipIdx) (ht : Grown parts tree)
    (hn : Named parts tree) :
    Named parts (l.foldl (tryAttach parts) tree) ∧ ∀ h ∈ l, ∀ q, byIndex parts h.1.parent = some q →
      q ∈ tree.positions → h.2 ∈ (l.foldl (tryAttach parts) tree).positions := by
  induction l generalizing tree with
  | nil => exact ⟨hn, nofun⟩
  | cons h l ih =>
    have hgrow := grows_tryAttach (hl h mem_cons_self)
    have htail : ∀ e ∈ l, e ∈ parts.zipIdx := fun e he => hl e (mem_cons_of_mem _ he)
    obtain ⟨hnamed, hrest⟩ := ih htail (hgrow.grown tree ht) (named_tryAttach ht hn)
    refine ⟨hnamed, forall_mem_cons.2 ⟨fun q hparent hq => ?_, fun e he q hparent hq =>
      hrest e he q hparent (hgrow.keeps tree ht q hq)⟩⟩
    -- attached in its own turn, it stays
    refine (grows_foldl fun e he => grows_tryAttach (htail e he)).keeps _ (hgrow.grown tree ht) _ ?_
    rcases tryAttach_cases parts tree h with ⟨heq, hin⟩ | ⟨q', -, hq', -, heq⟩ <;> rw [heq]
    · exact hin q hparent hq
    · exact (mem_positions_attach ht hq').2 (.inl rfl)

/-- The passes end with nothing left to attach. -/
lemma attachPasses_closed (fuel : Nat) (ht : Grown parts tree) (hn : Named parts tree)
    (hfuel : parts.length < tree.positions.length + fuel) :
    Named parts (attachPasses parts fuel tree) ∧ Closed parts (attachPasses parts fuel tree) := by
  induction fuel generalizing tree with
  | zero =>
    have hsub : tree.positions ⊆ parts.zipIdx.map (·.2) := map_subset _ ht.stored
    have hle := (subperm_of_subset ht.nodup hsub).length_le
    rw [length_map, length_zipIdx] at hle
    omega
  | succ fuel ih =>
    have hpass : Grows parts (attachPass parts) := grows_foldl fun h hh => grows_tryAttach hh
    obtain ⟨hnamed, hturn⟩ := foldl_tryAttach (fun _ hh => hh) ht hn
    have hkept := subperm_of_subset ht.nodup (hpass.keeps tree ht)
    simp only [attachPasses]
    split
    · rename_i hlen
      refine ⟨hnamed, fun h hh q hparent hq => hturn h hh q hparent ?_⟩
      exact (hkept.perm_of_length_le hlen.le).mem_iff.2 hq
    · rename_i hne
      have := hkept.length_le
      exact ih (hpass.grown tree ht) hnamed (by omega)

/-- A list of parts as a tree. -/
structure TreeOf (parts : List StructurePart) (tree : Node) : Prop where
  root : tree.pos = rootPos parts
  once : tree.entries.Perm parts.zipIdx
  child : ∀ i p, parts[i]? = some p → Reaches parts i → i ≠ rootPos parts →
    ∃ q, byIndex parts p.parent = some q ∧ ChildOf q i tree
  ordered : Ordered tree

lemma getElem?_rootPos (hne : parts ≠ []) : ∃ p, parts[rootPos parts]? = some p := by
  have hlt : rootPos parts < parts.length := by
    unfold rootPos
    cases hfind : parts.findIdx? fun p => p.parent < 0 with
    | none => exact length_pos_iff.2 hne
    | some j => exact (findIdx?_eq_some_iff_getElem.1 hfind).1
  exact ⟨_, getElem?_eq_getElem hlt⟩

/-- **The tree of a stored list.**  For every list: the root is the first part without a parent
or else the first part, each part is in the tree once, each part whose parents lead to the root
is the child of the one its parent names, and children are sorted. -/
theorem bodyPartTree_treeOf (parts : List StructurePart) :
    (parts = [] ∧ bodyPartTree parts = none) ∨
      ∃ tree, bodyPartTree parts = some tree ∧ TreeOf parts tree := by
  by_cases hne : parts = []
  · exact .inl ⟨hne, hne ▸ rfl⟩
  right
  obtain ⟨p, hp⟩ := getElem?_rootPos hne
  have heq : bodyPartTree parts = some (parts.zipIdx.foldl (attachLeft (rootPos parts))
      (attachPasses parts parts.length (.mk (rootPos parts) p []))).sortChildren := by
    rw [bodyPartTree, hp]
  refine ⟨_, heq, (bodyPartTree_grown heq).1.root, bodyPartTree_entries heq,
    fun i p' hi hreach hroot => ?_, ordered_sortChildren _⟩
  have hstart := grown_root hp
  have hnamed : Named parts (.mk (rootPos parts) p []) :=
    fun e he hne => absurd (mem_singleton.1 he ▸ rfl) hne
  obtain ⟨hnamed, hclosed⟩ :=
    attachPasses_closed parts.length hstart hnamed (by simp [positions_mk])
  have hpasses := @grows_attachPasses parts parts.length
  have hmem : ∀ j, Reaches parts j →
      j ∈ (attachPasses parts parts.length (.mk (rootPos parts) p [])).positions := by
    intro j hj
    induction hj with
    | root => exact hpasses.keeps _ hstart _ (pos_mem_positions (.mk (rootPos parts) p []))
    | parent hpart hparent _ ih => exact hclosed _ (mk_mem_zipIdx_iff_getElem?.2 hpart) _ hparent ih
  obtain ⟨e, he, rfl⟩ := mem_map.1 (hmem i hreach)
  obtain ⟨q, hparent, hchild⟩ := hnamed e he hroot
  cases hi.symm.trans (mem_zipIdx_iff_getElem?.1 ((hpasses.grown _ hstart).stored e he))
  refine ⟨q, hparent, ChildOf.sortChildren ?_⟩
  -- what is left over is attached elsewhere
  refine foldlRecOn _ _ hchild fun tree htree h _ => ?_
  unfold attachLeft
  split
  · exact htree
  · exact htree.attach _ _

end Moov.Body
