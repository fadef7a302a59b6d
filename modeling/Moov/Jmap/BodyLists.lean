import Moov.Jmap.BodyTree

/-!
# The three lists, from the top down

`bodyStructureLists` puts the lists of a part together from those of its children.  What a
part contributes can also be said from the root: on the way down, each branch is followed for
the text list, for the HTML list, for both, for neither, or is taken over whole as
attachments (`Mode`), and a part lists itself by its type and its mode (`own`).

* `bodyStructureLists_perm` — the lists are the contributions of the parts at their places;
* `mem_listsIn_iff` — so a part is in a list exactly when it puts itself there;
* `listsIn_sublist` — and no part is in a list twice.
-/

namespace Moov.Body

open List

/-! ## Lists up to order -/

/-- The part of the lists that a branch is followed for. -/
def Lists.restrict (t h : Bool) (l : Lists) : Lists :=
  ⟨if t then l.textBody else [], if h then l.htmlBody else [], l.attachments⟩

structure Lists.Perm (a b : Lists) : Prop where
  textBody : a.textBody.Perm b.textBody
  htmlBody : a.htmlBody.Perm b.htmlBody
  attachments : a.attachments.Perm b.attachments

namespace Lists

variable {a b c d : Lists} {t h : Bool}

@[ext]
lemma ext (ht : a.textBody = b.textBody) (hh : a.htmlBody = b.htmlBody)
    (ha : a.attachments = b.attachments) : a = b := by
  cases b
  cases ht
  cases hh
  cases ha
  rfl

lemma Perm.refl (a : Lists) : a.Perm a := ⟨.refl _, .refl _, .refl _⟩

lemma Perm.trans (hab : a.Perm b) (hbc : b.Perm c) : a.Perm c :=
  ⟨hab.1.trans hbc.1, hab.2.trans hbc.2, hab.3.trans hbc.3⟩

lemma Perm.append (hab : a.Perm b) (hcd : c.Perm d) : (a ++ c).Perm (b ++ d) :=
  ⟨hab.1.append hcd.1, hab.2.append hcd.2, hab.3.append hcd.3⟩

lemma append_assoc (a b c : Lists) : a ++ b ++ c = a ++ (b ++ c) :=
  ext (List.append_assoc _ _ _) (List.append_assoc _ _ _) (List.append_assoc _ _ _)

lemma empty_append (a : Lists) : Lists.empty ++ a = a := rfl

lemma perm_append_comm (a b : Lists) : (a ++ b).Perm (b ++ a) :=
  ⟨List.perm_append_comm, List.perm_append_comm, List.perm_append_comm⟩

lemma restrict_append (t h : Bool) (a b : Lists) :
    (a ++ b).restrict t h = a.restrict t h ++ b.restrict t h := by
  cases t <;> cases h <;> rfl

lemma restrict_empty (t h : Bool) : Lists.empty.restrict t h = .empty := by
  cases t <;> cases h <;> rfl

lemma restrict_restrict (t h t' h' : Bool) (a : Lists) :
    (a.restrict t' h').restrict t h = a.restrict (t && t') (h && h') := by
  cases t <;> cases h <;> cases t' <;> cases h' <;> rfl

lemma Perm.restrict (hab : a.Perm b) (t h : Bool) : (a.restrict t h).Perm (b.restrict t h) := by
  cases t <;> cases h <;>
    first
      | exact ⟨hab.1, hab.2, hab.3⟩
      | exact ⟨hab.1, .refl _, hab.3⟩
      | exact ⟨.refl _, hab.2, hab.3⟩
      | exact ⟨.refl _, .refl _, hab.3⟩

end Lists

/-! ## The way down -/

open Moov.Body.Lists

/-- What a branch is followed for: the body lists, or wholesale. -/
inductive Mode
  | body (text html : Bool)
  | all
deriving DecidableEq

/-- A branch that is followed for neither list. -/
def Mode.hidden : Mode := .body false false

/-- The branches of a `multipart/alternative`, from the `i`-th on. -/
def alternativeModes (text html : Bool) (textPick htmlPick : Option Nat) :
    Nat → List Node → List Mode
  | _, [] => []
  | i, _ :: cs =>
      .body (text && textPick = some i) (html && htmlPick = some i) ::
        alternativeModes text html textPick htmlPick (i + 1) cs

/-- The parts of a `multipart/related`: the root, and what it refers to. -/
def relatedModes (text html : Bool) : List Node → List Mode
  | [] => []
  | _ :: cs => .body text html :: cs.map fun _ => .all

/-- What the children of a part are followed for. -/
def childModes (part : StructurePart) (children : List Node) : Mode → List Mode
  | .all => children.map fun _ => .all
  | .body text html =>
      if part.multipart then
        if part.media = "multipart/alternative".toList then
          alternativeModes text html (picks children).1 (picks children).2 0 children
        else if part.media = "multipart/related".toList then relatedModes text html children
        else children.map fun _ => .body text html
      else children.map fun _ => .body text html

/-- What a part lists of itself. -/
def own (pos : Nat) (part : StructurePart) (leaf : Bool) : Mode → Lists
  | .all => if leaf || !part.multipart then ⟨[], [], [pos]⟩ else .empty
  | .body text html =>
      if part.multipart then .empty
      else if leaf && part.inlineText then
        (⟨[pos], [pos], []⟩ : Lists).restrict text html
      else ⟨[], [], [pos]⟩

mutual

/-- What a part and its children list at a place. -/
def Node.listsIn (m : Mode) : Node → Lists
  | .mk pos part children =>
      own pos part children.isEmpty m ++ listsInAll (childModes part children m) children

def listsInAll : List Mode → List Node → Lists
  | m :: ms, c :: cs => c.listsIn m ++ listsInAll ms cs
  | _, _ => .empty

end

mutual

/-- The parts of a tree with what they are followed for. -/
def Node.places (m : Mode) : Node → List (Mode × Node)
  | .mk pos part children =>
      (m, .mk pos part children) :: placesAll (childModes part children m) children

def placesAll : List Mode → List Node → List (Mode × Node)
  | m :: ms, c :: cs => c.places m ++ placesAll ms cs
  | _, _ => []

end

lemma listsOf_eq (cs : List Node) : listsOf cs = cs.map Node.bodyStructureLists := by
  induction cs with
  | nil => rfl
  | cons c cs ih => rw [listsOf, ih, map_cons]

lemma collectAllOf_eq (cs : List Node) : collectAllOf cs = cs.flatMap Node.collectAll := by
  induction cs with
  | nil => rfl
  | cons c cs ih => rw [collectAllOf, ih, flatMap_cons]

lemma length_alternativeModes (t h : Bool) (tp hp : Option Nat) (cs : List Node) :
    ∀ i, (alternativeModes t h tp hp i cs).length = cs.length := by
  induction cs with
  | nil => exact fun _ => rfl
  | cons c cs ih => exact fun i => congrArg (· + 1) (ih (i + 1))

lemma length_childModes (part : StructurePart) (cs : List Node) (m : Mode) :
    (childModes part cs m).length = cs.length := by
  cases m with
  | all => exact length_map _
  | body t h =>
    rw [childModes]
    split
    · split
      · exact length_alternativeModes t h _ _ cs 0
      · split
        · cases cs with
          | nil => rfl
          | cons => exact congrArg (· + 1) (length_map _)
        · exact length_map _
    · exact length_map _

/-! ## The lists of the program -/

/-- What each branch of a `multipart/alternative` contributes, from the `i`-th on. -/
def contributions (textPick htmlPick : Option Nat) : Nat → List Lists → Lists
  | _, [] => .empty
  | i, l :: ls =>
      l.restrict (textPick = some i) (htmlPick = some i) ++
        contributions textPick htmlPick (i + 1) ls

lemma alternatives_eq {tp hp : Option Nat} {subs : List Lists} :
    ∀ {i}, (∀ j, i ≤ j → ¬ (tp = some j ∧ tp = hp)) →
      alternatives tp hp i subs = contributions tp hp i subs := by
  induction subs with
  | nil => exact fun _ => rfl
  | cons l ls ih =>
    intro i hne
    rw [alternatives, contributions, if_neg (hne i (le_refl i)),
      ih fun j hj => hne j (Nat.le_of_succ_le hj)]
    by_cases ht : tp = some i
    · have hh : hp ≠ some i := fun hh => hne i (le_refl i) ⟨ht, ht.trans hh.symm⟩
      simp [restrict, ht, hh]
    · by_cases hh : hp = some i
      · simp [restrict, ht, hh]
      · simp [restrict, ht, hh]

/-- A branch picked for both lists is written before the loop instead of in its turn. -/
lemma alternatives_both {k : Nat} {subs : List Lists} :
    ∀ {i}, i ≤ k → (subs.getD (k - i) .empty ++ alternatives (some k) (some k) i subs).Perm
      (contributions (some k) (some k) i subs) := by
  induction subs with
  | nil => exact fun _ => .refl _
  | cons l ls ih =>
    intro i hik
    rw [alternatives, contributions]
    rcases Nat.eq_or_lt_of_le hik with rfl | hlt
    · have hrest : alternatives (some i) (some i) (i + 1) ls =
          contributions (some i) (some i) (i + 1) ls :=
        alternatives_eq fun j hj h => absurd (Option.some.inj h.1) (by omega)
      rw [if_pos ⟨rfl, rfl⟩, hrest, Nat.sub_self, getD_cons_zero, empty_append]
      simp only [decide_true]
      exact .refl _
    · have hne : (some k : Option Nat) ≠ some i := fun h => absurd (Option.some.inj h) (by omega)
      have hsub : k - i = (k - (i + 1)) + 1 := by omega
      rw [if_neg fun h => hne h.1, if_neg hne, if_neg hne, hsub, getD_cons_succ]
      simp only [hne, decide_false]
      refine .trans ?_ ((Lists.Perm.refl _).append (ih hlt))
      rw [← Lists.append_assoc, ← Lists.append_assoc]
      exact (perm_append_comm _ _).append (.refl _)

lemma alternativeLists_perm (children : List Node) (subs : List Lists) :
    (alternativeLists children subs).Perm
      (contributions (picks children).1 (picks children).2 0 subs) := by
  unfold alternativeLists
  generalize picks children = pick
  obtain ⟨tp, hp⟩ := pick
  dsimp only
  cases tp with
  | none =>
    rw [alternatives_eq fun j _ h => Option.some_ne_none j h.1.symm]
    exact .refl _
  | some k =>
    by_cases heq : some k = hp
    · rw [← heq]
      simp only [if_true]
      exact alternatives_both (Nat.zero_le k)
    · simp only [if_neg heq]
      rw [alternatives_eq fun j _ h => heq h.2]
      exact .refl _

/-- The lists of a part are what it and its children list at its place. -/
structure Listed (n : Node) : Prop where
  body : ∀ t h, (n.bodyStructureLists.restrict t h).Perm (n.listsIn (.body t h))
  all : (⟨[], [], n.collectAll⟩ : Lists).Perm (n.listsIn .all)

variable {cs : List Node}

lemma listed_concat (hcs : ∀ c ∈ cs, Listed c) (t h : Bool) :
    ((Lists.concat (cs.map Node.bodyStructureLists)).restrict t h).Perm
      (listsInAll (cs.map fun _ => .body t h) cs) := by
  induction cs with
  | nil =>
    rw [map_nil, Lists.concat, Lists.restrict_empty]
    exact .refl _
  | cons c cs ih =>
    rw [map_cons, Lists.concat, Lists.restrict_append]
    exact ((hcs c mem_cons_self).body t h).append (ih fun d hd => hcs d (mem_cons_of_mem _ hd))

lemma listed_collectAll (hcs : ∀ c ∈ cs, Listed c) :
    (⟨[], [], cs.flatMap Node.collectAll⟩ : Lists).Perm (listsInAll (cs.map fun _ => .all) cs) := by
  induction cs with
  | nil => exact .refl _
  | cons c cs ih =>
    exact (hcs c mem_cons_self).all.append (ih fun d hd => hcs d (mem_cons_of_mem _ hd))

lemma listed_contributions (hcs : ∀ c ∈ cs, Listed c) (t h : Bool) (tp hp : Option Nat) :
    ∀ i, ((contributions tp hp i (cs.map Node.bodyStructureLists)).restrict t h).Perm
      (listsInAll (alternativeModes t h tp hp i cs) cs) := by
  induction cs with
  | nil =>
    intro i
    rw [map_nil, contributions, restrict_empty]
    exact .refl _
  | cons c cs ih =>
    intro i
    rw [map_cons, contributions, restrict_append, restrict_restrict]
    exact ((hcs c mem_cons_self).body _ _).append
      (ih (fun d hd => hcs d (mem_cons_of_mem _ hd)) (i + 1))

variable (pos : Nat)

lemma bodyStructureLists_mk (part : StructurePart) (cs : List Node) :
    (Node.mk pos part cs).bodyStructureLists = if part.multipart then
        if part.media = "multipart/alternative".toList then
          alternativeLists cs (cs.map Node.bodyStructureLists)
        else if part.media = "multipart/related".toList then
          relatedLists cs (cs.map Node.bodyStructureLists)
        else Lists.concat (cs.map Node.bodyStructureLists)
      else if cs.isEmpty then
        if part.inlineText then ⟨[pos], [pos], []⟩ else ⟨[], [], [pos]⟩
      else ⟨[], [], [pos]⟩ ++ Lists.concat (cs.map Node.bodyStructureLists) := by
  rw [Node.bodyStructureLists, listsOf_eq]

lemma listed_body (part : StructurePart) (hcs : ∀ c ∈ cs, Listed c) (t h : Bool) :
    ((Node.mk pos part cs).bodyStructureLists.restrict t h).Perm
      ((Node.mk pos part cs).listsIn (.body t h)) := by
  rw [bodyStructureLists_mk, Node.listsIn, own, childModes]
  split
  · rw [empty_append]
    split
    · exact ((alternativeLists_perm cs _).restrict t h).trans (listed_contributions hcs t h _ _ 0)
    · split
      · cases cs with
        | nil =>
          rw [map_nil, relatedLists, restrict_empty]
          · exact .refl _
          · exact fun _ _ _ _ h _ => cons_ne_nil _ _ h.symm
        | cons c =>
          rw [map_cons, relatedLists, restrict_append, collectAllOf_eq, relatedModes,
            listsInAll]
          refine ((hcs c mem_cons_self).body t h).append (.trans ?_
            (listed_collectAll fun d hd => hcs d (mem_cons_of_mem _ hd)))
          cases t <;> cases h <;> exact .refl _
      · exact listed_concat hcs t h
  · cases cs with
    | nil =>
      cases part.inlineText <;> cases t <;> cases h <;> exact .refl _
    | cons =>
      rw [if_neg (by simp), if_neg (by simp), restrict_append]
      refine .append ?_ (listed_concat hcs t h)
      cases t <;> cases h <;> exact .refl _

lemma listed_all (part : StructurePart) (hcs : ∀ c ∈ cs, Listed c) :
    (⟨[], [], (Node.mk pos part cs).collectAll⟩ : Lists).Perm
    ((Node.mk pos part cs).listsIn .all) := by
  rw [Node.collectAll, Node.listsIn, own, childModes, collectAllOf_eq]
  cases cs with
  | nil => exact .refl _
  | cons =>
    have hrest := listed_collectAll hcs
    cases part.multipart
    · exact (Lists.Perm.refl ⟨[], [], [pos]⟩).append hrest
    · exact (Lists.Perm.refl .empty).append hrest

lemma listed (n : Node) : Listed n := by
  induction n using Node.ind with
  | mk pos part cs ih => exact ⟨listed_body pos part ih, listed_all pos part ih⟩

/-- **The lists.**  Up to order, they are what the parts list at their places. -/
theorem bodyStructureLists_perm (n : Node) :
    n.bodyStructureLists.Perm (n.listsIn (.body true true)) :=
  (listed n).body true true

/-! ## Places -/

/-- The list that is asked for. -/
inductive Which
  | textBody
  | htmlBody
  | attachments

def Lists.get : Which → Lists → List Nat
  | .textBody, l => l.textBody
  | .htmlBody, l => l.htmlBody
  | .attachments, l => l.attachments

lemma Lists.get_append (w : Which) (a b : Lists) : (a ++ b).get w = a.get w ++ b.get w := by
  cases w <;> rfl

lemma Lists.get_empty (w : Which) : Lists.empty.get w = [] := by
  cases w <;> rfl

lemma Lists.Perm.get {a b : Lists} (h : a.Perm b) (w : Which) : (a.get w).Perm (b.get w) := by
  cases w with
  | textBody => exact h.textBody
  | htmlBody => exact h.htmlBody
  | attachments => exact h.attachments

/-- What a part lists of itself at a place. -/
def Node.ownIn (m : Mode) (n : Node) : Lists := own n.pos n.part n.children.isEmpty m

variable {m : Mode} {n root : Node} {w : Which} {x : Nat} {p q b : Mode × Node}

lemma own_sublist (part : StructurePart) (leaf : Bool) (m : Mode) (w : Which) :
    ((own pos part leaf m).get w).Sublist [pos] := by
  have hnil : ([] : List Nat).Sublist [pos] := nil_sublist _
  have hone : [pos].Sublist [pos] := .refl _
  cases m with
  | all =>
    rw [own]
    split
    · cases w <;> first | exact hone | exact hnil
    · cases w <;> exact hnil
  | body t h =>
    rw [own]
    split
    · cases w <;> exact hnil
    · split
      · cases w <;> cases t <;> cases h <;> first | exact hone | exact hnil
      · cases w <;> first | exact hone | exact hnil

lemma mem_ownIn (hx : x ∈ (n.ownIn m).get w) : x = n.pos :=
  mem_singleton.1 ((own_sublist _ _ _ m w).subset hx)

/-- The lists keep the order of the tree, so that no part is in one of them twice. -/
theorem listsIn_sublist (n : Node) : ∀ m w, ((n.listsIn m).get w).Sublist n.positions := by
  induction n using Node.ind with
  | mk pos part cs ih =>
    intro m w
    have hall : ∀ (ds : List Node) (ms : List Mode), (∀ d ∈ ds, d ∈ cs) →
        ((listsInAll ms ds).get w).Sublist (ds.flatMap Node.positions) := by
      intro ds
      induction ds with
      | nil =>
        intro ms _
        cases ms <;> rw [listsInAll, get_empty] <;> first | exact nil_sublist _ | simp
      | cons d ds ihds =>
        intro ms hsub
        cases ms with
        | nil =>
          rw [listsInAll, get_empty]
          · exact nil_sublist _
          · simp
        | cons m' ms =>
          rw [listsInAll, get_append, flatMap_cons]
          exact (ih d (hsub d mem_cons_self) m' w).append
            (ihds ms fun e he => hsub e (mem_cons_of_mem _ he))
    rw [Node.listsIn, get_append, positions_mk]
    exact (own_sublist pos part cs.isEmpty m w).append (hall cs _ fun d hd => hd)

/-- A part is in a list exactly when some part puts it there. -/
lemma mem_listsIn (n : Node) :
    ∀ m, x ∈ (n.listsIn m).get w ↔ ∃ p ∈ n.places m, x ∈ (p.2.ownIn p.1).get w := by
  induction n using Node.ind with
  | mk pos part cs ih =>
    intro m
    have hall : ∀ (ds : List Node) (ms : List Mode), (∀ d ∈ ds, d ∈ cs) →
        (x ∈ (listsInAll ms ds).get w ↔ ∃ p ∈ placesAll ms ds, x ∈ (p.2.ownIn p.1).get w) := by
      intro ds
      induction ds with
      | nil =>
        intro ms _
        cases ms <;> simp [listsInAll, placesAll, get_empty]
      | cons d ds ihds =>
        intro ms hsub
        cases ms with
        | nil => simp [listsInAll, placesAll, get_empty]
        | cons m' ms =>
          rw [listsInAll, placesAll, get_append, mem_append,
            ih d (hsub d mem_cons_self) m', ihds ms fun e he => hsub e (mem_cons_of_mem _ he)]
          simp only [mem_append, or_and_right, exists_or]
    rw [Node.listsIn, Node.places, get_append, mem_append, hall cs _ fun d hd => hd]
    simp only [mem_cons, or_and_right, exists_or, exists_eq_left]
    rfl

mutual

/-- The parts of a tree, each with what is under it. -/
def Node.nodes : Node → List Node
  | .mk pos part children => .mk pos part children :: nodesAll children

def nodesAll : List Node → List Node
  | [] => []
  | c :: cs => c.nodes ++ nodesAll cs

end

/-- The children of a part with what they are followed for. -/
def Node.branches (m : Mode) (n : Node) : List (Mode × Node) :=
  (childModes n.part n.children m).zip n.children

lemma nodesAll_eq (cs : List Node) : nodesAll cs = cs.flatMap Node.nodes := by
  induction cs with
  | nil => rfl
  | cons c cs ih => rw [nodesAll, ih, flatMap_cons]

lemma placesAll_eq : ∀ (ms : List Mode) (cs : List Node),
    placesAll ms cs = (ms.zip cs).flatMap fun b => b.2.places b.1
  | [], cs => by rw [placesAll, zip_nil_left, flatMap_nil]; simp
  | _ :: _, [] => by rw [placesAll, zip_nil_right, flatMap_nil]; simp
  | m :: ms, c :: cs => by rw [placesAll, placesAll_eq ms cs, zip_cons_cons, flatMap_cons]

lemma places_eq (n : Node) (m : Mode) :
    n.places m = (m, n) :: (n.branches m).flatMap fun b => b.2.places b.1 := by
  cases n with
  | mk => rw [Node.places, placesAll_eq]; rfl

lemma nodes_eq (n : Node) : n.nodes = n :: n.children.flatMap Node.nodes := by
  cases n with
  | mk => rw [Node.nodes, nodesAll_eq]; rfl

lemma positions_eq (n : Node) : n.positions = n.pos :: n.children.flatMap Node.positions := by
  cases n with
  | mk pos part cs => exact positions_mk pos part cs

lemma branches_snd (n : Node) (m : Mode) : (n.branches m).map (·.2) = n.children :=
  map_snd_zip (Nat.le_of_eq (length_childModes n.part n.children m).symm)

lemma branch_child (hb : b ∈ n.branches m) : b.2 ∈ n.children := by
  rw [← branches_snd n m]
  exact mem_map_of_mem hb

lemma nodes_pos (n : Node) : n.nodes.map Node.pos = n.positions := by
  induction n using Node.ind with
  | mk pos part cs ih =>
    rw [nodes_eq, positions_eq, map_cons, map_flatMap]
    exact congrArg _ (flatMap_congr ih)

/-- Each part has a place. -/
lemma places_snd (n : Node) : ∀ m, (n.places m).map (·.2) = n.nodes := by
  induction n using Node.ind with
  | mk pos part cs ih =>
    intro m
    rw [places_eq, nodes_eq, map_cons, map_flatMap]
    refine congrArg _ ?_
    calc ((Node.mk pos part cs).branches m).flatMap (fun b => (b.2.places b.1).map (·.2))
        = ((Node.mk pos part cs).branches m).flatMap fun b => b.2.nodes := by
          exact flatMap_congr fun b hb => ih b.2 (branch_child hb) b.1
      _ = (((Node.mk pos part cs).branches m).map (·.2)).flatMap Node.nodes :=
          by rw [flatMap_map]
      _ = cs.flatMap Node.nodes := by rw [branches_snd]; rfl

lemma places_pos (n : Node) (m : Mode) : (n.places m).map (·.2.pos) = n.positions := by
  rw [← nodes_pos, ← places_snd n m, map_map]
  rfl

/-- A part is in a list exactly when it puts itself there. -/
theorem mem_listsIn_iff (hn : root.positions.Nodup) (hp : p ∈ root.places m) :
    p.2.pos ∈ (root.listsIn m).get w ↔ p.2.pos ∈ (p.2.ownIn p.1).get w := by
  rw [mem_listsIn]
  constructor
  · rintro ⟨q, hq, hin⟩
    obtain rfl := inj_on_of_nodup_map (places_pos root m ▸ hn) hp hq (mem_ownIn hin)
    exact hin
  · exact fun hin => ⟨p, hp, hin⟩

/-- What is under a part is in the tree. -/
lemma places_trans (n : Node) : ∀ {m}, p ∈ n.places m → q ∈ p.2.places p.1 → q ∈ n.places m := by
  induction n using Node.ind with
  | mk pos part cs ih =>
    intro m hp hq
    rw [places_eq] at hp
    rcases mem_cons.1 hp with rfl | hp
    · exact hq
    · obtain ⟨b, hb, hpb⟩ := mem_flatMap.1 hp
      rw [places_eq]
      exact mem_cons_of_mem _ (mem_flatMap.2 ⟨b, hb, ih b.2 (branch_child hb) hpb hq⟩)

lemma branch_mem_places (hp : p ∈ root.places m) (hb : b ∈ p.2.branches p.1) :
    b ∈ root.places m := by
  refine places_trans root hp ?_
  rw [places_eq]
  refine mem_cons_of_mem _ (mem_flatMap.2 ⟨b, hb, ?_⟩)
  rw [places_eq]
  exact mem_cons_self

lemma exists_place (m : Mode) (hn : n ∈ root.nodes) : ∃ m', (m', n) ∈ root.places m := by
  rw [← places_snd root m] at hn
  obtain ⟨p, hp, rfl⟩ := mem_map.1 hn
  exact ⟨p.1, hp⟩

lemma exists_branch (m : Mode) {c : Node} (hc : c ∈ n.children) : ∃ m', (m', c) ∈ n.branches m := by
  rw [← branches_snd n m] at hc
  obtain ⟨b, hb, rfl⟩ := mem_map.1 hc
  exact ⟨b.1, hb⟩

end Moov.Body
