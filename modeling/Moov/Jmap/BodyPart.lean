import Mathlib.Data.List.Sort
import Moov.Lib.Text

/-!
# Body parts

`jmap/mail/bodypart.go`: the tree of a stored part list, and the three lists a client is
shown of it.

* `bodyPartTree` attaches each stored part under its parent, as long as there is one that is
  attached already, and what is left under the root;
* `bodyStructureLists` computes `textBody`, `htmlBody` and `attachments` bottom up, with the
  rules for `multipart/alternative`, `multipart/related`, other multiparts and unpacked
  containers.

A node is named by the place of its part in the stored list, which is what the pointers of
the program tell apart.
-/

namespace Moov.Body

open Text

/-! ## Parts -/

/-- `StructurePart`, as far as the lists, and what is said about them, look at it. -/
structure StructurePart where
  index : Int
  parent : Int
  mediaType : List Char
  disposition : List Char
  filename : List Char
  isAttachment : Bool
  isMultipart : Bool
  isRFC822 : Bool
deriving DecidableEq

namespace StructurePart

variable (p : StructurePart)

/-- `bodyPartNode.isMultipart`. -/
def multipart : Bool :=
  p.isMultipart || "multipart/".toList.isPrefixOf (toLower p.mediaType)

/-- `bodyPartNode.mediaType`. -/
def media : List Char :=
  let mt := toLower (trimSpace p.mediaType)
  if mt = [] then "text/plain".toList else mt

/-- `bodyPartNode.isAttachmentPart`.  No letter of the word has another fold than its
lower case. -/
def attachment : Bool :=
  p.isAttachment || toLower p.disposition = "attachment".toList

/-- `bodyPartNode.isInlineText`. -/
def inlineText : Bool :=
  "text/".toList.isPrefixOf p.media && !p.attachment

end StructurePart

inductive Node
  | mk (pos : Nat) (part : StructurePart) (children : List Node)

namespace Node

def pos : Node → Nat
  | mk pos _ _ => pos

def part : Node → StructurePart
  | mk _ part _ => part

def children : Node → List Node
  | mk _ _ children => children

/-- Induction over the tree. -/
@[elab_as_elim]
lemma ind {motive : Node → Prop}
    (mk : ∀ pos part children, (∀ c ∈ children, motive c) → motive (mk pos part children)) :
    ∀ n, motive n
  | .mk pos part children => mk pos part children (all children)
where
  all : ∀ children : List Node, ∀ c ∈ children, motive c
    | [], _, h => absurd h List.not_mem_nil
    | n :: rest, c, h =>
      match List.mem_cons.1 h with
      | .inl heq => heq ▸ ind mk n
      | .inr h => all rest c h

end Node

mutual

/-- The parts of a tree with their places. -/
def Node.entries : Node → List (StructurePart × Nat)
  | .mk pos part children => (part, pos) :: entriesAll children

def entriesAll : List Node → List (StructurePart × Nat)
  | [] => []
  | c :: cs => c.entries ++ entriesAll cs

end

/-- The places of a tree: what is attached. -/
def Node.positions (n : Node) : List Nat := n.entries.map (·.2)

mutual

/-- `parent.children = append(parent.children, n)`. -/
def Node.attach (parent : Nat) (n : Node) : Node → Node
  | .mk pos part children =>
      if pos = parent then .mk pos part (children ++ [n])
      else .mk pos part (attachAll parent n children)

def attachAll (parent : Nat) (n : Node) : List Node → List Node
  | [] => []
  | c :: cs => Node.attach parent n c :: attachAll parent n cs

end

mutual

/-- `sortChildren`. -/
def Node.sortChildren : Node → Node
  | .mk pos part children =>
      .mk pos part ((sortAll children).insertionSort fun a b => a.part.index ≤ b.part.index)

def sortAll : List Node → List Node
  | [] => []
  | c :: cs => c.sortChildren :: sortAll cs

end

section Tree

variable (parts : List StructurePart)

/-- `byIndex`: of the parts with an index, the first. -/
def byIndex (index : Int) : Option Nat :=
  parts.findIdx? fun p => p.index = index

/-- The turn of one part in a pass. -/
def tryAttach (tree : Node) (h : StructurePart × Nat) : Node :=
  if h.2 ∈ tree.positions then tree
  else
    match byIndex parts h.1.parent with
    | none => tree
    | some parent =>
        if parent ∈ tree.positions ∧ parent ≠ h.2 then
          .attach parent (.mk h.2 h.1 []) tree
        else tree

/-- One pass over the parts. -/
def attachPass (tree : Node) : Node :=
  parts.zipIdx.foldl (tryAttach parts) tree

/-- The passes, until one makes no progress. -/
def attachPasses : (fuel : Nat) → Node → Node
  | 0, tree => tree
  | fuel + 1, tree =>
      let tree' := attachPass parts tree
      if tree'.positions.length = tree.positions.length then tree' else attachPasses fuel tree'

/-- The part that becomes the root. -/
def rootPos : Nat :=
  (parts.findIdx? fun p => p.parent < 0).getD 0

/-- The turn of a part that has no place in the tree. -/
def attachLeft (root : Nat) (tree : Node) (h : StructurePart × Nat) : Node :=
  if h.2 ∈ tree.positions then tree else .attach root (.mk h.2 h.1 []) tree

/-- `bodyPartTree`.  A pass that makes progress attaches a part, so there are at most as many
passes as parts. -/
def bodyPartTree : Option Node :=
  match parts[rootPos parts]? with
  | none => none
  | some p =>
      let tree := attachPasses parts parts.length (.mk (rootPos parts) p [])
      some (parts.zipIdx.foldl (attachLeft (rootPos parts)) tree).sortChildren

end Tree

/-! ## Lists -/

/-- The three lists, by the places of their parts. -/
structure Lists where
  textBody : List Nat
  htmlBody : List Nat
  attachments : List Nat
deriving DecidableEq

def Lists.empty : Lists := ⟨[], [], []⟩

def Lists.append (a b : Lists) : Lists :=
  ⟨a.textBody ++ b.textBody, a.htmlBody ++ b.htmlBody, a.attachments ++ b.attachments⟩

instance : Append Lists := ⟨Lists.append⟩

def Lists.concat : List Lists → Lists
  | [] => .empty
  | l :: ls => l ++ Lists.concat ls

mutual

/-- `containsHTML`. -/
def Node.containsHTML : Node → Bool
  | .mk _ part children =>
      if part.multipart then anyHTML children
      else part.media = "text/html".toList && !part.attachment

def anyHTML : List Node → Bool
  | [] => false
  | c :: cs => c.containsHTML || anyHTML cs

end

/-- `alternativeIsText`. -/
def alternativeIsText (n : Node) : Bool :=
  if n.part.multipart then !n.containsHTML
  else n.part.media = "text/plain".toList && !n.part.attachment

/-- `alternativeIsHTML`. -/
def alternativeIsHTML (n : Node) : Bool :=
  if n.part.multipart then n.containsHTML
  else n.part.media = "text/html".toList && !n.part.attachment

mutual

/-- `collectAll`. -/
def Node.collectAll : Node → List Nat
  | .mk pos part children =>
      if children.isEmpty then [pos]
      else (if part.multipart then [] else [pos]) ++ collectAllOf children

def collectAllOf : List Node → List Nat
  | [] => []
  | c :: cs => c.collectAll ++ collectAllOf cs

end

/-- The first loop of `multipart/alternative`, from the `i`-th child on. -/
def pick : (i : Nat) → (textPick htmlPick : Option Nat) → List Node → Option Nat × Option Nat
  | _, textPick, htmlPick, [] => (textPick, htmlPick)
  | i, textPick, htmlPick, c :: cs =>
      if textPick.isNone && alternativeIsText c then pick (i + 1) (some i) htmlPick cs
      else if htmlPick.isNone && alternativeIsHTML c then pick (i + 1) textPick (some i) cs
      else pick (i + 1) textPick htmlPick cs

/-- The picks with their fallbacks. -/
def picks (children : List Node) : Option Nat × Option Nat :=
  let (textPick, htmlPick) := pick 0 none none children
  let textPick := if textPick.isNone then htmlPick else textPick
  let htmlPick := if htmlPick.isNone then textPick else htmlPick
  (textPick, htmlPick)

/-- The second loop of `multipart/alternative`, over the lists of the children. -/
def alternatives (textPick htmlPick : Option Nat) : (i : Nat) → List Lists → Lists
  | _, [] => .empty
  | i, l :: ls =>
      (if textPick = some i ∧ textPick = htmlPick then Lists.empty
        else if textPick = some i then ⟨l.textBody, [], l.attachments⟩
        else if htmlPick = some i then ⟨[], l.htmlBody, l.attachments⟩
        else ⟨[], [], l.attachments⟩) ++ alternatives textPick htmlPick (i + 1) ls

/-- `case "multipart/alternative"`. -/
def alternativeLists (children : List Node) (subs : List Lists) : Lists :=
  let (textPick, htmlPick) := picks children
  (match textPick with
    | some i => if textPick = htmlPick then subs.getD i .empty else .empty
    | none => .empty) ++ alternatives textPick htmlPick 0 subs

/-- `case "multipart/related"`. -/
def relatedLists (children : List Node) (subs : List Lists) : Lists :=
  match children, subs with
  | _ :: cs, l :: _ => l ++ ⟨[], [], collectAllOf cs⟩
  | _, _ => .empty

mutual

/-- `bodyStructureLists`. -/
def Node.bodyStructureLists : Node → Lists
  | .mk pos part children =>
      if part.multipart then
        if part.media = "multipart/alternative".toList then
          alternativeLists children (listsOf children)
        else if part.media = "multipart/related".toList then
          relatedLists children (listsOf children)
        else Lists.concat (listsOf children)
      else if children.isEmpty then
        if part.inlineText then ⟨[pos], [pos], []⟩ else ⟨[], [], [pos]⟩
      else ⟨[], [], [pos]⟩ ++ Lists.concat (listsOf children)

def listsOf : List Node → List Lists
  | [] => []
  | c :: cs => c.bodyStructureLists :: listsOf cs

end

end Moov.Body
