import Moov.Lib.Json
import Moov.Lib.Text

/-!
# What the generator writes

`sieve/generate.go`, string by string: code of its own, and texts of others as quoted strings, as
comments and as text blocks.

* `quoteSieve`, `dotStuff` — the string functions of the source;
* `Tok` — one piece of a script; what the generator writes itself is `Code`, which carries the
  proof that no marker begins in it and that it is complete lexically;
* `apart_tok` — a marker is found in a script only where someone has written it.
-/

namespace Moov.Sieve

open List

open Search (Piece flat inert Inert inert_iff inert_of_notMem written)

/-! ## Markers -/

def crlf : List Char := ['\r', '\n']

def metaBegin : List Char := "/* @moov:begin".toList
def metaEnd : List Char := "@moov:end */".toList
def externalBegin : List Char :=
  "# --- moov:external begin (foreign content, preserved verbatim) ---".toList
def externalEnd : List Char := "# --- moov:external end ---".toList

/-! ## Strings -/

/-- A string with its backslashes and double quotes escaped. -/
def escapeQuoted (s : List Char) : List Char := s.flatMap fun c => if c = '"' || c = '\\' then
    ['\\', c]
  else [c]

/-- `quoteSieve`. -/
def quoteSieve (s : List Char) : List Char := '"' :: (escapeQuoted s ++ ['"'])

/-- `strings.ReplaceAll`, after `skip` characters of an occurrence. -/
def replaceFrom (old new : List Char) : (skip : Nat) → List Char → List Char
  | _, [] => []
  | skip + 1, _ :: t => replaceFrom old new skip t
  | 0, c :: t => if old.isPrefixOf (c :: t) then new ++ replaceFrom old new (old.length - 1) t
    else c :: replaceFrom old new 0 t

/-- `strings.ReplaceAll`. -/
def replaceAll (old new t : List Char) : List Char := replaceFrom old new 0 t

/-- `strings.Split(t, "\n")`. -/
def lines : List Char → List (List Char)
  | [] => [[]]
  | c :: t =>
      if c = '\n' then [] :: lines t
      else
        match lines t with
        | [] => [[c]]
        | l :: ls => (c :: l) :: ls

/-- `strings.Join(ls, "\r\n")`. -/
def joinLines : List (List Char) → List Char
  | [] => []
  | [l] => l
  | l :: ls => l ++ crlf ++ joinLines ls

/-- A line with a leading dot has two. -/
def stuffLine (l : List Char) : List Char := if l.head? = some '.' then '.' :: l else l

/-- `dotStuff`. -/
def dotStuff (t : List Char) : List Char :=
  joinLines ((lines (replaceAll crlf ['\n'] t)).map stuffLine)

/-! ## Code -/

/-- `isWordByte`. -/
def isWordByte (c : Char) : Bool :=
  ('a' ≤ c && c ≤ 'z') || ('A' ≤ c && c ≤ 'Z') || ('0' ≤ c && c ≤ '9') || c = '_'

/-- Where a reader of code is: between words, in a word, in a string or in a comment. -/
inductive Mode
  | blank
  | word (w : List Char)
  | string
  | comment
deriving DecidableEq

/-- A character between words; a slash may open a bracket comment. -/
def readBlank (c : Char) : Option Mode :=
  if c = '#' then some .comment
  else if c = '/' then none
  else if c = '"' then some .string
  else if isWordByte c then some (.word [c])
  else some .blank

/-- One character.  No word is a redirect, none opens a text block, and strings have no escapes. -/
def Mode.read : Mode → Char → Option Mode
  | .blank, c => readBlank c
  | .word w, c =>
      if isWordByte c then some (.word (w ++ [c]))
      else if w = "redirect".toList || (w = "text".toList && c = ':') then none
      else readBlank c
  | .string, c => if c = '"' then some .blank else if c = '\\' then none else some .string
  | .comment, c => if c = '\n' then some .blank else some .comment

def readAll : Mode → List Char → Option Mode
  | m, [] => some m
  | m, c :: t => (m.read c).bind fun m => readAll m t

/-- Code that ends between words. -/
def quiet (t : List Char) : Bool := readAll .blank t = some .blank

/-- How both markers of the external section begin. -/
def hashDash : List Char := ['#', ' ', '-']

/-- No marker of the external section begins in the code, and it ends between words. -/
def plain (t : List Char) : Bool := inert hashDash t && quiet t

/-- Code that the generator writes itself. -/
structure Code where
  text : List Char
  plain : plain text = true

/-- The characters of a literal are seen without running `String.toList`. -/
lemma plain_ofList {l : List Char} (h : plain l = true) :
    plain (String.ofList l).toList = true := by
  rwa [String.toList_ofList]

/-- The comments before rules. -/
inductive RuleKind
  | rule
  | blocked
  | neverSpam
deriving DecidableEq

def RuleKind.label : RuleKind → List Char
  | .rule => "# rule:".toList
  | .blocked => "# blocked:".toList
  | .neverSpam => "# never-spam:".toList

/-- A piece of a script. -/
inductive Tok
  | code (c : Code)
  | number (n : Int64)
  /-- `quoteSieve`. -/
  | quoted (s : List Char)
  /-- The comment with the id of a rule, and the `if` of the next line. -/
  | comment (kind : RuleKind) (id : List Char)
  /-- A `redirect`. -/
  | redirect (address : List Char)
  /-- A text block, to its end. -/
  | block (s : List Char)

/-- Code, with its check. -/
def code (t : String) (h : plain t.toList = true := by exact plain_ofList (by decide +kernel)) :
    Tok := .code ⟨t.toList, h⟩

namespace Tok

def pieces : Tok → List (Piece Char)
  | .code c => [.fixed c.text]
  | .number n => [.fixed (Json.Number.ofInt n.toInt).lit]
  | .quoted s => [.fixed ['"'], .written (escapeQuoted s) ['"']]
  | .comment kind id => [.fixed kind.label, .written id (crlf ++ "if ".toList)]
  | .redirect a => [.fixed ("    redirect :copy ".toList ++ ['"']), .written (escapeQuoted a)
    ('"' :: ';' :: crlf)]
  | .block s =>
      [.fixed ("text:".toList ++ crlf), .written (dotStuff s)
        (crlf ++ ['.'] ++ crlf ++ [';'] ++ crlf)]

/-- What a piece is in the script. -/
def text : Tok → List Char
  | .code c => c.text
  | .number n => (Json.Number.ofInt n.toInt).lit
  | .quoted s => quoteSieve s
  | .comment kind id => kind.label ++ id ++ crlf ++ "if ".toList
  | .redirect a => "    redirect :copy ".toList ++ quoteSieve a ++ ";".toList ++ crlf
  | .block s => "text:".toList ++ crlf ++ dotStuff s ++ crlf ++ ['.'] ++ crlf ++ [';'] ++ crlf

lemma text_comment (kind : RuleKind) (id : List Char) :
    (Tok.comment kind id).text = kind.label ++ id ++ crlf ++ "if ".toList := rfl

lemma text_redirect (a : List Char) :
    (Tok.redirect a).text = "    redirect :copy ".toList ++ quoteSieve a ++
      ";".toList ++ crlf := rfl

lemma text_block (s : List Char) : (Tok.block s).text =
    "text:".toList ++ crlf ++ dotStuff s ++ crlf ++ ['.'] ++ crlf ++ [';'] ++ crlf := rfl

lemma flat_pieces (t : Tok) : flat t.pieces = t.text := by
  cases t with
  | code c => exact append_nil c.text
  | number n => exact append_nil (Json.Number.ofInt n.toInt).lit
  | quoted s => exact congrArg ('"' :: ·) (append_nil (escapeQuoted s ++ ['"']))
  | comment kind id =>
    show kind.label ++ ((id ++ (crlf ++ "if ".toList)) ++ []) = kind.label ++ id ++
      crlf ++ "if ".toList
    rw [append_nil, append_assoc, append_assoc]
  | redirect a =>
    show ("    redirect :copy ".toList ++ ['"']) ++
      ((escapeQuoted a ++ ('"' :: ';' :: crlf)) ++ []) =
      "    redirect :copy ".toList ++ ('"' :: (escapeQuoted a ++ ['"'])) ++ [';'] ++ crlf
    simp only [append_nil, append_assoc, cons_append, nil_append]
  | block s =>
    show ("text:".toList ++ crlf) ++
      ((dotStuff s ++ (crlf ++ ['.'] ++ crlf ++ [';'] ++ crlf)) ++ []) =
      "text:".toList ++ crlf ++ dotStuff s ++ crlf ++ ['.'] ++ crlf ++ [';'] ++ crlf
    simp only [append_nil, append_assoc]

end Tok

/-- `strings.Builder`. -/
def render (ts : List Tok) : List Char := ts.flatMap Tok.text

def piecesOf (ts : List Tok) : List (Piece Char) := ts.flatMap Tok.pieces

lemma flat_piecesOf (ts : List Tok) : flat (piecesOf ts) = render ts := by
  induction ts with
  | nil => rfl
  | cons t ts ih =>
    rw [piecesOf, flatMap_cons, Search.flat_append, Tok.flat_pieces, render, flatMap_cons]
    rw [piecesOf, render] at ih
    rw [ih]

/-! ## Markers are found in texts of others only -/

/-- What is asked of a marker: it begins with a `#`, goes on with neither a quote nor a line break,
and begins in no code. -/
structure Marker (m : List Char) : Prop where
  hash : ∃ r, m = '#' :: r
  quote : '"' ∉ m
  cr : '\r' ∉ m
  labels : ∀ kind : RuleKind, Inert m kind.label
  code : ∀ c : Code, Inert m c.text

lemma marker_of_hashDash {m : List Char} (hm : hashDash <+: m) (hquote : '"' ∉ m) (hcr : '\r' ∉ m) :
    Marker m where
  hash := by
    obtain ⟨r, rfl⟩ := hm
    exact ⟨_, rfl⟩
  quote := hquote
  cr := hcr
  labels kind := by
    have hinert : Inert hashDash kind.label := by cases kind <;> exact inert_iff.1 (by decide)
    exact hinert.of_begins hm
  code c := (inert_iff.1 (Bool.and_eq_true_iff.1 c.plain).1).of_begins hm

lemma marker_externalBegin : Marker externalBegin :=
  marker_of_hashDash ⟨_, rfl⟩ (by decide) (by decide)

lemma Marker.inert {m t : List Char} (h : Marker m) (ht : '#' ∉ t) : Inert m t := by
  obtain ⟨r, rfl⟩ := h.hash
  exact inert_of_notMem ht

theorem apart_tok {m : List Char} (h : Marker m) (t : Tok) : ∀ p ∈ t.pieces, p.Apart m := by
  intro p hp
  cases t with
  | code c =>
    rw [Tok.pieces, mem_singleton] at hp
    subst hp
    exact h.code c
  | number =>
    rw [Tok.pieces, mem_singleton] at hp
    subst hp
    exact h.inert (Json.Number.notMem_lit (by decide))
  | quoted =>
    rcases mem_pair.1 hp with rfl | rfl
    · exact h.inert (by decide)
    · exact ⟨'"', [], rfl, h.quote, h.inert (by decide)⟩
  | comment kind =>
    rcases mem_pair.1 hp with rfl | rfl
    · exact h.labels kind
    · exact ⟨'\r', _, rfl, h.cr, h.inert (by decide)⟩
  | redirect =>
    rcases mem_pair.1 hp with rfl | rfl
    · exact h.inert (by decide)
    · exact ⟨'"', _, rfl, h.quote, h.inert (by decide)⟩
  | block =>
    rcases mem_pair.1 hp with rfl | rfl
    · exact h.inert (by decide)
    · exact ⟨'\r', _, rfl, h.cr, h.inert (by decide)⟩

end Moov.Sieve
