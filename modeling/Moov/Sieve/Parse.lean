import Moov.Sieve.Generate

/-!
# Reading the managed script

`sieve/parse.go`: the metadata, the external section and the drift check of a stored script, and how
foreign scripts come into the external section.

* `parseManaged` — `ParseManaged`, over texts in UTF-8;
* `importForeign` — `ImportForeign`;
* `Imported` — the external bodies that imports build.
-/

namespace Moov.Sieve

/-! ## `ParseManaged` -/

inductive ParseError
  | notManaged
  | notJSON
  | version (v : Int64)
  | unterminated
deriving DecidableEq

/-- `strings.TrimPrefix`. -/
def trimPrefix (p t : List Char) : List Char := if p.isPrefixOf t then t.drop p.length else t

/-- `strings.TrimSuffix`. -/
def trimSuffix (p t : List Char) : List Char :=
  if p.isSuffixOf t then t.take (t.length - p.length) else t

/-- A line break taken off. -/
def trimBreak (t : List Char) : List Char := trimPrefix ['\n'] (trimPrefix crlf t)

/-- The external body of a script; `none` is an external section without an end. -/
def readExternal (text : List Char) : Option (List Char) :=
  match Search.cut externalBegin text with
  | none => some []
  | some (_, rest) => (Search.cutLast externalEnd (trimBreak rest)).map Prod.fst

/-- The JSON between the markers; `none` is `ErrNotManaged`. -/
def rawJSON (text : List Char) : Option (List Char) :=
  match Search.cut metaBegin text, Search.cut metaEnd text with
  | some (a, _), some (b, _) =>
      if b.length < a.length then
        none
      else some (Text.trimSpace ((text.take b.length).drop (a.length + metaBegin.length)))
  | _, _ => none

variable (libs : Libs)

/-- The script is not what the model generates, or the model generates none. -/
def drifts (text : List Char) (model : Script) (env : GenerateEnv) : Bool :=
  match generate libs model env none with
  | .ok regen => regen ≠ text
  | .error _ => true

/-- `ParseManaged`. -/
def parseManaged (text : List Char) (env : GenerateEnv) : Except ParseError (Script × Bool) :=
  match rawJSON text with
  | none => .error .notManaged
  | some raw =>
      match (Json.parse raw).bind Script.ofJson with
      | none => .error .notJSON
      | some model =>
          if model.version ≠ metadataVersion then .error (.version model.version)
          else
            match readExternal text with
            | none => .error .unterminated
            | some body =>
                let model := { model with externalBody := body }
                .ok (model, drifts libs text model env)

/-! ## `ImportForeign` -/

/-- The lines of a text, with their ends: `cutLine` over and over. -/
def cutLines : List Char → List (List Char)
  | [] => []
  | c :: t =>
      if c = '\n' then ['\n'] :: cutLines t
      else
        match cutLines t with
        | [] => [[c]]
        | l :: ls => (c :: l) :: ls

/-- `strings.Split(t, ",")`. -/
def splitCommas : List Char → List (List Char)
  | [] => [[]]
  | c :: t =>
      if c = ',' then [] :: splitCommas t
      else
        match splitCommas t with
        | [] => [[c]]
        | l :: ls => (c :: l) :: ls

/-- A name in double quotes. -/
def requireName (part : List Char) : Option (List Char) :=
  let part := Text.trimSpace part
  if part.length < 2 || part.head? ≠ some '"' || part.getLast? ≠ some '"' then none
  else
    let name := (part.drop 1).dropLast
    if name.any fun c => c = '\\' || c = '"' then none else some name

/-- `parseRequireLine`. -/
def parseRequireLine (line : List Char) : Option (List (List Char)) :=
  let rest := Text.trimSpace (trimPrefix "require".toList line)
  let rest := Text.trimSpace (trimSuffix [';'] rest)
  let rest := trimSuffix [']'] (trimPrefix ['['] rest)
  (splitCommas rest).mapM requireName

/-- The loop of `splitRequires`, from a line on. -/
def splitRequiresFrom : List (List Char) → (requires : List (List Char)) → (kept : List Char) →
      List (List Char) × List Char
  | [], requires, kept => (requires, kept)
  | l :: ls, requires, kept =>
      let trimmed := Text.trimSpace l
      if trimmed.isEmpty || trimmed.head? = some '#' then splitRequiresFrom ls requires (kept ++ l)
      else if "require".toList.isPrefixOf trimmed then
        match parseRequireLine trimmed with
        | none => (requires, kept ++ (l :: ls).flatten)
        | some names => splitRequiresFrom ls (requires ++ names) kept
      else (requires, kept ++ (l :: ls).flatten)

/-- `splitRequires`. -/
def splitRequires (text : List Char) : List (List Char) × List Char :=
  splitRequiresFrom (cutLines text) [] []

/-- `strings.TrimRight(t, "\r\n")`. -/
def trimRightBreaks (t : List Char) : List Char :=
  (t.reverse.dropWhile fun c => c = '\r' || c = '\n').reverse

/-- The comment above an imported script. -/
def importHeader (name : List Char) : List Char :=
  "# imported from script ".toList ++ quoteSieve name ++ crlf

/-- The external body with another script. -/
def appendForeign (external name body : List Char) : List Char :=
  let body := trimRightBreaks body ++ crlf
  if (Text.trimSpace body).isEmpty then external
  else if contains external body then external
  else
    (if !external.isEmpty && external.getLast? ≠ some '\n' then external ++ crlf else external) ++
      importHeader name ++ body

/-- `ImportForeign`. -/
def importForeign (s : Script) (name content : List Char) : Script :=
  let split := splitRequires content
  { s with
    externalRequires := sortedSet (s.externalRequires ++ split.1)
    externalSource :=
      if s.externalSource.isEmpty then name
      else if contains s.externalSource name then s.externalSource
      else s.externalSource ++ ", ".toList ++ name
    externalBody := appendForeign s.externalBody name split.2 }

/-- What the imports of foreign scripts make of an empty external body. -/
inductive Imported : List Char → Prop
  | empty : Imported []
  | step (s : Script) (name content : List Char) :
      Imported s.externalBody → Imported (importForeign s name content).externalBody

lemma appendForeign_cases (external name body : List Char) :
    appendForeign external name body = external ∨
      ∃ e ∈ [external, external ++ crlf], appendForeign external name body =
        e ++ importHeader name ++ (trimRightBreaks body ++ crlf) ∧ (external = [] → e = []) := by
  unfold appendForeign
  dsimp only
  split
  · exact .inl rfl
  · split
    · exact .inl rfl
    · right
      split
      · rename_i h
        refine ⟨external ++ crlf, by simp, rfl, ?_⟩
        intro hnil
        simp [hnil] at h
      · exact ⟨external, by simp, rfl, fun h => h⟩

/-- An external body begins with a comment, and its last line is complete. -/
lemma Imported.shape {body : List Char} (h : Imported body) :
    body = [] ∨ body.head? = some '#' ∧ body.getLast? = some '\n' := by
  induction h with
  | empty => exact .inl rfl
  | step s name content _ ih =>
    rw [importForeign]
    rcases appendForeign_cases s.externalBody name
      (splitRequires content).2 with heq | ⟨e, he, heq, hnil⟩
    · rw [heq]
      exact ih
    · right
      rw [heq]
      constructor
      · -- either the comment is the first line, or the body was there before
        rcases ih with hbody | ⟨hhead, -⟩
        · rw [hnil hbody]
          rfl
        · obtain ⟨c, t, ht⟩ : ∃ c t, s.externalBody = c :: t := by
            cases hs : s.externalBody with
            | nil => rw [hs] at hhead; cases hhead
            | cons c t => exact ⟨c, t, rfl⟩
          simp only [List.mem_cons, List.not_mem_nil, or_false] at he
          rw [ht] at hhead he
          rcases he with rfl | rfl
          · exact hhead
          · exact hhead
      · rw [← List.append_assoc, crlf, List.getLast?_append]
        rfl

end Moov.Sieve
