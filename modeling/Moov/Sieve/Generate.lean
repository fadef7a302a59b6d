import Moov.Sieve.Codec
import Moov.Sieve.Emit

/-!
# Generating the managed script

`sieve/generate.go`: the model as a script, in the order of the source.

* `writeBlockedRule`, `writeFilterRule`, … — the writers, as what they append;
* `commands` — what stands between the metadata and the external section;
* `generate` — `Generate`.
-/

namespace Moov.Sieve

variable (libs : Libs) (env : GenerateEnv)

/-! ## Lists and tests -/

/-- Texts with a comma between them. -/
def quotedList : List (List Char) → List Tok
  | [] => []
  | [v] => [.quoted v]
  | v :: vs => .quoted v :: code ", " :: quotedList vs

/-- `stringList`. -/
def stringList (values : List (List Char)) : List Tok :=
  code "[" :: (quotedList values ++ [code "]"])

/-- `lowerAll`. -/
def lowerAll (values : List (List Char)) : List (List Char) := values.map libs.toLower

/-- The test for the verdict of the spam filter. -/
def spamTest : List Tok :=
  [code "header :contains ", .quoted (libs.toLower env.spamHeader), code " ", .quoted env.spamValue]

/-- The test for a part with a file name. -/
def attachmentTest : List Tok :=
  [code
      "anyof (header :mime :anychild :param \"filename\" :matches \"content-disposition\" \"*\", ",
    code "header :mime :anychild :param \"name\" :matches \"content-type\" \"*\")"]

/-- The tests of a criteria set. -/
def tests (c : Criteria) (extra : Option (List Tok)) : List (List Tok) :=
  extra.toList ++
  (if c.from_.isEmpty then [] else [code "header :contains \"from\" " :: stringList c.from_]) ++
  (if c.to_.isEmpty then [] else [code "anyof (header :contains [\"to\", \"cc\"] " ::
      (stringList c.to_ ++ code ", envelope :all :contains \"to\" " ::
      (stringList c.to_ ++ [code ")"]))]) ++
  (if c.subject.isEmpty then
    []
  else [code "header :contains \"subject\" " :: stringList c.subject]) ++
  (if 0 < c.sizeOver then [[code "size :over ", .number c.sizeOver]] else []) ++
  (if 0 < c.sizeUnder then [[code "size :under ", .number c.sizeUnder]] else []) ++
  (match c.hasAttachment with
    | none => []
    | some true => [attachmentTest]
    | some false => [code "not " :: attachmentTest])

/-- `strings.Join(tests, ", ")`. -/
def joinTests : List (List Tok) → List Tok
  | [] => []
  | [t] => t
  | t :: ts => t ++ code ", " :: joinTests ts

/-- `criteriaTest`. -/
def criteriaTest (c : Criteria) (extra : Option (List Tok)) : List Tok :=
  match tests c extra with
  | [t] => t
  | ts => code "allof (" :: (joinTests ts ++ [code ")"])

/-! ## Rules -/

/-- `    fileinto`. -/
def fileInto (folder : List Char) : List Tok := [code "    fileinto ", .quoted folder, code ";\r\n"]

/-- `    stop;`. -/
def stopCommand : Tok := code "    stop;\r\n"

/-- `writeBlockedRule`. -/
def writeBlockedRule (r : Rule) : List Tok :=
  .comment .blocked r.id :: code "address :all :is \"from\" " ::
    (stringList (lowerAll libs r.criteria.from_) ++ code " \x7b\r\n" ::
      (fileInto env.junkFolder ++ [stopCommand, code "\x7d\r\n"]))

/-- `writeForwardAll`. -/
def writeForwardAll (f : ForwardAll) : List Tok :=
  code "# forward-all\r\n" :: code "if not " ::
    (spamTest libs env ++ code " \x7b\r\n" :: .redirect f.address ::
      ((if f.disposition = forwardArchive then fileInto env.archiveFolder else []) ++
      [code "\x7d\r\n"]))

/-- The flags that a rule adds. -/
def flags (a : Actions) : List (List Char) :=
  (if a.markRead then ["\\Seen".toList] else []) ++ (if a.star then ["\\Flagged".toList] else []) ++
    a.labels.map fun l => "$label:".toList ++ l

/-- `writeRuleActions`. -/
def writeRuleActions (a : Actions) : List Tok :=
  (if (flags a).isEmpty then
    []
  else code "    addflag " :: (stringList (flags a) ++ [code ";\r\n"])) ++
  (if a.forward.isEmpty then [] else [.redirect a.forward]) ++
  (if a.delete then fileInto env.trashFolder else if a.moveTo.isEmpty then
    []
  else fileInto a.moveTo) ++
  (if a.stop then [stopCommand] else [])

/-- `writeFilterRule`. -/
def writeFilterRule (r : Rule) : List Tok :=
  .comment .rule r.id :: (criteriaTest r.criteria none ++ code " \x7b\r\n" ::
    (writeRuleActions env r.actions ++ [code "\x7d\r\n"]))

/-- `writeNeverSpamRule`. -/
def writeNeverSpamRule (r : Rule) : List Tok :=
  .comment .neverSpam r.id ::
    (criteriaTest r.criteria (some (spamTest libs env)) ++ code " \x7b\r\n" ::
    (fileInto (orElse r.actions.moveTo "INBOX".toList) ++ [stopCommand, code "\x7d\r\n"]))

/-! ## Vacation -/

/-- `dateBound`; `day` and `moment` are the comparisons. -/
def dateBoundWith (day moment : Tok) (t : Time) : List Tok :=
  [code "anyof (currentdate :zone \"+0000\" :value ", day, code " \"date\" ", .quoted t.date,
    code ", allof (currentdate :zone \"+0000\" :is \"date\" ", .quoted t.date,
    code ", currentdate :zone \"+0000\" :value ", moment, code " \"time\" ", .quoted t.clock,
    code "))"]

/-- `dateBound`. -/
def dateBound (t : Time) (start : Bool) : List Tok :=
  if start then dateBoundWith (code "\"gt\"") (code "\"ge\"") t
  else dateBoundWith (code "\"lt\"") (code "\"le\"") t

/-- The guards of the response, each with what goes before it. -/
def guards (v : Vacation) : List Tok :=
  code "not " :: (spamTest libs env ++
    [code ",\r\n    not exists [\"list-id\", \"list-unsubscribe\", \"list-post\"]",
      code ",\r\n    not header :is \"precedence\" [\"bulk\", \"list\", \"junk\"]",
      code
        ",\r\n    anyof (not exists \"auto-submitted\", header :is \"auto-submitted\" \"no\")"] ++
    (if v.fromDate.isZero then [] else code ",\r\n    " :: dateBound v.fromDate true) ++
    (if v.toDate.isZero then [] else code ",\r\n    " :: dateBound v.toDate false))

/-- `vacationHandle`. -/
def vacationHandle (v : Vacation) : List Char :=
  "moov-vacation-".toList ++
    libs.digest (v.subject ++ '\x00' :: (v.textBody ++ '\x00' :: v.htmlBody))

/-- The tags of a text dropped. -/
def dropTags : (inTag : Bool) → List Char → List Char
  | _, [] => []
  | inTag, c :: t =>
      if c = '<' then dropTags true t
      else if c = '>' then dropTags false t
      else if inTag then dropTags true t
      else c :: dropTags false t

/-- `stripTags`. -/
def stripTags (html : List Char) : List Char :=
  let out := dropTags false html
  let out := replaceAll "&amp;".toList "&".toList out
  let out := replaceAll "&lt;".toList "<".toList out
  let out := replaceAll "&gt;".toList ">".toList out
  let out := replaceAll "&quot;".toList "\"".toList out
  let out := replaceAll "&#39;".toList ['\''] out
  Text.trimSpace out

def boundary : List Char := "=_moov_vacation_alt".toList

/-- `strings.Contains`. -/
def contains (t m : List Char) : Bool := (Search.cut m t).isSome

/-- The plain text of an HTML response. -/
def plainText (v : Vacation) : List Char := orElse v.textBody (stripTags v.htmlBody)

/-- `vacationMIME`, of bodies without the boundary. -/
def vacationMIME (v : Vacation) : List Char :=
  "Content-Type: multipart/alternative; boundary=\"".toList ++ boundary ++ "\"\r\n".toList ++
  "MIME-Version: 1.0\r\n\r\n".toList ++ "--".toList ++ boundary ++ crlf ++
  "Content-Type: text/plain; charset=utf-8\r\n\r\n".toList ++ plainText v ++ crlf ++ "--".toList ++
    boundary ++ crlf ++
  "Content-Type: text/html; charset=utf-8\r\n\r\n".toList ++ v.htmlBody ++ crlf ++ "--".toList ++
    boundary ++ "--".toList

/-- `vacationMIME` returns an error: a body has the boundary. -/
def collides (v : Vacation) : Bool :=
  contains v.htmlBody boundary || contains (plainText v) boundary

/-- The text of a response: of a subject alone, the subject. -/
def replyText (v : Vacation) : List Char := orElse v.textBody v.subject

/-- The body of a response, from the space before it. -/
def replyBody (v : Vacation) : List Tok :=
  if v.htmlBody.isEmpty then [code " ", .block (replyText v)]
  else [code " :mime ", .block (vacationMIME v)]

/-- `writeVacation`, of a response that does not collide with the boundary. -/
def writeVacation (v : Vacation) : List Tok :=
  code "# vacation\r\n" :: code "if allof (\r\n    " ::
    (guards libs env v ++
      code "\r\n) \x7b\r\n" :: code "    vacation :days " :: .number vacationDays ::
      code " :handle " :: .quoted (vacationHandle libs v) ::
      ((if v.subject.isEmpty then [] else [code " :subject ", .quoted v.subject]) ++ replyBody v ++
        [code "\x7d\r\n"]))

/-! ## `Generate` -/

/-- The lines after the metadata. -/
def managedBy : List Tok :=
  [code "# Managed by Moov Mail. Edits to this script are preserved as foreign\r\n",
    code "# content but not merged; keep hand-written rules in a separate script.\r\n"]

def requireLine (s : Script) : List Tok :=
  if (requiredExtensions s).isEmpty then []
  else code "require " :: (stringList (requiredExtensions s) ++ [code ";\r\n"])

def blockedRule (r : Rule) : List Tok := if r.enabled && r.type = ruleBlocked then
    writeBlockedRule libs env r
  else []

def filterRule (r : Rule) : List Tok :=
  if !r.enabled then []
  else if r.type = ruleFilter then writeFilterRule env r
  else if r.type = ruleNeverSpam then writeNeverSpamRule libs env r
  else []

def forwardAllSection : Option ForwardAll → List Tok
  | some f => if f.enabled then writeForwardAll libs env f else []
  | none => []

def vacationSection : Option Vacation → List Tok
  | some v => if v.enabled then writeVacation libs env v else []
  | none => []

/-- What stands between the metadata and the external section. -/
def commands (s : Script) : List Tok :=
  managedBy ++ requireLine s ++ s.rules.flatMap (blockedRule libs env) ++
    forwardAllSection libs env s.forwardAll ++
    vacationSection libs env s.vacation ++ s.rules.flatMap (filterRule libs env)

/-- The external section. -/
def externalSection (body : List Char) : List Char :=
  if body.isEmpty then []
  else externalBegin ++ crlf ++ body ++ (if body.getLast? = some '\n' then [] else crlf) ++
    externalEnd ++ crlf

/-- `marshalMetadata`, of a model that marshals. -/
def metadata (s : Script) : List Char :=
  Json.guardStars (Search.flat (Json.pieces Json.escape s.toJson))

/-- The script of a model. -/
def scriptText (s : Script) : List Char :=
  metaBegin ++ crlf ++ metadata s ++ crlf ++ metaEnd ++ crlf ++ render (commands libs env s) ++
    externalSection s.externalBody

inductive GenerateError
  | invalid (ps : List Problem)
  | unverified (address : List Char)
  | marshal
  | collision
deriving DecidableEq

/-- The targets of the redirects of a model, in the order in which `Generate` checks them. -/
def targets (s : Script) : List (List Char) :=
  (s.rules.filter fun r => r.enabled && !r.actions.forward.isEmpty).map (·.actions.forward) ++
    (s.forwardAll.toList.filter (·.enabled)).map (·.address)

/-- `Generate`. -/
def generate (s : Script) (env : GenerateEnv) (caps : Option (List Char → Bool)) :
    Except GenerateError (List Char) :=
  let env := env.withDefaults
  match validate libs s env caps with
  | p :: ps => .error (.invalid (p :: ps))
  | [] =>
      match (targets s).find? fun a => !env.verifiedForward (libs.toLower a) with
      | some a => .error (.unverified a)
      | none =>
          if !s.marshals then .error .marshal
          else if s.vacation.any fun v => v.enabled && !v.htmlBody.isEmpty && collides v then
            .error .collision
          else .ok (scriptText libs env s)

section

variable {libs env} {s : Script}

/-- When `Generate` returns a script, and which. -/
lemma generate_eq_ok_iff {caps : Option (List Char → Bool)} {text : List Char} :
    generate libs s env caps = .ok text ↔
      validate libs s env caps = [] ∧
        (∀ a ∈ targets s, env.verifiedForward (libs.toLower a) = true) ∧
        s.marshals = true ∧
        (∀ v ∈ s.vacation, v.enabled = true → v.htmlBody ≠ [] → collides v = false) ∧
        scriptText libs env.withDefaults s = text := by
  have hfind : (targets s).find? (fun a => !env.withDefaults.verifiedForward (libs.toLower a)) =
      none ↔
      ∀ a ∈ targets s, env.verifiedForward (libs.toLower a) = true := by
    simp [GenerateEnv.withDefaults]
  have hcollides : (s.vacation.any fun v => v.enabled && !v.htmlBody.isEmpty && collides v) =
      false ↔
      ∀ v ∈ s.vacation, v.enabled = true → v.htmlBody ≠ [] → collides v = false := by
    cases s.vacation with
    | none => simp
    | some =>
      simp only [Option.mem_def, Option.some.injEq, forall_eq']
      simp [imp_iff_not_or, or_assoc]
  have hvalidate : validate libs s env.withDefaults caps = validate libs s env caps := by
    simp [validate]
  rw [← hfind, ← hcollides, ← hvalidate]
  unfold generate
  dsimp only
  cases validate libs s env.withDefaults caps with
  | cons => simp
  | nil =>
    cases (targets s).find? fun a => !env.withDefaults.verifiedForward (libs.toLower a) with
    | some => simp
    | none =>
      cases s.marshals with
      | false => simp
      | true => cases s.vacation.any fun v =>
        v.enabled && !v.htmlBody.isEmpty && collides v <;> simp

end

end Moov.Sieve
