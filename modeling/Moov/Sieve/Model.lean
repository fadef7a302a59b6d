import Moov.Lib.Decimal
import Moov.Lib.Text

/-!
# The model of the managed script

`sieve/model.go`: the rules, the vacation response and the forwarding of an account, and what
`Validate` asks of them.

* `Time` — instants in whole seconds UTC, as civil time;
* `Script` — the model; a missing list is an empty one;
* `validate` — the problems of a model in an environment, in the order of the source.
-/

namespace Moov.Sieve

open List

/-! ## Time -/

def isLeap (year : Int) : Bool := year % 4 = 0 && (year % 100 ≠ 0 || year % 400 = 0)

def daysIn (month : Nat) (year : Int) : Nat :=
  if month = 2 then (if isLeap year then 29 else 28)
  else if month = 4 || month = 6 || month = 9 || month = 11 then 30
  else 31

/-- `time.Time`, in whole seconds UTC. -/
structure Time where
  year : Int
  month : Nat
  day : Nat
  hour : Nat
  minute : Nat
  second : Nat
  month_range : 1 ≤ month ∧ month ≤ 12
  day_range : 1 ≤ day ∧ day ≤ daysIn month year
  clock_range : hour < 24 ∧ minute < 60 ∧ second < 60
deriving DecidableEq

namespace Time

/-- `time.Time{}`. -/
def zero : Time := ⟨1, 1, 1, 0, 0, 0, by decide, by decide, by decide⟩

/-- `IsZero`. -/
def isZero (t : Time) : Bool := t = zero

/-- The order of instants, as one number. -/
def key (t : Time) : Int :=
  ((((t.year * 13 + t.month) * 32 + t.day) * 24 + t.hour) * 60 + t.minute) * 60 + t.second

/-- `Before`. -/
def before (t u : Time) : Bool := t.key < u.key

end Time

/-! ## The model -/

/-- `Criteria`. -/
structure Criteria where
  from_ : List (List Char)
  to_ : List (List Char)
  subject : List (List Char)
  sizeOver : Int64
  sizeUnder : Int64
  hasAttachment : Option Bool
deriving DecidableEq

/-- `Actions`. -/
structure Actions where
  moveTo : List Char
  labels : List (List Char)
  markRead : Bool
  star : Bool
  forward : List Char
  delete : Bool
  stop : Bool
deriving DecidableEq

/-- `Rule`. -/
structure Rule where
  id : List Char
  name : List Char
  type : List Char
  enabled : Bool
  criteria : Criteria
  actions : Actions
deriving DecidableEq

/-- `Vacation`. -/
structure Vacation where
  enabled : Bool
  fromDate : Time
  toDate : Time
  subject : List Char
  textBody : List Char
  htmlBody : List Char
deriving DecidableEq

/-- `ForwardAll`. -/
structure ForwardAll where
  enabled : Bool
  address : List Char
  disposition : List Char
deriving DecidableEq

/-- `Script`. -/
structure Script where
  version : Int64
  rules : List Rule
  vacation : Option Vacation
  forwardAll : Option ForwardAll
  externalRequires : List (List Char)
  externalSource : List Char
  externalBody : List Char
deriving DecidableEq

def Criteria.zero : Criteria := ⟨[], [], [], 0, 0, none⟩
def Actions.zero : Actions := ⟨[], [], false, false, [], false, false⟩
def Rule.zero : Rule := ⟨[], [], [], false, .zero, .zero⟩
def Vacation.zero : Vacation := ⟨false, .zero, .zero, [], [], []⟩
def ForwardAll.zero : ForwardAll := ⟨false, [], []⟩
def Script.zero : Script := ⟨0, [], none, none, [], [], []⟩

/-- `RuleFilter`. -/
def ruleFilter : List Char := "filter".toList
/-- `RuleBlocked`. -/
def ruleBlocked : List Char := "blocked".toList
/-- `RuleNeverSpam`. -/
def ruleNeverSpam : List Char := "neverSpam".toList
/-- `ForwardKeep`. -/
def forwardKeep : List Char := "keep".toList
/-- `ForwardArchive`. -/
def forwardArchive : List Char := "archive".toList

/-- `MetadataVersion`. -/
def metadataVersion : Int64 := 1

/-- `VacationDays`. -/
def vacationDays : Int64 := 4

/-- `Criteria.empty`. -/
def Criteria.empty (c : Criteria) : Bool :=
  c.from_.isEmpty && c.to_.isEmpty && c.subject.isEmpty && c.sizeOver = 0 && c.sizeUnder = 0 &&
    c.hasAttachment = none

/-- `Actions.empty`. -/
def Actions.empty (a : Actions) : Bool :=
  a.moveTo.isEmpty && a.labels.isEmpty && !a.markRead && !a.star && a.forward.isEmpty &&
    !a.delete && !a.stop

/-! ## The environment -/

/-- What the program has from Go's libraries: `strings.ToLower`, `strconv.Quote`, and the first
eight bytes of a SHA-256 in hexadecimal. -/
structure Libs where
  toLower : List Char → List Char
  quote : List Char → List Char
  digest : List Char → List Char

/-- `GenerateEnv`. -/
structure GenerateEnv where
  junkFolder : List Char
  trashFolder : List Char
  archiveFolder : List Char
  spamHeader : List Char
  spamValue : List Char
  verifiedForward : List Char → Bool

def orElse (s standard : List Char) : List Char := if s.isEmpty then standard else s

/-- `GenerateEnv.withDefaults`. -/
def GenerateEnv.withDefaults (e : GenerateEnv) : GenerateEnv where
  junkFolder := orElse e.junkFolder "Junk".toList
  trashFolder := orElse e.trashFolder "Trash".toList
  archiveFolder := orElse e.archiveFolder "Archive".toList
  spamHeader := orElse e.spamHeader "X-Spam-Flag".toList
  spamValue := orElse e.spamValue "YES".toList
  verifiedForward := e.verifiedForward

lemma orElse_orElse {s standard : List Char} (h : standard ≠ []) :
    orElse (orElse s standard) standard = orElse s standard := by
  unfold orElse
  split
  · simp [h]
  · rfl

/-- The defaults are filled in once: `Generate` and `Validate` both do. -/
@[simp]
lemma GenerateEnv.withDefaults_withDefaults (e : GenerateEnv) :
    e.withDefaults.withDefaults = e.withDefaults := by
  simp [withDefaults, orElse_orElse]

/-! ## Strings -/

/-- `safeScriptString`. -/
def safeScriptString (v : List Char) : Bool := v.all fun c => !(c.toNat < 0x20 || c.toNat = 0x7f)

/-- `looksLikeAddress`: one `@`, and something on both sides of it. -/
def looksLikeAddress (a : List Char) : Bool :=
  if a.isEmpty || !safeScriptString a || a.any (fun c => c = ' ' || c = '\t') then false
  else
    let before := a.takeWhile (· ≠ '@')
    let after := a.drop (before.length + 1)
    !before.isEmpty && !after.isEmpty && !after.any (· = '@')

/-- `criteriaStrings`. -/
def criteriaStrings (c : Criteria) : List (List Char) := c.from_ ++ c.to_ ++ c.subject

/-- `ruleLabel`. -/
def ruleLabel (r : Rule) : List Char :=
  if !r.name.isEmpty then r.name else if !r.id.isEmpty then r.id else "unnamed".toList

/-! ## Extensions -/

/-- A string put in its place in a sorted set. -/
def insertSorted (s : List Char) : List (List Char) → List (List Char)
  | [] => [s]
  | t :: ts => if s = t then t :: ts else if Text.sortsBefore s t then s :: t :: ts
    else t :: insertSorted s ts

/-- `sortedSet`, of what was put in the set. -/
def sortedSet (l : List (List Char)) : List (List Char) :=
  l.foldl (fun set s => insertSorted s set) []

lemma mem_insertSorted {s x : List Char} {l : List (List Char)} :
    x ∈ insertSorted s l ↔ x = s ∨ x ∈ l := by
  induction l with
  | nil => simp [insertSorted]
  | cons t l ih =>
    rw [insertSorted]
    split
    · rename_i heq
      subst heq
      simp
    · split
      · simp
      · rw [mem_cons, ih, mem_cons]
        exact or_left_comm

lemma mem_foldl_insertSorted {x : List Char} {l set : List (List Char)} :
    x ∈ l.foldl (fun set s => insertSorted s set) set ↔ x ∈ l ∨ x ∈ set := by
  induction l generalizing set with
  | nil => simp
  | cons s l ih =>
    rw [foldl_cons, ih, mem_insertSorted, mem_cons]
    exact or_left_comm.trans or_assoc.symm

lemma mem_sortedSet {x : List Char} {l : List (List Char)} : x ∈ sortedSet l ↔ x ∈ l := by
  rw [sortedSet, mem_foldl_insertSorted]
  simp

/-- The extensions that a rule needs. -/
def ruleExtensions (r : Rule) : List (List Char) :=
  if !r.enabled then []
  else
    (if r.type = ruleBlocked || r.type = ruleNeverSpam then ["fileinto".toList] else []) ++
    (if !r.actions.moveTo.isEmpty || r.actions.delete then ["fileinto".toList] else []) ++
    (if !r.actions.labels.isEmpty || r.actions.markRead || r.actions.star then
      ["imap4flags".toList]
    else []) ++
    (if !r.actions.forward.isEmpty then ["copy".toList] else []) ++
    (if !r.criteria.to_.isEmpty then ["envelope".toList] else []) ++
    (if r.criteria.hasAttachment ≠ none then ["mime".toList] else [])

def vacationExtensions : Option Vacation → List (List Char)
  | some v =>
      if !v.enabled then []
      else "vacation".toList ::
        (if !v.fromDate.isZero || !v.toDate.isZero then
          ["date".toList, "relational".toList]
        else [])
  | none => []

def forwardAllExtensions : Option ForwardAll → List (List Char)
  | some f =>
      if !f.enabled then []
        else "copy".toList :: (if f.disposition = forwardArchive then ["fileinto".toList] else [])
  | none => []

/-- `RequiredExtensions`. -/
def requiredExtensions (s : Script) : List (List Char) :=
  sortedSet (s.rules.flatMap ruleExtensions ++ vacationExtensions s.vacation ++
    forwardAllExtensions s.forwardAll ++
    s.externalRequires)

/-! ## `Validate` -/

/-- What can be wrong with a rule. -/
inductive RuleProblem
  | missingID
  | duplicateID (id : List Char)
  | noCriterion
  | noAction
  | noSender
  | notAddress (a : List Char)
  | unknownType (t : List Char)
  | moveAndDelete
  | forwardNotAddress (a : List Char)
  | forwardNotVerified (a : List Char)
  | criterionControls (v : List Char)
  | folderControls
  | labelUnusable (l : List Char)
  | negativeSize
deriving DecidableEq

/-- What can be wrong with a model. -/
inductive Problem
  | rule (index : Nat) (label : List Char) (p : RuleProblem)
  | vacationEmpty
  | vacationControls
  | vacationDates
  | forwardingNotAddress (a : List Char)
  | forwardingNotVerified (a : List Char)
  | forwardingDisposition
  | notAdvertised (ext : List Char)
deriving DecidableEq

section

variable (libs : Libs)

/-- The text of a problem, after the rule it is about. -/
def RuleProblem.text : RuleProblem → List Char
  | missingID => "missing id".toList
  | duplicateID id => "duplicate id ".toList ++ libs.quote id
  | noCriterion => "a rule needs at least one criterion".toList
  | noAction => "a filter needs at least one action".toList
  | noSender => "a blocked-sender rule needs the sender address".toList
  | notAddress a => libs.quote a ++ " is not an email address".toList
  | unknownType t => "unknown rule type ".toList ++ libs.quote t
  | moveAndDelete => "moveTo and delete are mutually exclusive".toList
  | forwardNotAddress a =>
      "forward target ".toList ++ libs.quote a ++ " is not an email address".toList
  | forwardNotVerified a =>
      "forward target ".toList ++ libs.quote a ++ " is not a verified forwarding address".toList
  | criterionControls v =>
      "criterion ".toList ++ libs.quote v ++ " contains control characters".toList
  | folderControls => "folder name contains control characters".toList
  | labelUnusable l => "label ".toList ++ libs.quote l ++ " is not usable".toList
  | negativeSize => "negative size bound".toList

/-- The text of a problem. -/
def Problem.text : Problem → List Char
  | rule index label p =>
      "rule ".toList ++ Nat.toDigits 10 index ++ " (".toList ++ label ++ "): ".toList ++ p.text libs
  | vacationEmpty => "vacation: a subject or a body is required".toList
  | vacationControls => "vacation: the subject contains control characters".toList
  | vacationDates => "vacation: toDate is before fromDate".toList
  | forwardingNotAddress a =>
      "forwarding: ".toList ++ libs.quote a ++ " is not an email address".toList
  | forwardingNotVerified a =>
      "forwarding: ".toList ++ libs.quote a ++ " is not a verified forwarding address".toList
  | forwardingDisposition =>
      "forwarding: disposition must be ".toList ++ libs.quote forwardKeep ++ " or ".toList ++
        libs.quote forwardArchive
  | notAdvertised ext =>
      "the server does not advertise the ".toList ++ libs.quote ext ++
        " Sieve extension (sieve: required extension not advertised by the server)".toList

variable (env : GenerateEnv)

/-- A problem, if there is one. -/
def problemIf {α : Type} (b : Bool) (p : α) : List α := if b then [p] else []

def idProblems (seen : List (List Char)) (r : Rule) : List RuleProblem :=
  if r.id.isEmpty then [.missingID] else problemIf (seen.any fun id => id = r.id)
    (.duplicateID r.id)

def typeProblems (r : Rule) : List RuleProblem :=
  if r.type = ruleFilter || r.type = ruleNeverSpam then
    problemIf r.criteria.empty .noCriterion ++
      problemIf (r.type = ruleFilter && r.actions.empty) .noAction
  else if r.type = ruleBlocked then
    problemIf r.criteria.from_.isEmpty .noSender ++
      (r.criteria.from_.filter fun a => !looksLikeAddress a).map .notAddress
  else [.unknownType r.type]

def forwardProblems (a : Actions) : List RuleProblem :=
  if a.forward.isEmpty then []
  else if !looksLikeAddress a.forward then [.forwardNotAddress a.forward]
  else problemIf (!env.verifiedForward (libs.toLower a.forward)) (.forwardNotVerified a.forward)

/-- The problems of a rule, after the ids of the rules before it. -/
def ruleProblems (seen : List (List Char)) (r : Rule) : List RuleProblem :=
  idProblems seen r ++ typeProblems r ++
  problemIf (!r.actions.moveTo.isEmpty && r.actions.delete) .moveAndDelete ++
  forwardProblems libs env r.actions ++
  ((criteriaStrings r.criteria).filter fun v => !safeScriptString v).map .criterionControls ++
  problemIf (!safeScriptString r.actions.moveTo) .folderControls ++
  (r.actions.labels.filter fun l => l.isEmpty || !safeScriptString l).map .labelUnusable ++
  problemIf (r.criteria.sizeOver < 0 || r.criteria.sizeUnder < 0) .negativeSize

/-- The loop over the rules. -/
def rulesProblems : (index : Nat) → (seen : List (List Char)) → List Rule → List Problem
  | _, _, [] => []
  | index, seen, r :: rs =>
      (ruleProblems libs env seen r).map (.rule index (ruleLabel r)) ++ rulesProblems (index + 1)
        (r.id :: seen) rs

def vacationProblems : Option Vacation → List Problem
  | some v =>
      if !v.enabled then []
      else
        problemIf ((Text.trimSpace v.subject).isEmpty && (Text.trimSpace v.textBody).isEmpty &&
          (Text.trimSpace v.htmlBody).isEmpty) .vacationEmpty ++
        problemIf (!safeScriptString v.subject) .vacationControls ++
        problemIf (!v.fromDate.isZero && !v.toDate.isZero && v.toDate.before v.fromDate)
          .vacationDates
  | none => []

def forwardAllProblems : Option ForwardAll → List Problem
  | some f =>
      if !f.enabled then []
      else
        (if !looksLikeAddress f.address then [.forwardingNotAddress f.address]
          else problemIf (!env.verifiedForward (libs.toLower f.address))
          (.forwardingNotVerified f.address)) ++
        problemIf
          (!f.disposition.isEmpty && f.disposition ≠ forwardKeep && f.disposition ≠ forwardArchive)
          .forwardingDisposition
  | none => []

/-- The extensions that the server does not have; `caps` is `nil` where nothing is asked. -/
def extensionProblems (s : Script) : Option (List Char → Bool) → List Problem
  | some has => ((requiredExtensions s).filter fun ext => !has ext).map .notAdvertised
  | none => []

/-- `Script.Validate`: the problems, none of which is `nil`. -/
def validate (s : Script) (env : GenerateEnv) (caps : Option (List Char → Bool)) : List Problem :=
  let env := env.withDefaults
  rulesProblems libs env 0 [] s.rules ++ vacationProblems s.vacation ++
    forwardAllProblems libs env s.forwardAll ++
    extensionProblems s caps

end

/-- The extensions of a model, before they are put in order. -/
def extensions (s : Script) : List (List Char) :=
  s.rules.flatMap ruleExtensions ++ vacationExtensions s.vacation ++
    forwardAllExtensions s.forwardAll ++ s.externalRequires

lemma extensionProblems_eq_nil_iff {s : Script} {has : List Char → Bool} :
    extensionProblems s (some has) = [] ↔ ∀ ext ∈ extensions s, has ext = true := by
  rw [extensionProblems, map_eq_nil_iff, filter_eq_nil_iff, requiredExtensions]
  simp only [mem_sortedSet, Bool.not_eq_true, Bool.not_eq_false', extensions]

section

variable {libs : Libs} {env env' : GenerateEnv}

/-- The addresses that `Validate` looks up: those of all rules, and that of an enabled forwarding.
-/
def looksUp (s : Script) : List (List Char) :=
  s.rules.map (·.actions.forward) ++ (s.forwardAll.toList.filter (·.enabled)).map (·.address)

lemma forwardProblems_eq_nil_iff {a : Actions} : forwardProblems libs env a = [] ↔
    a.forward = [] ∨ looksLikeAddress a.forward = true ∧ env.verifiedForward
      (libs.toLower a.forward) = true := by
  unfold forwardProblems problemIf
  by_cases hempty : a.forward = []
  · simp [hempty]
  · by_cases hlooks : looksLikeAddress a.forward = true
    · simp [hempty, hlooks]
    · simp [hempty, hlooks]

lemma forwardAllProblems_eq_nil_iff {f : Option ForwardAll} : forwardAllProblems libs env f = [] ↔
    ∀ g ∈ f, g.enabled = true → looksLikeAddress g.address = true ∧ env.verifiedForward
      (libs.toLower g.address) = true ∧
      (g.disposition = [] ∨ g.disposition = forwardKeep ∨ g.disposition = forwardArchive) := by
  cases f with
  | none => simp [forwardAllProblems]
  | some g =>
    simp only [forwardAllProblems, problemIf, Option.mem_def, Option.some.injEq, forall_eq']
    by_cases henabled : g.enabled = true
    · by_cases hlooks : looksLikeAddress g.address = true
      · simp [henabled, hlooks, imp_iff_not_or, or_assoc]
      · simp [henabled, hlooks]
    · simp [henabled]

lemma rulesProblems_of_verified {rules : List Rule} {index : Nat} {seen : List (List Char)}
    (h : rulesProblems libs env index seen rules = [])
    (hv : ∀ r ∈ rules, env.verifiedForward (libs.toLower r.actions.forward) = true →
      env'.verifiedForward (libs.toLower r.actions.forward) = true) :
    rulesProblems libs env' index seen rules = [] := by
  induction rules generalizing index seen with
  | nil => rfl
  | cons r rules ih =>
    simp only [rulesProblems, append_eq_nil_iff, map_eq_nil_iff, ruleProblems] at h ⊢
    obtain ⟨⟨⟨⟨⟨⟨⟨⟨hid, htype⟩, hmove⟩, hforward⟩, hcriteria⟩, hfolder⟩, hlabel⟩, hsize⟩,
      hrest⟩ := h
    have hforward' : forwardProblems libs env' r.actions = [] := by
      rw [forwardProblems_eq_nil_iff] at hforward ⊢
      exact hforward.imp_right fun h => ⟨h.1, hv r mem_cons_self h.2⟩
    exact ⟨⟨⟨⟨⟨⟨⟨⟨hid, htype⟩, hmove⟩, hforward'⟩, hcriteria⟩, hfolder⟩, hlabel⟩, hsize⟩,
      ih hrest fun x hx => hv x (mem_cons_of_mem _ hx)⟩

lemma validate_eq_nil_iff {s : Script} {has : List Char → Bool} :
    validate libs s env (some has) = [] ↔
    rulesProblems libs env.withDefaults 0 [] s.rules = [] ∧ vacationProblems s.vacation = [] ∧
      forwardAllProblems libs env.withDefaults s.forwardAll = [] ∧ ∀ ext ∈ extensions s,
      has ext = true := by
  simp only [validate, append_eq_nil_iff, extensionProblems_eq_nil_iff, and_assoc]

/-- A model stays valid as long as the addresses that were looked up are verified. -/
lemma validate_of_verified {s : Script} {caps : Option (List Char → Bool)}
    (h : validate libs s env caps = [])
    (hv : ∀ a ∈ looksUp s, env.verifiedForward (libs.toLower a) = true → env'.verifiedForward
      (libs.toLower a) = true) :
    validate libs s env' caps = [] := by
  simp only [validate, append_eq_nil_iff] at h ⊢
  obtain ⟨⟨⟨hrules, hvacation⟩, hall⟩, hext⟩ := h
  refine ⟨⟨⟨rulesProblems_of_verified hrules ?_, hvacation⟩, ?_⟩, hext⟩
  · intro r hr
    exact hv _ (mem_append_left _ (mem_map_of_mem hr))
  · rw [forwardAllProblems_eq_nil_iff] at hall ⊢
    intro g hg henabled
    obtain ⟨hlooks, hverified, hdisposition⟩ := hall g hg henabled
    refine ⟨hlooks, hv _ (mem_append_right _ (mem_map_of_mem ?_)) hverified, hdisposition⟩
    exact mem_filter.2 ⟨Option.mem_toList.2 hg, henabled⟩

end

end Moov.Sieve
