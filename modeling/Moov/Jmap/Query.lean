import Moov.Jmap.Feed
import Moov.Lib.Keyset

/-!
# `Email/query`

`jmap/mail/query.go`, `adapter_query.go`, `adapter_query_e3.go` and the list queries of
`store/search.go` and `store/collapse.go`, from a translated filter on:

* the rows a filter matches, newest first (`Mailstore.matching`), in one of the three shapes
  of `fetchPage`;
* `searchEmails`: keyset pages of those rows until `reach` of them are there, and only then
  the order the client asked for;
* `searchThreads`: windows of those rows, of each of which the conversations are kept that
  no earlier window had;
* `searchUnion`: an `OR` as the merge of its branches;
* `handleEmailQuery`: how far to reach, where to start, and whether to say a total.
-/

namespace Moov.Query

open Moov.Jmap (MethodError ErrorCode)

/-! ## Rows -/

/-- A message with its state, as far as a search looks at it. -/
structure Mail where
  id : Nat
  date : Nat
  threadID : Nat
  mailboxID : Nat
  flags : Nat
  keywords : List String
  hasAttachments : Bool
  rawSize : Nat
  deleted : Bool
deriving DecidableEq

/-- The messages of one account, with the primary key of `messages`; the mailboxes of the
two roles that a search leaves out; and what the database's operators say of a message:
`websearch_to_tsquery`, the two address patterns and `ts_rank_cd`, and `strings.EqualFold`. -/
structure Mailstore where
  mails : List Mail
  key : mails.Pairwise fun m n => m.id ≠ n.id
  junk : Option Nat
  trash : Option Nat
  text : String → Nat → Bool
  cc : String → Nat → Bool
  bcc : String → Nat → Bool
  rank : String → Nat → Nat
  equalFold : String → String → Bool

/-- `searchFilter` without its branches. -/
structure Condition where
  text : String
  mailboxID : Option Nat
  since : Option Nat
  before : Option Nat
  unreadOnly : Bool
  keyword : String
  hasAttachment : Option Bool
  cc : String
  bcc : String
  minSize : Option Nat
  maxSize : Option Nat
  flagsAll : Nat
  flagsNone : Nat
  /-- An empty list is not the same as none. -/
  excludeMailboxIDs : Option (List Nat)
  defaultExclusion : Bool
  accountWide : Bool
deriving DecidableEq

/-- `searchFilter`: one condition, or the branches of an `OR`. -/
inductive Filter
  | one (c : Condition)
  | or (branches : List Condition)

/-- `answerable`. -/
def answerable (c : Condition) : Except MethodError Condition :=
  let c :=
    if c.keyword ≠ "" ∧ c.text = "" ∧ c.mailboxID = none ∧ c.accountWide = false then
      { c with accountWide := true }
    else c
  if c.text = "" ∧ c.mailboxID = none ∧ c.accountWide = false then
    .error ⟨.unsupportedFilter,
      "this filter needs an inMailbox or a text condition to be answerable"⟩
  else if c.keyword ≠ "" ∧ c.text = "" ∧ c.mailboxID ≠ none then
    .error ⟨.unsupportedFilter,
      "filter condition \"hasKeyword\" cannot be combined with \"inMailbox\" without a text " ++
        "condition: the folder view has no keyword predicate, while the account-wide label view " ++
        "has one — drop the \"inMailbox\" to search the label across the account, or add a text " ++
        "condition"⟩
  else .ok c

/-- `applyDefaultExclusion`. -/
def applyDefaultExclusion (c : Condition) : Condition :=
  if c.accountWide then c
  else if c.mailboxID ≠ none ∨ c.excludeMailboxIDs ≠ none then c
  else { c with defaultExclusion := true }

/-- `translateFilter`, from the translated node on; the branches of an `OR` have been
through `answerable` when the node was translated. -/
def translateFilter : Filter → Except MethodError Filter
  | .one c => do
      let c ← answerable c
      return .one (applyDefaultExclusion c)
  | .or branches => do
      let branches ← branches.mapM answerable
      return .or (branches.map applyDefaultExclusion)

structure SortSpec where
  byRelevance : Bool
  ascending : Bool
  keyword : String
  keywordFirst : Bool
deriving DecidableEq

section Search

variable (db : Mailstore)

/-- `Narrowing.appendConditions`. -/
def narrowed (c : Condition) (m : Mail) : Bool :=
  (match c.hasAttachment with | none => true | some b => m.hasAttachments == b) &&
    (c.cc = "" || db.cc c.cc m.id) &&
    (c.bcc = "" || db.bcc c.bcc m.id) &&
    (match c.minSize with | none => true | some n => n ≤ m.rawSize) &&
    (match c.maxSize with | none => true | some n => m.rawSize < n) &&
    (c.flagsAll = 0 || Nat.land m.flags c.flagsAll = c.flagsAll) &&
    (c.flagsNone = 0 || Nat.land m.flags c.flagsNone = 0) &&
    (match c.excludeMailboxIDs with | none => true | some ids => m.mailboxID ∉ ids)

/-- The bounds that all three list queries share. -/
def dated (c : Condition) (m : Mail) : Bool :=
  (match c.since with | none => true | some t => t ≤ m.date) &&
    (match c.before with | none => true | some t => m.date < t) &&
    (!c.unreadOnly || Nat.land m.flags 1 = 0)

/-- `keywords @> ARRAY[$n]`. -/
def carries (c : Condition) (m : Mail) : Bool :=
  c.keyword = "" || c.keyword ∈ m.keywords

def inMailbox (c : Condition) (m : Mail) : Bool :=
  match c.mailboxID with
  | none => true
  | some mailbox => m.mailboxID = mailbox

/-- `resolveExclusions`. -/
def resolveExclusions (c : Condition) : Condition :=
  if c.defaultExclusion then
    { c with
      excludeMailboxIDs := some (c.excludeMailboxIDs.getD [] ++ db.junk.toList ++ db.trash.toList) }
  else c

def searchFailed (why : String) : MethodError :=
  ⟨.serverFail, "searching emails: " ++ why⟩

def errKeywordNeedsTextPath : String :=
  "mail: a keyword filter requires the text search path; the folder view cannot evaluate keywords"

/-- The `WHERE` of the list query that `fetchPage` chooses.  A condition with neither text
nor mailbox would follow a nil pointer there. -/
def shape (c : Condition) : Except MethodError (Mail → Bool) :=
  if c.text ≠ "" then
    .ok fun m => db.text c.text m.id && inMailbox c m && dated c m && carries c m && narrowed db c m
  else if c.accountWide then
    .ok fun m => dated c m && carries c m && narrowed db c m
  else if c.keyword ≠ "" then
    .error (searchFailed errKeywordNeedsTextPath)
  else
    match c.mailboxID with
    | none => .error (searchFailed "nil mailbox")
    | some _ => .ok fun m => inMailbox c m && dated c m && narrowed db c m

/-- The `WHERE` of `ListCollapsedMessages`. -/
def collapsedShape (c : Condition) : Except MethodError (Mail → Bool) :=
  if c.keyword ≠ "" ∧ c.text = "" ∧ c.mailboxID ≠ none then
    .error (searchFailed ("collapsed search: a keyword filter combined with a mailbox " ++
      "requires a text condition; the folder view has no keyword predicate, while the " ++
      "account-wide label view has one — omit the mailbox to collapse the label across " ++
      "the account"))
  else .ok fun m =>
    (c.text = "" || db.text c.text m.id) && inMailbox c m && dated c m && carries c m &&
      narrowed db c m

/-- `ORDER BY m.date DESC, m.id DESC`, strictly. -/
def newer (m n : Mail) : Prop :=
  n.date < m.date ∨ (m.date = n.date ∧ n.id < m.id)

instance : DecidableRel newer :=
  fun _ _ => inferInstanceAs (Decidable (_ ∨ _))

/-- The live rows of a `WHERE`, newest first. -/
def Mailstore.matching (test : Mail → Bool) : List Mail :=
  (db.mails.filter fun m => !m.deleted && test m).insertionSort fun m n => ¬ newer n m

def maxSearchLimit : Nat := 200

def defaultSearchWindow : Nat := 200

def maxQueryReach : Nat := 100000

def collapseWindow : Nat := 1000

def maxCollapsePasses : Nat := 32

def rankCandidateWindow : Nat := 200

/-- `systemFlagKeywords`. -/
def systemFlagKeywords : List (Nat × String) :=
  [(1, "$seen"), (2, "$answered"), (4, "$flagged"), (16, "$draft")]

/-- `hasKeyword`. -/
def hasKeyword (m : Mail) (keyword : String) : Bool :=
  match systemFlagKeywords.find? fun f => db.equalFold f.2 keyword with
  | some f => Nat.land m.flags f.1 = f.1
  | none => m.keywords.any fun k => db.equalFold k keyword

/-- The comparison of `sortIDsStable`. -/
def less (s : SortSpec) (m n : Mail) : Bool :=
  if s.keyword ≠ "" ∧ hasKeyword db m s.keyword ≠ hasKeyword db n s.keyword then
    hasKeyword db m s.keyword == s.keywordFirst
  else if m.date = n.date then
    if s.ascending then m.id < n.id else n.id < m.id
  else if s.ascending then m.date < n.date
  else n.date < m.date

/-- `sortIDsStable`. -/
def sortIDsStable (s : SortSpec) (hits : List Mail) : List Nat :=
  (hits.insertionSort fun m n => less db s n m = false).map (·.id)

/-- `SearchByRelevance`: the best of the newest. -/
def searchByRelevance (c : Condition) (test : Mail → Bool) : List Nat :=
  ((((db.matching test).take rankCandidateWindow).insertionSort fun m n =>
      ¬ (db.rank c.text m.id < db.rank c.text n.id ∨
        (db.rank c.text m.id = db.rank c.text n.id ∧ newer n m))).take maxSearchLimit).map (·.id)

/-- `SearchEmails` of one condition. -/
def searchEmails (c : Condition) (s : SortSpec) (reach : Nat) : Except MethodError (List Nat) := do
  if reach = 0 then return []
  let c := resolveExclusions db c
  let test ← shape db c
  if s.byRelevance then return searchByRelevance db c test
  return sortIDsStable db s
    (Keyset.walk newer (db.matching test) maxSearchLimit reach reach [] none)

/-! ## Conversations -/

/-- `DISTINCT ON (thread_id)` over rows that are newest first: of each thread the first. -/
def leads : List Nat → List Mail → List Mail
  | _, [] => []
  | seen, m :: rows =>
      if m.threadID ∈ seen then leads seen rows
      else m :: leads (m.threadID :: seen) rows

/-- `CollapsedResult`. -/
structure CollapsedPage where
  rows : List Mail
  windowExhausted : Bool
  nextCursor : Option Mail

/-- The conversations with a message at or above the cursor: the subquery of
`dedupeClause`. -/
def above (rows : List Mail) : Option Mail → List Nat
  | none => []
  | some x => (rows.filter fun m => ¬ newer x m).map Mail.threadID

/-- `ListCollapsedMessages`: the conversations of a window, without those that have a
message at or above the cursor.  The facts about the window come with the rows, so that a
page without rows says that nothing was scanned. -/
def collapsedPage (window : Nat) (rows : List Mail) (cursor : Option Mail) (limit : Nat) :
    CollapsedPage :=
  let w := (Keyset.behind newer rows cursor).take window
  let page := ((leads [] w).filter fun m => m.threadID ∉ above rows cursor).take limit
  let scanned := if page = [] then 0 else w.length
  ⟨page, window ≤ scanned, if window ≤ scanned then w.getLast? else none⟩

/-- The passes of `SearchThreads`. -/
def collapsedWalk (rows : List Mail) (reach : Nat) :
    (passes : Nat) → (hits : List Mail) → (cursor : Option Mail) → List Mail
  | 0, hits, _ => hits
  | passes + 1, hits, cursor =>
      if hits.length < reach then
        let res :=
          collapsedPage collapseWindow rows cursor (min (reach - hits.length) maxSearchLimit)
        if !res.windowExhausted || res.nextCursor.isNone then hits ++ res.rows
        else collapsedWalk rows reach passes (hits ++ res.rows) res.nextCursor
      else hits

/-- `SearchThreads` of one condition. -/
def searchThreads (c : Condition) (s : SortSpec) (reach : Nat) : Except MethodError (List Nat) := do
  if reach = 0 then return []
  if s.byRelevance then
    throw (searchFailed ("mail: collapseThreads requires the date-ordered path; a bounded " ++
      "relevance window has no cursor to collapse across"))
  let test ← collapsedShape db (resolveExclusions db c)
  return sortIDsStable db s (collapsedWalk (db.matching test) reach maxCollapsePasses [] none)

/-! ## Branches -/

/-- The ids of the branches with their places, each id once. -/
def mergeBranches : (seen : List Nat) → List (List Nat) → List (Nat × Nat)
  | _, [] => []
  | seen, ids :: branches =>
      let fresh := (ids.zipIdx.filter fun h => h.1 ∉ seen)
      fresh.map (fun h => (h.2, h.1)) ++ mergeBranches (seen ++ ids) branches

/-- The merge of `searchUnion`: by the place in the branch, the younger id first. -/
def mergedIDs (results : List (List Nat)) (reach : Nat) : List Nat :=
  (((mergeBranches [] results).insertionSort fun (h g : Nat × Nat) =>
    h.1 < g.1 ∨ (h.1 = g.1 ∧ g.2 ≤ h.2)).map (·.2)).take reach

/-- `searchUnion`. -/
def searchUnion (run : Condition → SortSpec → Nat → Except MethodError (List Nat))
    (branches : List Condition) (s : SortSpec) (reach : Nat) : Except MethodError (List Nat) := do
  let results ← branches.mapM fun c => run c s reach
  return mergedIDs results reach

/-! ## The request -/

structure QueryRequest where
  accountID : String
  filter : Filter
  sort : SortSpec
  position : Option Int
  /-- The decoded anchor, or the text that is no Email id. -/
  anchor : Option (Except String Nat)
  anchorOffset : Int
  limit : Option Nat
  calculateTotal : Bool
  collapseThreads : Bool

structure QueryResponse where
  accountID : String
  position : Nat
  ids : List Nat
  total : Option Nat
  limit : Option Nat
deriving DecidableEq

/-- `effectiveQueryLimit`. -/
def effectiveQueryLimit : Option Nat → Nat × Bool
  | none => (defaultSearchWindow, true)
  | some l => if defaultSearchWindow < l then (defaultSearchWindow, true) else (l, false)

/-- `queryReach`. -/
def queryReach (req : QueryRequest) (limit : Nat) : Nat :=
  match req.anchor, req.position with
  | some _, _ => maxQueryReach
  | none, none => min limit maxQueryReach
  | none, some p =>
      if p < 0 then maxQueryReach
      else if maxQueryReach < p.toNat then maxQueryReach
      else min (p.toNat + limit) maxQueryReach

/-- `resolveStart`. -/
def resolveStart (req : QueryRequest) (found : List Nat) : Except MethodError Nat :=
  match req.anchor with
  | some (.error wire) =>
      .error ⟨.anchorNotFound, "the anchor \"" ++ wire ++ "\" is not a valid Email id"⟩
  | some (.ok id) =>
      match found.idxOf? id with
      | none =>
          .error ⟨.anchorNotFound, "the anchor was not found within the first " ++
            toString found.length ++ " results this server windows over"⟩
      | some i => .ok ((i : Int) + req.anchorOffset).toNat
  | none =>
      let pos := req.position.getD 0
      .ok (if pos < 0 then (pos + found.length).toNat else pos.toNat)

end Search

/-- `queryTotal`; `window` is `searchWindow()`, which `RegisterQueryMethods` bounds. -/
def queryTotal (window found reach : Nat) : Option Nat :=
  let bound := if 0 < reach ∧ reach < window then reach else window
  if 0 < bound ∧ found < bound then some found else none

/-- `collapseRefusal` and the relevance test of `handleEmailQuery`. -/
def refusal (req : QueryRequest) (filter : Filter) : Except MethodError Unit :=
  let text := match filter with
    | .one c => c.text
    | .or _ => ""
  if req.sort.byRelevance ∧ text = "" then
    .error ⟨.unsupportedSort,
      "the \"relevance\" sort requires a text, from, to or subject filter to rank against"⟩
  else if req.collapseThreads ∧ req.sort.byRelevance then
    .error ⟨.unsupportedSort, "collapseThreads cannot be combined with the \"relevance\" sort: " ++
      "that sort ranks a bounded window of recent matches rather than an index order, so a " ++
      "collapsed result has no cursor to page with; request the same filter with the " ++
      "\"receivedAt\" sort to collapse it"⟩
  else .ok ()

/-- `SearchEmails` or `SearchThreads` of a whole filter. -/
def search (db : Mailstore) (collapse : Bool) (filter : Filter) (s : SortSpec) (reach : Nat) :
    Except MethodError (List Nat) :=
  let run := if collapse then searchThreads db else searchEmails db
  match filter with
  | .one c => run c s reach
  | .or branches => if reach = 0 then .ok [] else searchUnion run branches s reach

/-- `handleEmailQuery`, past the decoding of its arguments. -/
def handleEmailQuery (window : Nat) (db : Mailstore) (req : QueryRequest) :
    Except MethodError QueryResponse := do
  let filter ← translateFilter req.filter
  refusal req filter
  let (limit, serverLimited) := effectiveQueryLimit req.limit
  let reach := queryReach req limit
  let found ← search db req.collapseThreads filter req.sort reach
  let start ← resolveStart req found
  return {
    accountID := req.accountID
    position := min start found.length
    ids := (found.drop start).take limit
    total := if req.calculateTotal then queryTotal window found.length reach else none
    limit := if serverLimited then some limit else none }

end Moov.Query
