import Mathlib.Data.List.Pairwise
import Mathlib.Data.List.Sort
import Moov.Lib.Decimal
import Moov.Store.Subject

/-!
# The change feed of an account

`message_state` as `Email/changes` reads it, and `jmap/mail/changes.go`,
`queries_changes.go` and the state strings of `adapter.go`:

* one row per message, with the instant at which it was created, the instant of its last
  change and its tombstone;
* what each of the store's writes does to the rows (`Write`): a write stamps every row it
  touches with the start of its transaction, tombstones stay where they are, and two of
  the writes delete rows outright;
* the state string `<nanos>-<count>`, the page of changes after it and the answer of
  `Email/changes`.

The three reads of one call are three queries, so that `loadChangeWindow` is given the
contents that each of them sees.
-/

namespace Moov.Jmap

open List

open Moov.Threads (cutAt)

/-! ## Rows -/

/-- `int64` stops here. -/
def int64Bound : Nat := 9223372036854775808

/-- What `now()` gives: nanoseconds since 1970, later than the first second of the epoch and
within `time.Time.UnixNano`.  Cursors are plain numbers, with 0 for the zero time. -/
structure Stamp where
  nanos : Nat
  pastEpoch : 1000000000 ≤ nanos
  inRange : nanos < int64Bound
deriving DecidableEq

structure ChangeRow where
  messageID : Nat
  mailboxID : Nat
  createdAt : Stamp
  updatedAt : Stamp
  destroyed : Bool
deriving DecidableEq

/-- The rows of one account: the primary key of `message_state`, and the identity
sequence of `messages`, which is past every id it has given out. -/
structure Feed where
  rows : List ChangeRow
  seq : Nat
  key : rows.Pairwise fun r q => r.messageID ≠ q.messageID
  issued : ∀ r ∈ rows, r.messageID < seq

/-- The ids of the Emails there are. -/
def Feed.live (f : Feed) : List Nat :=
  (f.rows.filter fun r => !r.destroyed).map (·.messageID)

def Feed.empty : Feed where
  rows := []
  seq := 1
  key := .nil
  issued := by simp

/-! ## The writes of the store -/

open Feed

inductive Write
  /-- `InsertMessages`: the mailbox of each message of the batch, or `none` for one whose
  UID was already stored; its id is spent and its row removed again. -/
  | insertMessages (batch : List (Option Nat))
  | updateFlags (ids : List Nat)
  | moveMessages (ids : List Nat) (dest : Nat)
  /-- The second half of `mergeThread`: the members of the winner. -/
  | mergeThread (members : List Nat)
  | markDeleted (mailbox : Nat) (ids : List Nat)
  | tombstoneMailbox (mailbox : Nat)
  | invalidateMailbox (mailbox : Nat)
  /-- `DeleteMailbox`: the state rows of the mailbox go by `ON DELETE CASCADE`. -/
  | deleteMailbox (mailbox : Nat)
deriving DecidableEq

def ChangeRow.touch (r : ChangeRow) (now : Stamp) : ChangeRow :=
  { r with updatedAt := now }

def ChangeRow.refile (r : ChangeRow) (now : Stamp) (dest : Nat) : ChangeRow :=
  { r with mailboxID := dest, updatedAt := now }

def ChangeRow.bury (r : ChangeRow) (now : Stamp) : ChangeRow :=
  { r with destroyed := true, updatedAt := now }

/-- The rows a write is about. -/
def Write.touches : Write → ChangeRow → Bool
  | .insertMessages _, _ => false
  | .updateFlags ids, r => r.messageID ∈ ids
  | .moveMessages ids _, r => r.messageID ∈ ids
  | .mergeThread members, r => r.messageID ∈ members
  | .markDeleted mailbox ids, r => r.mailboxID = mailbox && r.messageID ∈ ids && !r.destroyed
  | .tombstoneMailbox mailbox, r => r.mailboxID = mailbox && !r.destroyed
  | .invalidateMailbox mailbox, r => r.mailboxID = mailbox
  | .deleteMailbox mailbox, r => r.mailboxID = mailbox

/-- What it makes of one of them; `none` where it deletes the row. -/
def Write.rewrite (now : Stamp) : Write → ChangeRow → Option ChangeRow
  | .insertMessages _, r => some r
  | .updateFlags _, r => some (r.touch now)
  | .moveMessages _ dest, r => some (r.refile now dest)
  | .mergeThread _, r => some (r.touch now)
  | .markDeleted _ _, r => some (r.bury now)
  | .tombstoneMailbox _, r => some (r.bury now)
  | .invalidateMailbox _, _ => none
  | .deleteMailbox _, _ => none

def Write.onRow (now : Stamp) (w : Write) (r : ChangeRow) : Option ChangeRow :=
  if w.touches r then w.rewrite now r else some r

/-- The messages a write inserts. -/
def Write.batch : Write → List (Option Nat)
  | .insertMessages batch => batch
  | _ => []

/-- The rows of a batch, numbered from `seq` on. -/
def newRows (now : Stamp) : Nat → List (Option Nat) → List ChangeRow
  | _, [] => []
  | seq, none :: batch => newRows now (seq + 1) batch
  | seq, some mailbox :: batch =>
      ⟨seq, mailbox, now, now, false⟩ :: newRows now (seq + 1) batch

variable {r q : ChangeRow} {f : Feed} {n : Nat} {now : Stamp}

lemma mem_newRows {batch : List (Option Nat)} {seq : Nat} (h : r ∈ newRows now seq batch) :
    seq ≤ r.messageID ∧ r.messageID < seq + batch.length ∧ r.createdAt = now ∧
      r.updatedAt = now ∧ r.destroyed = false := by
  induction batch generalizing seq with
  | nil => simp [newRows] at h
  | cons m batch ih =>
    have htail : r ∈ newRows now (seq + 1) batch → seq ≤ r.messageID ∧
        r.messageID < seq + (m :: batch).length ∧ r.createdAt = now ∧ r.updatedAt = now ∧
          r.destroyed = false := by
      intro hr
      obtain ⟨hlow, hhigh, hrest⟩ := ih hr
      exact ⟨by omega, by rw [length_cons]; omega, hrest⟩
    cases m with
    | none => exact htail h
    | some mailbox =>
      rcases mem_cons.1 h with rfl | h
      · have : seq < seq + (some mailbox :: batch).length := by rw [length_cons]; omega
        exact ⟨le_refl _, this, rfl, rfl, rfl⟩
      · exact htail h

lemma newRows_key (now : Stamp) (batch : List (Option Nat)) (seq : Nat) :
    (newRows now seq batch).Pairwise fun r q => r.messageID ≠ q.messageID := by
  induction batch generalizing seq with
  | nil => exact .nil
  | cons m batch ih =>
    cases m with
    | none => exact ih (seq + 1)
    | some =>
      refine pairwise_cons.2 ⟨fun q hq => ?_, ih (seq + 1)⟩
      have := (mem_newRows hq).1
      show seq ≠ q.messageID
      omega

/-- What becomes of a row under a write, if it stays: the same message, stamped with the
time of the transaction if the write is about it. -/
structure Rewritten (now : Stamp) (w : Write) (r q : ChangeRow) : Prop where
  messageID : q.messageID = r.messageID
  createdAt : q.createdAt = r.createdAt
  stamped : (w.touches r = false ∧ q = r) ∨ (w.touches r = true ∧ q.updatedAt = now)

lemma rewritten_of_onRow {w : Write} {r : ChangeRow}
    (h : w.onRow now r = some q) : Rewritten now w r q := by
  unfold Write.onRow at h
  split at h
  · rename_i htouches
    cases w with
    | insertMessages => cases htouches
    | updateFlags | moveMessages | mergeThread | markDeleted | tombstoneMailbox =>
      cases h; exact ⟨rfl, rfl, .inr ⟨htouches, rfl⟩⟩
    | invalidateMailbox | deleteMailbox => cases h
  · rename_i htouches
    cases h
    exact ⟨rfl, rfl, .inl ⟨Bool.eq_false_iff.2 htouches, rfl⟩⟩

/-- One transaction that began at `now`, at the moment it commits. -/
def Feed.write (f : Feed) (now : Stamp) (w : Write) : Feed where
  rows := f.rows.filterMap (w.onRow now) ++ newRows now f.seq w.batch
  seq := f.seq + w.batch.length
  key := by
    refine List.pairwise_append.2 ⟨?_, newRows_key now w.batch f.seq, fun q hq r hr => ?_⟩
    · refine f.key.filterMap _ fun r q hne r' hr' q' hq' => ?_
      rw [(rewritten_of_onRow hr').messageID, (rewritten_of_onRow hq').messageID]
      exact hne
    · obtain ⟨p, hp, hpq⟩ := List.mem_filterMap.1 hq
      have hlow := (mem_newRows hr).1
      have hhigh := f.issued p hp
      rw [(rewritten_of_onRow hpq).messageID]
      omega
  issued := by
    intro q hq
    rcases List.mem_append.1 hq with hq | hq
    · obtain ⟨p, hp, hpq⟩ := List.mem_filterMap.1 hq
      have := f.issued p hp
      rw [(rewritten_of_onRow hpq).messageID]
      omega
    · exact (mem_newRows hq).2.1

/-- Where a row comes from after a write: a row that was there, or the batch. -/
lemma mem_write {w : Write} (h : q ∈ (f.write now w).rows) : (∃ r ∈ f.rows, Rewritten now w r q) ∨
      (f.seq ≤ q.messageID ∧ q.createdAt = now ∧ q.updatedAt = now) := by
  rcases mem_append.1 h with h | h
  · obtain ⟨r, hr, hrq⟩ := mem_filterMap.1 h
    exact .inl ⟨r, hr, rewritten_of_onRow hrq⟩
  · obtain ⟨hlow, -, hcreated, hupdated, -⟩ := mem_newRows h
    exact .inr ⟨hlow, hcreated, hupdated⟩

lemma Feed.eq_of_messageID {r : ChangeRow} (hr : r ∈ f.rows) (hq : q ∈ f.rows)
    (h : r.messageID = q.messageID) : r = q := by
  by_contra hne
  have hsymm : Std.Symm fun r q : ChangeRow => r.messageID ≠ q.messageID := ⟨fun _ _ => Ne.symm⟩
  exact f.key.forall hr hq hne h

lemma Feed.mem_live {i : Nat} :
    i ∈ f.live ↔ ∃ r ∈ f.rows, r.destroyed = false ∧ r.messageID = i := by
  simp [live, and_assoc]

/-- Whether a row's message is among the Emails is read off the row. -/
lemma Feed.messageID_mem_live (hr : r ∈ f.rows) : r.messageID ∈ f.live ↔ r.destroyed = false := by
  refine mem_live.trans ⟨fun ⟨q, hq, hlive, hid⟩ => ?_, fun h => ⟨r, hr, h, rfl⟩⟩
  exact eq_of_messageID hq hr hid ▸ hlive

/-! ## State strings -/

/-- `fmt.Sprintf` with a decimal on either side of a dash. -/
def stateText (nanos count : Nat) : List Char :=
  Nat.toDigits 10 nanos ++ '-' :: Nat.toDigits 10 count

/-- `stateFor`: a zero watermark has its own format, which prints the same digit. -/
def stateFor (watermark count : Nat) : List Char :=
  if watermark = 0 then stateText 0 count else stateText watermark count

def stateForCursor (t : Nat) : List Char :=
  stateText t 0

/-- The sign that `strconv.ParseInt` allows. -/
def dropPlus : List Char → List Char
  | '+' :: rest => rest
  | s => s

/-- `strconv.ParseInt(s, 10, 64)` of a text without a dash. -/
def parseInt (s : List Char) : Option Nat :=
  let digits := dropPlus s
  if digits ≠ [] ∧ digits.all Char.isDigit then
    let n := Nat.ofDigitChars 10 digits 0
    if n < int64Bound then some n else none
  else none

inductive ErrorCode
  | invalidArguments
  | accountNotFound
  | cannotCalculateChanges
  | unsupportedFilter
  | unsupportedSort
  | anchorNotFound
  | serverFail
deriving DecidableEq

structure MethodError where
  code : ErrorCode
  description : String
deriving DecidableEq

def notIssued : MethodError :=
  ⟨.cannotCalculateChanges, "the given state was not issued by this server"⟩

/-- `cursorFromState`.  The text before the first dash has no sign, so that the source's
test for a negative number never holds. -/
def cursorFromState (state : List Char) : Except MethodError Nat :=
  match cutAt '-' state with
  | none => .error notIssued
  | some (nanos, _) =>
      match parseInt nanos with
      | none => .error notIssued
      | some n => .ok n

lemma cutAt_append {sep : Char} {s rest : List Char} (h : sep ∉ s) :
    cutAt sep (s ++ sep :: rest) = some (s, rest) := by
  induction s with
  | nil => simp [cutAt]
  | cons c s ih =>
    have hc : c ≠ sep := fun he => h (he ▸ mem_cons_self)
    rw [cons_append, cutAt, if_neg hc, ih fun hs => h (mem_cons_of_mem c hs)]
    rfl

lemma not_mem_toDigits {c : Char} (h : c.isDigit = false) : c ∉ Nat.toDigits 10 n :=
  fun hc => by simp [Decimal.isDigit_toDigits hc] at h

lemma dropPlus_toDigits (n : Nat) : dropPlus (Nat.toDigits 10 n) = Nat.toDigits 10 n := by
  have hplus : '+' ∉ Nat.toDigits 10 n := not_mem_toDigits (by decide)
  unfold dropPlus
  split
  · rename_i rest heq
    exact absurd (heq ▸ mem_cons_self) hplus
  · rfl

lemma parseInt_toDigits (h : n < int64Bound) : parseInt (Nat.toDigits 10 n) = some n := by
  simp only [parseInt, dropPlus_toDigits, Nat.ofDigitChars_ten_toDigits]
  rw [if_pos ⟨Nat.toDigits_ne_nil, Decimal.all_isDigit_toDigits n⟩, if_pos h]

/-- A state string leads back to its watermark, whatever its count. -/
lemma cursorFromState_stateText (count : Nat) (h : n < int64Bound) :
    cursorFromState (stateText n count) = .ok n := by
  unfold cursorFromState stateText
  rw [cutAt_append (not_mem_toDigits (by decide))]
  simp only [parseInt_toDigits h]

lemma cursorFromState_stateFor (count : Nat) (h : n < int64Bound) :
    cursorFromState (stateFor n count) = .ok n := by
  unfold stateFor
  split
  · rename_i h0
    rw [cursorFromState_stateText count (by decide), h0]
  · exact cursorFromState_stateText count h

/-! ## The queries -/

def defaultChangesLimit : Nat := 256

def maxChangesCeiling : Nat := 4096

/-- `ORDER BY updated_at, message_id`. -/
def ChangeRow.precedes (r q : ChangeRow) : Prop :=
  r.updatedAt.nanos < q.updatedAt.nanos ∨
    (r.updatedAt.nanos = q.updatedAt.nanos ∧ r.messageID ≤ q.messageID)

instance : DecidableRel ChangeRow.precedes :=
  fun _ _ => inferInstanceAs (Decidable (_ ∨ _))

instance : Std.Total ChangeRow.precedes :=
  ⟨fun r q => by unfold ChangeRow.precedes; omega⟩

instance : IsTrans ChangeRow ChangeRow.precedes :=
  ⟨fun r q p => by unfold ChangeRow.precedes; omega⟩

/-- The changes after a cursor, oldest first. -/
def Feed.since (f : Feed) (cursor : Nat) : List ChangeRow :=
  (f.rows.filter fun r => cursor < r.updatedAt.nanos).insertionSort ChangeRow.precedes

def Feed.changedSinceRows (f : Feed) (since limit : Nat) : List ChangeRow :=
  (f.since since).take (if limit = 0 then defaultChangesLimit else limit)

/-- `coalesce(max(updated_at), to_timestamp(0))`. -/
def maxUpdatedAt : List ChangeRow → Nat
  | [] => 0
  | r :: rows => max r.updatedAt.nanos (maxUpdatedAt rows)

def Feed.maxUpdatedAt (f : Feed) : Nat :=
  Jmap.maxUpdatedAt f.rows

/-- `t.Unix() <= 0` turns into the zero time. -/
def fromUnix (t : Nat) : Nat :=
  if t / 1000000000 = 0 then 0 else t

def Feed.newestChangeAt (f : Feed) : Nat :=
  fromUnix f.maxUpdatedAt

def Feed.dataState (f : Feed) : List Char :=
  stateFor (fromUnix f.maxUpdatedAt) f.rows.length

lemma Feed.mem_since {cursor : Nat} :
    r ∈ f.since cursor ↔ r ∈ f.rows ∧ cursor < r.updatedAt.nanos := by
  simp [since, mem_insertionSort]

lemma Feed.since_pairwise (f : Feed) (cursor : Nat) :
    (f.since cursor).Pairwise ChangeRow.precedes :=
  pairwise_insertionSort _ _

/-- A later cursor leaves out the older part of the feed and nothing else. -/
lemma Feed.filter_since {c c' : Nat} (h : c ≤ c') :
    (f.since c).filter (fun r => c' < r.updatedAt.nanos) = f.since c' := by
  refine List.Perm.eq_of_pairwise (fun r q hr hq hrq hqr => ?_)
    ((f.since_pairwise c).filter _) (f.since_pairwise c') ?_
  · have hr' := (mem_since.1 (mem_filter.1 hr).1).1
    refine eq_of_messageID hr' (mem_since.1 hq).1 ?_
    unfold ChangeRow.precedes at hrq hqr
    omega
  · refine ((perm_insertionSort _ _).filter _).trans ?_
    refine .trans ?_ (perm_insertionSort _ _).symm
    rw [filter_filter]
    refine .of_eq (filter_congr fun r _ => ?_)
    by_cases hr : c' < r.updatedAt.nanos
    · simp [hr, Nat.lt_of_le_of_lt h hr]
    · simp [hr]

lemma le_maxUpdatedAt {rows : List ChangeRow} (h : r ∈ rows) :
    r.updatedAt.nanos ≤ maxUpdatedAt rows := by
  induction rows with
  | nil => cases h
  | cons q rows ih =>
    rcases mem_cons.1 h with rfl | h
    · exact le_max_left _ _
    · exact (ih h).trans (le_max_right _ _)

/-- The watermark is the zero time or the stamp of a row. -/
lemma maxUpdatedAt_eq (rows : List ChangeRow) :
    (rows = [] ∧ maxUpdatedAt rows = 0) ∨ ∃ r ∈ rows, r.updatedAt.nanos = maxUpdatedAt rows := by
  induction rows with
  | nil => exact .inl ⟨rfl, rfl⟩
  | cons q rows ih =>
    right
    rcases ih with ⟨-, hzero⟩ | ⟨r, hr, heq⟩
    · exact ⟨q, mem_cons_self, by rw [maxUpdatedAt, hzero, Nat.max_zero]⟩
    · rcases Nat.le_total (maxUpdatedAt rows) q.updatedAt.nanos with hle | hle
      · exact ⟨q, mem_cons_self, (max_eq_left hle).symm⟩
      · exact ⟨r, mem_cons_of_mem q hr, heq.trans (max_eq_right hle).symm⟩

lemma fromUnix_stamp (t : Stamp) : fromUnix t.nanos = t.nanos := by
  have := t.pastEpoch
  rw [fromUnix, if_neg (by omega)]

lemma Feed.newestChangeAt_eq (f : Feed) : f.newestChangeAt = f.maxUpdatedAt := by
  rcases maxUpdatedAt_eq f.rows with ⟨-, hzero⟩ | ⟨r, -, heq⟩
  · rw [newestChangeAt, maxUpdatedAt, hzero]; rfl
  · rw [newestChangeAt, maxUpdatedAt, ← heq, fromUnix_stamp]

lemma Feed.maxUpdatedAt_lt (f : Feed) : f.maxUpdatedAt < int64Bound := by
  rcases maxUpdatedAt_eq f.rows with ⟨-, hzero⟩ | ⟨r, -, heq⟩
  · rw [maxUpdatedAt, hzero]; decide
  · rw [maxUpdatedAt, ← heq]; exact r.updatedAt.inRange

/-- The cursor in the state string of an account is its watermark. -/
lemma Feed.cursorFromState_dataState (f : Feed) :
    cursorFromState f.dataState = .ok f.maxUpdatedAt := by
  have h : fromUnix f.maxUpdatedAt = f.maxUpdatedAt := f.newestChangeAt_eq
  rw [dataState, h, cursorFromState_stateFor _ f.maxUpdatedAt_lt]

/-! ## `Email/changes` -/

inductive ChangeKind
  | created
  | updated
  | destroyed
  | omitted
deriving DecidableEq

/-- `classify`. -/
def classify (c : ChangeRow) (since : Nat) : ChangeKind :=
  let created := since = 0 ∨ since < c.createdAt.nanos
  if created ∧ c.destroyed then .omitted
  else if c.destroyed then .destroyed
  else if created then .created
  else .updated

def aheadOfAccount : MethodError :=
  ⟨.cannotCalculateChanges,
    "the given state is ahead of this account's data and was not issued for it; " ++
      "reload from Email/query and Email/get"⟩

/-- `checkCursorReachable`. -/
def checkCursorReachable (f : Feed) (since : Nat) : Except MethodError Unit :=
  if since = 0 then .ok ()
  else
    let newest := f.newestChangeAt
    if newest = 0 then .ok ()
    else if ¬ newest < since then .ok ()
    else .error aheadOfAccount

/-- The authenticated caller; `JMAPAccountID` is an `a` and the digits of the account. -/
structure Caller where
  accountID : String
  named : accountID ≠ ""

structure ChangesRequest where
  accountID : String
  sinceState : List Char
  maxChanges : Option Nat

structure ChangesResponse where
  accountID : String
  oldState : List Char
  newState : List Char
  hasMoreChanges : Bool
  created : List Nat
  updated : List Nat
  destroyed : List Nat
deriving DecidableEq

structure ChangeWindow where
  rows : List ChangeRow
  since : Nat
  newState : List Char
  hasMore : Bool

/-- How many rows a page may have. -/
def pageLimit : Option Nat → Nat
  | none => defaultChangesLimit
  | some m => min m maxChangesCeiling

/-- `parseChanges`, past the decoding of the arguments. -/
def parseChanges (caller : Caller) (req : ChangesRequest) : Except MethodError Unit :=
  if req.accountID = "" then .error ⟨.invalidArguments, "the accountId argument is required"⟩
  else if req.accountID ≠ caller.accountID then .error ⟨.accountNotFound, ""⟩
  else if req.sinceState = [] then
    .error ⟨.invalidArguments, "the sinceState argument is required"⟩
  else if req.maxChanges = some 0 then
    .error ⟨.invalidArguments, "maxChanges must be a positive integer greater than 0"⟩
  else .ok ()

/-- The contents that the queries of one call see, in the order in which they are made. -/
structure Reads where
  newest : Feed
  rows : Feed
  state : Feed

/-- `loadChangeWindow`. -/
def loadChangeWindow (db : Reads) (req : ChangesRequest) : Except MethodError ChangeWindow := do
  let since ← cursorFromState req.sinceState
  checkCursorReachable db.newest since
  let limit := pageLimit req.maxChanges
  let rows := db.rows.changedSinceRows since (limit + 1)
  if limit < rows.length then
    let rows := rows.take limit
    return ⟨rows, since, stateForCursor (rows.getLast?.elim 0 (·.updatedAt.nanos)), true⟩
  else
    return ⟨rows, since, db.state.dataState, false⟩

/-- The ids that `classify` puts into one list of the response. -/
def ChangeWindow.ids (w : ChangeWindow) (kind : ChangeKind) : List Nat :=
  (w.rows.filter fun c => classify c w.since = kind).map (·.messageID)

/-- `handleEmailChanges`. -/
def handleEmailChanges (caller : Caller) (db : Reads) (req : ChangesRequest) :
    Except MethodError ChangesResponse := do
  parseChanges caller req
  let window ← loadChangeWindow db req
  return ⟨req.accountID, req.sinceState, window.newState, window.hasMore,
    window.ids .created, window.ids .updated, window.ids .destroyed⟩

end Moov.Jmap
