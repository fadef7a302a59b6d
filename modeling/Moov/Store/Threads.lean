import Mathlib.Data.List.Dedup
import Moov.Lib.Run
import Moov.Store.Subject

/-!
# Threading

`AssignThreads` (`store/threads.go`) over the tables of one account: `messages` with
`thread_id`, `threads` with its two unique indexes (`migrations/0009`),
`thread_subject_keys` and `mutes`.  A call is one transaction: it takes effect as a whole
or, when one of its messages fails, not at all.

A write to `threads` that would break a unique index is an error, and a table that
breaks one cannot be built: `ThreadTable` carries both indexes.
-/

namespace Moov.Threads

/-! ## The tables -/

/-- The headers of a message that threading reads.  An absent one is the empty text, as
`nullIfEmpty` has it. -/
structure Headers where
  messageID : String
  inReplyTo : String
  references : List String
  subject : String
deriving DecidableEq

/-- `threadCandidate` (`sync/message.go`), and the same in `threadRootKey`. -/
def Headers.candidate (h : Headers) : ThreadCandidate where
  messageID := h.messageID
  references := if h.inReplyTo = "" then h.references else h.references ++ [h.inReplyTo]
  subject := h.subject

/-- The column test of `threadsReferencing`: the message names this Message-ID. -/
def Headers.namesID (h : Headers) (messageID : String) : Bool :=
  h.inReplyTo == messageID || h.references.contains messageID

/-- A row of `messages`, with the `updated_at` of its `message_state`. -/
structure Message where
  id : Nat
  head : Headers
  date : Int
  threadID : Nat
  stateAt : Int
deriving DecidableEq

/-- The order by date and id. -/
def Message.notAfter (m q : Message) : Bool :=
  decide (m.date < q.date) || (decide (m.date = q.date) && decide (m.id ≤ q.id))

/-- `ORDER BY date, id LIMIT 1`. -/
def oldest : List Message → Option Message
  | [] => none
  | m :: ms =>
      match oldest ms with
      | none => some m
      | some q => some (if m.notAfter q then m else q)

/-- A row of `threads`.  The tombstone is `merged_into` with `destroyed_at`, which the
table has only together. -/
structure ThreadRow where
  id : Nat
  rootMessageID : String
  threadID : Nat
  tombstone : Option (Nat × Int)
  createdAt : Int
  updatedAt : Int
deriving DecidableEq

namespace ThreadRow

def live (r : ThreadRow) : Bool := r.tombstone.isNone

/-- Two rows that cannot both be there: `threads_account_root` and, for live rows,
`threads_account_thread_live`. -/
def clashes (r q : ThreadRow) : Bool :=
  r.rootMessageID == q.rootMessageID || (r.live && q.live && r.threadID == q.threadID)

end ThreadRow

/-- The table `threads`, with its primary key and its unique indexes. -/
structure ThreadTable where
  rows : List ThreadRow
  unique : rows.Pairwise fun r q => r.id ≠ q.id ∧ r.clashes q = false

namespace ThreadTable

def empty : ThreadTable := ⟨[], .nil⟩

/-- `WHERE root_message_id = key`. -/
def byKey (t : ThreadTable) (key : String) : Option ThreadRow :=
  t.rows.find? fun r => r.rootMessageID == key

/-- `WHERE thread_id = id AND destroyed_at IS NULL`. -/
def byThread (t : ThreadTable) (threadID : Nat) : Option ThreadRow :=
  t.rows.find? fun r => r.live && r.threadID == threadID

/-- `WHERE id = id`. -/
def byID (t : ThreadTable) (id : Nat) : Option ThreadRow := t.rows.find? fun r => r.id == id

/-- `INSERT`, unless an index forbids it. -/
def insert (t : ThreadTable) (r : ThreadRow) : Option ThreadTable :=
  if h : ∀ q ∈ t.rows, q.id ≠ r.id ∧ q.clashes r = false then
    some ⟨t.rows ++ [r], List.pairwise_append.2 ⟨t.unique, List.pairwise_singleton _ _,
      fun q hq _ hr => List.mem_singleton.1 hr ▸ h q hq⟩⟩
  else none

lemma clashes_comm (r q : ThreadRow) : r.clashes q = q.clashes r := by
  unfold ThreadRow.clashes
  rw [BEq.comm, Bool.and_comm r.live, BEq.comm (a := r.threadID)]

lemma unique_update {t : ThreadTable} {r : ThreadRow}
    (h : ∀ q ∈ t.rows, q.id ≠ r.id → q.clashes r = false) :
    (t.rows.map fun q => if q.id = r.id then r else q).Pairwise
      fun r q => r.id ≠ q.id ∧ r.clashes q = false := by
  rw [List.pairwise_map]
  refine t.unique.imp_of_mem fun {a b} ha hb hab => ?_
  by_cases hra : a.id = r.id <;> by_cases hrb : b.id = r.id
  · exact absurd (hra.trans hrb.symm) hab.1
  · rw [if_pos hra, if_neg hrb, clashes_comm]
    exact ⟨fun he => hrb he.symm, h b hb hrb⟩
  · rw [if_neg hra, if_pos hrb]
    exact ⟨hra, h a ha hra⟩
  · rw [if_neg hra, if_neg hrb]
    exact hab

/-- `UPDATE` of the row with the id of `r`, unless an index forbids it. -/
def update (t : ThreadTable) (r : ThreadRow) : Option ThreadTable :=
  if h : ∀ q ∈ t.rows, q.id ≠ r.id → q.clashes r = false then
    some ⟨t.rows.map fun q => if q.id = r.id then r else q, unique_update h⟩
  else none

end ThreadTable

/-- A row of `thread_subject_keys`. -/
structure SubjectHint where
  key : String
  threadID : Nat
  lastSeen : Int
deriving DecidableEq

/-- The tables of an account.  `rowSeq` is the next value of the sequence of `threads`,
and `mutes` holds ids of thread rows. -/
structure Db where
  messages : List Message
  threads : ThreadTable
  rowSeq : Nat
  subjects : List SubjectHint
  mutes : List Nat

def Db.empty : Db := ⟨[], .empty, 1, [], []⟩

inductive ThreadError
  | notFound | uniqueViolation | youngerWinner | selfMerge
deriving DecidableEq

/-! ## The graph queries -/

def threadLookupLimit : Nat := 64

def threadMergeMaxMembers : Nat := 1000

/-- Thirty days, in seconds. -/
def threadSubjectWindow : Int := 30 * 24 * 3600

/-- What a query with `LIMIT threadLookupLimit` returns of the rows it finds: all of them
when they are within the limit, and else whichever the planner comes to first. -/
structure Limit where
  pick : List Nat → List Nat
  mem_of_mem : ∀ l, ∀ t ∈ pick l, t ∈ l
  all : ∀ l, l.length ≤ threadLookupLimit → ∀ t ∈ l, t ∈ pick l

/-- The rows in the order of the table. -/
def Limit.first : Limit where
  pick l := l.take threadLookupLimit
  mem_of_mem l _ ht := List.mem_of_mem_take ht
  all l hl _ ht := by rwa [List.take_of_length_le hl]

namespace Db

variable (txt : Texts) (now : Int) (s : Db)

/-- `SELECT DISTINCT thread_id` of the messages that pass the test. -/
def threadsWhere (p : Headers → Bool) : List Nat :=
  ((s.messages.filter fun m => p m.head).map Message.threadID).dedup

/-- `threadsOfMessageIDs`, before its limit. -/
def threadsOfMessageIDs (messageIDs : List String) : List Nat :=
  s.threadsWhere fun h => h.messageID ∈ messageIDs

/-- `threadsReferencing`, before its limit. -/
def threadsReferencing (messageID : String) : List Nat :=
  s.threadsWhere fun h => h.namesID messageID

/-- `threadBySubjectKey`. -/
def threadBySubjectKey (key : String) : Option Nat :=
  (s.subjects.find? fun h => h.key == key && decide (now - threadSubjectWindow < h.lastSeen)).map
    SubjectHint.threadID

/-- Steps 1 and 2 of `assignOne`. -/
def graphThreads (limit : Limit) (c : ThreadCandidate) : List Nat :=
  (limit.pick (s.threadsOfMessageIDs c.referenceSet) ++
    if c.messageID = "" then [] else limit.pick (s.threadsReferencing c.messageID)).dedup

/-- Steps 1 to 3 of `assignOne`: the threads that the message belongs to. -/
def relatedThreads (limit : Limit) (c : ThreadCandidate) : List Nat :=
  match s.graphThreads limit c with
  | [] =>
      let (key, isReply) := normalizeSubject txt c.subject
      if isReply ∧ key ≠ "" then (s.threadBySubjectKey now key).toList else []
  | ts => ts

/-! ## The writes -/

/-- The messages of a thread. -/
def members (threadID : Nat) : List Message := s.messages.filter fun m => m.threadID == threadID

/-- `recordSubjectKey`: the thread of a key only moves down. -/
def recordSubjectKey (key : String) (threadID : Nat) : Db :=
  { s with
    subjects :=
      if s.subjects.any fun h => h.key == key then
        s.subjects.map fun h =>
          if h.key = key then { h with threadID := min h.threadID threadID, lastSeen := now } else h
      else s.subjects ++ [⟨key, threadID, now⟩] }

/-- The three updates of `mergeThread`.  The state cursors that advance are those of every
message that carries the winner afterwards. -/
def moveMembers (loser winner : Nat) : Db :=
  { s with
    messages := s.messages.map fun m =>
      if m.threadID = loser ∨ m.threadID = winner then
        { m with threadID := winner, stateAt := now }
      else m
    subjects := s.subjects.map fun h =>
      if h.threadID = loser then { h with threadID := winner } else h }

/-- `mergeThread`, with the number of messages that moved. -/
def mergeThread (loser winner : Nat) : Except ThreadError (Db × Nat) :=
  if loser ≤ winner then .error .youngerWinner
  else
    let count := (s.members loser).length
    if count = 0 ∨ threadMergeMaxMembers < count then .ok (s, 0)
    else .ok (s.moveMembers now loser winner, count)

/-- The loop of `assignOne` over the other threads, with `MergedFrom`. -/
def mergeThreads (winner : Nat) : Db → List Nat → Except ThreadError (Db × List Nat)
  | s, [] => .ok (s, [])
  | s, t :: ts =>
      if t = winner then mergeThreads winner s ts
      else do
        let (s, moved) ← s.mergeThread now t winner
        let (s, mergedFrom) ← mergeThreads winner s ts
        return (s, if moved = 0 then mergedFrom else t :: mergedFrom)

/-- `UPDATE messages SET thread_id = winner WHERE id = id`, which is skipped for the
message's own id. -/
def joinThread (id winner : Nat) : Db :=
  if winner = id then s
  else
    { s with
      messages := s.messages.map fun m => if m.id = id then { m with threadID := winner } else m }

/-! ## The thread rows -/

/-- A write to `threads`, or the violation that it is. -/
def writeThreads (t : Option ThreadTable) : Except ThreadError Db :=
  match t with
  | none => .error .uniqueViolation
  | some t => .ok { s with threads := t }

/-- `threadRootKey`. -/
def threadRootKey (threadID : Nat) : Except ThreadError String :=
  match oldest (s.members threadID) with
  | none => .error .notFound
  | some m => .ok (threadKey txt m.head.candidate)

/-- `EnsureThread`.  The conflict clause keeps the row as it is when its thread is the
one that is wanted; it does not look at the tombstone. -/
def ensureThread (key : String) (threadID : Nat) : Except ThreadError (Db × ThreadRow) :=
  match s.threads.byKey key with
  | none => do
      let row : ThreadRow := ⟨s.rowSeq, key, threadID, none, now, now⟩
      let s ← s.writeThreads (s.threads.insert row)
      return ({ s with rowSeq := s.rowSeq + 1 }, row)
  | some r =>
      if r.threadID = threadID then .ok (s, r)
      else do
        let row := { r with threadID := threadID, updatedAt := now }
        let s ← s.writeThreads (s.threads.update row)
        return (s, row)

/-- `TombstoneThread`. -/
def tombstoneThread (loserID winnerID : Nat) : Except ThreadError Db :=
  if loserID = winnerID then .error .selfMerge
  else
    match s.threads.byID loserID with
    | none => .ok s
    | some r =>
        match r.tombstone with
        | none =>
            s.writeThreads
              (s.threads.update { r with tombstone := some (winnerID, now), updatedAt := now })
        | some (mergedInto, destroyedAt) =>
            if mergedInto = winnerID then .ok s
            else
              s.writeThreads (s.threads.update
                { r with tombstone := some (winnerID, destroyedAt), updatedAt := now })

/-- `ensureThreadForWinner`.  When another row has the new key, the older of the two rows
is given the thread and the key before the other one is tombstoned. -/
def ensureThreadForWinner (key : String) (winner : Nat) : Except ThreadError (Db × ThreadRow) :=
  match s.threads.byThread winner with
  | none => s.ensureThread now key winner
  | some existing =>
      if existing.rootMessageID = key then do
        let row := { existing with updatedAt := now }
        let s ← s.writeThreads (s.threads.update row)
        return (s, row)
      else
        match s.threads.byKey key with
        | none => do
            let row := { existing with rootMessageID := key, updatedAt := now }
            let s ← s.writeThreads (s.threads.update row)
            return (s, row)
        | some other => do
            let (winnerRow, loserRow) :=
              if existing.id < other.id then (existing, other) else (other, existing)
            let row :=
              { winnerRow with threadID := winner, rootMessageID := key, updatedAt := now }
            let s ← s.writeThreads (s.threads.update row)
            let s ← s.tombstoneThread now loserRow.id row.id
            return (s, row)

/-- The loop of `ensureThreadRow` over the threads that were absorbed. -/
def tombstoneLosers (row : ThreadRow) : Db → List Nat → Except ThreadError Db
  | s, [] => .ok s
  | s, loser :: losers =>
      match s.threads.byThread loser with
      | none => tombstoneLosers row s losers
      | some r =>
          if r.id = row.id then tombstoneLosers row s losers
          else do
            let s ← s.tombstoneThread now r.id row.id
            tombstoneLosers row s losers

/-- `ensureThreadRow`. -/
def ensureThreadRow (winner : Nat) (mergedFrom : List Nat) : Except ThreadError Db := do
  let key ← s.threadRootKey txt winner
  let (s, row) ← s.ensureThreadForWinner now key winner
  tombstoneLosers now row s mergedFrom

/-! ## `AssignThreads` -/

/-- Step 4 of `assignOne`: the smallest id. -/
def winnerOf (id : Nat) (related : List Nat) : Nat := related.foldl min id

/-- `assignOne`. -/
def assignOne (limit : Limit) (id : Nat) (c : ThreadCandidate) : Except ThreadError Db := do
  let related := s.relatedThreads txt now limit c
  let winner := winnerOf id related
  let s := s.joinThread id winner
  let (s, mergedFrom) ← mergeThreads now winner s related
  let key := (normalizeSubject txt c.subject).1
  let s := if key = "" then s else s.recordSubjectKey now key winner
  s.ensureThreadRow txt now winner mergedFrom

end Db

/-- A message of a call, with what its two graph queries come to first. -/
structure Call where
  id : Nat
  candidate : ThreadCandidate
  limit : Limit

/-- The transaction of `AssignThreads`.  A zero id is a message that `InsertMessages`
skipped. -/
def Db.assignThreads (txt : Texts) (now : Int) : Db → List Call → Except ThreadError Db
  | s, [] => .ok s
  | s, call :: calls =>
      if call.id = 0 then assignThreads txt now s calls
      else do
        let s ← s.assignOne txt now call.limit call.id call.candidate
        assignThreads txt now s calls

/-! ## Mutes -/

namespace Db

variable (s : Db)

/-- `SetMute`.  The foreign key refuses a row that does not exist. -/
def setMute (rowID : Nat) (muted : Bool) : Db :=
  if muted then
    if (s.threads.byID rowID).isSome ∧ rowID ∉ s.mutes then { s with mutes := s.mutes ++ [rowID] }
    else s
  else { s with mutes := s.mutes.filter fun r => r ≠ rowID }

/-- `IsThreadMuted`. -/
def isThreadMuted (threadID : Nat) : Bool :=
  s.mutes.any fun id =>
    s.threads.rows.any fun r => r.id == id && r.threadID == threadID && r.live

/-- `ThreadRowsByThreadIDs`. -/
def threadRowsByThreadIDs (threadIDs : List Nat) : List ThreadRow :=
  s.threads.rows.filter fun r => threadIDs.contains r.threadID && r.live

/-- `MutedThreadRows`. -/
def mutedThreadRows (rowIDs : List Nat) : List Nat := s.mutes.filter fun id => rowIDs.contains id

/-- `mutedAmong` (`sync/mute.go`): what the archiver looks up for a batch. -/
def mutedAmong (threadIDs : List Nat) : List Nat :=
  let rows := s.threadRowsByThreadIDs (threadIDs.filter fun id => id ≠ 0)
  let muted := s.mutedThreadRows (rows.map ThreadRow.id)
  (rows.filter fun r => muted.contains r.id).map ThreadRow.threadID

end Db

/-! ## The account -/

/-- An account.  `pending` are the messages that were inserted and that no call of
`AssignThreads` has threaded. -/
structure Account where
  db : Db
  pending : List Nat

def Account.empty : Account := ⟨.empty, []⟩

/-- A message as it arrives, with the id that its row is given. -/
structure Arrival where
  id : Nat
  head : Headers
  date : Int
deriving DecidableEq

inductive Action
  /-- `InsertMessages`. -/
  | insert (now : Int) (batch : List Arrival)
  /-- `AssignThreads`. -/
  | assign (now : Int) (calls : List Call)
  /-- `SetMute`. -/
  | setMute (rowID : Nat) (muted : Bool)

namespace Account

variable (txt : Texts) (s : Account)

/-- The row of a message that arrives: it is its own thread (`moov_thread_id_default`). -/
def row (now : Int) (a : Arrival) : Message := ⟨a.id, a.head, a.date, a.id, now⟩

/-- The ids of the batch are new ones. -/
def fresh (batch : List Arrival) : Bool :=
  decide (batch.map Arrival.id).Nodup &&
    batch.all fun a => decide (a.id ≠ 0) && s.db.messages.all fun m => decide (m.id ≠ a.id)

/-- A call is made with messages that were inserted and are still to be threaded, each with
the headers that its row has. -/
def callable (calls : List Call) : Bool :=
  decide (((calls.map Call.id).filter fun id => id ≠ 0).Nodup) &&
    calls.all fun call => decide (call.id = 0) || (s.pending.contains call.id &&
      s.db.messages.any fun m => decide (m.id = call.id) &&
      decide (m.head.candidate = call.candidate))

def step : Action → Option Account
  | .insert now batch =>
      if s.fresh batch then
        some
          { db := { s.db with messages := s.db.messages ++ batch.map (row now) }
            pending := s.pending ++ batch.map Arrival.id }
      else none
  | .assign now calls =>
      if s.callable calls then
        match s.db.assignThreads txt now calls with
        | .ok db => some ⟨db, s.pending.filter fun id => id ∉ calls.map Call.id⟩
        -- `Syncer.assignThreads` logs the error: the batch stays as it was inserted.
        | .error _ => some s
      else none
  | .setMute rowID muted => some { s with db := s.db.setMute rowID muted }

end Account

end Moov.Threads
