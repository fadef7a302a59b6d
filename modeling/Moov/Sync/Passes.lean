import Moov.Lib.Run
import Moov.Sync.Incremental

/-!
# The passes over one mailbox, call by call

The recent phase and the backfill of the initial sync (`sync/phases.go`,
`sync/checkpoint.go`), the incremental pass (`sync/incremental.go`) and the
creation of a mailbox (`sync/write_mailbox.go`), cut at every call that leaves the
process: a statement of the store, a command to the server.  Between two calls of
a pass the server may change, another pass may run, and the process may die.

A `Mailbox` is the server's side, what the store has (the message rows, the cursor
and the backfill columns of the mailbox row, the checkpoint record) and the passes
under way.  A `Pass` is a pass at the call it is waiting for, with the variables it
needs from there on, and `Mailbox.advance` is what the answer makes of it.  The
messages of a FETCH arrive one by one (`Reply.read`) and are committed in batches
(`Reply.commit`), each of any composition; one whose row the database refuses even
without its content is skipped (`Reply.skip`).  A pass whose call fails is dropped,
and a statement whose confirmation is lost is the statement followed by that.
-/

namespace Moov.Sync

open Moov.Store Moov.Versioned Option

/-! ## Windows -/

/-- `windowSize`, with `DefaultFetchWindow` for a size that is not positive. -/
def windowSize (n : Int) : Nat :=
  if n ≤ 0 then 500 else if n > 4294967295 then 4294967295 else n.toNat

/-- `highestUID`: one below UIDNEXT, or the number of messages when the server did
not announce it. -/
def highestUID (sel : SelectResult) : Nat :=
  if 1 < sel.uidNext then sel.uidNext - 1 else sel.numMessages

/-- The lower end of the window that ends at `high`. -/
def windowLow (win : Int) (high : Nat) : Nat :=
  if windowSize win < high then high - windowSize win + 1 else 1

/-- `uidRange`. -/
def uidRange (low high : Nat) : List Nat :=
  if high < low then [] else List.range' low (high - low + 1)

/-- The message is dated before the cutoff; one without a date is not. -/
def older (cutoff : Nat) (m : ServerMessage) : Bool :=
  m.fixed.any fun d => decide (d < cutoff)

/-- The messages of a band of UIDs. -/
def band (srv : ServerMailbox) (low high : Nat) : List ServerMessage :=
  srv.messages.filter fun m => decide (low ≤ m.key) && decide (m.key ≤ high)

/-- `probeWindow`: the UIDs that are not dated before the cutoff, and whether a
message was. -/
def probeWindow (srv : ServerMailbox) (low high cutoff : Nat) : List Nat × Bool :=
  (((band srv low high).filter fun m => !older cutoff m).map Item.key,
    (band srv low high).any (older cutoff))

/-! ## The records of the initial sync -/

/-- The `backfill_state` column. -/
inductive BackfillState
  | pending
  | recentDone
  | inProgress
  | complete
  deriving DecidableEq

/-- `mailboxCheckpoint`. -/
structure Checkpoint where
  uidValidity : Nat
  uidLow : Nat
  recentDone : Bool
  complete : Bool
  deriving DecidableEq

/-- The checkpoint of a mailbox without progress. -/
def noProgress (uidValidity : Nat) : Checkpoint := ⟨uidValidity, 0, false, false⟩

/-- `loadMailboxCheckpoint`: a record that is missing, unreadable or of another
UIDVALIDITY is no progress. -/
def loadMailboxCheckpoint (stored : Option Checkpoint) (uidValidity : Nat) : Checkpoint :=
  match stored with
  | none => noProgress uidValidity
  | some cp => if cp.uidValidity ≠ uidValidity then noProgress uidValidity else cp

/-- `markComplete`: the record it saves. -/
def markComplete (cp : Checkpoint) : Checkpoint := { cp with complete := true, uidLow := 1 }

/-! ## The passes -/

/-- The two phases that begin with `selectMailbox`. -/
inductive Kind
  | recent (cutoff : Nat)
  | backfill
  deriving DecidableEq

/-- What `fetchAndStore` was called for. -/
inductive Work
  | recent (cp : Checkpoint) (uids : List Nat)
  | window (cp : Checkpoint) (low : Nat)
  | delta (sel : SelectResult)
  deriving DecidableEq

/-- A pass, at the call it is waiting for. -/
inductive Pass
  | select (k : Kind) (known : Nat)
  | record (k : Kind) (known : Nat) (sel : SelectResult)
  | load (k : Kind) (sel : SelectResult)
  | probe (cp : Checkpoint) (cutoff high : Nat) (found : List Nat)
  | mark (cp : Checkpoint) (high : Nat)
  | filter (uids : List Nat) (w : Work)
  | fetch (wanted : List Nat) (fetched : List (Nat × FlagState)) (w : Work)
  | save (cp : Checkpoint) (st : BackfillState)
  | progress (cp : Checkpoint) (st : BackfillState)
  | resume (row : Option Cursor)
  | changes (c : Cursor) (sel : SelectResult)
  | vanish (c : Cursor) (sel : SelectResult) (delta : MailboxDelta)
  | flags (c : Cursor) (sel : SelectResult) (delta : MailboxDelta)
  | advance (sel : SelectResult)
  | status
  | seed (c : Cursor)
  deriving DecidableEq

/-- The answer to the call a pass is waiting for. -/
inductive Reply
  | ok
  | vanished (van : Vanished)
  | read (uid : Nat)
  | commit (uids : List Nat) (id : Nat)
  | skip (uid : Nat)
  deriving DecidableEq

/-- No message is skipped. -/
def Reply.stores : Reply → Bool
  | .skip _ => false
  | _ => true

/-- One mailbox: the server, the store, and the passes under way. -/
structure Mailbox where
  server : ServerMailbox
  table : Table
  cursor : Option Cursor
  backfillState : BackfillState
  backfillUIDLow : Option Nat
  checkpoint : Option Checkpoint
  passes : List Pass

/-- A mailbox of the server that was discovered and never selected. -/
def Mailbox.discovered (srv : ServerMailbox) : Mailbox where
  server := srv
  table := Table.empty
  cursor := none
  backfillState := .pending
  backfillUIDLow := none
  checkpoint := none
  passes := []

/-- `InvalidateMailbox`, and the checkpoint that is saved with it. -/
def Mailbox.invalidate (mb : Mailbox) (cp : Checkpoint) : Mailbox :=
  { mb with
    table := Table.empty
    cursor := none
    backfillState := .pending
    backfillUIDLow := none
    checkpoint := some cp }

/-! ## What an answer makes of a pass -/

/-- Where a backfill resumes: below the watermark, or at the top. -/
def resumeHigh (cp : Checkpoint) (sel : SelectResult) : Nat :=
  if 0 < cp.uidLow ∧ cp.uidLow - 1 < highestUID sel then cp.uidLow - 1 else highestUID sel

/-- The window of the backfill that ends at `high`, or its end. -/
def nextWindow (win : Int) (cp : Checkpoint) (high : Nat) : Pass :=
  if high = 0 then .save (markComplete cp) .complete
  else .filter (uidRange (windowLow win high) high) (.window cp (windowLow win high))

/-- What a phase does with its checkpoint, once it is loaded. -/
def loaded (cp : Checkpoint) (sel : SelectResult) : Kind → Option Pass
  | .recent cutoff =>
      if sel.numMessages = 0 ∨ cp.recentDone then none
      else if highestUID sel = 0 then some (.filter [] (.recent cp []))
      else some (.probe cp cutoff (highestUID sel) [])
  | .backfill =>
      if cp.complete then none
      else if sel.numMessages = 0 then some (.save (markComplete cp) .complete)
      else some (.mark cp (resumeHigh cp sel))

/-- One turn of the loop of `recentUIDs`. -/
def probed (win : Int) (srv : ServerMailbox) (cp : Checkpoint) (cutoff high : Nat)
    (found : List Nat) : Pass :=
  let low := windowLow win high
  let (uids, reachedCutoff) := probeWindow srv low high cutoff
  if reachedCutoff ∨ low = 1 then .filter (uids ++ found) (.recent cp (uids ++ found))
  else .probe cp cutoff (low - 1) (uids ++ found)

/-- What follows when `fetchAndStore` is through. -/
def Work.stored : Work → Pass
  | .recent cp uids =>
      .save { cp with recentDone := true, uidLow := uids.headD cp.uidLow } .recentDone
  | .window cp low => .save { cp with uidLow := low } .inProgress
  | .delta sel => .advance sel

/-- What follows a `SetBackfillProgress`. -/
def recorded (win : Int) (cp : Checkpoint) : BackfillState → Option Pass
  | .inProgress => some (nextWindow win cp (cp.uidLow - 1))
  | _ => none

/-- The answer to the call a pass is waiting for: the mailbox after it, and the
pass at its next call, or none when the pass is over. -/
def Mailbox.advance (win : Int) (mb : Mailbox) : Pass → Reply → Option (Mailbox × Option Pass)
  | .select k known, .ok =>
      some (mb, some (.record k known (selectQResync mb.server known 0 ⟨[], [], []⟩)))
  | .record k known sel, .ok =>
      let mb' :=
        if known ≠ 0 ∧ sel.uidValidity ≠ known then mb.invalidate (noProgress sel.uidValidity)
        else mb
      some ({ mb' with cursor := some (setMailboxSyncState sel) }, some (.load k sel))
  | .load k sel, .ok =>
      some (mb, loaded (loadMailboxCheckpoint mb.checkpoint sel.uidValidity) sel k)
  | .probe cp cutoff high found, .ok => some (mb, some (probed win mb.server cp cutoff high found))
  | .mark cp high, .ok =>
      some ({ mb with backfillState := .inProgress }, some (nextWindow win cp high))
  | .filter uids w, .ok => some (mb, some (.fetch (filterStored mb.table uids) [] w))
  | .fetch wanted fetched w, .read u =>
      if u ∈ wanted then
        -- a UID that is gone by now comes back without a body and is skipped
        let copy := (mb.server.log.find u).map fun m => (u, sanitizeFlags m.value)
        some (mb, some (.fetch (wanted.filter (· ≠ u)) (fetched ++ copy.toList) w))
      else none
  | .fetch wanted fetched w, .commit uids id =>
      if mb.table.freshFrom id then
        let batch := fetched.filter fun p => uids.contains p.1
        let rest := fetched.filter fun p => !uids.contains p.1
        some ({ mb with table := mb.table.insertMessages id batch }, some (.fetch wanted rest w))
      else none
  | .fetch wanted fetched w, .skip u =>
      -- the end of `insertDegraded`: the stripped row is refused too, and the pass goes on
      some (mb, some (.fetch wanted (fetched.filter (·.1 ≠ u)) w))
  | .fetch wanted fetched w, .ok =>
      if wanted = [] ∧ fetched = [] then some (mb, some w.stored) else none
  | .save cp st, .ok => some ({ mb with checkpoint := some cp }, some (.progress cp st))
  | .progress cp st, .ok =>
      some ({ mb with backfillState := st, backfillUIDLow := some cp.uidLow }, recorded win cp st)
  | .resume row, .vanished van =>
      match row with
      | none => some (mb, none)
      | some c =>
          if c.uidValidity = 0 ∨ c.highestModSeq = 0 then some (mb, none)
          else if van.valid mb.server c.highestModSeq then
            let sel := selectQResync mb.server c.uidValidity c.highestModSeq van
            if sel.uidValidity ≠ c.uidValidity then
              some (mb.invalidate (noProgress 0), some (.select .backfill 0))
            else some (mb, some (.changes c sel))
          else none
  | .changes c sel, .vanished van =>
      if sparesMessages mb.server van.changes then
        some (mb, some (.vanish c sel (mailboxDelta mb.server sel c.highestModSeq van.changes)))
      else none
  | .vanish c sel delta, .ok =>
      some ({ mb with table := applyVanished delta.vanished mb.table }, some (.flags c sel delta))
  | .flags c sel delta, .ok =>
      some ({ mb with table := applyFlagChanges delta.changed mb.table },
        some (.filter (newUIDCandidates c.uidNext delta) (.delta sel)))
  | .advance sel, .ok => some ({ mb with cursor := some (setMailboxSyncState sel) }, none)
  | .status, .ok =>
      some (mb, some (.seed (setMailboxSyncState (selectQResync mb.server 0 0 ⟨[], [], []⟩))))
  | .seed c, .ok => some ({ mb with cursor := some c }, none)
  | _, _ => none

/-! ## Steps -/

/-- The passes that can be started. -/
inductive Start
  | initial (k : Kind)
  | incremental
  deriving DecidableEq

/-- A pass before its first call, with the mailbox row it was given. -/
def Start.pass (row : Option Cursor) : Start → Pass
  | .initial k => .select k (mailboxCursor row).1
  | .incremental => .resume row

/-- What can happen to a mailbox. -/
inductive Action
  | deliver (gap : Nat) (date : Option Nat) (st : FlagState)
  | setFlags (uid : Nat) (st : FlagState)
  | expunge (uid : Nat)
  | start (s : Start)
  | advance (i : Nat) (reply : Reply)
  | fail (i : Nat)
  | kill
  deriving DecidableEq

/-- No message is skipped. -/
def Action.stores : Action → Bool
  | .advance _ reply => reply.stores
  | _ => true

/-- The actions of the server. -/
def Action.serverSide : Action → Bool
  | .deliver _ _ _ => true
  | .setFlags _ _ => true
  | .expunge _ => true
  | _ => false

/-- The mailbox with its server side changed. -/
def Mailbox.serve (mb : Mailbox) (log : Source (Option Nat) FlagState) : Mailbox :=
  { mb with server := { mb.server with log := log } }

/-- The passes after the `i`th went on or ended. -/
def continueAt (passes : List Pass) (i : Nat) : Option Pass → List Pass
  | none => passes.eraseIdx i
  | some p => passes.set i p

/-- One step of a mailbox. -/
def Mailbox.step (win : Int) (mb : Mailbox) : Action → Option Mailbox
  | .deliver gap date st => some (mb.serve (mb.server.log.add gap date st))
  | .setFlags u st => if mb.server.log.mem u then
    some (mb.serve (mb.server.log.change u st))
  else none
  | .expunge u => if mb.server.log.mem u then some (mb.serve (mb.server.log.remove u)) else none
  | .start s => some { mb with passes := mb.passes ++ [s.pass mb.cursor] }
  | .advance i reply =>
      match mb.passes[i]? with
      | none => none
      | some p => (mb.advance win p reply).map fun r =>
          { r.1 with passes := continueAt r.1.passes i r.2 }
  | .fail i => if i < mb.passes.length then
    some { mb with passes := mb.passes.eraseIdx i }
  else none
  | .kill => some { mb with passes := [] }

/-! ## Everything a pass can do -/

/-- The moves of a pass that skips nothing: what it does to the mailbox, and where it
goes on. -/
inductive PassMove (win : Int) (mb : Mailbox) : Pass → Mailbox → Option Pass → Prop
  | select (k : Kind) (known : Nat) : PassMove win mb (.select k known) mb
        (some (.record k known (selectQResync mb.server known 0 ⟨[], [], []⟩)))
  | record (k : Kind) (known : Nat) (sel : SelectResult) (h : known = 0 ∨ sel.uidValidity = known) :
      PassMove win mb (.record k known sel)
        { mb with cursor := some (setMailboxSyncState sel) } (some (.load k sel))
  | invalidate (k : Kind) (known : Nat) (sel : SelectResult) (h₀ : known ≠ 0)
      (h : sel.uidValidity ≠ known) :
      PassMove win mb (.record k known sel)
        { mb.invalidate (noProgress sel.uidValidity) with cursor := some (setMailboxSyncState sel) }
        (some (.load k sel))
  | load (k : Kind) (sel : SelectResult) : PassMove win mb (.load k sel) mb
        (loaded (loadMailboxCheckpoint mb.checkpoint sel.uidValidity) sel k)
  | probe (cp : Checkpoint) (cutoff high : Nat) (found : List Nat) :
      PassMove win mb (.probe cp cutoff high found) mb
        (some (probed win mb.server cp cutoff high found))
  | mark (cp : Checkpoint) (high : Nat) :
      PassMove win mb (.mark cp high) { mb with backfillState := .inProgress }
        (some (nextWindow win cp high))
  | filter (uids : List Nat) (w : Work) :
      PassMove win mb (.filter uids w) mb (some (.fetch (filterStored mb.table uids) [] w))
  | gone (wanted : List Nat) (fetched : List (Nat × FlagState)) (w : Work) (u : Nat)
      (h : ∀ m ∈ mb.server.messages, m.key ≠ u) :
      PassMove win mb (.fetch wanted fetched w) mb (some (.fetch (wanted.filter (· ≠ u)) fetched w))
  | read (wanted : List Nat) (fetched : List (Nat × FlagState)) (w : Work) (m : ServerMessage)
      (h : m ∈ mb.server.messages) :
      PassMove win mb (.fetch wanted fetched w) mb
        (some (.fetch (wanted.filter (· ≠ m.key)) (fetched ++ [(m.key, sanitizeFlags m.value)]) w))
  | commit (wanted uids : List Nat) (fetched : List (Nat × FlagState)) (w : Work) (id : Nat)
      (h : mb.table.freshFrom id = true) :
      PassMove win mb (.fetch wanted fetched w)
        { mb with
          table := mb.table.insertMessages id (fetched.filter fun p => uids.contains p.1) }
        (some (.fetch wanted (fetched.filter fun p => !uids.contains p.1) w))
  | stored (w : Work) : PassMove win mb (.fetch [] [] w) mb (some w.stored)
  | save (cp : Checkpoint) (st : BackfillState) :
      PassMove win mb (.save cp st) { mb with checkpoint := some cp } (some (.progress cp st))
  | progress (cp : Checkpoint) (st : BackfillState) : PassMove win mb (.progress cp st)
        { mb with backfillState := st, backfillUIDLow := some cp.uidLow } (recorded win cp st)
  | noCursor (row : Option Cursor) (h : (mailboxCursor row).1 = 0 ∨ (mailboxCursor row).2 = 0) :
      PassMove win mb (.resume row) mb none
  | resync (c : Cursor) (h₀ : c.uidValidity ≠ 0) (h : mb.server.uidValidity ≠ c.uidValidity) :
      PassMove win mb (.resume (some c)) (mb.invalidate (noProgress 0)) (some (.select .backfill 0))
  | resume (c : Cursor) (van : Vanished) (h₀ : c.highestModSeq ≠ 0)
      (hv : van.valid mb.server c.highestModSeq = true) :
      PassMove win mb (.resume (some c)) mb
        (some (.changes c (selectQResync mb.server c.uidValidity c.highestModSeq van)))
  | changes (c : Cursor) (sel : SelectResult) (sets : List UIDSet)
      (h : sparesMessages mb.server sets = true) :
      PassMove win mb (.changes c sel) mb
        (some (.vanish c sel (mailboxDelta mb.server sel c.highestModSeq sets)))
  | vanish (c : Cursor) (sel : SelectResult) (delta : MailboxDelta) :
      PassMove win mb (.vanish c sel delta)
        { mb with table := applyVanished delta.vanished mb.table } (some (.flags c sel delta))
  | flags (c : Cursor) (sel : SelectResult) (delta : MailboxDelta) :
      PassMove win mb (.flags c sel delta)
        { mb with table := applyFlagChanges delta.changed mb.table }
        (some (.filter (newUIDCandidates c.uidNext delta) (.delta sel)))
  | advance (sel : SelectResult) :
      PassMove win mb (.advance sel) { mb with cursor := some (setMailboxSyncState sel) } none
  | status : PassMove win mb .status mb
        (some (.seed (setMailboxSyncState (selectQResync mb.server 0 0 ⟨[], [], []⟩))))
  | seed (c : Cursor) : PassMove win mb (.seed c) { mb with cursor := some c } none

variable {win : Int} {mb mb' : Mailbox} {p : Pass} {next : Option Pass} {reply : Reply}
  {passes : List Pass} {i : Nat}

lemma record_move {k : Kind} {known : Nat} {sel : SelectResult}
    (h : mb.advance win (.record k known sel) reply = some (mb', next)) :
    PassMove win mb (.record k known sel) mb' next := by
  cases reply with
  | ok =>
    obtain ⟨rfl, rfl⟩ := h
    split
    · next hc => exact .invalidate k known sel hc.1 hc.2
    · next hc =>
      refine .record k known sel ?_
      by_cases h₀ : known = 0
      · exact .inl h₀
      · exact .inr (by_contra fun hne => hc ⟨h₀, hne⟩)
  | _ => cases h

lemma fetch_move {wanted : List Nat} {fetched : List (Nat × FlagState)} {w : Work}
    (h : mb.advance win (.fetch wanted fetched w) reply = some (mb', next))
    (hs : reply.stores = true) : PassMove win mb (.fetch wanted fetched w) mb' next := by
  cases reply with
  | vanished => cases h
  | skip => cases hs
  | ok =>
    obtain ⟨hc, h⟩ := ite_none_right_eq_some.1 h
    obtain ⟨rfl, rfl⟩ := hc
    cases h
    exact .stored w
  | read u =>
    obtain ⟨-, h⟩ := ite_none_right_eq_some.1 h
    cases hf : mb.server.log.find u with
    | none =>
      simp only [hf, map_none, toList_none, List.append_nil] at h
      cases h
      exact .gone wanted fetched w u (Source.find_eq_none.1 hf)
    | some m =>
      obtain ⟨hm, rfl⟩ := Source.find_eq_some.1 hf
      simp only [hf, map_some, toList_some] at h
      cases h
      exact .read wanted fetched w m hm
  | commit uids id =>
    obtain ⟨hid, ⟨⟩⟩ := ite_none_right_eq_some.1 h
    exact .commit wanted uids fetched w id hid

lemma resume_move {row : Option Cursor}
    (h : mb.advance win (.resume row) reply = some (mb', next)) :
    PassMove win mb (.resume row) mb' next := by
  cases reply with
  | vanished van =>
    cases row with
    | none =>
      cases h
      exact .noCursor none (.inl rfl)
    | some c =>
      simp only [Mailbox.advance] at h
      split at h
      · next h₀ =>
        cases h
        exact .noCursor _ h₀
      · next h₀ =>
        rw [not_or] at h₀
        obtain ⟨hv, h⟩ := ite_none_right_eq_some.1 h
        split at h
        · next hne =>
          cases h
          exact .resync c h₀.1 hne
        · cases h
          exact .resume c van h₀.2 hv
  | _ => cases h

/-- What an answer does is one of the moves. -/
lemma advance_move (h : mb.advance win p reply = some (mb', next)) (hs : reply.stores = true) :
    PassMove win mb p mb' next := by
  cases p with
  | record => exact record_move h
  | fetch => exact fetch_move h hs
  | resume => exact resume_move h
  | changes c sel =>
    cases reply with
    | vanished van =>
      obtain ⟨hs, ⟨⟩⟩ := ite_none_right_eq_some.1 h
      exact .changes c sel van.changes hs
    | _ => cases h
  | _ =>
    cases reply with
    | ok =>
      cases h
      constructor
    | _ => cases h

lemma advance_skip {u : Nat} (h : mb.advance win p (.skip u) = some (mb', next)) : mb' = mb := by
  cases p <;> cases h
  rfl

/-- An answer is the business of one pass, and of the store. -/
lemma advance_keeps (h : mb.advance win p reply = some (mb', next)) :
    mb'.passes = mb.passes ∧ mb'.server = mb.server := by
  by_cases hs : reply.stores = true
  · cases advance_move h hs <;> exact ⟨rfl, rfl⟩
  · cases reply with
    | skip => rw [advance_skip h]; exact ⟨rfl, rfl⟩
    | _ => exact absurd rfl hs

lemma mem_continueAt {q : Pass}
    (h : q ∈ continueAt passes i next) : q ∈ passes ∨ next = some q := by
  cases next with
  | none => exact .inl (List.mem_of_mem_eraseIdx h)
  | some =>
    rcases List.mem_or_eq_of_mem_set h with h | rfl
    · exact .inl h
    · exact .inr rfl

/-- With at most one pass under way, a move replaces it. -/
lemma continueAt_single (hlen : passes.length ≤ 1)
    (hp : passes[i]? = some p) : continueAt passes i next = next.toList := by
  obtain ⟨hi, -⟩ := List.getElem?_eq_some_iff.1 hp
  obtain ⟨q, rfl⟩ : ∃ q, passes = [q] := List.length_eq_one_iff.1 (by omega)
  obtain rfl : i = 0 := by simpa using hi
  cases next <;> rfl

/-- Everything a step can do that skips nothing: the server moves on, a pass is started,
a pass makes a move, or passes are dropped. -/
inductive MailboxMove (win : Int) (mb : Mailbox) : Action → Mailbox → Prop
  | serve (a : Action) (log : Source (Option Nat) FlagState) (ha : a.serverSide = true)
      (hl : Source.Later mb.server.log log) : MailboxMove win mb a (mb.serve log)
  | start (s : Start) :
      MailboxMove win mb (.start s) { mb with passes := mb.passes ++ [s.pass mb.cursor] }
  | move (i : Nat) (reply : Reply) (p : Pass) (mb₁ : Mailbox) (next : Option Pass)
      (hp : mb.passes[i]? = some p) (hm : PassMove win mb p mb₁ next) :
      MailboxMove win mb (.advance i reply) { mb₁ with passes := continueAt mb.passes i next }
  | drop (a : Action) (passes : List Pass) (h : ∀ p ∈ passes, p ∈ mb.passes)
      (hlen : passes.length ≤ mb.passes.length) :
      MailboxMove win mb a { mb with passes := passes }

/-- An answer, as a step. -/
lemma step_advance (h : mb.step win (.advance i reply) = some mb') :
    ∃ p mb₁ next, mb.passes[i]? = some p ∧ mb.advance win p reply = some (mb₁, next) ∧
      mb' = { mb₁ with passes := continueAt mb.passes i next } := by
  simp only [Mailbox.step] at h
  split at h
  · cases h
  · next p hp =>
    obtain ⟨⟨mb₁, next⟩, hr, rfl⟩ := map_eq_some_iff.1 h
    refine ⟨p, mb₁, next, hp, hr, ?_⟩
    rw [(advance_keeps hr).1]

lemma step_move {a : Action} (h : mb.step win a = some mb') (hs : a.stores = true) :
    MailboxMove win mb a mb' := by
  cases a with
  | deliver gap date st =>
    cases h
    exact .serve _ _ rfl (Source.later_add gap date st)
  | setFlags u st =>
    obtain ⟨-, ⟨⟩⟩ := ite_none_right_eq_some.1 h
    exact .serve _ _ rfl (Source.later_change u st)
  | expunge u =>
    obtain ⟨-, ⟨⟩⟩ := ite_none_right_eq_some.1 h
    exact .serve _ _ rfl (Source.later_remove u)
  | start s =>
    cases h
    exact .start s
  | advance i reply =>
    obtain ⟨p, mb₁, next, hp, hr, rfl⟩ := step_advance h
    exact .move i reply p mb₁ next hp (advance_move hr hs)
  | fail =>
    obtain ⟨-, ⟨⟩⟩ := ite_none_right_eq_some.1 h
    exact .drop _ _ (fun p hp => List.mem_of_mem_eraseIdx hp) (List.length_eraseIdx_le _ _)
  | kill =>
    cases h
    exact .drop _ _ nofun (Nat.zero_le _)

end Moov.Sync
