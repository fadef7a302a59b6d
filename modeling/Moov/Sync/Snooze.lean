import Mathlib.Data.List.MinMax
import Moov.Lib.Run

/-!
# Snoozing and waking

`ApplySnooze` and `ApplyUnsnooze` (`sync/snooze.go`) and the waker
(`sync/waker.go`) cut at their calls to the IMAP server and to the store.  Any
number of them are under way at once, and each may be cut off by a crash.

A message sleeps in the folder "Snoozed".  It is put there by a MOVE and comes back
by an APPEND of its bytes to the folder it came from, after which the sleeping copy
is expunged.  The row that says when to wake it (`store/snooze.go`) is keyed by the
Message-ID, which several messages may share.

The server's copies of messages and the rows of the store are kept side by side: a
`Copy` is one message in one folder, together with the row that stands for it once
there is one.  `message` says which delivered message its bytes are.

The lock of the account's connection is left out, so more interleavings are possible
here than in the program; so are the passes of the syncer.
-/

namespace Moov.Snooze

open List

/-! ## The account -/

/-- A folder that is not the one named "Snoozed".  For a `respelled` one the name is
the same up to case, which `wakeMessage` takes for it. -/
structure Place where
  name : Nat
  respelled : Bool
deriving DecidableEq

/-- The empty origin of a snooze row. -/
def Place.inbox : Place := ⟨0, false⟩

inductive Folder
  | snoozed
  | place (p : Place)
deriving DecidableEq

/-- `strings.EqualFold(name, SnoozeMailboxName)`. -/
def Folder.isSnoozed : Folder → Bool
  | .snoozed => true
  | .place p => p.respelled

/-- The row of a copy: `messages.id`, and `mailbox_id` and `deleted_at` of its state. -/
structure Row where
  id : Nat
  folder : Folder
  deleted : Bool
deriving DecidableEq

/-- One copy of a message on the server.  `asleep` is not in the program: it says that
a snooze of this copy has succeeded and no wake of it since. -/
structure Copy where
  message : Nat
  rfcID : Option Nat
  present : Bool
  folder : Folder
  row : Option Row
  asleep : Bool
deriving DecidableEq

/-- The states of a snooze row; `deleted` is that there is no row any more. -/
inductive SnoozeState
  | pending | woken | failed | deleted
deriving DecidableEq

/-- A row of `snoozes`.  Its id is its position. -/
structure SnoozeRow where
  rfcID : Nat
  wakeAt : Nat
  origin : Place
  state : SnoozeState
  attempts : Nat
deriving DecidableEq

/-- Who wakes: a user, or the waker for a row it has claimed. -/
inductive Caller
  | user
  | waker (snooze : Nat) (origin : Place) (attempts : Nat)
deriving DecidableEq

/-- The next call of an operation on the copy `c`. -/
inductive Stage
  | locate (c : Nat) (origin : Place) (wakeAt : Nat)
  | move (c : Nat) (source : Folder) (origin : Place) (wakeAt : Nat)
  | unmapped (c : Nat) (source : Folder) (origin : Place) (wakeAt : Nat)
  | follow (c : Nat) (origin : Place) (wakeAt : Nat)
  | put (c : Nat) (origin : Place) (wakeAt : Nat)
  | readSnooze (c : Nat)
  | resolve
  | target (c : Nat) (origin : Place)
  | append (c : Nat) (source : Folder) (target : Place)
  | reflect (c : Nat) (source : Folder) (appended : Nat)
  | expunge (c : Nat) (source : Folder) (appended : Nat)
  | tombstone (c : Nat) (source : Folder) (appended : Nat)
  | close
  | retry
  | done
deriving DecidableEq

/-- An operation under way on a message with this Message-ID. -/
structure Op where
  rfcID : Option Nat
  caller : Caller
  stage : Stage
deriving DecidableEq

structure Account where
  copies : List Copy
  snoozes : List SnoozeRow
  nextID : Nat
  ops : List Op
deriving DecidableEq

/-- An account without mail. -/
def Account.new : Account := ⟨[], [], 1, []⟩

/-- The answer to a call.  `moved` says whether the MOVE came with a usable COPYUID,
`inbox` that the origin folder is gone; `lost` is a call that the server carried out
and whose answer did not arrive. -/
inductive Reply
  | ok
  | moved (mapped : Bool)
  | inbox
  | now (t : Nat)
  | refused
  | lost
deriving DecidableEq

/-! ## What the calls do -/

namespace Account

variable (s : Account) (c n : Nat)

/-- A change of one copy. -/
def onCopy (f : Copy → Copy) : Account := { s with copies := s.copies.modify c f }

/-- The row of a copy when it is live. -/
def liveRow : Option Row :=
  (s.copies[c]?).bind fun k => k.row.bind fun r => if r.deleted then none else some r

/-- The server has the copy in this folder. -/
def holds (f : Folder) : Bool :=
  (s.copies[c]?).any fun k => k.present && decide (k.folder = f)

/-- `MOVE` to Snoozed, by the UID the copy has in the source folder. -/
def serverMove (source : Folder) : Account :=
  if s.holds c source then s.onCopy c fun k => { k with folder := .snoozed } else s

/-- `UID EXPUNGE` of the copy in this folder. -/
def serverExpunge (source : Folder) : Account :=
  if s.holds c source then s.onCopy c fun k => { k with present := false } else s

/-- `APPEND` of the bytes of the copy. -/
def serverAppend (target : Place) : Account :=
  match s.copies[c]? with
  | none => s
  | some k => { s with
      copies := s.copies ++ [⟨k.message, k.rfcID, true, .place target, none, false⟩] }

/-- `MarkDeleted`, by mailbox and UID. -/
def markDeleted (source : Folder) : Account :=
  s.onCopy c fun k =>
    { k with row := k.row.map fun r => if r.folder = source then { r with deleted := true } else r }

/-- `MoveMessages` to Snoozed. -/
def moveMessages : Account :=
  s.onCopy c fun k => { k with row := k.row.map fun r => { r with folder := .snoozed } }

/-- `InsertMessages` for the appended copy. -/
def insertMessage : Account :=
  { s.onCopy n fun k => { k with row := some ⟨s.nextID, k.folder, false⟩ } with
    nextID := s.nextID + 1 }

/-- The pending row of a Message-ID, of which the index allows one. -/
def pendingSnooze (x : Nat) : Option Nat :=
  s.snoozes.findIdx? fun r => decide (r.rfcID = x ∧ r.state = .pending)

/-- `PutSnooze`: the pending row of the Message-ID is written over. -/
def putSnooze (x wakeAt : Nat) (origin : Place) : Account :=
  match s.pendingSnooze x with
  | none => { s with snoozes := s.snoozes ++ [⟨x, wakeAt, origin, .pending, 0⟩] }
  | some i => { s with
      snoozes := s.snoozes.modify i fun r =>
        { r with wakeAt := wakeAt, origin := origin, attempts := 0 } }

/-- `CancelSnooze`. -/
def cancelSnooze (x : Option Nat) : Account :=
  { s with
    snoozes := s.snoozes.map fun r =>
      if some r.rfcID = x ∧ r.state = .pending then { r with state := .deleted } else r }

/-- An `UPDATE … WHERE id = $1 AND state = 'pending'`. -/
def updatePending (i : Nat) (f : SnoozeRow → SnoozeRow) : Account :=
  { s with snoozes := s.snoozes.modify i fun r => if r.state = .pending then f r else r }

/-- `MarkSnoozeWoken`. -/
def markSnoozeWoken (i : Nat) : Account :=
  s.updatePending i fun r => { r with state := .woken }

def maxWakeAttempts : Nat := 5

/-- In seconds. -/
def wakeRetryDelay : Nat := 5 * 60

/-- `fail` of the waker and `FailSnooze`. -/
def failSnooze (i attempts now : Nat) : Account :=
  s.updatePending i fun r =>
    if maxWakeAttempts ≤ attempts + 1 then
      { r with state := .failed, attempts := r.attempts + 1 }
    else { r with wakeAt := now + wakeRetryDelay, attempts := r.attempts + 1 }

/-- A live row in Snoozed with this Message-ID. -/
def sleeper (x : Option Nat) (c : Nat) : Bool :=
  (s.copies[c]?).any fun k => decide (k.rfcID = x) &&
    (k.row.any fun r => !r.deleted && decide (r.folder = .snoozed))

/-- `MessageIDInMailbox` for the Snoozed folder: the newest of the live rows. -/
def messageIDInSnoozed (x : Option Nat) : Option Nat :=
  ((List.range s.copies.length).filter (s.sleeper x)).argmax fun c =>
    ((s.liveRow c).map Row.id).getD 0

/-- `SnoozesByMessageIDs` for one message. -/
def originOf (x : Option Nat) : Place :=
  match x.bind s.pendingSnooze with
  | none => .inbox
  | some i => ((s.snoozes[i]?).map SnoozeRow.origin).getD .inbox

end Account

/-! ## The calls in order -/

/-- Where an operation goes when its wake has failed: the waker records it. -/
def Caller.failed : Caller → Stage
  | .user => .done
  | .waker _ _ _ => .retry

/-- The folder a wake returns to: that of the claimed row, and for the user that of
the pending one. -/
def Caller.origin (inTable : Place) : Caller → Place
  | .user => inTable
  | .waker _ o _ => o

/-- The last statement of a wake: `CancelSnooze` or `MarkSnoozeWoken`. -/
def Account.closeSnooze (s : Account) (x : Option Nat) : Caller → Account
  | .user => s.cancelSnooze x
  | .waker i _ _ => s.markSnoozeWoken i

/-- The answer to the next call of an operation, and the call after that. -/
def Account.advance (s : Account) (x : Option Nat) (caller : Caller) :
    Stage → Reply → Option (Account × Stage)
  -- `ApplyMove` reads the row again
  | .locate c o t, .ok =>
      match s.liveRow c with
      | none => some (s, .done)
      | some r =>
          if r.folder = .snoozed then some (s, .put c o t) else some (s, .move c r.folder o t)
  -- a MOVE that finds nothing there is answered without a COPYUID
  | .move c f o t, .moved mapped =>
      some (s.serverMove c f, if s.holds c f && mapped then .follow c o t else .unmapped c f o t)
  | .move c f o t, .lost => some (s.serverMove c f, .move c f o t)
  | .unmapped c f o t, .ok => some (s.markDeleted c f, .put c o t)
  | .follow c o t, .ok => some (s.moveMessages c, .put c o t)
  | .put c o t, .ok =>
      some (match x with
        | none => s
        | some y => (s.putSnooze y t o).onCopy c fun k => { k with asleep := true }, .done)
  | .readSnooze c, .ok => some (s, .target c (s.originOf x))
  | .resolve, .ok =>
      match s.messageIDInSnoozed x with
      -- the message was moved out by hand: the row is retired
      | none => some (s, .close)
      | some c => some (s, .target c (caller.origin .inbox))
  | .target c o, .ok =>
      match s.liveRow c with
      | none => some (s, caller.failed)
      | some r =>
          if r.folder.isSnoozed then some (s, .append c r.folder o) else some (s, caller.failed)
  | .target c _, .inbox =>
      match s.liveRow c with
      | none => some (s, caller.failed)
      | some r =>
          if r.folder.isSnoozed then some (s, .append c r.folder .inbox)
          else some (s, caller.failed)
  | .append c f p, .ok => some (s.serverAppend c p, .reflect c f s.copies.length)
  | .append c f p, .lost => some (s.serverAppend c p, .append c f p)
  | .reflect c f n, .ok =>
      some ((s.insertMessage n).onCopy c fun k => { k with asleep := false }, .expunge c f n)
  | .expunge c f n, .ok => some (s.serverExpunge c f, .tombstone c f n)
  | .expunge c f n, .lost => some (s.serverExpunge c f, .expunge c f n)
  | .tombstone c f _, .ok => some (s.markDeleted c f, .close)
  -- that the sleeping copy could not be removed is only logged
  | .expunge _ _ _, .refused | .tombstone _ _ _, .refused => some (s, .close)
  | .close, .ok => some (s.closeSnooze x caller, .done)
  | .retry, .now t =>
      match caller with
      | .user => none
      | .waker i _ attempts => some (s.failSnooze i attempts t, .done)
  | .resolve, .refused | .target _ _, .refused | .append _ _ _, .refused
  | .reflect _ _ _, .refused => some (s, caller.failed)
  | .locate _ _ _, .refused | .move _ _ _ _, .refused | .unmapped _ _ _ _, .refused
  | .follow _ _ _, .refused | .put _ _ _, .refused | .readSnooze _, .refused
  | .close, .refused | .retry, .refused => some (s, .done)
  | _, _ => none

/-- What can happen. -/
inductive Action
  | deliver (rfcID : Option Nat) (p : Place)
  | snooze (c wakeAt : Nat)
  | unsnooze (c : Nat)
  | claim (snooze now : Nat)
  | advance (i : Nat) (reply : Reply)
  | crash (i : Nat)
deriving DecidableEq

def Account.startOp (s : Account) (op : Op) : Account := { s with ops := s.ops ++ [op] }

def Account.setStage (s : Account) (i : Nat) (st : Stage) : Account :=
  { s with ops := s.ops.modify i fun op => { op with stage := st } }

/-- One step.  An operation that is refused before its first write leaves everything
as it is. -/
def Account.step (s : Account) : Action → Option Account
  | .deliver x p =>
      some { s with
        copies := s.copies ++
          [⟨s.copies.length, x, true, .place p, some ⟨s.nextID, .place p, false⟩, false⟩]
        nextID := s.nextID + 1 }
  | .snooze c t =>
      match s.copies[c]?, s.liveRow c with
      | some k, some r =>
          match k.rfcID, r.folder with
          | some x, .place p => some (s.startOp ⟨some x, .user, .locate c p t⟩)
          | _, _ => some s
      | _, _ => some s
  | .unsnooze c =>
      match s.copies[c]? with
      | none => some s
      | some k =>
          if k.row.isSome then some (s.startOp ⟨k.rfcID, .user, .readSnooze c⟩) else some s
  -- `ClaimDueSnoozes` for one of its rows.  The rows of a pass are woken one after the
  -- other, and the passes of two wakers at once.
  | .claim i now =>
      match s.snoozes[i]? with
      | none => none
      | some r =>
          if r.state = .pending ∧ r.wakeAt ≤ now then
            some (s.startOp ⟨some r.rfcID, .waker i r.origin r.attempts, .resolve⟩)
          else none
  | .advance i reply =>
      match s.ops[i]? with
      | none => none
      | some op =>
          (s.advance op.rfcID op.caller op.stage reply).map fun p => p.1.setStage i p.2
  | .crash i => some (s.setStage i .done)

/-- A change at one position, looked up. -/
lemma getElem?_modify_ite {α : Type} (l : List α) (i j : Nat) (f : α → α) :
    (l.modify i f)[j]? = if i = j then (l[j]?).map f else l[j]? := by
  rw [getElem?_modify]
  split <;> cases l[j]? <;> rfl

/-! ## What an answer can do -/

/-- The calls after which the sleeping copy is given up. -/
def Stage.landed : Stage → Bool
  | .expunge _ _ _ | .tombstone _ _ _ => true
  | _ => false

/-- The calls that read a row which may be gone. -/
def Stage.reads : Stage → Bool
  | .locate _ _ _ | .target _ _ => true
  | _ => false

/-- The account after the answer to a call, and the next call. -/
inductive Call (s : Account) (x : Option Nat) (caller : Caller) :
    Stage → Reply → Account → Stage → Prop
  | here (c o t r) (h : s.liveRow c = some r) (hf : r.folder = .snoozed) :
      Call s x caller (.locate c o t) .ok s (.put c o t)
  | elsewhere (c o t r) (h : s.liveRow c = some r) (hf : r.folder ≠ .snoozed) :
      Call s x caller (.locate c o t) .ok s (.move c r.folder o t)
  | moved (c f o t) (h : s.holds c f = true) :
      Call s x caller (.move c f o t) (.moved true) (s.serverMove c f) (.follow c o t)
  | astray (c f o t m) (h : (s.holds c f && m) = false) :
      Call s x caller (.move c f o t) (.moved m) (s.serverMove c f) (.unmapped c f o t)
  | moveLost (c f o t) : Call s x caller (.move c f o t) .lost (s.serverMove c f) (.move c f o t)
  | unmapped (c f o t) : Call s x caller (.unmapped c f o t) .ok (s.markDeleted c f) (.put c o t)
  | followed (c o t) : Call s x caller (.follow c o t) .ok (s.moveMessages c) (.put c o t)
  | put (c o t y) (h : x = some y) : Call s x caller (.put c o t) .ok
        ((s.putSnooze y t o).onCopy c fun k => { k with asleep := true }) .done
  | unkeyed (c o t) (h : x = none) : Call s x caller (.put c o t) .ok s .done
  | readSnooze (c o) : Call s x caller (.readSnooze c) .ok s (.target c o)
  | obsolete (h : s.messageIDInSnoozed x = none) : Call s x caller .resolve .ok s .close
  | resolved (c o) (h : s.messageIDInSnoozed x = some c) :
      Call s x caller .resolve .ok s (.target c o)
  | targeted (c o r p reply) (h : s.liveRow c = some r) (hf : r.folder.isSnoozed = true) :
      Call s x caller (.target c o) reply s (.append c r.folder p)
  | appended (c f p) :
      Call s x caller (.append c f p) .ok (s.serverAppend c p) (.reflect c f s.copies.length)
  | appendLost (c f p) : Call s x caller (.append c f p) .lost (s.serverAppend c p) (.append c f p)
  | reflected (c f n) : Call s x caller (.reflect c f n) .ok
        ((s.insertMessage n).onCopy c fun k => { k with asleep := false }) (.expunge c f n)
  | expunged (c f n) : Call s x caller (.expunge c f n) .ok (s.serverExpunge c f) (.tombstone c f n)
  | expungeLost (c f n) :
      Call s x caller (.expunge c f n) .lost (s.serverExpunge c f) (.expunge c f n)
  | tombstoned (c f n) : Call s x caller (.tombstone c f n) .ok (s.markDeleted c f) .close
  | closed : Call s x caller .close .ok (s.closeSnooze x caller) .done
  | failed (i o attempts t) (h : caller = .waker i o attempts) :
      Call s x caller .retry (.now t) (s.failSnooze i attempts t) .done
  | leave (st) (h : st.landed = true) : Call s x caller st .refused s .close
  | stop (st reply next) (h : st.landed = false) (hn : next = .done ∨ next = .retry)
      (hr : reply = .refused ∨ st.reads = true) : Call s x caller st reply s next

lemma failed_eq (caller : Caller) : caller.failed = .done ∨ caller.failed = .retry := by
  cases caller with
  | user => exact .inl rfl
  | waker => exact .inr rfl

open Account

section Inversion

variable {s s' : Account} {x : Option Nat} {caller : Caller} {st st' : Stage} {reply : Reply}

lemma call_target {c : Nat} {o p : Place} {res : Account × Stage} (h : (match s.liveRow c with
      | none => some (s, caller.failed)
      | some r => if r.folder.isSnoozed then some (s, .append c r.folder p)
          else some (s, caller.failed)) = some res) :
    Call s x caller (.target c o) reply res.1 res.2 := by
  split at h
  · cases h
    exact .stop _ _ _ rfl (failed_eq caller) (.inr rfl)
  · split at h
    · cases h
      exact .targeted c o _ p reply ‹_› ‹_›
    · cases h
      exact .stop _ _ _ rfl (failed_eq caller) (.inr rfl)

/-- Every answer is one of these. -/
lemma call_of_advance (h : s.advance x caller st reply = some (s', st')) :
    Call s x caller st reply s' st' := by
  cases reply with
  | ok =>
    cases st with
    | locate c o t =>
      simp only [advance] at h
      split at h
      · cases h
        exact .stop _ _ _ rfl (.inl rfl) (.inr rfl)
      · split at h
        · cases h
          exact .here c o t _ ‹_› ‹_›
        · cases h
          exact .elsewhere c o t _ ‹_› ‹_›
    | unmapped c f o t => cases h; exact .unmapped c f o t
    | follow c o t => cases h; exact .followed c o t
    | put c o t =>
      cases x with
      | none => cases h; exact .unkeyed c o t rfl
      | some y => cases h; exact .put c o t y rfl
    | readSnooze c => cases h; exact .readSnooze c _
    | resolve =>
      simp only [advance] at h
      split at h
      · cases h
        exact .obsolete ‹_›
      · cases h
        exact .resolved _ _ ‹_›
    | target => exact call_target h
    | append c f p => cases h; exact .appended c f p
    | reflect c f n => cases h; exact .reflected c f n
    | expunge c f n => cases h; exact .expunged c f n
    | tombstone c f n => cases h; exact .tombstoned c f n
    | close => cases h; exact .closed
    | _ => cases h
  | inbox =>
    cases st with
    | target => exact call_target h
    | _ => cases h
  | moved m =>
    cases st with
    | move c f o t =>
      obtain ⟨rfl, rfl⟩ := h
      cases hm : s.holds c f && m with
      | true =>
        obtain ⟨hh, rfl⟩ := Bool.and_eq_true_iff.1 hm
        exact .moved c f o t hh
      | false => exact .astray c f o t m hm
    | _ => cases h
  | lost =>
    cases st with
    | move c f o t => cases h; exact .moveLost c f o t
    | append c f p => cases h; exact .appendLost c f p
    | expunge c f n => cases h; exact .expungeLost c f n
    | _ => cases h
  | now t =>
    cases st with
    | retry =>
      cases caller with
      | user => cases h
      | waker i o a => cases h; exact .failed i o a t rfl
    | _ => cases h
  | refused =>
    cases st with
    | expunge | tombstone => cases h; exact .leave _ rfl
    | resolve | target | append | reflect =>
      cases h; exact .stop _ _ _ rfl (failed_eq caller) (.inl rfl)
    | done => cases h
    | _ => cases h; exact .stop _ _ _ rfl (.inl rfl) (.inl rfl)

/-- A call leaves the other operations alone. -/
lemma Call.ops (h : Call s x caller st reply s' st') : s'.ops = s.ops := by
  cases h with
  | moved | astray | moveLost => unfold serverMove; split <;> rfl
  | put c o t y =>
    show (s.putSnooze y t o).ops = s.ops
    unfold putSnooze
    split <;> rfl
  | appended | appendLost => unfold serverAppend; split <;> rfl
  | expunged | expungeLost => unfold serverExpunge; split <;> rfl
  | closed => cases caller <;> rfl
  | _ => rfl

end Inversion

/-! ## No message is lost -/

/-- A message with its Message-ID, and whether the server has this copy of it. -/
abbrev Entry := (Nat × Option Nat) × Bool

def Copy.entry (k : Copy) : Entry := ((k.message, k.rfcID), k.present)

def Account.mail (s : Account) : List Entry := s.copies.map Copy.entry

/-- The server has a copy of every message. -/
def Kept (m : List Entry) : Prop :=
  ∀ (i : Nat) (p : Entry), m[i]? = some p → ∃ j : Nat, m[j]? = some (p.1, true)

/-- The server has a newer copy of the message than this one. -/
def Backed (m : List Entry) (c : Nat) : Prop :=
  ∃ p, m[c]? = some p ∧ ∃ j : Nat, c < j ∧ m[j]? = some (p.1, true)

/-- What an operation has to know to be allowed its expunge. -/
def Stage.Safe (m : List Entry) : Stage → Prop
  | .append c _ _ => c < m.length
  | .reflect c _ _ | .expunge c _ _ => Backed m c
  | _ => True

/-- What can happen to the mail on the server: a copy of a new message or of one that
was there before comes, or an older copy goes. -/
inductive MailStep (m : List Entry) : List Entry → Prop
  | same : MailStep m m
  | add (e : Nat × Option Nat)
    (h : e.1 = m.length ∨ ∃ p ∈ m, p.1 = e) : MailStep m (m ++ [(e, true)])
  | remove (c : Nat) (h : Backed m c) : MailStep m (m.modify c fun p => (p.1, false))

section Mail

variable {m m' : List Entry} {c j : Nat}

lemma getElem?_add {p q : Entry} (h : m[j]? = some p) : (m ++ [q])[j]? = some p := by
  obtain ⟨hj, -⟩ := List.getElem?_eq_some_iff.1 h
  rw [List.getElem?_append_left hj, h]

section

variable (h : MailStep m m')
include h

/-- A newer copy survives whatever happens to another one: when the newer copy itself
is expunged, a still newer one is there. -/
lemma MailStep.newer {e : Nat × Option Nat} (hj : m[j]? = some (e, true)) :
    ∃ j' : Nat, j ≤ j' ∧ m'[j']? = some (e, true) := by
  cases h with
  | same => exact ⟨j, le_rfl, hj⟩
  | add => exact ⟨j, le_rfl, getElem?_add hj⟩
  | remove c hc =>
    by_cases hcj : c = j
    · obtain ⟨p, hp, j', hlt, hj'⟩ := hc
      subst hcj
      obtain rfl : p = (e, true) := Option.some.inj (hp.symm.trans hj)
      refine ⟨j', hlt.le, ?_⟩
      rw [getElem?_modify_ite, if_neg hlt.ne]
      exact hj'
    · refine ⟨j, le_rfl, ?_⟩
      rw [getElem?_modify_ite, if_neg hcj]
      exact hj

/-- A copy keeps its message. -/
theorem MailStep.message {p : Entry} (hp : m[c]? = some p) :
    ∃ p' : Entry, m'[c]? = some p' ∧ p'.1 = p.1 := by
  cases h with
  | same => exact ⟨p, hp, rfl⟩
  | add => exact ⟨p, getElem?_add hp, rfl⟩
  | remove d =>
    rw [getElem?_modify_ite, hp]
    by_cases hdc : d = c
    · exact ⟨(p.1, false), by rw [if_pos hdc]; rfl, rfl⟩
    · exact ⟨p, by rw [if_neg hdc], rfl⟩

lemma MailStep.length_le : m.length ≤ m'.length := by
  cases h with
  | same => exact le_rfl
  | add | remove => simp

lemma MailStep.backed (hb : Backed m c) : Backed m' c := by
  obtain ⟨p, hp, j, hlt, hj⟩ := hb
  obtain ⟨p', hp', he⟩ := h.message hp
  obtain ⟨j', hle, hj'⟩ := h.newer hj
  exact ⟨p', hp', j', hlt.trans_le hle, he ▸ hj'⟩

lemma MailStep.safe {st : Stage} (hs : st.Safe m) : st.Safe m' := by
  cases st with
  | append => exact lt_of_lt_of_le hs h.length_le
  | reflect | expunge => exact h.backed hs
  | _ => trivial

lemma MailStep.kept (hk : Kept m) : Kept m' := by
  intro i p hp
  by_cases hi : i < m.length
  · obtain ⟨q, hq⟩ : ∃ q, m[i]? = some q := ⟨_, getElem?_eq_getElem hi⟩
    obtain ⟨p', hp', he⟩ := h.message hq
    obtain rfl := Option.mem_unique hp' hp
    obtain ⟨j, hj⟩ := hk i q hq
    obtain ⟨j', -, hj'⟩ := h.newer hj
    exact ⟨j', he ▸ hj'⟩
  · -- a copy that was not there before: it has just been added
    cases h with
    | same => exact absurd (List.getElem?_eq_some_iff.1 hp).1 hi
    | add e =>
      obtain ⟨hlt, hget⟩ := List.getElem?_eq_some_iff.1 hp
      obtain rfl : i = m.length := by
        rw [List.length_append, List.length_singleton] at hlt
        omega
      have hp' : p = (e, true) := by simpa using hget.symm
      exact ⟨m.length, by rw [hp, hp']⟩
    | remove =>
      refine absurd (List.getElem?_eq_some_iff.1 hp).1 ?_
      rwa [length_modify]

end

/-- Messages are numbered by the copy they were delivered as, and have one Message-ID. -/
structure Numbered (m : List Entry) : Prop where
  lt : ∀ p ∈ m, p.1.1 < m.length
  oneID : ∀ p ∈ m, ∀ q ∈ m, p.1.1 = q.1.1 → p.1 = q.1

lemma MailStep.numbered (h : MailStep m m') (hm : Numbered m) : Numbered m' := by
  cases h with
  | same => exact hm
  | add e he =>
    have hold : ∀ p ∈ m, p.1.1 = e.1 → p.1 = e := by
      intro p hp hpe
      rcases he with he | ⟨q, hq, rfl⟩
      · exact absurd (hpe.trans he) (hm.lt p hp).ne
      · exact hm.oneID p hp q hq hpe
    refine ⟨fun p hp => ?_, fun p hp q hq hpq => ?_⟩
    · rw [length_append, length_singleton]
      rcases mem_append.1 hp with hp | hp
      · exact (hm.lt p hp).trans (Nat.lt_succ_self _)
      · rw [mem_singleton.1 hp]
        rcases he with he | ⟨q, hq, rfl⟩
        · exact Nat.lt_succ_of_le he.le
        · exact (hm.lt q hq).trans (Nat.lt_succ_self _)
    · rw [mem_append, mem_singleton] at hp hq
      rcases hp with hp | rfl <;> rcases hq with hq | rfl
      · exact hm.oneID p hp q hq hpq
      · exact hold p hp hpq
      · exact (hold q hq hpq.symm).symm
      · rfl
  | remove c =>
    have hback : ∀ p ∈ m.modify c fun p => (p.1, false), ∃ q ∈ m, q.1 = p.1 := by
      intro p hp
      obtain ⟨j, hj⟩ := mem_iff_getElem?.1 hp
      rw [getElem?_modify_ite] at hj
      split at hj
      · obtain ⟨q, hq, rfl⟩ := Option.map_eq_some_iff.1 hj
        exact ⟨q, mem_of_getElem? hq, rfl⟩
      · exact ⟨p, mem_of_getElem? hj, rfl⟩
    refine ⟨fun p hp => ?_, fun p hp q hq hpq => ?_⟩
    · obtain ⟨p₀, hp₀, he⟩ := hback p hp
      rw [length_modify, ← he]
      exact hm.lt p₀ hp₀
    · obtain ⟨p₀, hp₀, he⟩ := hback p hp
      obtain ⟨q₀, hq₀, hf⟩ := hback q hq
      rw [← he, ← hf] at hpq ⊢
      exact hm.oneID p₀ hp₀ q₀ hq₀ hpq

end Mail

section Kept

variable {s s' : Account} {x : Option Nat} {caller : Caller} {st st' : Stage} {reply : Reply}
  {c : Nat} {m : List Entry}

/-- What a change of a copy keeps is kept in all of them. -/
lemma map_onCopy {β : Type} {π : Copy → β} (s : Account) (c : Nat) {f : Copy → Copy}
    (hf : ∀ k, π (f k) = π k) : (s.onCopy c f).copies.map π = s.copies.map π := by
  apply ext_getElem?
  intro j
  simp only [onCopy, getElem?_map, getElem?_modify_ite]
  split
  · cases s.copies[j]? with
    | none => rfl
    | some k => exact congrArg some (hf k)
  · rfl

lemma mailStep_onCopy (c : Nat) {f : Copy → Copy} (hf : ∀ k, (f k).entry = k.entry) :
    MailStep s.mail (s.onCopy c f).mail := by
  rw [mail, mail, map_onCopy s c hf]
  exact .same

lemma mailStep_serverMove (c : Nat) (f : Folder) : MailStep s.mail (s.serverMove c f).mail := by
  unfold serverMove
  split
  · exact mailStep_onCopy c fun _ => rfl
  · exact .same

lemma mail_setAsleep (c : Nat) (b : Bool) :
    (s.onCopy c fun k => { k with asleep := b }).mail = s.mail :=
  map_onCopy s c fun _ => rfl

lemma mail_putSnooze (y t : Nat) (o : Place) : (s.putSnooze y t o).mail = s.mail := by
  unfold putSnooze
  split <;> rfl

lemma mailStep_serverExpunge {f : Folder} (h : Backed s.mail c) :
    MailStep s.mail (s.serverExpunge c f).mail := by
  unfold serverExpunge
  split
  · have he : (s.onCopy c fun k => { k with present := false }).mail =
        s.mail.modify c fun p => (p.1, false) := by
      apply ext_getElem?
      intro j
      simp only [mail, onCopy, getElem?_map, getElem?_modify_ite]
      split <;> cases s.copies[j]? <;> rfl
    rw [he]
    exact .remove c h
  · exact .same

lemma mail_serverAppend {p : Place} (h : c < s.mail.length) :
    ∃ q, s.mail[c]? = some q ∧ (s.serverAppend c p).mail = s.mail ++ [(q.1, true)] := by
  have hc : c < s.copies.length := by simpa [mail] using h
  have hk : s.copies[c]? = some s.copies[c] := getElem?_eq_getElem hc
  refine ⟨s.copies[c].entry, ?_, ?_⟩
  · simp [mail, hk]
  · simp [serverAppend, hk, mail, Copy.entry]

/-- No answer loses the last copy of a message, and the next call is safe again. -/
lemma mailStep_call (h : Call s x caller st reply s' st') (hs : st.Safe s.mail) :
    MailStep s.mail s'.mail ∧ st'.Safe s'.mail := by
  cases h with
  | here | elsewhere | unkeyed | readSnooze | obsolete | resolved | failed | leave =>
    exact ⟨.same, trivial⟩
  | moved c f | astray c f | moveLost c f => exact ⟨mailStep_serverMove c f, trivial⟩
  | unmapped c | tombstoned c | followed c => exact ⟨mailStep_onCopy c fun _ => rfl, trivial⟩
  | put =>
    rw [mail_setAsleep, mail_putSnooze]
    exact ⟨.same, trivial⟩
  | targeted c o r p reply hr =>
    obtain ⟨k, hk, -⟩ := Option.bind_eq_some_iff.1 hr
    exact ⟨.same, by simpa [Stage.Safe, mail] using (List.getElem?_eq_some_iff.1 hk).1⟩
  | appended c f p =>
    obtain ⟨q, hq, he⟩ := mail_serverAppend (p := p) hs
    have hlt : c < s.mail.length := hs
    refine ⟨he ▸ .add q.1 (.inr ⟨q, mem_of_getElem? hq, rfl⟩), ?_⟩
    -- the appended copy is the newer one
    show Backed (s.serverAppend c p).mail c
    rw [he]
    exact ⟨q, getElem?_add hq, s.mail.length, hlt, getElem?_concat_length⟩
  | appendLost c f p =>
    obtain ⟨q, hq, he⟩ := mail_serverAppend (p := p) hs
    have hadd : MailStep s.mail (s.serverAppend c p).mail :=
      he ▸ .add q.1 (.inr ⟨q, mem_of_getElem? hq, rfl⟩)
    have hsafe : (Stage.append c f p).Safe s.mail := hs
    exact ⟨hadd, hadd.safe hsafe⟩
  | reflected c f n =>
    have hstep : MailStep s.mail (s.insertMessage n).mail := mailStep_onCopy n fun _ => rfl
    rw [mail_setAsleep]
    exact ⟨hstep, hstep.backed hs⟩
  | expunged => exact ⟨mailStep_serverExpunge hs, trivial⟩
  | expungeLost c f =>
    have hstep : MailStep s.mail (s.serverExpunge c f).mail := mailStep_serverExpunge hs
    exact ⟨hstep, hstep.backed hs⟩
  | closed => cases caller <;> exact ⟨.same, trivial⟩
  | stop st reply next hl hn => rcases hn with rfl | rfl <;> exact ⟨.same, trivial⟩

/-- Every message has a copy, and no operation expunges the only one. -/
structure KeptInv (s : Account) : Prop where
  numbered : Numbered s.mail
  kept : Kept s.mail
  safe : ∀ op ∈ s.ops, op.stage.Safe s.mail

lemma safe_setStage {i : Nat} (h : ∀ op ∈ s.ops, op.stage.Safe m)
    (hst : st.Safe m) : ∀ op ∈ (s.setStage i st).ops, op.stage.Safe m := by
  intro op hop
  obtain ⟨j, hj⟩ := mem_iff_getElem?.1 hop
  rw [setStage, getElem?_modify_ite] at hj
  split at hj
  · obtain ⟨op', -, rfl⟩ := Option.map_eq_some_iff.1 hj
    exact hst
  · exact h op (mem_of_getElem? hj)

lemma keptInv_startOp {op : Op} (hI : KeptInv s) (hst : op.stage.Safe s.mail) :
    KeptInv (s.startOp op) := ⟨hI.numbered, hI.kept, Run.forall_mem_concat hI.safe hst⟩

lemma keptInv_step {a : Action} (hI : KeptInv s) (h : s.step a = some s') : KeptInv s' := by
  cases a with
  | deliver x =>
    have hadd : MailStep s.mail s'.mail := by
      cases h
      have hlen : s.mail.length = s.copies.length := length_map _
      simpa [mail, Copy.entry, hlen] using MailStep.add (m := s.mail) (s.mail.length, x) (.inl rfl)
    have hops : s'.ops = s.ops := by
      cases h
      rfl
    exact ⟨hadd.numbered hI.numbered, hadd.kept hI.kept, fun op hop =>
      hadd.safe (hI.safe op (hops ▸ hop))⟩
  | snooze =>
    simp only [step] at h
    split at h
    · split at h <;> cases h
      · exact keptInv_startOp hI trivial
      · exact hI
    · cases h
      exact hI
  | unsnooze =>
    simp only [step] at h
    split at h
    · cases h
      exact hI
    · split at h <;> cases h
      · exact keptInv_startOp hI trivial
      · exact hI
  | claim =>
    simp only [step] at h
    split at h
    · cases h
    · split at h <;> cases h
      exact keptInv_startOp hI trivial
  | advance =>
    simp only [step] at h
    split at h
    · cases h
    · rename_i op hop
      obtain ⟨⟨s₁, st'⟩, hadv, rfl⟩ := Option.map_eq_some_iff.1 h
      have hcall := call_of_advance hadv
      obtain ⟨hmail, hsafe⟩ := mailStep_call hcall (hI.safe op (mem_of_getElem? hop))
      have hops : ∀ op ∈ s₁.ops, op.stage.Safe s₁.mail := by
        rw [hcall.ops]
        exact fun op hop => hmail.safe (hI.safe op hop)
      exact ⟨hmail.numbered hI.numbered, hmail.kept hI.kept, safe_setStage hops hsafe⟩
  | crash =>
    cases h
    exact ⟨hI.numbered, hI.kept, safe_setStage hI.safe trivial⟩

end Kept

end Moov.Snooze
