import Mathlib.Data.List.Sort

/-!
# The send intents of the store

A submission is one row of the `intents` table.  Every transition of the row is
one autocommit statement, and each of them is a function on rows here, guarded
by the same `WHERE` and `CASE` conditions as the SQL (`store/submission.go`,
`store/sync.go`).  The identifier of a row is its key in the table, so it is not
a field.  Times are nanoseconds of one clock.

What the executor learns about a statement is not always what happened to it:
a statement can fail before it takes effect, and the connection can break after
the commit.  `Stmt` has the three cases.
-/

namespace Moov.Store

/-- The `state` column. -/
inductive IntentState
  | queued
  | inFlight
  | done
  | failed
  | canceled
  deriving DecidableEq

/-- The envelope stored in the `payload` column. -/
structure IntentEnvelope where
  mailFrom : String
  rcptTo : List String
  deriving DecidableEq

/-- One row of kind `send`.  `payload` is `none` when the column's text is not
the JSON of an envelope. -/
structure SendIntent where
  accountID : Nat
  emailID : Nat
  messageRFCID : String
  payload : Option IntentEnvelope
  state : IntentState
  attempts : Nat
  lastError : Option String
  notBefore : Nat
  acceptedAt : Option Nat
  acceptedReply : Option String
  appendedAt : Option Nat
  canceledAt : Option Nat
  destroyedAt : Option Nat
  createdAt : Nat
  updatedAt : Nat
  deriving DecidableEq

/-- `SendIntent.Accepted`. -/
def SendIntent.accepted (r : SendIntent) : Bool := r.acceptedAt.isSome

/-- What a caller passes to `EnqueueSendIntent`. -/
structure NewSendIntent where
  accountID : Nat
  emailID : Nat
  messageRFCID : String
  payload : IntentEnvelope
  notBefore : Nat
  deriving DecidableEq

/-- `EnqueueSendIntent`: the row as it is inserted. -/
def enqueueSendIntent (now : Nat) (new : NewSendIntent) : SendIntent where
  accountID := new.accountID
  emailID := new.emailID
  messageRFCID := new.messageRFCID
  payload := some new.payload
  state := .queued
  attempts := 0
  lastError := none
  notBefore := new.notBefore
  acceptedAt := none
  acceptedReply := none
  appendedAt := none
  canceledAt := none
  destroyedAt := none
  createdAt := now
  updatedAt := now

/-! ## The executor's statements -/

/-- The `WHERE` of the claim: `state = 'queued' AND not_before <= now()`. -/
def SendIntent.due (now : Nat) (r : SendIntent) : Bool :=
  decide (r.state = .queued) && decide (r.notBefore ≤ now)

/-- The `SET` of `ClaimDueSendIntents`. -/
def claimRow (now : Nat) (r : SendIntent) : SendIntent :=
  { r with state := .inFlight, attempts := r.attempts + 1, updatedAt := now }

/-- The `SET` of `RecoverInFlightSendIntents`. -/
def recoverRow (now : Nat) (r : SendIntent) : SendIntent :=
  { r with attempts := r.attempts + 1, updatedAt := now }

/-- `MarkSendIntentAccepted`: guarded by `accepted_at IS NULL`; on a row that is
accepted already nothing changes, which is not an error. -/
def markSendIntentAccepted (now : Nat) (reply : String) (r : SendIntent) : SendIntent :=
  match r.acceptedAt with
  | some _ => r
  | none =>
      { r with
        acceptedAt := some now
        acceptedReply := some reply
        lastError := none
        updatedAt := now }

/-- `MarkSendIntentAppended`. -/
def markSendIntentAppended (now : Nat) (r : SendIntent) : SendIntent :=
  { r with appendedAt := some (r.appendedAt.getD now), updatedAt := now }

/-- `CompleteIntent`, which looks at no earlier state. -/
def completeIntent (now : Nat) (r : SendIntent) : SendIntent :=
  { r with state := .done, lastError := none, updatedAt := now }

/-- `FailIntent`, which looks at no earlier state either: with a retry time the
row goes back to the queue and `not_before` becomes that time, without one it
is failed. -/
def failIntent (now : Nat) (msg : String) (retryAt : Option Nat) (r : SendIntent) : SendIntent :=
  match retryAt with
  | some t => { r with state := .queued, notBefore := t, lastError := some msg, updatedAt := now }
  | none => { r with state := .failed, notBefore := now, lastError := some msg, updatedAt := now }

/-! ## The client's statements -/

/-- The guard of a cancel: `state = 'queued' AND accepted_at IS NULL`. -/
def SendIntent.cancelable (r : SendIntent) : Bool :=
  decide (r.state = .queued) && !r.accepted

/-- What `CancelSendIntent` answers; `notCancelable` is
`ErrSubmissionNotCancelable`, the `cannotUnsend` of the protocol. -/
inductive CancelAnswer
  | canceled
  | notCancelable
  | notFound
  deriving DecidableEq

/-- `CancelSendIntent` on the row with the given key. -/
def cancelSendIntent (now account : Nat) (r : SendIntent) : SendIntent × CancelAnswer :=
  if r.accountID ≠ account then (r, .notFound)
  else if r.cancelable then
    ({ r with state := .canceled, canceledAt := some now, updatedAt := now }, .canceled)
  else if r.state = .canceled then (r, .canceled)
  else (r, .notCancelable)

/-- `DestroySendIntent`: the tombstone, and the cancel while it is still
possible, in one statement. -/
def destroySendIntent (now account : Nat) (r : SendIntent) : SendIntent :=
  if r.accountID ≠ account then r
  else if r.cancelable then
    { r with
      destroyedAt := some (r.destroyedAt.getD now)
      canceledAt := some now
      state := .canceled
      updatedAt := now }
  else { r with destroyedAt := some (r.destroyedAt.getD now), updatedAt := now }

/-- The `undoStatus` of a submission. -/
inductive UndoStatus
  | pending
  | final
  | canceled
  deriving DecidableEq

/-- `undoStatusOf`. -/
def undoStatusOf (r : SendIntent) : UndoStatus :=
  if r.state = .canceled then .canceled
  else if !r.accepted && decide (r.state = .queued) then .pending
  else .final

/-! ## What a caller sees of a statement -/

/-- The fate of one autocommit statement: it took effect and was confirmed, it
did not take effect, or it took effect and the confirmation was lost. -/
inductive Stmt
  | done
  | failed
  | lost
  deriving DecidableEq

/-- The row after the statement `f` had the given fate. -/
def Stmt.apply : Stmt → (SendIntent → SendIntent) → SendIntent → SendIntent
  | .failed, _, r => r
  | .done, f, r => f r
  | .lost, f, r => f r

/-! ## What the statements keep -/

section Lemmas

variable (now account : Nat) (msg reply : String) (retryAt : Option Nat) (r : SendIntent)
  {f : SendIntent → SendIntent}

/-- A statement that keeps a property of rows keeps it whatever its fate. -/
lemma Stmt.apply_of {P : SendIntent → Prop}
    (s : Stmt) (hr : P r) (hf : P (f r)) : P (s.apply f r) := by
  cases s with
  | done | lost => exact hf
  | failed => exact hr

/-- What a statement does not change, it does not change whatever its fate. -/
lemma Stmt.apply_keeps {β : Type*} {g : SendIntent → β}
    (s : Stmt) (hf : g (f r) = g r) : g (s.apply f r) = g r :=
  Stmt.apply_of (P := fun r' => g r' = g r) r s rfl hf

@[simp] lemma accepted_markSendIntentAccepted :
    (markSendIntentAccepted now reply r).accepted = true := by
  unfold markSendIntentAccepted SendIntent.accepted
  cases h : r.acceptedAt <;> simp [h]

@[simp] lemma state_markSendIntentAccepted :
    (markSendIntentAccepted now reply r).state = r.state := by
  unfold markSendIntentAccepted
  cases r.acceptedAt <;> rfl

@[simp] lemma accepted_failIntent : (failIntent now msg retryAt r).accepted = r.accepted := by
  cases retryAt <;> rfl

@[simp] lemma state_failIntent :
    (failIntent now msg retryAt r).state = if retryAt.isSome then .queued else .failed := by
  cases retryAt <;> rfl

/-- What a statement of the client makes of a row: stamps apart, the row stays as it is, or
it is canceled from the queue, unaccepted. -/
inductive ClientMove : SendIntent → Prop
  | kept (destroyed : Option Nat)
    (t : Nat) : ClientMove { r with destroyedAt := destroyed, updatedAt := t }
  | canceled (destroyed : Option Nat) (t : Nat) (hq : r.state = .queued) (ha : r.accepted = false) :
      ClientMove { r with
        state := .canceled
        canceledAt := some t
        destroyedAt := destroyed
        updatedAt := t }

lemma SendIntent.cancelable_iff : r.cancelable = true ↔ r.state = .queued ∧ r.accepted = false := by
  simp [SendIntent.cancelable]

lemma clientMove_cancel : ClientMove r (cancelSendIntent now account r).1 := by
  have same : ClientMove r r := .kept r.destroyedAt r.updatedAt
  unfold cancelSendIntent
  split
  · exact same
  · split
    · next hc =>
      obtain ⟨hq, ha⟩ := r.cancelable_iff.1 hc
      exact .canceled _ _ hq ha
    · split <;> exact same

lemma clientMove_destroy : ClientMove r (destroySendIntent now account r) := by
  unfold destroySendIntent
  split
  · exact .kept r.destroyedAt r.updatedAt
  · split
    · next hc =>
      obtain ⟨hq, ha⟩ := r.cancelable_iff.1 hc
      exact .canceled _ _ hq ha
    · exact .kept _ _

/-- A row that is not waiting unaccepted, nor canceled, refuses its own account's
cancel. -/
lemma cancelSendIntent_notCancelable (hs : r.state ≠ .canceled)
    (hq : r.state = .queued → r.accepted = true) :
    (cancelSendIntent now r.accountID r).2 = .notCancelable := by
  have hc : r.cancelable = false := by
    unfold SendIntent.cancelable
    by_cases h : r.state = .queued
    · simp [hq h]
    · simp [h]
  simp [cancelSendIntent, hc, hs]

/-- Only a waiting row that is not accepted is still pending. -/
lemma undoStatusOf_eq_pending :
    undoStatusOf r = .pending ↔ r.state = .queued ∧ r.accepted = false := by
  unfold undoStatusOf
  by_cases hc : r.state = .canceled
  · simp [hc]
  · cases ha : r.accepted <;> by_cases hq : r.state = .queued <;> simp [hq, hc]

end Lemmas

end Moov.Store
