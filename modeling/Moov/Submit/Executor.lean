import Moov.Submit.Client

/-!
# The execution of one send intent

`Outbox.execute` (`submit/outbox.go`) drives one claimed row as far as it can go.
It is cut here at every call that leaves the process (a statement of the store,
the Sent probe, the SMTP transaction, the APPEND), because at each of them the
call can fail, its confirmation can be lost, and the process can die.  A `Phase`
is the place the executor has reached, and `runStep` what the answer to the
pending call makes of it.

A `Cell` is one intent of the table together with what the process holds of it
in memory: nothing, a claimed copy waiting its turn, or the copy an execution is
working on.  The copy is not the row: the executor decides by what it read when
it claimed.  Two further fields are history that no code reads: `log`, what
happened to the message in the outside world (newest first), and `scheduled`,
whether the implicit Email/set was held back when the intent was created.
-/

namespace Moov.Submit

open Moov.Store

/-- One second, in nanoseconds. -/
def second : Nat := 1000000000

/-- `maxUndoWindow`, 30 s. -/
def maxUndoWindow : Nat := 30 * second

/-- The options of the executor that its decisions read; `drafts` says whether a
`DraftRetirer` is wired. -/
structure Config where
  maxAttempts : Nat
  retryBase : Nat
  retryMax : Nat
  drafts : Bool
  deriving DecidableEq

/-- The defaults of `Options`. -/
def defaultConfig : Config where
  maxAttempts := 8
  retryBase := 30 * second
  retryMax := 600 * second
  drafts := true

/-- The doubling loop of `backoff`. -/
def doubled (limit : Nat) : Nat → Nat → Nat
  | 0, d => d
  | n + 1, d => if d < limit then doubled limit n (2 * d) else d

/-- `backoff`; the random factor between 0.8 and 1.2 is given in thousandths. -/
def backoff (cfg : Config) (attempts jitter : Nat) : Nat :=
  min cfg.retryMax (doubled cfg.retryMax (attempts - 1) cfg.retryBase) * jitter / 1000

/-- `ScheduledIntent`: derived from the row, at the time of asking. -/
def scheduledIntent (r : SendIntent) : Bool :=
  decide (r.createdAt + maxUndoWindow < r.notBefore)

/-- Where an execution has got to: the call it is waiting for. -/
inductive Phase
  | probe
  | persistFound (tries : Nat)
  | prepare
  | account
  | send
  | record (reply : String)
  | persistUnrecorded (reply : String) (tries : Nat)
  | requeue (msg : String)
  | failPermanently (msg : String)
  | postPrepare
  | append
  | stamp
  | retire
  | complete
  deriving DecidableEq

/-- What the process holds of an intent. -/
inductive Owner
  | none
  | waiting (m : SendIntent) (recovered : Bool)
  | running (m : SendIntent) (phase : Phase)
  deriving DecidableEq

/-- What happened to an intent's message outside the store. -/
inductive Event
  | smtpStart
  | serverAccepted
  | canceled
  | retired
  deriving DecidableEq

/-- One intent: its row, what the process holds of it, and its history. -/
structure Cell where
  row : SendIntent
  owner : Owner
  scheduled : Bool
  log : List Event
  deriving DecidableEq

/-- The answer to the call an execution is waiting for.  `landed` is an APPEND
that reached the mailbox although an error is reported, before or after the
store reflected it. -/
inductive Answer
  | ok
  | failed (err : String)
  | stmt (s : Stmt) (err : String)
  | smtp (tx : SmtpTx)
  | landed (reflected : Bool) (err : String)
  | requeued (s : Stmt) (jitter : Nat)
  deriving DecidableEq

namespace Cell

variable (c : Cell)

/-- The execution goes on with the copy `m` at the given phase. -/
def goto (m : SendIntent) (phase : Phase) : Cell := { c with owner := .running m phase }

/-- The execution is over. -/
def leave : Cell := { c with owner := .none }

/-- The row after one statement. -/
def update (s : Stmt) (f : SendIntent → SendIntent) : Cell := { c with row := s.apply f c.row }

/-- One more thing happened. -/
def happened (e : Event) : Cell := { c with log := e :: c.log }

variable (m : SendIntent) (ph : Phase) (s : Stmt) (f : SendIntent → SendIntent) (e : Event)

@[simp] lemma goto_row : (c.goto m ph).row = c.row := rfl
@[simp] lemma goto_owner : (c.goto m ph).owner = .running m ph := rfl
@[simp] lemma goto_log : (c.goto m ph).log = c.log := rfl
@[simp] lemma leave_row : c.leave.row = c.row := rfl
@[simp] lemma update_row : (c.update s f).row = s.apply f c.row := rfl
@[simp] lemma happened_log : (c.happened e).log = e :: c.log := rfl

end Cell

/-- `markAccepted`: the copy in memory after the acceptance was persisted. -/
def markAccepted (now : Nat) (reply : String) (m : SendIntent) : SendIntent :=
  { m with acceptedAt := some now, acceptedReply := some reply }

/-- Where `postSend` starts. -/
def postSend (m : SendIntent) : Phase :=
  if m.appendedAt = none then .postPrepare else .retire

/-- The checks of `prepare` on the payload. -/
def envelopeOf (m : SendIntent) : Except String IntentEnvelope :=
  match m.payload with
  | none => .error "decoding the intent payload"
  | some env =>
      if env.mailFrom = "" ∨ env.rcptTo = [] then
        .error "the intent payload holds no usable envelope"
      else .ok env

/-- `retireScheduledDraft` goes ahead: a retirer is wired, the intent names a
draft, and the copy in memory looks scheduled. -/
def retires (cfg : Config) (m : SendIntent) : Bool :=
  cfg.drafts && decide (m.emailID ≠ 0) && scheduledIntent m

/-- `persistAcceptance` tries six times. -/
def persistTries : Nat := 6

/-- The reply recorded when the probe finds the message. -/
def recoveredReply : String := "recovered: message found in Sent by Message-ID"

/-- The switch on the error of `Send`. -/
def sendFailed (cfg : Config) (m : SendIntent) (e : SmtpError) : Phase :=
  if e.permanent then .failPermanently e.text
  else if cfg.maxAttempts ≤ m.attempts then
    .failPermanently
      ("giving up after " ++ toString m.attempts ++ " attempts; last error: " ++ e.text)
  else .requeue e.text

lemma sendFailed_cases (cfg : Config) (m : SendIntent) (e : SmtpError) :
    ∃ msg, sendFailed cfg m e = .requeue msg ∨ sendFailed cfg m e = .failPermanently msg := by
  unfold sendFailed
  split
  · exact ⟨_, .inr rfl⟩
  · split
    · exact ⟨_, .inr rfl⟩
    · exact ⟨_, .inl rfl⟩

section Step

variable (cfg : Config) (now : Nat) (stopping found : Bool) (c : Cell) (m : SendIntent)

/-- The cell after an acceptance was persisted and confirmed: on to `postSend`. -/
def Cell.accept (reply : String) : Cell :=
  (c.update .done (markSendIntentAccepted now reply)).goto
    (markAccepted now reply m) (postSend (markAccepted now reply m))

/-- One transaction: what it did outside, and where the executor goes on. -/
def Cell.transmit (env : IntentEnvelope) (tx : SmtpTx) : Cell :=
  let c' := c.happened .smtpStart
  let c'' := if serverTook env tx then c'.happened .serverAccepted else c'
  match send env tx with
  | .ok reply => c''.goto m (.record reply)
  | .error e => c''.goto m (sendFailed cfg m e)

section

variable (env : IntentEnvelope)
include env

variable (tx : SmtpTx)

@[simp] lemma Cell.transmit_row :
    (c.transmit cfg m env tx).row = c.row := by
  unfold Cell.transmit
  cases send env tx <;> cases serverTook env tx <;> rfl

@[simp] lemma Cell.transmit_scheduled :
    (c.transmit cfg m env tx).scheduled = c.scheduled := by
  unfold Cell.transmit
  cases send env tx <;> cases serverTook env tx <;> rfl

lemma Cell.transmit_log : (c.transmit cfg m env tx).log =
      if serverTook env tx then .serverAccepted :: .smtpStart :: c.log
        else .smtpStart :: c.log := by
  unfold Cell.transmit
  cases send env tx <;> cases serverTook env tx <;> rfl

/-- After a transaction the executor records the acceptance it read, or gives the
message back to the queue or up. -/
lemma Cell.transmit_owner : (∃ reply, send env tx = .ok reply ∧
      (c.transmit cfg m env tx).owner = .running m (.record reply)) ∨
    (∃ e msg, send env tx = .error e ∧
      ((c.transmit cfg m env tx).owner = .running m (.requeue msg) ∨
        (c.transmit cfg m env tx).owner = .running m (.failPermanently msg))) := by
  unfold Cell.transmit
  cases hs : send env tx with
  | ok reply => exact .inl ⟨reply, rfl, rfl⟩
  | error e =>
    obtain ⟨msg, hph⟩ := sendFailed_cases cfg m e
    refine .inr ⟨e, msg, rfl, ?_⟩
    rcases hph with hph | hph
    · exact .inl (by simp [hph])
    · exact .inr (by simp [hph])

end

/-- `execute` from one outside call to the next, by the answer to the call.
`found` is what the store says when asked whether Sent holds the message, and
`stopping` whether shutdown has begun. -/
def runStep : Phase → Answer → Option Cell
  -- `transmit`
  | .probe, .ok => some (c.goto m (if found then .persistFound persistTries else .prepare))
  | .probe, .failed err => some (c.goto m (.requeue ("sent-probe failed: " ++ err)))
  | .persistFound tries, .stmt s err =>
      match s with
      | .done => some (c.accept now m recoveredReply)
      | _ =>
          let c' := c.update s (markSendIntentAccepted now recoveredReply)
          if tries ≤ 1 ∨ stopping = true then
            some (c'.goto m (.requeue ("persisting recovered acceptance: " ++ err)))
          else some (c'.goto m (.persistFound (tries - 1)))
  | .prepare, .ok =>
      match envelopeOf m with
      | .error e => some (c.goto m (.failPermanently ("preparing the message: " ++ e)))
      | .ok _ => some (c.goto m .account)
  | .prepare, .failed err =>
      match envelopeOf m with
      | .error e => some (c.goto m (.failPermanently ("preparing the message: " ++ e)))
      | .ok _ => some (c.goto m (.failPermanently ("preparing the message: " ++ err)))
  | .account, .ok => some (c.goto m .send)
  | .account, .failed err => some (c.goto m (.requeue ("loading the account: " ++ err)))
  | .send, .smtp tx =>
      match m.payload with
      | none => none
      | some env => some (c.transmit cfg m env tx)
  | .record reply, .stmt s _ =>
      match s with
      | .done => some (c.accept now m reply)
      | _ =>
          some ((c.update s (markSendIntentAccepted now reply)).goto m
            (.persistUnrecorded reply persistTries))
  | .persistUnrecorded reply tries, .stmt s _ =>
      match s with
      | .done => some (c.accept now m reply)
      | _ =>
          let c' := c.update s (markSendIntentAccepted now reply)
          -- the row stays in_flight: an unrecorded acceptance is never re-queued
          if tries ≤ 1 ∨ stopping = true then some c'.leave
          else some (c'.goto m (.persistUnrecorded reply (tries - 1)))
  -- `requeue` and `failPermanently`
  | .requeue msg, .requeued s jitter =>
      if 800 ≤ jitter ∧ jitter ≤ 1200 then
        some (c.update s (failIntent now msg (some (now + backoff cfg m.attempts jitter)))).leave
      else none
  | .failPermanently msg, .stmt s _ => some (c.update s (failIntent now msg none)).leave
  -- `postSend`
  | .postPrepare, .ok =>
      match envelopeOf m with
      | .error _ => some (c.goto m .stamp)
      | .ok _ => some (c.goto m .append)
  | .postPrepare, .failed _ => some (c.goto m .stamp)
  | .append, .ok => some (c.goto m .stamp)
  | .append, .failed err => some (c.goto m (.requeue ("sent-append: " ++ err)))
  | .append, .landed _ err =>
      -- with a copy in Sent already no APPEND is issued
      if found then none else some (c.goto m (.requeue ("sent-append: " ++ err)))
  | .stamp, .stmt s err =>
      let c' := c.update s (markSendIntentAppended now)
      match s with
      | .done => some (c'.goto { m with appendedAt := some now } .retire)
      | _ => some (c'.goto m (.requeue ("stamping append: " ++ err)))
  | .retire, .ok =>
      if retires cfg m then some ((c.happened .retired).goto m .complete)
      else some (c.goto m .complete)
  | .retire, .failed _ => if retires cfg m then some (c.goto m .complete) else none
  | .complete, .stmt s err =>
      let c' := c.update s (completeIntent now)
      match s with
      | .done => some c'.leave
      | _ => some (c'.goto m (.requeue ("completing: " ++ err)))
  | _, _ => none

/-! ## What one step can do -/

/-- The steps that only move the execution to its next call. -/
inductive Quiet : Phase → Answer → Phase → Prop
  | notFound : Quiet .probe .ok .prepare
  | probeFailed
    (err : String) : Quiet .probe (.failed err) (.requeue ("sent-probe failed: " ++ err))
  | badMessage (a : Answer) (msg : String) : Quiet .prepare a (.failPermanently msg)
  | prepared : Quiet .prepare .ok .account
  | loaded : Quiet .account .ok .send
  | notLoaded (err : String) :
      Quiet .account (.failed err) (.requeue ("loading the account: " ++ err))
  | derivable : Quiet .postPrepare .ok .append
  | skipped (a : Answer) (h : a ≠ .ok ∨ ∃ e, envelopeOf m = .error e) : Quiet .postPrepare a .stamp
  | appended : Quiet .append .ok .stamp
  | appendFailed (a : Answer) (msg : String) (h : (∃ err, a = .failed err) ∨ found = false) :
      Quiet .append a (.requeue msg)
  | notRetired (a : Answer) : Quiet .retire a .complete

/-- Everything a step of an execution can do to its cell. -/
inductive RunMove : Phase → Answer → Cell → Prop
  | quiet {ph : Phase} {a : Answer} {ph' : Phase} (h : Quiet found m ph a ph') :
      RunMove ph a (c.goto m ph')
  | found (h : found = true) : RunMove .probe .ok (c.goto m (.persistFound persistTries))
  | acceptFound (tries : Nat) (err : String) :
      RunMove (.persistFound tries) (.stmt .done err) (c.accept now m recoveredReply)
  | retryFound (tries : Nat) (s : Stmt) (err : String) (ph' : Phase)
      (h : ph' = .persistFound (tries - 1) ∨ ∃ msg, ph' = .requeue msg) :
      RunMove (.persistFound tries) (.stmt s err)
        ((c.update s (markSendIntentAccepted now recoveredReply)).goto m ph')
  | transmit (env : IntentEnvelope) (tx : SmtpTx) (h : m.payload = some env) :
      RunMove .send (.smtp tx) (c.transmit cfg m env tx)
  | accept (ph : Phase) (reply err : String)
      (h : ph = .record reply ∨ ∃ tries, ph = .persistUnrecorded reply tries) :
      RunMove ph (.stmt .done err) (c.accept now m reply)
  | retryUnrecorded (ph : Phase) (reply : String) (s : Stmt) (err : String) (tries : Nat)
      (h : ph = .record reply ∨ ∃ tries, ph = .persistUnrecorded reply tries) :
      RunMove ph (.stmt s err)
        ((c.update s (markSendIntentAccepted now reply)).goto m (.persistUnrecorded reply tries))
  | abandon (reply : String) (tries : Nat) (s : Stmt) (err : String) :
      RunMove (.persistUnrecorded reply tries) (.stmt s err)
        (c.update s (markSendIntentAccepted now reply)).leave
  | requeue (msg : String) (s : Stmt) (jitter : Nat) : RunMove (.requeue msg) (.requeued s jitter)
        (c.update s (failIntent now msg (some (now + backoff cfg m.attempts jitter)))).leave
  | failPermanently (msg : String) (s : Stmt) (err : String) :
      RunMove (.failPermanently msg) (.stmt s err) (c.update s (failIntent now msg none)).leave
  | stamped (err : String) : RunMove .stamp (.stmt .done err)
        ((c.update .done (markSendIntentAppended now)).goto
          { m with appendedAt := some now } .retire)
  | notStamped (s : Stmt) (err msg : String) : RunMove .stamp (.stmt s err)
        ((c.update s (markSendIntentAppended now)).goto m (.requeue msg))
  | retired (h : retires cfg m = true) :
      RunMove .retire .ok ((c.happened .retired).goto m .complete)
  | completed (err : String) :
      RunMove .complete (.stmt .done err) (c.update .done (completeIntent now)).leave
  | notCompleted (s : Stmt) (err msg : String) :
      RunMove .complete (.stmt s err) ((c.update s (completeIntent now)).goto m (.requeue msg))

/-- **Inversion of a step.**  Every later fact about an execution is read off
`RunMove`, never off `runStep`. -/
theorem runStep_move {ph : Phase} {a : Answer} {c' : Cell}
    (h : runStep cfg now stopping found c m ph a = some c') :
    RunMove cfg now found c m ph a c' := by
  unfold runStep at h
  split at h
  · -- the probe
    cases h
    cases found with
    | true => exact .found rfl
    | false => exact .quiet .notFound
  · cases h; exact .quiet (.probeFailed _)
  · -- persisting what the probe found
    split at h
    · cases h; exact .acceptFound _ _
    · simp only at h
      split at h <;> cases h
      · exact .retryFound _ _ _ _ (.inr ⟨_, rfl⟩)
      · exact .retryFound _ _ _ _ (.inl rfl)
  · split at h <;> cases h
    · exact .quiet (.badMessage _ _)
    · exact .quiet .prepared
  · split at h <;> cases h <;> exact .quiet (.badMessage _ _)
  · cases h; exact .quiet .loaded
  · cases h; exact .quiet (.notLoaded _)
  · -- the transaction
    split at h
    · cases h
    · next henv => cases h; exact .transmit _ _ henv
  · -- recording the acceptance
    split at h <;> cases h
    · exact .accept _ _ _ (.inl rfl)
    · exact .retryUnrecorded _ _ _ _ _ (.inl rfl)
  · split at h
    · cases h; exact .accept _ _ _ (.inr ⟨_, rfl⟩)
    · simp only at h
      split at h <;> cases h
      · exact .abandon _ _ _ _
      · exact .retryUnrecorded _ _ _ _ _ (.inr ⟨_, rfl⟩)
  · split at h <;> cases h
    exact .requeue _ _ _
  · cases h; exact .failPermanently _ _ _
  · -- `postSend`
    split at h <;> cases h
    · next he => exact .quiet (.skipped _ (.inr ⟨_, he⟩))
    · exact .quiet .derivable
  · cases h; exact .quiet (.skipped _ (.inl (by simp)))
  · cases h; exact .quiet .appended
  · cases h; exact .quiet (.appendFailed _ _ (.inl ⟨_, rfl⟩))
  · split at h <;> cases h
    next hf => exact .quiet (.appendFailed _ _ (.inr (by simpa using hf)))
  · simp only at h
    split at h <;> cases h
    · exact .stamped _
    · exact .notStamped _ _ _
  · split at h <;> cases h
    · next hr => exact .retired hr
    · exact .quiet (.notRetired _)
  · split at h <;> cases h
    exact .quiet (.notRetired _)
  · simp only at h
    split at h <;> cases h
    · exact .completed _
    · exact .notCompleted _ _ _
  · cases h

end Step

end Moov.Submit
