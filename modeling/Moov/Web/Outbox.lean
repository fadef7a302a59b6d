import Mathlib.Data.List.Sort
import Moov.Lib.Run

/-!
# The offline outbox

`web/src/offline/outbox.ts` and the callers of it in `MailScreen.tsx` and
`OfflineProvider.tsx`.  The queue is one object store that every tab of the browser shares;
what a tab does with it is a chain of awaits, and between two awaits anything else may
happen.

* `markSending`, `markFailure`, `retryItem`, `drainable`, `list` are the pure part;
* a `Job` is a chain of awaits that has begun: `drainQueue`, `reclaimStuck`, a retry or a
  discard, at the await it stands before;
* `advance` does what stands behind that await, and `step` lets any job advance, or its tab
  close;
* `accepted`, `queued` and `discarded` record what the server took, what was queued and
  what the user threw away.

A `put`, a `remove` and a `list` always commit here.  `idb.ts` lets them fail without a word,
and then the item stays as it was, or the listing is empty.
-/

namespace Moov.Web

/-! ## Items -/

inductive OutboxState
  | queued
  | sending
  | failed
deriving DecidableEq

def maxAttempts : Nat := 3

/-- `OutboxItem`, without the message itself. -/
structure OutboxItem where
  id : Nat
  accountId : String
  state : OutboxState
  queuedAt : Nat
  attempts : Nat
  lastError : Option String
deriving DecidableEq

def markSending (item : OutboxItem) : OutboxItem :=
  { item with state := .sending, attempts := item.attempts + 1 }

def markFailure (item : OutboxItem) (error : String) (permanent : Bool) : OutboxItem :=
  let terminal := permanent || maxAttempts ≤ item.attempts
  { item with state := if terminal then .failed else .queued, lastError := some error }

def retryItem (item : OutboxItem) : OutboxItem :=
  { item with state := .queued, attempts := 0, lastError := none }

def drainable (items : List OutboxItem) : List OutboxItem :=
  (items.filter fun item => item.state = .queued).insertionSort fun a b => a.queuedAt ≤ b.queuedAt

/-! ## The object store -/

/-- `put`: one row for an id. -/
def put (item : OutboxItem) (rows : List OutboxItem) : List OutboxItem :=
  item :: rows.filter fun r => r.id ≠ item.id

/-- `remove`. -/
def remove (id : Nat) (rows : List OutboxItem) : List OutboxItem :=
  rows.filter fun r => r.id ≠ id

/-- `list`: `getAll` in the order of the keys, of one account, oldest first. -/
def list (rows : List OutboxItem) (accountId : String) : List OutboxItem :=
  ((rows.insertionSort fun a b => a.id ≤ b.id).filter fun r =>
    r.accountId = accountId).insertionSort
    fun a b => a.queuedAt ≤ b.queuedAt

variable {item r : OutboxItem} {rows : List OutboxItem} {id x : Nat}

lemma mem_put : r ∈ put item rows ↔ r = item ∨ (r ∈ rows ∧ r.id ≠ item.id) := by
  simp [put]

lemma mem_remove : r ∈ remove id rows ↔ r ∈ rows ∧ r.id ≠ id := by
  simp [remove]

/-! ## What is under way -/

/-- What the transport reported. -/
inductive SendAttempt
  | sent
  | failed (error : String) (permanent : Bool)
deriving DecidableEq

/-- What becomes of a call of `sendDraft`: the server took the message, it refused the
message, or the call threw (or there was no identity to send as) and did not reach it. -/
inductive Outcome
  | accepted
  | refused (error : String)
  | threw (error : String)
deriving DecidableEq

/-- A chain of awaits, by the one it stands before.  `sent` is what a drain has to remove
when it is through. -/
inductive Job
  /-- `drainQueue`: the listing. -/
  | drain (accountId : String)
  /-- The put of the item as `sending`. -/
  | mark (sent : List Nat) (item : OutboxItem) (rest : List OutboxItem)
  /-- The call of the transport. -/
  | send (sent : List Nat) (item : OutboxItem) (rest : List OutboxItem)
  /-- The answer of the transport, which is on its way. -/
  | reply (sent : List Nat) (item : OutboxItem) (attempt : SendAttempt) (rest : List OutboxItem)
  /-- The removals after the drain. -/
  | finish (sent : List Nat)
  /-- `reclaimStuck`: the listing. -/
  | reclaim (accountId : String)
  /-- `reclaimStuck`: the puts. -/
  | requeue (stuck : List OutboxItem)
  /-- `retryOutboxItem`: the put of the copy that is on the screen. -/
  | retry (item : OutboxItem)
  /-- `discardOutboxItem`, confirmed. -/
  | discard (id : Nat)
  | done
deriving DecidableEq

/-- The head of the loop of `drainOutbox`. -/
def next (sent : List Nat) : List OutboxItem → Job
  | [] => .finish sent
  | item :: rest => .mark sent item rest

/-- The database, what its tabs are at, and what has happened. -/
structure Browser where
  rows : List OutboxItem
  jobs : List Job
  accepted : List Nat
  queued : List Nat
  discarded : List Nat

def Browser.empty : Browser := ⟨[], [], [], [], []⟩

/-- What stands behind the await of a job. -/
def advance (w : Browser) (outcome : Outcome) : Job → Option (Browser × Job)
  | .drain accountId =>
      let items := list w.rows accountId
      if items = [] then some (w, .done) else some (w, next [] (drainable items))
  | .mark sent item rest =>
      some ({ w with rows := put (markSending item) w.rows }, .send sent (markSending item) rest)
  | .send sent item rest =>
      match outcome with
      | .accepted =>
          some ({ w with accepted := item.id :: w.accepted }, .reply sent item .sent rest)
      | .refused error => some (w, .reply sent item (.failed error true) rest)
      | .threw error => some (w, .reply sent item (.failed error false) rest)
  | .reply sent item .sent rest => some (w, next (sent ++ [item.id]) rest)
  | .reply sent item (.failed error permanent) rest =>
      let afterFailure := markFailure item error permanent
      some ({ w with rows := put afterFailure w.rows },
        if afterFailure.state = .failed then next sent rest else .finish sent)
  | .finish [] => some (w, .done)
  | .finish (id :: sent) => some ({ w with rows := remove id w.rows }, .finish sent)
  | .reclaim accountId =>
      some (w, .requeue ((list w.rows accountId).filter fun r => r.state = .sending))
  | .requeue [] => some (w, .done)
  | .requeue (item :: stuck) =>
      some ({ w with rows := put { item with state := .queued } w.rows }, .requeue stuck)
  | .retry item => some ({ w with rows := put (retryItem item) w.rows }, .drain item.accountId)
  | .discard id =>
      some ({ w with rows := remove id w.rows, discarded := id :: w.discarded }, .done)
  | .done => none

inductive Action
  /-- `queueForLater`. -/
  | enqueue (item : OutboxItem)
  /-- The connection comes back: `online`, or the event stream. -/
  | drain (accountId : String)
  /-- A tab starts. -/
  | reclaim (accountId : String)
  /-- The user retries a failed item of the list on the screen, which may be an old one. -/
  | retry (item : OutboxItem)
  | discard (id : Nat)
  /-- A job goes on. -/
  | go (i : Nat) (outcome : Outcome)
  /-- The tab of a job is closed. -/
  | close (i : Nat)
deriving DecidableEq

def step (w : Browser) : Action → Option Browser
  | .enqueue item =>
      if item.id ∉ w.queued ∧ item.state = .queued then
        some { w with rows := put item w.rows, queued := item.id :: w.queued }
      else none
  | .drain accountId => some { w with jobs := w.jobs ++ [.drain accountId] }
  | .reclaim accountId => some { w with jobs := w.jobs ++ [.reclaim accountId] }
  | .retry item =>
      if item.id ∈ w.queued ∧ item.state = .failed then
        some { w with jobs := w.jobs ++ [.retry item] }
      else none
  | .discard id => some { w with jobs := w.jobs ++ [.discard id] }
  | .go i outcome =>
      match w.jobs[i]? with
      | none => none
      | some job =>
          match advance w outcome job with
          | none => none
          | some (w', job') => some { w' with jobs := w.jobs.set i job' }
  | .close i =>
      if i < w.jobs.length then some { w with jobs := w.jobs.set i .done } else none

/-- A step starts a job, lets one advance, closes one or queues an item. -/
inductive Stepped (w : Browser) : Action → Browser → Prop
  | enqueue {item : OutboxItem} (hnew : item.id ∉ w.queued) (hstate : item.state = .queued) :
      Stepped w (.enqueue item) { w with rows := put item w.rows, queued := item.id :: w.queued }
  | start {a : Action} {job : Job}
      (hjob : (∃ account, job = .drain account) ∨ (∃ account, job = .reclaim account) ∨
        (∃ item, job = .retry item) ∨ ∃ id, job = .discard id) :
      Stepped w a { w with jobs := w.jobs ++ [job] }
  | go {i : Nat} {outcome : Outcome} {job job' : Job} {w' : Browser} (hjob : w.jobs[i]? = some job)
      (hadvance : advance w outcome job = some (w', job')) :
      Stepped w (.go i outcome) { w' with jobs := w.jobs.set i job' }
  | close {i : Nat} (hi : i < w.jobs.length) :
      Stepped w (.close i) { w with jobs := w.jobs.set i .done }

lemma stepped_of_step {w w' : Browser} {a : Action} (h : step w a = some w') : Stepped w a w' := by
  cases a with
  | enqueue =>
    obtain ⟨hnew, ⟨⟩⟩ := Option.ite_none_right_eq_some.1 h
    exact .enqueue hnew.1 hnew.2
  | drain account =>
    cases h
    exact .start (.inl ⟨account, rfl⟩)
  | reclaim account =>
    cases h
    exact .start (.inr (.inl ⟨account, rfl⟩))
  | retry item =>
    obtain ⟨-, ⟨⟩⟩ := Option.ite_none_right_eq_some.1 h
    exact .start (.inr (.inr (.inl ⟨item, rfl⟩)))
  | discard id =>
    cases h
    exact .start (.inr (.inr (.inr ⟨id, rfl⟩)))
  | go =>
    simp only [step] at h
    split at h
    · cases h
    · rename_i job hjob
      split at h
      · cases h
      · rename_i w' job' hadvance
        cases h
        exact .go hjob hadvance
  | close =>
    obtain ⟨hi, ⟨⟩⟩ := Option.ite_none_right_eq_some.1 h
    exact .close hi

end Moov.Web
