import Moov.Lib.Run
import Moov.Submit.Executor

/-!
# The send path as one system

The executor does not run alone.  The JMAP layer creates, cancels and destroys
submissions while it works, applies the client's `onSuccess` patches to the very
draft that is being sent, and users and other programs move mail about; the
process is stopped, killed and started again.  A `World` is the state of all of
that for one store, an `Action` one indivisible step of any of the parties, and
`step` what the action does, or `none` where it cannot happen.

There is one daemon and its executor is one goroutine: it claims a batch only
when it has nothing left to do, and executes the batch in order
(`runOnce`, `recover`).
-/

namespace Moov.Submit

open Moov.Store List

/-! ## The messages of the store -/

/-- The mailboxes the send path distinguishes. -/
inductive Folder
  | drafts
  | sent
  | trash
  | other (n : Nat)
  deriving DecidableEq

/-- One message row: the account it belongs to, where it is, the Message-ID the
store read from it (empty when it has none), and whether it is alive. -/
structure MailRow where
  accountID : Nat
  folder : Folder
  rfcID : String
  live : Bool
  deriving DecidableEq

/-- The message with the given id; ids start at 1, and 0 is no message. -/
def message (mail : List MailRow) (id : Nat) : Option MailRow :=
  if id = 0 then none else mail[id - 1]?

/-- Change the message with the given id, if it is a live one of the account. -/
def changeMessage (mail : List MailRow) (account id : Nat) (f : MailRow → MailRow) :
    List MailRow :=
  match message mail id with
  | none => mail
  | some r => if r.live ∧ r.accountID = account then mail.set (id - 1) (f r) else mail

/-- A live copy in Sent under the given Message-ID. -/
def MailRow.isSentCopy (account : Nat) (rfcID : String) (r : MailRow) : Bool :=
  r.live && decide (r.accountID = account) && decide (r.folder = .sent) && decide (r.rfcID = rfcID)

/-- `SentContainsMessageID`: asked of the store, and never found by an empty
Message-ID. -/
def sentContainsMessageID (mail : List MailRow) (account : Nat) (rfcID : String) : Bool :=
  decide (rfcID ≠ "") && mail.any (MailRow.isSentCopy account rfcID)

/-- What a change of a message can be: a move to another mailbox, the destroy of
JMAP (to Trash first, for good from there), or a removal by other software. -/
inductive EmailOp
  | moveTo (folder : Folder)
  | destroy
  | remove
  deriving DecidableEq

/-- The row after the change.  `destroy` is `ApplyDestroy`. -/
def EmailOp.apply : EmailOp → MailRow → MailRow
  | .moveTo folder, r => { r with folder := folder }
  | .destroy, r => if r.folder = .trash then { r with live := false }
    else { r with folder := .trash }
  | .remove, r => { r with live := false }

/-- The messages after a list of changes to one of them. -/
def applyOps (mail : List MailRow) (account id : Nat) : List EmailOp → List MailRow
  | [] => mail
  | op :: ops => applyOps (changeMessage mail account id op.apply) account id ops

/-! ## Submissions -/

/-- `MinUndoWindow`, `DefaultUndoWindow` and the clamp of the undo window. -/
def clampUndoWindow (d : Nat) : Nat :=
  if d = 0 then 10 * second
  else if d < 5 * second then 5 * second
  else if maxUndoWindow < d then maxUndoWindow
  else d

/-- One creation of an `EmailSubmission/set` call: the draft, the envelope, the
release asked for, the patches of the implicit Email/set that succeed, the
Message-ID minted when the draft has none, and how long after the insert the
handler asks whether the submission is a scheduled one. -/
structure Submission where
  accountID : Nat
  emailID : Nat
  envelope : IntentEnvelope
  undoWindow : Nat
  sendAt : Option Nat
  minted : { id : String // id ≠ "" }
  lag : Nat
  onSuccess : List EmailOp
  deriving DecidableEq

/-- The release time: a requested one in the future replaces the undo window. -/
def Submission.notBefore (now : Nat) (s : Submission) : Nat :=
  match s.sendAt with
  | some t => if now < t then t else now + clampUndoWindow s.undoWindow
  | none => now + clampUndoWindow s.undoWindow

/-- `scheduledSubmission`, which compares with the time of asking. -/
def Submission.scheduled (now : Nat) (s : Submission) : Bool :=
  decide (now + s.lag + maxUndoWindow < s.notBefore now)

/-- The intent a submission of the draft `r` inserts. -/
def Submission.cell (now : Nat) (s : Submission) (r : MailRow) : Cell where
  row := enqueueSendIntent now
    { accountID := s.accountID
      emailID := s.emailID
      messageRFCID := if r.rfcID = "" then s.minted.1 else r.rfcID
      payload := s.envelope
      notBefore := s.notBefore now }
  owner := .none
  scheduled := s.scheduled now
  log := []

/-! ## The process and its intents -/

namespace Cell

variable (now account : Nat) (s : Stmt) (c : Cell)

/-- After a statement of the client: note it when the row is canceled now. -/
def noteCanceled : Cell := if c.row.state = .canceled then c.happened .canceled else c

/-- `EmailSubmission/set` update to canceled. -/
def cancel : Cell := { c with row := (cancelSendIntent now account c.row).1 }.noteCanceled

/-- `EmailSubmission/set` destroy. -/
def destroy : Cell := { c with row := destroySendIntent now account c.row }.noteCanceled

@[simp] lemma noteCanceled_row : c.noteCanceled.row = c.row := by
  unfold noteCanceled
  split <;> rfl

@[simp] lemma noteCanceled_owner : c.noteCanceled.owner = c.owner := by
  unfold noteCanceled
  split <;> rfl

@[simp] lemma noteCanceled_scheduled : c.noteCanceled.scheduled = c.scheduled := by
  unfold noteCanceled
  split <;> rfl

lemma noteCanceled_log :
    c.noteCanceled.log = if c.row.state = .canceled then .canceled :: c.log else c.log := by
  unfold noteCanceled
  split <;> rfl

lemma subset_noteCanceled_log : c.log ⊆ c.noteCanceled.log := by
  rw [noteCanceled_log]
  split
  · exact subset_cons_self _ _
  · exact List.Subset.refl _

/-- The claim of one row; without the confirmation nobody holds it. -/
def claim : Cell :=
  match s with
  | .done => { c with row := claimRow now c.row, owner := .waiting (claimRow now c.row) false }
  | .failed => c
  | .lost => { c with row := claimRow now c.row }

/-- The recovery of one row at startup, if it is in flight. -/
def recover : Cell :=
  if c.row.state = .inFlight then
    match s with
    | .done => { c with row := recoverRow now c.row, owner := .waiting (recoverRow now c.row) true }
    | .failed => c
    | .lost => { c with row := recoverRow now c.row }
  else c

/-- The execution of a claimed copy begins: an accepted one goes to `postSend`, a
repeated one asks the probe first. -/
def begin (m : SendIntent) (recovered : Bool) : Cell :=
  if m.accepted then c.goto m (postSend m)
  else if recovered ∨ 1 < m.attempts then c.goto m .probe
  else c.goto m .prepare

end Cell

/-- The state of the send path.  The key of an intent is its position in `cells`.
`queue` holds the claimed intents still to execute, `current` the one an
execution is at, `strays` the copies in Sent (account and Message-ID) that the
server has and the store does not know, and `expunged` the messages a step of
the executor deleted for good. -/
structure World where
  clock : Nat
  up : Bool
  stopping : Bool
  cells : List Cell
  queue : List Nat
  current : Option Nat
  mail : List MailRow
  strays : List (Nat × String)
  expunged : List Nat
  deriving DecidableEq

/-- Before anything is submitted. -/
def World.Fresh (w : World) : Prop :=
  w.up = false ∧ w.cells = [] ∧ w.queue = [] ∧ w.current = none ∧ w.expunged = []

/-- The store's answer to the probe for the intent `m`. -/
def World.holds (w : World) (m : SendIntent) : Bool :=
  sentContainsMessageID w.mail m.accountID m.messageRFCID

/-- `ORDER BY not_before, id`. -/
def World.claimsBefore (w : World) (i j : Nat) : Bool :=
  match w.cells[i]?, w.cells[j]? with
  | some a, some b =>
      decide (a.row.notBefore < b.row.notBefore) ||
        (decide (a.row.notBefore = b.row.notBefore) && decide (i ≤ j))
  | _, _ => true

/-- The rows a claim takes: the due ones of the account, oldest first. -/
def World.claimable (w : World) (account limit : Nat) : List Nat :=
  let due := (List.range w.cells.length).filter fun i =>
    match w.cells[i]? with
    | none => false
    | some c => decide (c.row.accountID = account) && c.row.due w.clock
  (due.insertionSort fun i j => w.claimsBefore i j = true).take (if limit = 0 then 10 else limit)

/-- The rows in flight. -/
def World.inFlight (w : World) : List Nat :=
  (List.range w.cells.length).filter fun i =>
    match w.cells[i]? with
    | none => false
    | some c => decide (c.row.state = .inFlight)

/-- One step of one of the parties. -/
inductive Action
  /-- Time passes. -/
  | tick (d : Nat)
  /-- `EmailSubmission/set` creates, with its implicit Email/set. -/
  | submit (s : Submission)
  | cancel (account id : Nat)
  | destroy (account id : Nat)
  /-- Any other change of a message, by any party. -/
  | emailSet (account id : Nat) (op : EmailOp)
  /-- A message the store did not have appears in it. -/
  | arrive (r : MailRow)
  /-- The watcher stores the oldest of the copies the store did not know. -/
  | reflect
  /-- The process starts and recovers; `order` is the order the rows come in. -/
  | start (s : Stmt) (order : List Nat)
  | shutdown
  /-- The process ends, in whatever way. -/
  | crash
  | claim (account limit : Nat) (s : Stmt) (order : List Nat)
  /-- The next claimed row is taken up. -/
  | next
  /-- The pending call of the execution is answered. -/
  | exec (a : Answer)
  deriving DecidableEq

/-- What a step of an execution does to the messages: the APPEND that lands, and
the draft that is retired. -/
def World.mailEffect (cfg : Config) (w : World) (m : SendIntent) : Phase → Answer → World
  | .append, .ok =>
      if w.holds m then w
      else { w with mail := w.mail ++ [⟨m.accountID, .sent, m.messageRFCID, true⟩] }
  | .append, .landed true _ =>
      { w with mail := w.mail ++ [⟨m.accountID, .sent, m.messageRFCID, true⟩] }
  | .append, .landed false _ => { w with strays := w.strays ++ [(m.accountID, m.messageRFCID)] }
  | .retire, .ok =>
      if retires cfg m then
        match message w.mail m.emailID with
        | none => w
        | some r =>
            { w with
              mail := changeMessage w.mail m.accountID m.emailID EmailOp.destroy.apply
              expunged :=
                if r.live ∧ r.accountID = m.accountID ∧ r.folder = .trash then
                  m.emailID :: w.expunged
                else w.expunged }
      else w
  | _, _ => w

/-- One step of the current execution. -/
def execStep (cfg : Config) (w : World) (a : Answer) : Option World :=
  match w.current with
  | none => none
  | some i =>
      match w.cells[i]? with
      | none => none
      | some c =>
          match c.owner with
          | .running m ph =>
              match runStep cfg w.clock w.stopping (w.holds m) c m ph a with
              | none => none
              | some c' =>
                  let w' := w.mailEffect cfg m ph a
                  some { w' with
                    cells := w.cells.set i c'
                    current := if c'.owner = .none then none else some i }
          | _ => none

/-- The intent an execution is at, with its copy in memory and the pending call. -/
def World.executing (w : World) : Option (Cell × SendIntent × Phase) :=
  match w.current with
  | none => none
  | some i =>
      match w.cells[i]? with
      | none => none
      | some c =>
          match c.owner with
          | .running m ph => some (c, m, ph)
          | _ => none

/-- Change the cells with the given keys. -/
def mapAt (f : Cell → Cell) (ids : List Nat) (cells : List Cell) : List Cell :=
  cells.mapIdx fun i c => if i ∈ ids then f c else c

/-- The send path. -/
def step (cfg : Config) (w : World) : Action → Option World
  | .tick d => some { w with clock := w.clock + d }
  | .submit s =>
      match message w.mail s.emailID with
      | none => none
      | some r =>
          if r.live ∧ r.accountID = s.accountID then
            some { w with
              clock := w.clock + s.lag
              cells := w.cells ++ [s.cell w.clock r]
              mail :=
                if s.scheduled w.clock then w.mail
                else applyOps w.mail s.accountID s.emailID s.onSuccess }
          else none
  | .cancel account id =>
      some { w with cells := mapAt (Cell.cancel w.clock account) [id] w.cells }
  | .destroy account id =>
      some { w with cells := mapAt (Cell.destroy w.clock account) [id] w.cells }
  | .emailSet account id op => some { w with mail := changeMessage w.mail account id op.apply }
  | .arrive r => some { w with mail := w.mail ++ [r] }
  | .reflect =>
      match w.strays with
      | [] => none
      | (account, rfcID) :: rest =>
          some { w with mail := w.mail ++ [⟨account, .sent, rfcID, true⟩], strays := rest }
  | .start s order =>
      if w.up = false ∧ order.Perm w.inFlight then
        some { w with
          up := true
          stopping := false
          cells := w.cells.map (Cell.recover w.clock s)
          queue := if s = .done then order else [] }
      else none
  | .shutdown => if w.up then some { w with stopping := true } else none
  | .crash =>
      if w.up then
        some { w with up := false, queue := [], current := none, cells := w.cells.map Cell.leave }
      else none
  | .claim account limit s order =>
      if w.up ∧ w.current = none ∧ w.queue = [] ∧ order.Perm (w.claimable account limit) then
        some { w with
          cells := mapAt (Cell.claim w.clock s) order w.cells
          queue := if s = .done then order else [] }
      else none
  | .next =>
      match w.current, w.queue with
      | none, i :: rest =>
          match w.cells[i]? with
          | some c =>
              match c.owner with
              | .waiting m recovered =>
                  if w.up then
                    some { w with
                      cells := w.cells.set i (c.begin m recovered)
                      queue := rest
                      current := some i }
                  else none
              | _ => none
          | none => none
      | _, _ => none
  | .exec a => if w.up then execStep cfg w a else none

/-! ## What one step can do to one intent -/

/-- The ways an action changes an intent that was there before it. -/
inductive CellMove (cfg : Config) (w w' : World) : Action → Cell → Cell → Prop
  | same {a : Action} {c : Cell} (hup : w'.up = w.up) : CellMove cfg w w' a c c
  | cancel {account id : Nat} {c : Cell} (hup : w'.up = w.up) :
      CellMove cfg w w' (.cancel account id) c (c.cancel w.clock account)
  | destroy {account id : Nat} {c : Cell} (hup : w'.up = w.up) :
      CellMove cfg w w' (.destroy account id) c (c.destroy w.clock account)
  | recover {s : Stmt} {order : List Nat} {c : Cell} (hdown : w.up = false) (hup : w'.up = true) :
      CellMove cfg w w' (.start s order) c (c.recover w.clock s)
  | crash {c : Cell} (hdown : w'.up = false) : CellMove cfg w w' .crash c c.leave
  | claim {account limit : Nat} {s : Stmt} {order : List Nat} {c : Cell}
      (hrun : w.up = true) (hup : w'.up = true) (hdue : c.row.due w.clock = true) :
      CellMove cfg w w' (.claim account limit s order) c (c.claim w.clock s)
  | begin {c : Cell} {m : SendIntent} {recovered : Bool} (hrun : w.up = true) (hup : w'.up = true)
      (ho : c.owner = .waiting m recovered) : CellMove cfg w w' .next c (c.begin m recovered)
  | run {a : Answer} {c c' : Cell} {m : SendIntent} {ph : Phase}
      (hrun : w.up = true) (hup : w'.up = true) (hx : w.executing = some (c, m, ph))
      (ho : c.owner = .running m ph)
      (h : RunMove cfg w.clock (w.holds m) c m ph a c') : CellMove cfg w w' (.exec a) c c'

section Inversion

variable {cfg : Config} {w w' : World}

@[simp] lemma mailEffect_up (m : SendIntent) (ph : Phase) (a : Answer) :
    (w.mailEffect cfg m ph a).up = w.up := by
  unfold World.mailEffect
  split <;> try rfl
  all_goals split <;> try rfl
  split <;> rfl

/-- What the execution of one answer is made of. -/
lemma execStep_eq_some {a : Answer} (h : execStep cfg w a = some w') :
    ∃ i c m ph c', w.current = some i ∧ w.cells[i]? = some c ∧ c.owner = .running m ph ∧
      RunMove cfg w.clock (w.holds m) c m ph a c' ∧
      w' = { w.mailEffect cfg m ph a with
        cells := w.cells.set i c'
        current := if c'.owner = .none then none else some i } := by
  unfold execStep at h
  split at h
  · cases h
  · next i hi =>
    split at h
    · cases h
    · next c hc =>
      split at h
      · next m ph ho =>
        split at h
        · cases h
        · next c' hr =>
          cases h
          exact ⟨i, c, m, ph, c', hi, hc, ho, runStep_move _ _ _ _ _ _ hr, rfl⟩
      · cases h

lemma executing_eq {i : Nat} {c : Cell} {m : SendIntent} {ph : Phase} (hi : w.current = some i)
    (hc : w.cells[i]? = some c) (ho : c.owner = .running m ph) :
    w.executing = some (c, m, ph) := by
  simp [World.executing, hi, hc, ho]

/-- The intents after a change of some of them. -/
lemma mem_mapAt {f : Cell → Cell} {ids : List Nat} {cells : List Cell} {c' : Cell}
    (h : c' ∈ mapAt f ids cells) :
    c' ∈ cells ∨ ∃ i c, i ∈ ids ∧ cells[i]? = some c ∧ c' = f c := by
  obtain ⟨i, hi, rfl⟩ := mem_iff_getElem.1 h
  have hlen : i < cells.length := by simpa [mapAt] using hi
  simp only [mapAt, getElem_mapIdx]
  by_cases hm : i ∈ ids
  · exact .inr ⟨i, cells[i], hm, by simp [hlen], by simp [hm]⟩
  · exact .inl (by simp [hm])

/-- A claim only takes rows that are due. -/
lemma due_of_mem_claimable {account limit i : Nat} {c : Cell}
    (h : i ∈ w.claimable account limit) (hc : w.cells[i]? = some c) :
    c.row.due w.clock = true := by
  have hmem := (mem_insertionSort _).1 (mem_of_mem_take h)
  simp only [mem_filter, hc, Bool.and_eq_true] at hmem
  exact hmem.2.2

/-- **Inversion of a step, for one intent.**  Every intent after a step was there
before it and made one of the moves, or the step created it. -/
theorem step_cell {a : Action} (h : step cfg w a = some w') {c' : Cell} (hc : c' ∈ w'.cells) :
    (∃ c ∈ w.cells, CellMove cfg w w' a c c') ∨
      (∃ s r, a = .submit s ∧ message w.mail s.emailID = some r ∧ c' = s.cell w.clock r ∧
        w'.up = w.up) := by
  have same {c : Cell} (hm : c ∈ w.cells) (hup : w'.up = w.up) :
      (∃ c₀ ∈ w.cells, CellMove cfg w w' a c₀ c) ∨
        (∃ s r, a = .submit s ∧ message w.mail s.emailID = some r ∧ c = s.cell w.clock r ∧
          w'.up = w.up) :=
    .inl ⟨c, hm, .same hup⟩
  cases a with
  | tick | emailSet | arrive => cases h; exact same hc rfl
  | reflect | shutdown =>
    simp only [step] at h
    split at h <;> cases h
    exact same hc rfl
  | submit s =>
    simp only [step] at h
    split at h
    · cases h
    · next r hr =>
      split at h <;> cases h
      rcases mem_append.1 hc with hm | hm
      · exact same hm rfl
      · exact .inr ⟨s, r, rfl, hr, mem_singleton.1 hm, rfl⟩
  | cancel =>
    cases h
    rcases mem_mapAt hc with hm | ⟨i, c, -, hi, rfl⟩
    · exact same hm rfl
    · exact .inl ⟨c, mem_of_getElem? hi, .cancel rfl⟩
  | destroy =>
    cases h
    rcases mem_mapAt hc with hm | ⟨i, c, -, hi, rfl⟩
    · exact same hm rfl
    · exact .inl ⟨c, mem_of_getElem? hi, .destroy rfl⟩
  | start =>
    simp only [step] at h
    split at h <;> cases h
    next hg =>
      obtain ⟨c, hm, rfl⟩ := mem_map.1 hc
      exact .inl ⟨c, hm, .recover hg.1 rfl⟩
  | crash =>
    simp only [step] at h
    split at h <;> cases h
    obtain ⟨c, hm, rfl⟩ := mem_map.1 hc
    exact .inl ⟨c, hm, .crash rfl⟩
  | claim =>
    simp only [step] at h
    split at h <;> cases h
    next hg =>
      rcases mem_mapAt hc with hm | ⟨i, c, hi, hget, rfl⟩
      · exact same hm rfl
      · have hdue := due_of_mem_claimable (hg.2.2.2.mem_iff.1 hi) hget
        exact .inl ⟨c, mem_of_getElem? hget, .claim hg.1 hg.1 hdue⟩
  | next =>
    simp only [step] at h
    split at h <;> try cases h
    next i rest hcur hq =>
      split at h <;> try cases h
      next c hget =>
        split at h <;> try cases h
        next m recovered ho =>
          split at h <;> cases h
          next hup =>
            rcases mem_or_eq_of_mem_set hc with hm | rfl
            · exact same hm rfl
            · exact .inl ⟨c, mem_of_getElem? hget, .begin hup hup ho⟩
  | exec a =>
    obtain ⟨hup, h⟩ := Option.ite_none_right_eq_some.1 h
    obtain ⟨i, c, m, ph, c₁, hi, hget, ho, hrun, rfl⟩ := execStep_eq_some h
    rcases mem_or_eq_of_mem_set hc with hm | rfl
    · exact same hm (mailEffect_up m ph a)
    · exact .inl ⟨c, mem_of_getElem? hget,
        .run hup ((mailEffect_up m ph a).trans hup) (executing_eq hi hget ho) ho hrun⟩

/-! ## The invariant rule for intents -/

/-- **The rule.**  A property of single intents, which may depend on whether the
process is up, holds in every state of every guarded run when new intents have
it and every guarded move keeps it. -/
theorem forall_cells {G : World → Action → Prop} {P : Bool → Cell → Prop}
    (hnew : ∀ w s r, G w (.submit s) → message w.mail s.emailID = some r →
      P w.up (s.cell w.clock r))
    (hmove : ∀ w w' a c c', G w a → c ∈ w.cells → (∀ c₀ ∈ w.cells, P w.up c₀) →
      CellMove cfg w w' a c c' → P w'.up c')
    {as : List Action} (hfresh : w.Fresh) (hg : Run.Guarded (step cfg) G w as)
    (h : Run.exec (step cfg) w as = some w') : ∀ c ∈ w'.cells, P w'.up c := by
  refine Run.inv_exec (I := fun w : World => ∀ c ∈ w.cells, P w.up c) ?_ ?_ hg h
  · intro w₀ a w₁ ha hinv hstep c' hc'
    rcases step_cell hstep hc' with ⟨c, hc, hm⟩ | ⟨s, r, rfl, hr, rfl, hup⟩
    · exact hmove w₀ w₁ a c c' ha hc hinv hm
    · exact hup ▸ hnew w₀ s r ha hr
  · intro c hc
    rw [hfresh.2.1] at hc
    cases hc

end Inversion

/-! ## The message of an intent -/

/-- The copies in Sent under the Message-ID of the intent, known to the store or
not. -/
def labelledCopies (mail : List MailRow) (strays : List (Nat × String)) (r : SendIntent) : Nat :=
  mail.countP (MailRow.isSentCopy r.accountID r.messageRFCID) +
    strays.count (r.accountID, r.messageRFCID)

/-- The copy the process holds of an intent. -/
def Owner.copy : Owner → Option SendIntent
  | .none => .none
  | .waiting m _ => some m
  | .running m _ => some m

/-- What an intent's copies are counted by: account, draft and Message-ID. -/
def ident (r : SendIntent) : Nat × Nat × String := (r.accountID, r.emailID, r.messageRFCID)

section Message

variable {cfg : Config} {now account : Nat} {found : Bool} {rfcID : String} {w w' : World}
  {c c' : Cell} {m r : SendIntent} {ph : Phase} {a : Answer} {act : Action}

open Cell

/-- Nothing is held of a new intent. -/
lemma new_copy (now : Nat) (s : Submission) (r : MailRow) (m : SendIntent) :
    (s.cell now r).owner.copy ≠ some m := by
  simp [Submission.cell, Owner.copy]

/-- Nothing is held of an intent whose execution is over. -/
lemma leave_copy {P : SendIntent → Prop} (c : Cell) : ∀ m, c.leave.owner.copy = some m → P m := by
  simp [leave, Owner.copy]

lemma isSentCopy_appended :
    MailRow.isSentCopy r.accountID r.messageRFCID ⟨account, .sent, rfcID, true⟩ =
      decide ((account, rfcID) = (r.accountID, r.messageRFCID)) := by
  simp [MailRow.isSentCopy, Bool.decide_and]

/-- A new row is one more copy exactly when it is a copy. -/
lemma labelledCopies_append {mail : List MailRow} {strays : List (Nat × String)} {d : MailRow} :
    labelledCopies (mail ++ [d]) strays r = labelledCopies mail strays r +
      if d.isSentCopy r.accountID r.messageRFCID then 1 else 0 := by
  simp only [labelledCopies, countP_append, countP_singleton]
  omega

/-- A copy the store learns of is the same copy. -/
lemma labelledCopies_reflect {mail : List MailRow} {rest : List (Nat × String)} :
    labelledCopies (mail ++ [⟨account, .sent, rfcID, true⟩]) rest r =
      labelledCopies mail ((account, rfcID) :: rest) r := by
  rw [labelledCopies_append, isSentCopy_appended]
  simp only [labelledCopies, count_cons, beq_iff_eq, decide_eq_true_eq]
  omega

lemma labelledCopies_congr {mail : List MailRow} {strays : List (Nat × String)}
    (h : ident m = ident r) : labelledCopies mail strays m = labelledCopies mail strays r := by
  simp only [ident, Prod.mk.injEq] at h
  simp [labelledCopies, h]

lemma labelledCopies_of_holds (h : w.holds m = true) :
    0 < labelledCopies w.mail w.strays m := by
  simp only [World.holds, sentContainsMessageID, Bool.and_eq_true, any_eq_true] at h
  exact Nat.lt_of_lt_of_le (countP_pos_iff.2 h.2) (Nat.le_add_right _ _)

/-- The row and the copy of an execution stay those of one message. -/
lemma ident_run (ho : c.owner = .running m ph) (hkey : ident m = ident c.row)
    (hm : RunMove cfg now found c m ph a c') :
    ident c'.row = ident c.row ∧ ∀ m', c'.owner.copy = some m' → ident m' = ident c.row := by
  have hmark (s : Stmt) (reply : String) :
      ident (s.apply (markSendIntentAccepted now reply) c.row) = ident c.row :=
    Stmt.apply_keeps c.row s (by unfold markSendIntentAccepted; cases c.row.acceptedAt <;> rfl)
  have hfail (s : Stmt) (msg : String) (retryAt : Option Nat) :
      ident (s.apply (failIntent now msg retryAt) c.row) = ident c.row :=
    Stmt.apply_keeps c.row s (by cases retryAt <;> rfl)
  have left {c₁ : Cell} : ∀ m', c₁.leave.owner.copy = some m' → ident m' = ident c.row :=
    leave_copy _
  cases hm with
  | quiet | found | stamped | retired => exact ⟨rfl, by rintro _ ⟨⟩; exact hkey⟩
  | acceptFound | accept => exact ⟨hmark .done _, by rintro _ ⟨⟩; exact hkey⟩
  | retryFound tries s | retryUnrecorded ph reply s =>
    exact ⟨hmark s _, by rintro _ ⟨⟩; exact hkey⟩
  | transmit env tx =>
    refine ⟨by rw [transmit_row], ?_⟩
    intro m' hm'
    rcases c.transmit_owner cfg m env tx with ⟨reply, -, hown⟩ | ⟨e, msg, -, hown | hown⟩ <;>
      rw [hown] at hm' <;> cases hm' <;> exact hkey
  | abandon reply tries s => exact ⟨hmark s _, left⟩
  | requeue msg s | failPermanently msg s => exact ⟨hfail s _ _, left⟩
  | notStamped s | notCompleted s =>
    exact ⟨Stmt.apply_keeps c.row s rfl, by rintro _ ⟨⟩; exact hkey⟩
  | completed => exact ⟨rfl, left⟩

/-- Every step of the send path keeps the row and the copy those of one message. -/
lemma ident_move (hkey : ∀ m, c.owner.copy = some m → ident m = ident c.row)
    (hm : CellMove cfg w w' act c c') :
    ident c'.row = ident c.row ∧ ∀ m', c'.owner.copy = some m' → ident m' = ident c.row := by
  have client {r : SendIntent} (hr : ClientMove c.row r) :
      ident { c with row := r }.noteCanceled.row = ident c.row ∧
        ∀ m', { c with row := r }.noteCanceled.owner.copy = some m' → ident m' = ident c.row := by
    rw [noteCanceled_row, noteCanceled_owner]
    exact ⟨by cases hr <;> rfl, hkey⟩
  cases hm with
  | same => exact ⟨rfl, hkey⟩
  | cancel => exact client (clientMove_cancel _ _ _)
  | destroy => exact client (clientMove_destroy _ _ _)
  | @recover s order _ hdown hup =>
    unfold recover
    split
    · cases s with
      | done => exact ⟨rfl, by rintro _ ⟨⟩; rfl⟩
      | failed | lost => exact ⟨rfl, hkey⟩
    · exact ⟨rfl, hkey⟩
  | crash => exact ⟨rfl, leave_copy _⟩
  | @claim account limit s order _ hrun hup hdue =>
    cases s with
    | done => exact ⟨rfl, by rintro _ ⟨⟩; rfl⟩
    | failed | lost => exact ⟨rfl, hkey⟩
  | @begin _ m recovered hrun hup ho =>
    have hm : ident m = ident c.row := hkey m (by rw [ho]; rfl)
    have hgoto (ph : Phase) : ident (c.goto m ph).row = ident c.row ∧
        ∀ m', (c.goto m ph).owner.copy = some m' → ident m' = ident c.row :=
      ⟨rfl, by rintro _ ⟨⟩; exact hm⟩
    unfold begin
    split
    · exact hgoto _
    · split <;> exact hgoto _
  | run hrun hup hx ho hmove => exact ident_run ho (hkey _ (by rw [ho]; rfl)) hmove

/-- The steps of other parties that change the mail. -/
def Action.changesMail : Action → Bool
  | .submit _ | .emailSet _ _ _ | .arrive _ | .reflect => true
  | _ => false

/-- Only an execution expunges, and apart from it only four steps change the mail. -/
lemma step_mail (h : step cfg w act = some w') :
    (∃ a, act = .exec a) ∨ (w'.expunged = w.expunged ∧
      (act.changesMail = true ∨ (w'.mail = w.mail ∧ w'.strays = w.strays))) := by
  cases act with
  | exec a => exact .inl ⟨a, rfl⟩
  | tick | cancel | destroy => cases h; exact .inr ⟨rfl, .inr ⟨rfl, rfl⟩⟩
  | emailSet | arrive => cases h; exact .inr ⟨rfl, .inl rfl⟩
  | reflect =>
    simp only [step] at h
    split at h <;> cases h
    exact .inr ⟨rfl, .inl rfl⟩
  | submit =>
    simp only [step] at h
    split at h
    · cases h
    · split at h <;> cases h
      exact .inr ⟨rfl, .inl rfl⟩
  | next =>
    simp only [step] at h
    split at h <;> try cases h
    split at h <;> try cases h
    split at h <;> try cases h
    split at h <;> cases h
    exact .inr ⟨rfl, .inr ⟨rfl, rfl⟩⟩
  | _ =>
    simp only [step] at h
    split at h <;> cases h
    exact .inr ⟨rfl, .inr ⟨rfl, rfl⟩⟩

/-- What one call of an execution does to the mail. -/
lemma step_exec {a : Answer} (h : step cfg w (.exec a) = some w') :
    ∃ c m ph c', w.executing = some (c, m, ph) ∧ c ∈ w.cells ∧ c.owner = .running m ph ∧
      RunMove cfg w.clock (w.holds m) c m ph a c' ∧
      w'.mail = (w.mailEffect cfg m ph a).mail ∧ w'.strays = (w.mailEffect cfg m ph a).strays ∧
      w'.expunged = (w.mailEffect cfg m ph a).expunged := by
  simp only [step] at h
  split at h
  · obtain ⟨i, c, m, ph, c', hi, hc, ho, hm, rfl⟩ := execStep_eq_some h
    exact ⟨c, m, ph, c', executing_eq hi hc ho, mem_of_getElem? hc, ho, hm, rfl, rfl, rfl⟩
  · cases h

end Message

end Moov.Submit
