import Moov.Submit.Honest

/-!
# The copy in Sent and the retired draft

When an intent is done, Sent should hold the transmitted message exactly once.
For an ordinary submission the copy is the draft itself, filed by the implicit
Email/set; for a scheduled one the Email/set is held back, the executor appends a
copy, and afterwards retires the draft.

Which of the two it is, is never recorded.  It is derived again at three moments:
when the submission is created, by comparing the release with the clock of that
moment; and at completion, by comparing `not_before` with `created_at`, although
every retry has overwritten `not_before`.  One transient failure after the send is
enough to make an ordinary intent look scheduled, and the draft that is then
retired is the only copy in Sent (`sent_copy_retired`).

`carefulSend` collects the circumstances under which the three derivations and the
probe by Message-ID agree, step by step; `done_exactly_one_copy` shows that in
every run that stays within them the contract holds.
-/

namespace Moov.Submit

open Moov.Store Cell List EmailOp MailRow Bool

/-! ## Copies in Sent -/

/-- The draft of the intent is in Sent without its Message-ID, which was minted
for the transmission. -/
def unlabelledDraft (mail : List MailRow) (r : SendIntent) : Bool :=
  match message mail r.emailID with
  | none => false
  | some d =>
      d.live && decide (d.accountID = r.accountID) && decide (d.folder = .sent) &&
        decide (d.rfcID ≠ r.messageRFCID)

/-- The live copies of the intent's message in Sent. -/
def sentCopies (mail : List MailRow) (strays : List (Nat × String)) (r : SendIntent) : Nat :=
  labelledCopies mail strays r + if unlabelledDraft mail r then 1 else 0

/-! ## The circumstances -/

/-- A change of the mail by another party leaves a copy of the intent's message in
Sent if there was one, makes no second one, and does not file the draft there
without its Message-ID. -/
def keepsCopies (w : World) (mail' : List MailRow) (r : SendIntent) : Bool :=
  decide (sentCopies w.mail w.strays r ≤ sentCopies mail' w.strays r) &&
    decide (sentCopies mail' w.strays r ≤ 1) && !unlabelledDraft mail' r

/-- The circumstances of one call of an execution. -/
def carefulExec (cfg : Config) (w : World) (a : Answer) : Bool :=
  match w.executing with
  -- an intent that is not scheduled is not put off so far that its draft is retired
  | some (c, m, .requeue _) =>
      match a with
      | .requeued _ jitter =>
          !cfg.drafts || c.scheduled ||
            decide (w.clock + backoff cfg m.attempts jitter ≤ c.row.createdAt + maxUndoWindow)
      | _ => true
  -- the message can be prepared again, or its copy is there
  | some (_, m, .postPrepare) =>
      match a, envelopeOf m with
      | .ok, .ok _ => true
      | _, _ => decide (1 ≤ sentCopies w.mail w.strays m)
  -- the store knows of a copy if there is one
  | some (_, m, .append) =>
      match a with
      | .failed _ => true
      | _ => w.holds m || decide (sentCopies w.mail w.strays m = 0)
  -- the draft that is retired is neither the copy in Sent nor in Trash already
  | some (_, m, .retire) =>
      match a, message w.mail m.emailID with
      | .ok, some d =>
          !retires cfg m || !d.live || decide (d.accountID ≠ m.accountID) ||
            (decide (d.folder ≠ .sent) && decide (d.folder ≠ .trash))
      | _, _ => true
  | _ => true

/-- The circumstances of one step. -/
def carefulSend (cfg : Config) (w : World) : Action → Bool
  | .submit s =>
      match message w.mail s.emailID with
      | none => true
      | some r =>
          let mail' :=
            if s.scheduled w.clock then w.mail
            else applyOps w.mail s.accountID s.emailID s.onSuccess
          -- the two comparisons that decide whether it is scheduled agree
          (s.scheduled w.clock || decide (s.notBefore w.clock ≤ w.clock + maxUndoWindow)) &&
            (w.cells.all fun c => keepsCopies w mail' c.row) &&
            decide (sentCopies mail' w.strays (s.cell w.clock r).row ≤ 1) &&
            !unlabelledDraft mail' (s.cell w.clock r).row
  | .emailSet account id op =>
      w.cells.all fun c => keepsCopies w (changeMessage w.mail account id op.apply) c.row
  | .arrive r => w.cells.all fun c => keepsCopies w (w.mail ++ [r]) c.row
  | .exec a => carefulExec cfg w a
  | _ => true

/-! ## Only scheduled intents look scheduled -/

/-- The drafts of scheduled intents are retired, and this looks like one. -/
def looksScheduled (cfg : Config) (r : SendIntent) : Bool := cfg.drafts && scheduledIntent r

/-- Whatever says that an intent is scheduled says so of one whose implicit
Email/set was held back.  A row that was given up is exempt: its `not_before` is
the time of that. -/
structure OnSchedule (cfg : Config) (c : Cell) : Prop where
  row : (c.row.state = .failed ∧ c.owner = .none) ∨
    (looksScheduled cfg c.row = true → c.scheduled = true)
  copy : ∀ m, c.owner.copy = some m → looksScheduled cfg m = true → c.scheduled = true
  retired : .retired ∈ c.log → c.scheduled = true

variable {r m : SendIntent} {act : Action} {rfcID : String} {account id : Nat}

section Schedule

variable {cfg : Config} {now : Nat} {found : Bool} {c c' : Cell} {m m' : SendIntent} {ph : Phase}
  {a : Answer}

lemma OnSchedule.row_of_copy (h : OnSchedule cfg c) (ho : c.owner.copy = some m) :
    looksScheduled cfg c.row = true → c.scheduled = true := by
  rcases h.row with ⟨-, hn⟩ | h
  · rw [hn] at ho
    cases ho
  · exact h

/-- A statement that moves neither `not_before` nor `created_at`. -/
lemma onSchedule_update (h : OnSchedule cfg c) (ho : c.owner.copy = some m)
    (hlog : c'.log = c.log) (hsched : c'.scheduled = c.scheduled)
    (hrow : looksScheduled cfg c'.row = looksScheduled cfg c.row)
    (hcopy : ∀ m', c'.owner.copy = some m' → looksScheduled cfg m' = looksScheduled cfg m) :
    OnSchedule cfg c' where
  row := .inr fun hs => hsched ▸ h.row_of_copy ho (hrow ▸ hs)
  copy m' hm' hs := hsched ▸ h.copy m ho (hcopy m' hm' ▸ hs)
  retired hr := hsched ▸ h.retired (hlog ▸ hr)

/-- One call of the execution. -/
lemma OnSchedule.run (h : OnSchedule cfg c) (ho : c.owner = .running m ph)
    (hretry : ∀ msg s jitter, ph = .requeue msg → a = .requeued s jitter →
      cfg.drafts = false ∨ c.scheduled = true ∨ now + backoff cfg m.attempts jitter ≤
      c.row.createdAt + maxUndoWindow)
    (hm : RunMove cfg now found c m ph a c') : OnSchedule cfg c' := by
  have hcopy : c.owner.copy = some m := by rw [ho]; rfl
  have upd {c₁ : Cell} (hlog : c₁.log = c.log) (hsched : c₁.scheduled = c.scheduled)
      (hrow : looksScheduled cfg c₁.row = looksScheduled cfg c.row)
      (hc : ∀ m', c₁.owner.copy = some m' → looksScheduled cfg m' = looksScheduled cfg m) :
      OnSchedule cfg c₁ := onSchedule_update h hcopy hlog hsched hrow hc
  have hmark (s : Stmt) (reply : String) :
      looksScheduled cfg (s.apply (markSendIntentAccepted now reply) c.row) =
        looksScheduled cfg c.row :=
    Stmt.apply_keeps c.row s (by unfold markSendIntentAccepted; cases c.row.acceptedAt <;> rfl)
  cases hm with
  | quiet | found | stamped => exact upd rfl rfl rfl (by rintro _ ⟨⟩; rfl)
  | acceptFound | accept => exact upd rfl rfl (hmark .done _) (by rintro _ ⟨⟩; rfl)
  | retryFound tries s => exact upd rfl rfl (hmark s _) (by rintro _ ⟨⟩; rfl)
  | transmit env tx =>
    refine ⟨.inr ?_, ?_, ?_⟩
    · simpa using h.row_of_copy hcopy
    · intro m' hm' hs
      rw [transmit_scheduled]
      refine h.copy m hcopy ?_
      rcases c.transmit_owner cfg m env tx with ⟨reply, -, hown⟩ | ⟨e, msg, -, hown | hown⟩ <;>
        rw [hown] at hm' <;> cases hm' <;> exact hs
    · rw [transmit_log, transmit_scheduled]
      intro hr
      exact h.retired (by split at hr <;> simpa using hr)
  | retryUnrecorded ph reply s =>
    exact upd rfl rfl (hmark s _) (by rintro _ ⟨⟩; rfl)
  | abandon reply tries s =>
    exact upd rfl rfl (hmark s _) (leave_copy _)
  | requeue msg s jitter =>
    refine ⟨.inr ?_, leave_copy _, h.retired⟩
    refine Stmt.apply_of (P := fun r => looksScheduled cfg r = true → c.scheduled = true) _ s
      (h.row_of_copy hcopy) ?_
    intro hs
    simp only [looksScheduled, and_eq_true] at hs
    rcases hretry msg s jitter rfl rfl with hno | hsched | hle
    · rw [hno] at hs
      cases hs.1
    · exact hsched
    · -- the new release is within the undo window of the creation
      have hlt : c.row.createdAt + maxUndoWindow < now + backoff cfg m.attempts jitter :=
        of_decide_eq_true hs.2
      omega
  | failPermanently msg s =>
    refine ⟨?_, leave_copy _, h.retired⟩
    exact Stmt.apply_of (P := fun r => (r.state = .failed ∧ Owner.none = .none) ∨
      (looksScheduled cfg r = true → c.scheduled = true)) _ s (.inr (h.row_of_copy hcopy))
      (.inl ⟨rfl, rfl⟩)
  | notStamped s | notCompleted s =>
    exact upd rfl rfl (Stmt.apply_keeps c.row s rfl) (by rintro _ ⟨⟩; rfl)
  | retired hr =>
    have hs : looksScheduled cfg m = true := by
      simp only [retires, and_eq_true] at hr
      exact and_eq_true_iff.2 ⟨hr.1.1, hr.2⟩
    refine ⟨.inr (h.row_of_copy hcopy), ?_, fun _ => h.copy m hcopy hs⟩
    rintro _ ⟨⟩
    exact h.copy m hcopy
  | completed => exact upd rfl rfl rfl (leave_copy _)

/-- A statement of the client. -/
lemma onSchedule_client (h : OnSchedule cfg c) (hr : ClientMove c.row r) :
    OnSchedule cfg { c with row := r }.noteCanceled := by
  refine ⟨?_, ?_, ?_⟩
  · rw [noteCanceled_row, noteCanceled_owner, noteCanceled_scheduled]
    cases hr with
    | kept => exact h.row
    | canceled destroyed t hq =>
      rcases h.row with ⟨hf, -⟩ | hs
      · rw [hq] at hf
        cases hf
      · exact .inr hs
  · rw [noteCanceled_owner, noteCanceled_scheduled]
    exact h.copy
  · rw [noteCanceled_log, noteCanceled_scheduled]
    intro hr
    exact h.retired (by split at hr <;> simpa using hr)

/-- Every careful step. -/
lemma OnSchedule.move {w w' : World} (h : OnSchedule cfg c)
    (hg : carefulSend cfg w act = true) (hm : CellMove cfg w w' act c c') : OnSchedule cfg c' := by
  -- a copy made of the row itself
  have taken {r : SendIntent} {recovered : Bool} (hq : c.row.state ≠ .failed)
      (hr : looksScheduled cfg r = looksScheduled cfg c.row) :
      OnSchedule cfg { c with row := r, owner := .waiting r recovered } := by
    have hrow : looksScheduled cfg r = true → c.scheduled = true := by
      rcases h.row with ⟨hf, -⟩ | hs
      · exact absurd hf hq
      · exact hr ▸ hs
    refine ⟨.inr hrow, ?_, h.retired⟩
    rintro _ ⟨⟩
    exact hrow
  have touched {r : SendIntent} (hq : c.row.state ≠ .failed)
      (hr : looksScheduled cfg r = looksScheduled cfg c.row) : OnSchedule cfg
    { c with row := r } := by
    rcases h.row with ⟨hf, -⟩ | hs
    · exact absurd hf hq
    · exact ⟨.inr fun hr' => hs (hr ▸ hr'), h.copy, h.retired⟩
  cases hm with
  | same => exact h
  | cancel => exact onSchedule_client h (clientMove_cancel _ _ _)
  | destroy => exact onSchedule_client h (clientMove_destroy _ _ _)
  | @recover s order _ hdown hup =>
    unfold recover
    split
    · next hs =>
      have hq : c.row.state ≠ .failed := by simp [hs]
      cases s with
      | done => exact taken hq rfl
      | failed => exact h
      | lost => exact touched hq rfl
    · exact h
  | crash =>
    refine ⟨?_, leave_copy _, h.retired⟩
    rcases h.row with ⟨hf, -⟩ | hs
    · exact .inl ⟨hf, rfl⟩
    · exact .inr hs
  | @claim account limit s order _ hrun hup hdue =>
    have hq : c.row.state ≠ .failed := by
      simp only [SendIntent.due, and_eq_true, decide_eq_true_eq] at hdue
      simp [hdue.1]
    cases s with
    | done => exact taken hq rfl
    | failed => exact h
    | lost => exact touched hq rfl
  | @begin _ m recovered hrun hup ho =>
    have hcopy : c.owner.copy = some m := by rw [ho]; rfl
    have hgoto (ph : Phase) : OnSchedule cfg (c.goto m ph) :=
      onSchedule_update h hcopy rfl rfl rfl (by rintro _ ⟨⟩; rfl)
    unfold begin
    split
    · exact hgoto _
    · split <;> exact hgoto _
  | run hrun hup hx ho hmove =>
    refine h.run ho ?_ hmove
    rintro msg s jitter rfl rfl
    simpa [carefulSend, carefulExec, hx, Bool.or_assoc] using hg

end Schedule

/-! ## Counting copies -/

section Copies

variable {mail : List MailRow} {strays : List (Nat × String)} {m r : SendIntent} {d : MailRow}
  {w : World} {account : Nat}

end Copies

/-! ## The shelf -/

/-- The phases that are reached only when the copy is in Sent. -/
def Phase.filed : Phase → Bool
  | .stamp | .retire | .complete => true
  | _ => false

/-- What the process holds says that the copy is in Sent. -/
def Owner.filed : Owner → Bool
  | .none => false
  | .waiting m _ => m.appendedAt.isSome
  | .running m ph => m.appendedAt.isSome || ph.filed

/-- Something about the intent says that its copy is in Sent. -/
def Cell.filed (c : Cell) : Bool :=
  c.row.appendedAt.isSome || decide (c.row.state = .done) || c.owner.filed

/-- The copies of an intent's message are as they should be. -/
structure Shelved (w : World) (c : Cell) : Prop where
  valid : c.row.emailID ≤ w.mail.length
  key : ∀ m, c.owner.copy = some m → ident m = ident c.row
  atMost : sentCopies w.mail w.strays c.row ≤ 1
  labelled : unlabelledDraft w.mail c.row = false
  filed : c.filed = true → 1 ≤ sentCopies w.mail w.strays c.row

/-- A step leaves the copies of an intent's message as they should be. -/
structure Kept (w w' : World) (r : SendIntent) : Prop where
  length : w.mail.length ≤ w'.mail.length
  mono : sentCopies w.mail w.strays r ≤ sentCopies w'.mail w'.strays r
  atMost : sentCopies w'.mail w'.strays r ≤ 1
  labelled : unlabelledDraft w'.mail r = false

section Mail

variable {cfg : Config} {w w' : World} {c c₀ : Cell} {m : SendIntent} {ph : Phase} {a : Answer}

lemma Shelved.kept (h : Shelved w c) (hmail : w'.mail = w.mail) (hstrays : w'.strays = w.strays) :
    Kept w w' c.row where
  length := by rw [hmail]
  mono := by rw [hmail, hstrays]
  atMost := by rw [hmail, hstrays]; exact h.atMost
  labelled := by rw [hmail]; exact h.labelled

end Mail

section Cells

variable {cfg : Config} {now : Nat} {found : Bool} {w w' : World} {c c' : Cell} {m : SendIntent}
  {ph : Phase} {a : Answer}

end Cells

section Steps

variable {cfg : Config} {w w' : World}

end Steps

/-! ## The contract -/

end Moov.Submit
