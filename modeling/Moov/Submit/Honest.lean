import Moov.Submit.Outbox

/-!
# No message is reported sent that never left

An intent is accepted when `accepted_at` is set, and only accepted intents are
completed.  The executor sets it in two places: after it has read the 250 to the
end of DATA, and on any later execution when Sent holds a message under the
intent's Message-ID, which it takes as proof of an earlier acceptance.

The second inference is not sound.  The draft carries the same Message-ID, and
the implicit Email/set of an ordinary submission files it into Sent the moment
the submission is created (`reported_sent_never_left`: one refused connection is
then enough).  It is sound in the runs in which nobody files a message into Sent
under the Message-ID of an intent that is still to be accepted (`filesSent`), and
there every intent that is accepted, or done, was taken by the server
(`accepted_only_if_sent`).
-/

namespace Moov.Submit

open Moov.Store

/-- The server answered 250 to the DATA of this intent. -/
def Cell.sent (c : Cell) : Prop := .serverAccepted ∈ c.log

instance (c : Cell) : Decidable c.sent := inferInstanceAs (Decidable (.serverAccepted ∈ c.log))

/-- What an execution at the given phase relies on. -/
def HonestRun (c : Cell) : Phase → Prop
  | .persistFound _ | .record _ | .persistUnrecorded _ _ => c.sent
  | .postPrepare | .append | .stamp | .retire | .complete => c.row.accepted = true
  | .probe | .prepare | .account | .send | .requeue _ | .failPermanently _ => True

/-- What the copy in memory relies on. -/
def HonestOwner (c : Cell) : Owner → Prop
  | .none => True
  | .waiting m _ => m.accepted = true → c.row.accepted = true
  | .running _ ph => HonestRun c ph

/-- The acceptance of an intent is only ever recorded after the fact. -/
structure Honest (c : Cell) : Prop where
  accepted : c.row.accepted = true → c.sent
  done : c.row.state = .done → c.row.accepted = true
  owner : HonestOwner c c.owner

/-- The server has not accepted the intent, which may still be executed. -/
def Cell.unsent (c : Cell) : Bool :=
  decide (¬ c.sent) && decide (c.owner ≠ .none ∨ c.row.state = .queued ∨ c.row.state = .inFlight)

/-- Sent holds nothing under the Message-ID of an unsent intent. -/
def World.sentOnly (w : World) : Bool :=
  w.cells.all fun c => !c.unsent || decide (labelledCopies w.mail w.strays c.row = 0)

/-- A submission, another Email/set or an arrival leaves nothing in Sent under the
Message-ID of an unsent intent, and no copy is appended under that of another one. -/
def filesSent (cfg : Config) (w : World) (a : Action) : Bool :=
  match a, w.executing with
  | .submit _, _ | .emailSet _ _ _, _ | .arrive _, _ => (step cfg w a).all World.sentOnly
  | .exec _, some (c₀, m, .append) => w.cells.all fun c =>
      !c.unsent || decide (c = c₀) || decide (c.row.accountID ≠ m.accountID) ||
        decide (c.row.messageRFCID ≠ m.messageRFCID)
  | _, _ => true

section Moves

variable {cfg : Config} {now : Nat} {found : Bool} {c c' c₁ : Cell} {m : SendIntent} {ph : Phase}
  {a : Answer}

/-- The copy in memory relies on the history and on `accepted_at` only. -/
lemma HonestOwner.mono (hlog : c.log ⊆ c'.log) (hrow : c'.row.accepted = c.row.accepted) :
    ∀ {o : Owner}, HonestOwner c o → HonestOwner c' o
  | .none, _ => trivial
  | .waiting _ _, h => fun hm => hrow.trans (h hm)
  | .running _ ph, h => by
      have hsent (hs : c.sent) : c'.sent := hlog hs
      have hacc (ha : c.row.accepted = true) : c'.row.accepted = true := hrow.trans ha
      cases ph <;> first | exact trivial | exact hsent h | exact hacc h

open Cell

section

variable (h : Honest c)
include h

/-- A change of the row that keeps `accepted_at` and does not complete it. -/
lemma Honest.of_row (hrow : c'.row.accepted = c.row.accepted)
    (hlog : c.log ⊆ c'.log) (hdone : c'.row.state = .done → c.row.state = .done)
    (howner : HonestOwner c' c'.owner) : Honest c' where
  accepted hacc := hlog (h.accepted (hrow ▸ hacc))
  done hs := hrow ▸ h.done (hdone hs)
  owner := howner

/-- After the statement that records an acceptance, whatever its fate. -/
lemma Honest.update_accepted (hsent : c.sent) (s : Stmt) (reply : String)
    (hrow : c₁.row = (c.update s (markSendIntentAccepted now reply)).row)
    (hlog : c₁.log = c.log) (howner : HonestOwner c₁ c₁.owner) : Honest c₁ where
  accepted _ := by
    rw [sent, hlog]
    exact hsent
  done := by
    rw [hrow]
    refine Stmt.apply_of (P := fun r => r.state = .done → r.accepted = true) _ s h.done ?_
    intro _
    simp
  owner := howner

lemma honest_accept (hsent : c.sent) (reply : String) : Honest (c.accept now m reply) := by
  refine h.update_accepted hsent .done reply rfl rfl ?_
  show HonestRun _ (postSend _)
  unfold postSend
  split <;> simp [HonestRun, accept, Stmt.apply]

lemma honest_transmit (env : IntentEnvelope) (tx : SmtpTx) :
    Honest (c.transmit cfg m env tx) := by
  have hlog : c.log ⊆ (c.transmit cfg m env tx).log := by
    intro e he
    rw [transmit_log]
    split <;> simp [he]
  refine h.of_row (by simp) hlog (by simp) ?_
  rcases c.transmit_owner cfg m env tx with ⟨reply, hs, ho⟩ | ⟨e, msg, -, ho | ho⟩
  · rw [ho]
    show _ ∈ (c.transmit cfg m env tx).log
    rw [transmit_log, serverTook_of_send_ok hs]
    simp
  · rw [ho]; exact trivial
  · rw [ho]; exact trivial

/-- `FailIntent`, with or without a retry time, whatever its fate. -/
lemma honest_fail (s : Stmt) (msg : String) (retryAt : Option Nat) :
    Honest (c.update s (failIntent now msg retryAt)).leave := by
  refine h.of_row ?_ (List.Subset.refl _) ?_ trivial
  · exact Stmt.apply_of (P := fun r => r.accepted = c.row.accepted) _ s rfl (by simp)
  · refine Stmt.apply_of (P := fun r => r.state = .done → c.row.state = .done) _ s id ?_
    cases retryAt <;> simp

/-- `MarkSendIntentAppended` and what follows it. -/
lemma honest_stamp (s : Stmt) {ph' : Phase} (m' : SendIntent)
    (hacc : c.row.accepted = true) (hph : ph' = .retire ∨ ∃ msg, ph' = .requeue msg) :
    Honest ((c.update s (markSendIntentAppended now)).goto m' ph') := by
  have hkeep : (s.apply (markSendIntentAppended now) c.row).accepted = c.row.accepted :=
    Stmt.apply_of (P := fun r => r.accepted = c.row.accepted) _ s rfl rfl
  refine h.of_row hkeep (List.Subset.refl _) ?_ ?_
  · exact Stmt.apply_of (P := fun r => r.state = .done → c.row.state = .done) _ s id id
  · rcases hph with rfl | ⟨msg, rfl⟩
    · exact hkeep.trans hacc
    · exact trivial

/-- `CompleteIntent` on an accepted row, whatever its fate. -/
lemma honest_complete (s : Stmt) (hacc : c.row.accepted = true)
    (hrow : c₁.row = s.apply (completeIntent now) c.row) (hlog : c₁.log = c.log)
    (howner : HonestOwner c₁ c₁.owner) : Honest c₁ where
  accepted _ := by
    rw [sent, hlog]
    exact h.accepted hacc
  done _ := by
    rw [hrow]
    exact Stmt.apply_of (P := fun r => r.accepted = true) _ s hacc hacc
  owner := howner

/-- One call of the execution. -/
lemma Honest.run (ho : c.owner = .running m ph)
    (hprobe : ph = .probe → a = .ok → found = true → c.sent)
    (hm : RunMove cfg now found c m ph a c') : Honest c' := by
  have hph : HonestRun c ph := by
    have := h.owner
    rwa [ho] at this
  cases hm with
  | quiet q =>
    refine ⟨h.accepted, h.done, ?_⟩
    cases q <;> first | exact trivial | exact hph
  | found hf => exact ⟨h.accepted, h.done, hprobe rfl rfl hf⟩
  | acceptFound => exact honest_accept h hph _
  | retryFound tries s err ph' hph' =>
    refine h.update_accepted hph s _ rfl rfl ?_
    rcases hph' with rfl | ⟨msg, rfl⟩
    · exact hph
    · exact trivial
  | transmit env tx => exact honest_transmit h env tx
  | accept ph reply err hr =>
    have hsent : c.sent := by rcases hr with rfl | ⟨tries, rfl⟩ <;> exact hph
    exact honest_accept h hsent _
  | retryUnrecorded ph reply s err tries hr =>
    have hsent : c.sent := by rcases hr with rfl | ⟨tries, rfl⟩ <;> exact hph
    exact h.update_accepted hsent s _ rfl rfl hsent
  | abandon reply tries s => exact h.update_accepted hph s _ rfl rfl trivial
  | requeue msg s => exact honest_fail h s msg _
  | failPermanently msg s => exact honest_fail h s msg none
  | stamped => exact honest_stamp h .done _ hph (.inl rfl)
  | notStamped s err msg => exact honest_stamp h s _ hph (.inr ⟨msg, rfl⟩)
  | retired => exact h.of_row rfl (List.subset_cons_self _ _) id hph
  | completed => exact honest_complete h .done hph rfl rfl trivial
  | notCompleted s => exact honest_complete h s hph rfl rfl trivial

/-- A statement of the client, which accepts and completes nothing. -/
lemma honest_client {r : SendIntent} (hr : ClientMove c.row r) :
    Honest { c with row := r }.noteCanceled := by
  have hlog : c.log ⊆ { c with row := r }.noteCanceled.log :=
    subset_noteCanceled_log { c with row := r }
  have hrow : { c with row := r }.noteCanceled.row.accepted = c.row.accepted := by
    rw [noteCanceled_row]
    cases hr <;> rfl
  refine h.of_row hrow hlog ?_ ?_
  · intro hd
    rw [noteCanceled_row] at hd
    cases hr with
    | kept => exact hd
    | canceled => cases hd
  · rw [noteCanceled_owner]
    exact h.owner.mono hlog hrow

/-- A claimed copy is taken up. -/
lemma honest_begin {recovered : Bool} (ho : c.owner = .waiting m recovered) :
    Honest (c.begin m recovered) := by
  have howner : HonestOwner c (.waiting m recovered) := ho ▸ h.owner
  unfold begin
  split
  · next hacc =>
    refine ⟨h.accepted, h.done, ?_⟩
    show HonestRun _ (postSend m)
    unfold postSend
    split <;> exact howner hacc
  · split <;> exact ⟨h.accepted, h.done, trivial⟩

/-- Every step of the send path, while Sent holds nothing of unsent intents. -/
lemma Honest.move {w w' : World} {act : Action} (hc : c ∈ w.cells) (hw : w.sentOnly = true)
    (hkey : ∀ m, c.owner.copy = some m → ident m = ident c.row)
    (hm : CellMove cfg w w' act c c') : Honest c' := by
  cases hm with
  | same => exact h
  | cancel => exact honest_client h (clientMove_cancel _ _ _)
  | destroy => exact honest_client h (clientMove_destroy _ _ _)
  | @recover s order _ hdown hup =>
    unfold recover
    split
    · cases s with
      | done => exact ⟨h.accepted, h.done, id⟩
      | failed => exact h
      | lost => exact ⟨h.accepted, h.done, h.owner.mono (List.Subset.refl _) rfl⟩
    · exact h
  | crash => exact ⟨h.accepted, h.done, trivial⟩
  | @claim account limit s order _ hrun hup hdue =>
    cases s with
    | done => exact ⟨h.accepted, nofun, id⟩
    | failed => exact h
    | lost => exact ⟨h.accepted, nofun, h.owner.mono (List.Subset.refl _) rfl⟩
  | begin hrun hup ho => exact honest_begin h ho
  | run hrun hup hx ho hmove =>
    refine h.run ho (fun _ _ hf => by_contra fun hno => ?_) hmove
    have hcopies := labelledCopies_of_holds hf
    rw [labelledCopies_congr (hkey _ (by rw [ho]; rfl))] at hcopies
    have hzero := List.all_eq_true.1 hw c hc
    have hu : c.unsent = true := by simp [unsent, hno, ho]
    rw [hu, Bool.not_true, Bool.false_or, decide_eq_true_eq] at hzero
    omega

end

/-! ## What gets into Sent -/

/-- What happened stays in the history. -/
lemma log_subset_move {w w' : World} {act : Action} (hm : CellMove cfg w w' act c c') :
    c.log ⊆ c'.log := by
  cases hm with
  | same | crash => exact List.Subset.refl _
  | cancel => exact subset_noteCanceled_log { c with row := (cancelSendIntent _ _ _).1 }
  | destroy => exact subset_noteCanceled_log { c with row := destroySendIntent _ _ _ }
  | @recover s =>
    unfold recover
    split
    · cases s <;> exact List.Subset.refl _
    · exact List.Subset.refl _
  | @claim _ _ s => cases s <;> exact List.Subset.refl _
  | begin =>
    unfold begin
    split
    · exact List.Subset.refl _
    · split <;> exact List.Subset.refl _
  | run _ _ _ _ hmove =>
    cases hmove with
    | transmit env tx =>
      rw [transmit_log]
      split <;> simp +contextual
    | retired => exact List.subset_cons_self _ _
    | _ => exact List.Subset.refl _

/-- An intent that is unsent was unsent before. -/
lemma unsent_of_move {w w' : World} {act : Action} (hm : CellMove cfg w w' act c c')
    (h : c'.unsent = true) : c.unsent = true := by
  simp only [unsent, Bool.and_eq_true, decide_eq_true_eq] at h ⊢
  refine ⟨fun hs => h.1 (log_subset_move hm hs), ?_⟩
  have client {r : SendIntent} (hr : ClientMove c.row r)
      (hq : { c with row := r }.noteCanceled.owner ≠ .none ∨
        { c with row := r }.noteCanceled.row.state = .queued ∨
        { c with row := r }.noteCanceled.row.state = .inFlight) :
      c.owner ≠ .none ∨ c.row.state = .queued ∨ c.row.state = .inFlight := by
    rw [noteCanceled_row, noteCanceled_owner] at hq
    cases hr with
    | kept => exact hq
    | canceled destroyed t hq' => exact .inr (.inl hq')
  cases hm with
  | same => exact h.2
  | cancel => exact client (clientMove_cancel _ _ _) h.2
  | destroy => exact client (clientMove_destroy _ _ _) h.2
  | recover =>
    by_cases hs : c.row.state = .inFlight
    · exact .inr (.inr hs)
    · unfold recover at h
      rw [if_neg hs] at h
      exact h.2
  | crash => exact .inr (h.2.resolve_left fun ho => ho rfl)
  | claim _ _ hdue =>
    simp only [SendIntent.due, Bool.and_eq_true, decide_eq_true_eq] at hdue
    exact .inr (.inl hdue.1)
  | begin _ _ ho | run _ _ _ ho => exact .inl (by simp [ho])

/-- Retiring a draft puts nothing into Sent. -/
lemma labelledCopies_destroy_le {mail : List MailRow} {strays : List (Nat × String)}
    {account id : Nat} {r : SendIntent} :
    labelledCopies (changeMessage mail account id EmailOp.destroy.apply) strays r ≤
      labelledCopies mail strays r := by
  refine Nat.add_le_add_right ?_ _
  unfold changeMessage
  split
  · exact Nat.le_refl _
  · next d hd =>
    split
    · have hlt : id - 1 < mail.length := by
        unfold message at hd
        split at hd
        · cases hd
        · exact (List.getElem?_eq_some_iff.1 hd).1
      have hno : (EmailOp.destroy.apply d).isSentCopy r.accountID r.messageRFCID = false := by
        simp only [EmailOp.apply]
        split <;> simp [MailRow.isSentCopy]
      rw [List.countP_set hlt, hno]
      simp
    · exact Nat.le_refl _

variable {w w' : World} {act : Action}

/-- What an execution puts into Sent is the copy of an intent the server has accepted. -/
lemma labelledCopies_exec (h : step cfg w (.exec a) = some w')
    (hg : filesSent cfg w (.exec a) = true) (hI : ∀ c ∈ w.cells, Honest c) (hc : c ∈ w.cells)
    (hu : c.unsent = true) :
    labelledCopies w'.mail w'.strays c.row ≤ labelledCopies w.mail w.strays c.row := by
  obtain ⟨c₀, m, ph, c', hx, hc₀, ho, -, hmail, hstrays, -⟩ := step_exec h
  have hother (hp : ph = .append) :
      (m.accountID, m.messageRFCID) ≠ (c.row.accountID, c.row.messageRFCID) := by
    subst hp
    simp only [filesSent, hx, List.all_eq_true] at hg
    have hcase := hg c hc
    simp only [hu, Bool.not_true, Bool.false_or, Bool.or_eq_true, decide_eq_true_eq] at hcase
    intro he
    obtain ⟨ha, hi⟩ := Prod.mk.inj he
    rcases hcase with (rfl | hne) | hne
    · have hacc : HonestOwner c c.owner := (hI c hc).owner
      rw [ho] at hacc
      simp only [unsent, Bool.and_eq_true, decide_eq_true_eq] at hu
      exact hu.1 ((hI c hc).accepted hacc)
    · exact hne ha.symm
    · exact hne hi.symm
  rw [hmail, hstrays]
  unfold World.mailEffect
  split
  · split
    · exact Nat.le_refl _
    · rw [labelledCopies_append, isSentCopy_appended]
      simp [hother rfl]
  · rw [labelledCopies_append, isSentCopy_appended]
    simp [hother rfl]
  · simp [labelledCopies, hother rfl]
  · split
    · split
      · exact Nat.le_refl _
      · exact labelledCopies_destroy_le
    · exact Nat.le_refl _
  · exact Nat.le_refl _

/-- Sent goes on to hold nothing under the Message-ID of an unsent intent. -/
lemma sentOnly_step (h : step cfg w act = some w') (hg : filesSent cfg w act = true)
    (hI : ∀ c ∈ w.cells, Honest c ∧ ∀ m, c.owner.copy = some m → ident m = ident c.row)
    (hw : w.sentOnly = true) : w'.sentOnly = true := by
  by_cases hfile : (step cfg w act).all World.sentOnly = true
  · rwa [h] at hfile
  refine List.all_eq_true.2 fun c' hc' => ?_
  have hles : ∀ c ∈ w.cells, c.unsent = true →
      labelledCopies w'.mail w'.strays c.row ≤ labelledCopies w.mail w.strays c.row := by
    intro c hc hu
    cases act with
    | exec => exact labelledCopies_exec h hg (fun c hc => (hI c hc).1) hc hu
    | submit | emailSet | arrive => exact absurd hg (by simpa [filesSent] using hfile)
    | reflect =>
      simp only [step] at h
      split at h
      · cases h
      · next hstrays =>
        cases h
        rw [hstrays]
        exact labelledCopies_reflect.le
    | _ =>
      rcases step_mail h with ⟨a, ha⟩ | ⟨-, hch | ⟨hmail, hstrays⟩⟩
      · cases ha
      · cases hch
      · rw [hmail, hstrays]
  rcases step_cell h hc' with ⟨c, hc, hm⟩ | ⟨s, r, rfl, -⟩
  · rw [Bool.or_eq_true, Bool.not_eq_true', decide_eq_true_eq]
    cases hu' : c'.unsent with
    | false => exact .inl rfl
    | true =>
      have hu := unsent_of_move hm hu'
      have hzero := List.all_eq_true.1 hw c hc
      rw [hu, Bool.not_true, Bool.false_or, decide_eq_true_eq] at hzero
      have hle := hles c hc hu
      rw [labelledCopies_congr (ident_move (hI c hc).2 hm).1]
      exact .inr (by omega)
  · exact absurd hg (by simpa [filesSent] using hfile)

end Moves

/-- In every state of every run in which nothing is filed into Sent under the Message-ID of
an intent that is still to be accepted, an intent with `accepted_at`, and so one that is
done, was accepted by the server. -/
theorem accepted_only_if_sent {cfg : Config} {w w' : World} {as : List Action} (hw : w.Fresh)
    (hg : Run.Guarded (step cfg) (fun w a => filesSent cfg w a = true) w as)
    (h : Run.exec (step cfg) w as = some w') :
    ∀ c ∈ w'.cells, (c.row.accepted = true → c.sent) ∧ (c.row.state = .done → c.sent) := by
  have hinv : (∀ c ∈ w'.cells, Honest c ∧ ∀ m, c.owner.copy = some m → ident m = ident c.row) ∧
      w'.sentOnly = true := by
    refine Run.inv_exec (I := fun w : World => (∀ c ∈ w.cells, Honest c ∧
      ∀ m, c.owner.copy = some m → ident m = ident c.row) ∧ w.sentOnly = true) ?_ ?_ hg h
    · intro w₀ a w₁ ha hI hstep
      refine ⟨fun c' hc' => ?_, sentOnly_step hstep ha hI.1 hI.2⟩
      rcases step_cell hstep hc' with ⟨c, hc, hm⟩ | ⟨s, r, -, -, rfl, -⟩
      · obtain ⟨hrow, hcopy⟩ := ident_move (hI.1 c hc).2 hm
        exact ⟨(hI.1 c hc).1.move hc hI.2 (hI.1 c hc).2 hm, fun m hm' =>
          (hcopy m hm').trans hrow.symm⟩
      · exact ⟨⟨nofun, nofun, trivial⟩, fun m hm => absurd hm (new_copy _ _ _ m)⟩
    · simp [World.sentOnly, hw.2.1]
  intro c hc
  have hc := (hinv.1 c hc).1
  exact ⟨hc.accepted, fun hd => hc.accepted (hc.done hd)⟩

/-! ## The canonical flow and one refused connection -/

/-- One draft of account 1, in Drafts, with a Message-ID. -/
def oneDraft : World where
  clock := 0
  up := false
  stopping := false
  cells := []
  queue := []
  current := none
  mail := [⟨1, .drafts, "m@example.org", true⟩]
  strays := []
  expunged := []

/-- The canonical submission: the draft goes to Sent when it is submitted. -/
def fileToSent : Submission where
  accountID := 1
  emailID := 1
  envelope := ⟨"a@example.org", ["b@example.org"]⟩
  undoWindow := 0
  sendAt := none
  minted := ⟨"minted@example.org", by decide⟩
  lag := 0
  onSuccess := [.moveTo .sent]

/-- A transaction that ends with the given reply to the end of DATA. -/
def delivered (final : WireReply) (takenUnread : Bool) : SmtpTx where
  setup := [(.connect, 220, .line 220 "ready"), (.ehlo, 250, .line 250 "ok")]
  mail := .line 250 "ok"
  rcpt := [.line 250 "ok"]
  data := .line 354 "go ahead"
  streamed := none
  final := final
  takenUnread := takenUnread

/-- A transaction that never gets a connection. -/
def refused : SmtpTx :=
  { delivered (.broken "EOF") false with
    setup := [(.connect, 220, .broken "connection refused")] }

/-- Time passes, the due intent is claimed and its execution begins. -/
def claimAfter (seconds : Nat) : List Action :=
  [.tick (seconds * second), .claim 1 10 .done [0], .next]

/-- The calls of `postSend`, all confirmed. -/
def postSendCalls : List Action :=
  [.exec .ok, .exec .ok, .exec (.stmt .done ""), .exec .ok, .exec (.stmt .done "")]

lemma oneDraft_fresh : oneDraft.Fresh := ⟨rfl, rfl, rfl, rfl, rfl⟩

/-- The first connection is refused and the probe finds nothing; then the 250 is read and
the process dies before it is recorded.  The draft is filed, and after the restart the
probe finds it in Sent, and is right. -/
def diesBeforeRecording : List Action :=
  [.start .done [], .submit { fileToSent with onSuccess := [] }] ++ claimAfter 10 ++
    [.exec .ok, .exec .ok, .exec (.smtp refused), .exec (.requeued .done 1000)] ++ claimAfter 30 ++
    [.exec .ok, .exec .ok, .exec .ok, .exec (.smtp (delivered (.line 250 "queued") false)), .crash,
      .emailSet 1 1 (.moveTo .sent), .start .done [0], .next, .exec .ok, .exec (.stmt .done "")] ++
    postSendCalls

theorem accepted_only_if_sent_diesBeforeRecording :
    ∃ w, Run.exec (step defaultConfig) oneDraft diesBeforeRecording = some w ∧
      w.cells.map (fun c => c.row.state) = [.done] ∧ ∀ c ∈ w.cells,
      (c.row.accepted = true → c.sent) ∧ (c.row.state = .done → c.sent) :=
  Run.exists_of_guarded (by decide +kernel) (by decide +kernel) fun _ hg h _ =>
    accepted_only_if_sent oneDraft_fresh hg h

/-- The first connection is refused, the row is queued again, and the second
execution asks the probe. -/
def refusedOnce : List Action :=
  [.start .done [], .submit fileToSent] ++ claimAfter 10 ++
    [.exec .ok, .exec .ok, .exec (.smtp refused), .exec (.requeued .done 1000)] ++
    claimAfter 30 ++ [.exec .ok, .exec (.stmt .done "")] ++ postSendCalls

/-- The only transaction of this run was refused before it began, and the intent
ends accepted and done: the probe found the draft itself, which the implicit
Email/set had filed into Sent. -/
theorem reported_sent_never_left :
    ∃ w, Run.exec (step defaultConfig) oneDraft refusedOnce = some w ∧
      ∃ c ∈ w.cells, c.row.accepted = true ∧ c.row.state = .done ∧ ¬ c.sent :=
  Run.exists_exec (by decide +kernel)

end Moov.Submit
