import Moov.Submit.Honest

/-!
# One acceptance, and no cancel that lies

Two things are argued over the whole send path.  The server accepts the DATA of
one intent at most once; and a cancel that succeeds means the message did not
and will not leave, while a message that left can no longer be canceled.  Both
rest on the same fact about the gap between the server's 250 and the recorded
`accepted_at`: an intent in that gap is in flight, in the hands of an execution
that is recording it or of nobody, and so out of reach of claims and cancels
(`Once`).

Two kinds of steps break the fact.

* The reply to the end of DATA is not read although the server accepted: the
  client cannot tell, the error is classified as transient, and the retry sends
  the message again (`accepted_twice`).
* The process ends while an acceptance is not recorded.  The next process finds
  a row that looks unsent.  This window is the documented residue of the design.

In every run without them the server accepts each intent at most once
(`accepted_at_most_once`), and cancels tell the truth (`cancel_is_final`).
-/

namespace Moov.Submit

open Moov.Store Cell Stmt

/-- The server accepted the message and the row does not say so. -/
def Cell.unrecorded (c : Cell) : Bool :=
  decide (.serverAccepted ∈ c.log) && !c.row.accepted

/-- When a transaction ends in an error, the server did not accept. -/
def errorsTruthful (w : World) (a : Action) : Bool :=
  match a, w.executing with
  | .exec (.smtp tx), some (_, m, .send) =>
      match m.payload with
      | some env => truthful env tx
      | none => true
  | _, _ => true

/-- The process does not end while an acceptance is unrecorded. -/
def exitsRecorded (w : World) (a : Action) : Bool :=
  match a with
  | .crash => w.cells.all fun c => !c.unrecorded
  | _ => true

/-- What holds of an intent at the given phase of its execution. -/
def OnceRun (c : Cell) : Phase → Prop
  | .probe | .persistFound _ | .prepare | .account | .send | .failPermanently _ =>
      c.row.state = .inFlight ∧ ¬ c.sent
  | .record _ | .persistUnrecorded _ _ => c.row.state = .inFlight
  | .requeue _ => (c.row.state = .inFlight ∨ c.row.state = .done) ∧ c.unrecorded = false
  | .postPrepare | .append | .stamp | .retire | .complete =>
      c.row.state = .inFlight ∧ c.row.accepted = true

/-- What holds of an intent, by who has it. -/
def OnceOwner (c : Cell) : Owner → Prop
  | .none => c.unrecorded = true → c.row.state = .inFlight
  | .waiting m _ =>
      c.row.state = .inFlight ∧ c.unrecorded = false ∧ m.accepted = c.row.accepted
  | .running _ ph => OnceRun c ph

/-- One intent, when errors tell the truth and no process ends in the gap. -/
structure Once (up : Bool) (c : Cell) : Prop where
  once : c.log.count .serverAccepted ≤ 1
  down : up = false → c.owner = .none ∧ c.unrecorded = false
  owner : OnceOwner c c.owner
  canceled : c.row.state = .canceled → ¬ c.sent
  noted : .canceled ∈ c.log → c.row.state = .canceled
  order : ∀ l₁ l₂, c.log = l₁ ++ .canceled :: l₂ → .smtpStart ∉ l₁

section Moves

variable {cfg : Config} {now : Nat} {found up : Bool} {c c' : Cell} {m : SendIntent} {ph : Phase}
  {a : Answer} {o : Owner}

lemma unrecorded_eq_false_of_accepted (h : c.row.accepted = true) : c.unrecorded = false := by
  simp [unrecorded, h]

lemma unrecorded_eq_false_of_not_sent (h : ¬ c.sent) : c.unrecorded = false := by
  unfold sent at h
  simp [unrecorded, h]

lemma unrecorded_congr (hlog : c'.log = c.log) (hacc : c'.row.accepted = c.row.accepted) :
    c'.unrecorded = c.unrecorded := by
  simp [unrecorded, hlog, hacc]

/-- A recorded or unsent intent whose row is not accepted was not sent. -/
lemma not_sent_of_unrecorded (hu : c.unrecorded = false) (ha : c.row.accepted = false) :
    ¬ c.sent := by
  simpa [unrecorded, ha, sent] using hu

/-- Whoever has an intent, its row is in flight or done. -/
lemma OnceOwner.state (h : OnceOwner c o) (ho : o ≠ .none) :
    c.row.state = .inFlight ∨ c.row.state = .done := by
  cases o with
  | none => exact absurd rfl ho
  | waiting => exact .inl h.1
  | running m ph =>
    cases ph <;> first | exact .inl h | exact .inl h.1 | exact h.1

lemma OnceOwner.ne_canceled (h : OnceOwner c o) (ho : o ≠ .none) : c.row.state ≠ .canceled := by
  rcases h.state ho with hs | hs <;> simp [hs]

/-- An intent that somebody has was never canceled. -/
lemma Once.not_canceled (h : Once up c) (ho : c.owner ≠ .none) : .canceled ∉ c.log :=
  fun hc => h.owner.ne_canceled ho (h.noted hc)

/-- An intent that was never canceled: what is left to show of it. -/
lemma once_of_not_canceled (hlog : .canceled ∉ c.log) (hs : c.row.state ≠ .canceled)
    (honce : c.log.count .serverAccepted ≤ 1) (howner : OnceOwner c c.owner) : Once true c where
  once := honce
  down := nofun
  owner := howner
  canceled hc := absurd hc hs
  noted hc := absurd hc hlog
  order l₁ _ h := absurd (h ▸ List.mem_append_right l₁ List.mem_cons_self) hlog

/-- The acceptance is persisted and confirmed. -/
lemma onceOwner_accept (hs : c.row.state = .inFlight) (reply : String) :
    OnceOwner (c.accept now m reply) (c.accept now m reply).owner := by
  have hrow : (c.accept now m reply).row.state = .inFlight ∧
      (c.accept now m reply).row.accepted = true := by
    simp [accept, apply, hs]
  show OnceRun _ (postSend _)
  unfold postSend
  split <;> exact hrow

/-- The transaction, when its errors tell the truth. -/
lemma once_transmit (h : Once true c) (ho : c.owner = .running m .send) {env : IntentEnvelope}
    {tx : SmtpTx} (htruth : truthful env tx = true) : Once true (c.transmit cfg m env tx) := by
  have hph : OnceOwner c (.running m .send) := ho ▸ h.owner
  obtain ⟨hs, hsent⟩ := hph
  have hnc : .canceled ∉ c.log := h.not_canceled (by simp [ho])
  have hzero := List.count_eq_zero.2 hsent
  refine once_of_not_canceled ?_ (by simp [hs]) ?_ ?_
  · rw [transmit_log]
    split <;> simp [hnc]
  · rw [transmit_log]
    split <;> simp [hzero]
  · rcases c.transmit_owner cfg m env tx with ⟨reply, -, hown⟩ | ⟨e, msg, herr, hown⟩
    · rw [hown]
      show (c.transmit cfg m env tx).row.state = .inFlight
      simpa using hs
    · -- the error is truthful, so nothing was accepted
      have htook : serverTook env tx = false := by simpa [truthful, herr] using htruth
      have hsent' : ¬ (c.transmit cfg m env tx).sent := by
        rw [sent, transmit_log, htook]
        simpa [sent] using hsent
      have hs' : (c.transmit cfg m env tx).row.state = .inFlight := by simpa using hs
      rcases hown with hown | hown
      · rw [hown]
        exact ⟨.inl hs', unrecorded_eq_false_of_not_sent hsent'⟩
      · rw [hown]
        exact ⟨hs', hsent'⟩

/-- `FailIntent` ends the execution of an intent that has nothing unrecorded. -/
lemma once_fail (h : Once true c) (ho : c.owner ≠ .none) (hu : c.unrecorded = false) (s : Stmt)
    (msg : String) (retryAt : Option Nat) :
    Once true (c.update s (failIntent now msg retryAt)).leave := by
  refine once_of_not_canceled (h.not_canceled ho) ?_ h.once ?_
  · refine apply_of (P := fun r => r.state ≠ .canceled) _ s (h.owner.ne_canceled ho) ?_
    cases retryAt <;> simp
  · have hsame : (c.update s (failIntent now msg retryAt)).leave.unrecorded = c.unrecorded :=
      unrecorded_congr rfl (apply_keeps c.row s (by simp))
    intro hopen
    rw [hsame, hu] at hopen
    cases hopen

/-- One call of the execution. -/
lemma Once.run (h : Once true c) (ho : c.owner = .running m ph)
    (htruth : ∀ env tx, ph = .send → a = .smtp tx → m.payload = some env → truthful env tx = true)
    (hm : RunMove cfg now found c m ph a c') : Once true c' := by
  have hph : OnceRun c ph := by
    have := h.owner
    rwa [ho] at this
  have hnc : .canceled ∉ c.log := h.not_canceled (by simp [ho])
  have hcs : c.row.state ≠ .canceled := h.owner.ne_canceled (by simp [ho])
  -- most calls leave the history alone
  have quiet {c₁ : Cell} (hlog : c₁.log = c.log) (hs : c₁.row.state ≠ .canceled)
      (hown : OnceOwner c₁ c₁.owner) : Once true c₁ :=
    once_of_not_canceled (hlog ▸ hnc) hs (hlog ▸ h.once) hown
  have hmark (s : Stmt) (reply : String) :
      (s.apply (markSendIntentAccepted now reply) c.row).state = c.row.state :=
    apply_keeps c.row s (by simp)
  cases hm with
  | quiet q =>
    refine quiet rfl hcs ?_
    cases q with
    | notFound | badMessage | prepared | loaded | derivable | skipped | appended | notRetired =>
      exact hph
    | probeFailed | notLoaded => exact ⟨.inl hph.1, unrecorded_eq_false_of_not_sent hph.2⟩
    | appendFailed => exact ⟨.inl hph.1, unrecorded_eq_false_of_accepted hph.2⟩
  | found => exact quiet rfl hcs hph
  | acceptFound =>
    exact quiet rfl (by simp [accept, apply, hph.1]) (onceOwner_accept hph.1 _)
  | retryFound tries s err ph' hph' =>
    refine quiet rfl (by simp [hmark, hcs]) ?_
    have hs : (s.apply (markSendIntentAccepted now recoveredReply) c.row).state = .inFlight :=
      (hmark s _).trans hph.1
    rcases hph' with rfl | ⟨msg, rfl⟩
    · exact ⟨hs, hph.2⟩
    · exact ⟨.inl hs, unrecorded_eq_false_of_not_sent hph.2⟩
  | transmit env tx henv => exact once_transmit h ho (htruth env tx rfl rfl henv)
  | accept ph reply err hr =>
    have hs : c.row.state = .inFlight := by rcases hr with rfl | ⟨tries, rfl⟩ <;> exact hph
    exact quiet rfl (by simp [accept, apply, hs]) (onceOwner_accept hs _)
  | retryUnrecorded ph reply s err tries hr =>
    have hs : c.row.state = .inFlight := by rcases hr with rfl | ⟨tries, rfl⟩ <;> exact hph
    exact quiet rfl (by simp [hmark, hcs]) ((hmark s reply).trans hs)
  | abandon reply tries s =>
    exact quiet rfl (by simp [hmark, hcs]) fun _ => (hmark s reply).trans hph
  | requeue msg s => exact once_fail h (by simp [ho]) hph.2 s msg _
  | failPermanently msg s =>
    exact once_fail h (by simp [ho]) (unrecorded_eq_false_of_not_sent hph.2) s msg none
  | stamped => exact quiet rfl hcs ⟨hph.1, hph.2⟩
  | notStamped s =>
    have hs : (s.apply (markSendIntentAppended now) c.row).state = .inFlight :=
      (apply_keeps c.row s rfl).trans hph.1
    have hacc : (s.apply (markSendIntentAppended now) c.row).accepted = true :=
      (apply_keeps c.row s rfl).trans hph.2
    exact quiet rfl (by simp [hs]) ⟨.inl hs, unrecorded_eq_false_of_accepted hacc⟩
  | retired =>
    refine once_of_not_canceled (by simpa using hnc) hcs ?_ hph
    simpa using h.once
  | completed =>
    refine quiet rfl (by simp [apply, completeIntent]) fun hu => ?_
    have hrec : (c.update .done (completeIntent now)).leave.unrecorded = false :=
      unrecorded_eq_false_of_accepted hph.2
    rw [hrec] at hu
    cases hu
  | notCompleted s =>
    have hacc : (s.apply (completeIntent now) c.row).accepted = true :=
      (apply_keeps c.row s rfl).trans hph.2
    have hs : (s.apply (completeIntent now) c.row).state = .inFlight ∨
        (s.apply (completeIntent now) c.row).state = .done :=
      apply_of (P := fun r => r.state = .inFlight ∨ r.state = .done) _ s (.inl hph.1) (.inr rfl)
    refine quiet rfl ?_ ⟨hs, unrecorded_eq_false_of_accepted hacc⟩
    rcases hs with hs | hs <;> simp [hs]

/-- Who has an intent relies on its state, `accepted_at` and what the server did. -/
lemma OnceOwner.congr (hs : c'.row.state = c.row.state)
    (hacc : c'.row.accepted = c.row.accepted) (hsent : c'.sent ↔ c.sent)
    (h : OnceOwner c o) : OnceOwner c' o := by
  have hu : c'.unrecorded = c.unrecorded := by
    unfold sent at hsent
    simp [unrecorded, hacc, hsent]
  cases o with
  | none => exact fun hopen => hs.trans (h (hu ▸ hopen))
  | waiting => exact ⟨hs.trans h.1, hu.trans h.2.1, h.2.2.trans hacc.symm⟩
  | running m ph =>
    show OnceRun c' ph
    cases ph <;> simp only [OnceRun, hs, hacc, hsent, hu] at h ⊢ <;> exact h

/-- A waiting intent is nobody's, and the server did not accept it. -/
lemma Once.not_sent_of_queued (h : Once up c) (hq : c.row.state = .queued)
    (hacc : c.row.accepted = false) : ¬ c.sent := by
  refine not_sent_of_unrecorded ?_ hacc
  by_cases ho : c.owner = .none
  · have hown : OnceOwner c .none := ho ▸ h.owner
    by_contra hopen
    have := hown (by simpa using hopen)
    simp [hq] at this
  · rcases h.owner.state ho with hs | hs <;> simp [hq] at hs

/-- A statement of the client: the row stays as it is or is canceled, and it is
canceled only from the queue, unaccepted. -/
lemma once_client {r : SendIntent} (h : Once up c) (hr : ClientMove c.row r) :
    Once up { c with row := r }.noteCanceled := by
  have hacc : r.accepted = c.row.accepted := by cases hr <;> rfl
  have hlog : { c with row := r }.noteCanceled.log =
      if r.state = .canceled then .canceled :: c.log else c.log := noteCanceled_log _
  have hsent : { c with row := r }.noteCanceled.sent ↔ c.sent := by
    unfold sent
    rw [hlog]
    split <;> simp
  have hcs : r.state = .canceled → ¬ c.sent := by
    intro hs
    cases hr with
    | kept => exact h.canceled hs
    | canceled destroyed t hq ha => exact h.not_sent_of_queued hq ha
  have hown : OnceOwner { c with row := r }.noteCanceled { c with row :=
    r }.noteCanceled.owner := by
    rw [noteCanceled_owner]
    cases hr with
    | kept => exact h.owner.congr (by simp) (by simpa using hacc) hsent
    | canceled =>
      -- canceled now, so nobody has it and the server did not accept it
      have hnone : c.owner = .none := by
        by_contra ho
        rcases h.owner.state ho with hi | hd <;> simp_all
      rw [hnone]
      intro hopen
      cases hopen.symm.trans (unrecorded_eq_false_of_not_sent fun hn => hcs rfl (hsent.1 hn))
  refine ⟨?_, ?_, hown, ?_, ?_, ?_⟩
  · rw [hlog]
    split <;> simpa using h.once
  · intro hup
    obtain ⟨ho, hu⟩ := h.down hup
    refine ⟨by simpa using ho, ?_⟩
    unfold sent at hsent
    simpa [unrecorded, hacc, hsent] using hu
  · intro hc
    rw [noteCanceled_row] at hc
    exact fun hn => hcs hc (hsent.1 hn)
  · intro hc
    rw [noteCanceled_row]
    rw [hlog] at hc
    split at hc
    · assumption
    · cases hr with
      | kept => exact h.noted hc
      | canceled => rfl
  · intro l₁ l₂ hl
    rw [hlog] at hl
    split at hl
    · cases l₁ with
      | nil => exact List.not_mem_nil
      | cons e l₁ =>
        injection hl with he hl
        subst he
        simpa using h.order l₁ l₂ hl
    · exact h.order l₁ l₂ hl

lemma once_recover (h : Once false c) (s : Stmt) : Once true (c.recover now s) := by
  obtain ⟨ho, hu⟩ := h.down rfl
  have hup : Once true c := { h with down := nofun }
  unfold recover
  split
  · next hs =>
    have hnc : .canceled ∉ c.log := fun hc => by simp [h.noted hc] at hs
    cases s with
    | done =>
      refine once_of_not_canceled hnc ?_ h.once ⟨hs, hu, rfl⟩
      simp [recoverRow, hs]
    | failed => exact hup
    | lost =>
      refine once_of_not_canceled hnc ?_ h.once (h.owner.congr rfl rfl Iff.rfl)
      simp [recoverRow, hs]
  · exact hup

lemma once_claim (h : Once true c) (hdue : c.row.due now = true) (s : Stmt) :
    Once true (c.claim now s) := by
  have hq : c.row.state = .queued := by
    simp only [SendIntent.due, Bool.and_eq_true, decide_eq_true_eq] at hdue
    exact hdue.1
  have hnc : .canceled ∉ c.log := fun hc => by simp [h.noted hc] at hq
  have hu : c.unrecorded = false := by
    cases hacc : c.row.accepted with
    | true => exact unrecorded_eq_false_of_accepted hacc
    | false => exact unrecorded_eq_false_of_not_sent (h.not_sent_of_queued hq hacc)
  have hnone : c.owner = .none := by
    by_contra ho
    rcases h.owner.state ho with hs | hs <;> simp [hq] at hs
  cases s with
  | done => exact once_of_not_canceled hnc (by simp [claim, claimRow]) h.once ⟨rfl, hu, rfl⟩
  | failed => exact h
  | lost =>
    refine once_of_not_canceled hnc (by simp [claim, claimRow]) h.once ?_
    show OnceOwner _ c.owner
    rw [hnone]
    exact fun _ => rfl

lemma once_begin {recovered : Bool} (h : Once true c) (ho : c.owner = .waiting m recovered) :
    Once true (c.begin m recovered) := by
  have hown : OnceOwner c (.waiting m recovered) := ho ▸ h.owner
  obtain ⟨hs, hu, hacc⟩ := hown
  have hnc : .canceled ∉ c.log := h.not_canceled (by simp [ho])
  unfold begin
  split
  · next hm =>
    refine once_of_not_canceled hnc (by simp [hs]) h.once ?_
    show OnceRun _ (postSend m)
    unfold postSend
    split <;> exact ⟨hs, hacc ▸ hm⟩
  · next hm =>
    have hsent : ¬ c.sent := not_sent_of_unrecorded hu (by simpa [hacc] using hm)
    split <;> exact once_of_not_canceled hnc (by simp [hs]) h.once ⟨hs, hsent⟩

/-- Every step of the send path that keeps clear of the two failures. -/
lemma Once.move {w w' : World} {act : Action} (h : Once w.up c) (hc : c ∈ w.cells)
    (htruth : errorsTruthful w act = true) (hexit : exitsRecorded w act = true)
    (hm : CellMove cfg w w' act c c') : Once w'.up c' := by
  cases hm with
  | same hup => exact hup ▸ h
  | cancel hup => exact hup ▸ once_client h (clientMove_cancel _ _ _)
  | destroy hup => exact hup ▸ once_client h (clientMove_destroy _ _ _)
  | recover hdown hup =>
    rw [hup]
    exact once_recover (hdown ▸ h) _
  | crash =>
    have hu : c.unrecorded = false := by
      have hall : ∀ c ∈ w.cells, c.unrecorded = false := by simpa [exitsRecorded] using hexit
      exact hall c hc
    have hown : OnceOwner c.leave .none := by
      intro hopen
      have hclosed : c.leave.unrecorded = false := hu
      rw [hclosed] at hopen
      cases hopen
    exact ⟨h.once, fun _ => ⟨rfl, hu⟩, hown, h.canceled, h.noted, h.order⟩
  | claim hrun hup hdue =>
    rw [hup]
    exact once_claim (hrun ▸ h) hdue _
  | begin hrun hup ho =>
    rw [hup]
    exact once_begin (hrun ▸ h) ho
  | run hrun hup hx ho hmove =>
    rw [hup]
    refine (hrun ▸ h : Once true c).run ho ?_ hmove
    rintro env tx rfl rfl henv
    simpa [errorsTruthful, hx, henv] using htruth

end Moves

/-- Neither failure at this step. -/
def singleSend (w : World) (a : Action) : Bool := errorsTruthful w a && exitsRecorded w a

lemma forall_once {cfg : Config} {w w' : World} {as : List Action} (hw : w.Fresh)
    (hg : Run.Guarded (step cfg) (fun w a => singleSend w a = true) w as)
    (h : Run.exec (step cfg) w as = some w') : ∀ c ∈ w'.cells, Once w'.up c := by
  refine forall_cells (P := Once) ?_ ?_ hw hg h
  · intro w₀ s r _ _
    refine ⟨?_, ?_, nofun, nofun, nofun, ?_⟩
    · show [].count Event.serverAccepted ≤ 1
      simp
    · intro _
      exact ⟨rfl, rfl⟩
    · intro l₁ l₂ hl
      have hnil : [] = l₁ ++ Event.canceled :: l₂ := hl
      simp at hnil
  · intro w₀ w₁ a c c' ha hc hall hm
    simp only [singleSend, Bool.and_eq_true] at ha
    exact (hall c hc).move hc ha.1 ha.2 hm

/-! ## At most one acceptance -/

/-- In every state of every run in which no acceptance goes unread and no process
ends before an acceptance it has read is recorded, the server has accepted the
DATA of each intent at most once. -/
theorem accepted_at_most_once {cfg : Config} {w w' : World} {as : List Action} (hw : w.Fresh)
    (hg : Run.Guarded (step cfg) (fun w a => singleSend w a = true) w as)
    (h : Run.exec (step cfg) w as = some w') :
    ∀ c ∈ w'.cells, c.log.count .serverAccepted ≤ 1 :=
  fun c hc => (forall_once hw hg h c hc).once

/-- The submission without an implicit Email/set: the draft stays in Drafts. -/
def keepDraft : Submission := { fileToSent with onSuccess := [] }

/-- The record of the acceptance is lost once and the APPEND fails once; both are
repeated, the transmission is not. -/
def retriesAfterAcceptance : List Action :=
  [.start .done [], .submit keepDraft] ++ claimAfter 10 ++
    [.exec .ok, .exec .ok, .exec (.smtp (delivered (.line 250 "queued") false)),
      .exec (.stmt .lost "timeout"), .exec (.stmt .done ""), .exec .ok,
      .exec (.failed "no route to host"), .exec (.requeued .done 1000)] ++
    claimAfter 30 ++ postSendCalls

theorem accepted_at_most_once_retriesAfterAcceptance :
    ∃ w, Run.exec (step defaultConfig) oneDraft retriesAfterAcceptance = some w ∧
      ∀ c ∈ w.cells, c.log.count .serverAccepted ≤ 1 :=
  Run.exists_end (by decide +kernel) (by decide +kernel) fun _ =>
    accepted_at_most_once oneDraft_fresh

/-- The reply to the end of DATA times out although the server has accepted; the
retry is accepted again. -/
def replyTimesOut : List Action :=
  [.start .done [], .submit keepDraft] ++ claimAfter 10 ++
    [.exec .ok, .exec .ok, .exec (.smtp (delivered (.broken "i/o timeout") true)),
      .exec (.requeued .done 1000)] ++
    claimAfter 30 ++
    [.exec .ok, .exec .ok, .exec .ok, .exec (.smtp (delivered (.line 250 "queued") false))]

/-- No process ends in this run, no call of the store fails, and the server
accepts the same intent twice. -/
theorem accepted_twice : .crash ∉ replyTimesOut ∧
    ∃ w, Run.exec (step defaultConfig) oneDraft replyTimesOut = some w ∧
      ∃ c ∈ w.cells, c.log.count .serverAccepted = 2 :=
  ⟨by decide, Run.exists_exec (by decide +kernel)⟩

/-! ## Cancels tell the truth -/

/-- In the same runs: a canceled intent was not accepted, and no transaction for
it started after a cancel or destroy left it canceled; and an intent the server
accepted refuses every cancel of its account and is never pending again. -/
theorem cancel_is_final {cfg : Config} {w w' : World} {as : List Action} (hw : w.Fresh)
    (hg : Run.Guarded (step cfg) (fun w a => singleSend w a = true) w as)
    (h : Run.exec (step cfg) w as = some w') :
    ∀ c ∈ w'.cells, (c.row.state = .canceled → ¬ c.sent) ∧ (∀ l₁ l₂, c.log = l₁ ++ .canceled :: l₂ →
        .smtpStart ∉ l₁ ∧ .serverAccepted ∉ l₁ ∧ .serverAccepted ∉ l₂) ∧
      (c.sent → (∀ now, (cancelSendIntent now c.row.accountID c.row).2 = .notCancelable) ∧
        undoStatusOf c.row ≠ .pending) := by
  intro c hc
  have hinv := forall_once hw hg h c hc
  refine ⟨hinv.canceled, ?_, ?_⟩
  · intro l₁ l₂ hl
    have hmem : .canceled ∈ c.log := hl ▸ List.mem_append_right l₁ List.mem_cons_self
    have hns : .serverAccepted ∉ l₁ ++ .canceled :: l₂ := hl ▸ hinv.canceled (hinv.noted hmem)
    simp only [List.mem_append, List.mem_cons, not_or] at hns
    exact ⟨hinv.order l₁ l₂ hl, hns.1, hns.2.2⟩
  · intro hsent
    have hq : c.row.state = .queued → c.row.accepted = true := by
      intro hq
      by_contra hacc
      exact hinv.not_sent_of_queued hq (by simpa using hacc) hsent
    have hcs : c.row.state ≠ .canceled := fun hs => hinv.canceled hs hsent
    refine ⟨fun now => cancelSendIntent_notCancelable now c.row hcs hq, ?_⟩
    intro hp
    obtain ⟨hs, hacc⟩ := (undoStatusOf_eq_pending c.row).1 hp
    simp [hq hs] at hacc

/-- One submission is canceled in its undo window, another one goes out. -/
def oneCanceledOneSent : List Action :=
  [.start .done [], .submit keepDraft, .cancel 1 0, .submit keepDraft, .tick (10 * second),
    .claim 1 10 .done [1], .next, .destroy 1 1, .exec .ok, .exec .ok,
    .exec (.smtp (delivered (.line 250 "queued") false)), .cancel 1 1, .exec (.stmt .done "")] ++
    postSendCalls

theorem cancel_is_final_oneCanceledOneSent :
    ∃ w, Run.exec (step defaultConfig) oneDraft oneCanceledOneSent = some w ∧ ∀ c ∈ w.cells,
        (c.row.state = .canceled → ¬ c.sent) ∧
        (∀ l₁ l₂, c.log = l₁ ++ .canceled :: l₂ →
          .smtpStart ∉ l₁ ∧ .serverAccepted ∉ l₁ ∧ .serverAccepted ∉ l₂) ∧
        (c.sent → (∀ now, (cancelSendIntent now c.row.accountID c.row).2 = .notCancelable) ∧
          undoStatusOf c.row ≠ .pending) :=
  Run.exists_end (by decide +kernel) (by decide +kernel) fun _ => cancel_is_final oneDraft_fresh

/-- The process dies between the 250 and its record; the probe of the restarted
one fails, the row goes back to the queue and is canceled there. -/
def canceledAfterRestart : List Action :=
  [.start .done [], .submit keepDraft] ++ claimAfter 10 ++
    [.exec .ok, .exec .ok, .exec (.smtp (delivered (.line 250 "queued") false)), .crash,
      .start .done [0], .next, .exec (.failed "connection reset"), .exec (.requeued .done 1000),
      .cancel 1 0]

/-- Every transport error of this run is truthful (there is none), and a cancel
succeeds on a message the server has accepted. -/
theorem cancel_after_acceptance :
    Run.Guarded (step defaultConfig) (fun w a => errorsTruthful w a = true) oneDraft
      canceledAfterRestart ∧
    ∃ w, Run.exec (step defaultConfig) oneDraft canceledAfterRestart = some w ∧
      ∃ c ∈ w.cells, c.row.state = .canceled ∧ c.sent :=
  ⟨by decide +kernel, Run.exists_exec (by decide +kernel)⟩

end Moov.Submit
