import Moov.Jmap.Changes
import Moov.Lib.Run

/-!
# Catching up

The store under one writer at a time: every transaction begins after the one before has
committed, so that stamps and contents are in the same order.  A client that holds the
Emails of an earlier state of the store calls `Email/changes` until there is no more.

`caught_up_iff` says exactly when it ends up with the Emails of now, having been told of
every change and never of one that does not fit what it holds.  It takes that

* no row of an Email it held has been deleted outright (`InvalidateMailbox`,
  `DeleteMailbox`), and the watermark has not gone back by such a deletion;
* no page ends inside a stamp, which a batch or a thread merge gives to many rows;
* no page begins between the creation and the last change of a message that is new to the
  client, and no tombstone has been touched again (`mergeThread`).
-/

namespace Moov.Jmap

open Feed

/-! ## The store under one writer -/

/-- The contents after transactions that each began after the one before had committed. -/
structure Store where
  feed : Feed
  clock : Nat

def Store.empty : Store :=
  ⟨.empty, 0⟩

def Store.step (s : Store) (tx : Stamp × Write) : Option Store :=
  if s.clock < tx.1.nanos then some ⟨s.feed.write tx.1 tx.2, tx.1.nanos⟩ else none

variable {tx : Stamp × Write}

lemma Store.step_eq_some {s s' : Store} : s.step tx = some s' ↔
      s.clock < tx.1.nanos ∧ s' = ⟨s.feed.write tx.1 tx.2, tx.1.nanos⟩ := by
  unfold Store.step
  split
  · rename_i h
    simp [h, eq_comm]
  · rename_i h
    simp [h]

/-- What holds of the rows at any time: none is older than its message or younger than the
last transaction. -/
structure Store.Dated (s : Store) : Prop where
  born : ∀ r ∈ s.feed.rows, r.createdAt.nanos ≤ r.updatedAt.nanos
  past : ∀ r ∈ s.feed.rows, r.updatedAt.nanos ≤ s.clock

/-- What has become of an earlier state of the store. -/
structure Store.Grown (old now : Store) : Prop where
  clock : old.clock ≤ now.clock
  seq : old.feed.seq ≤ now.feed.seq
  /-- A row that is not as it was has a later stamp. -/
  stamped : ∀ r ∈ now.feed.rows, r ∈ old.feed.rows ∨ old.clock < r.updatedAt.nanos
  /-- A message that was there was created when it was. -/
  kept : ∀ r ∈ now.feed.rows, ∀ q ∈ old.feed.rows, q.messageID = r.messageID →
    q.createdAt = r.createdAt

lemma Store.dated_step {s s' : Store} (h : s.Dated)
    (hs : s.step tx = some s') : s'.Dated := by
  obtain ⟨hlt, rfl⟩ := Store.step_eq_some.1 hs
  constructor
  · intro r hr
    rcases mem_write hr with ⟨q, hq, hqr⟩ | ⟨-, hcreated, hupdated⟩
    · have hborn := h.born q hq
      have hpast := h.past q hq
      rcases hqr.stamped with ⟨-, rfl⟩ | ⟨-, hstamp⟩
      · exact hborn
      · rw [hqr.createdAt, hstamp]
        omega
    · rw [hcreated, hupdated]
  · intro r hr
    rcases mem_write hr with ⟨q, hq, hqr⟩ | ⟨-, -, hupdated⟩
    · have hpast := h.past q hq
      rcases hqr.stamped with ⟨-, rfl⟩ | ⟨-, hstamp⟩
      · exact hpast.trans hlt.le
      · exact (congrArg Stamp.nanos hstamp).le
    · exact (congrArg Stamp.nanos hupdated).le

lemma Store.grown_refl (s : Store) : s.Grown s where
  clock := le_refl _
  seq := le_refl _
  stamped := fun _ hr => .inl hr
  kept := by
    intro r hr q hq hid
    have hqr := eq_of_messageID hq hr hid
    exact congrArg ChangeRow.createdAt hqr

lemma Store.grown_step {old s s' : Store} (h : old.Grown s)
    (hs : s.step tx = some s') : old.Grown s' := by
  obtain ⟨hlt, rfl⟩ := Store.step_eq_some.1 hs
  have hclock := h.clock
  have hseq := h.seq
  constructor
  · exact h.clock.trans hlt.le
  · exact h.seq.trans (Nat.le_add_right _ _)
  · intro r hr
    rcases mem_write hr with ⟨q, hq, hqr⟩ | ⟨-, -, hupdated⟩
    · rcases hqr.stamped with ⟨-, rfl⟩ | ⟨-, hstamp⟩
      · exact h.stamped _ hq
      · exact .inr (by rw [hstamp]; omega)
    · exact .inr (by rw [hupdated]; omega)
  · intro r hr p hp hid
    rcases mem_write hr with ⟨q, hq, hqr⟩ | ⟨hlow, -, -⟩
    · exact (h.kept q hq p hp (hid.trans hqr.messageID)).trans hqr.createdAt.symm
    · have := old.feed.issued p hp
      omega

/-! ## Where a client stands -/

open Moov.Jmap.Store

/-- The state strings that stand for the contents at one time: that of `Email/get`, and that
of a page which ended with the rows of the last transaction. -/
def Store.Issued (s : Store) (state : List Char) : Prop :=
  state = s.feed.dataState ∨
    ∃ r ∈ s.feed.rows, r.updatedAt.nanos = s.clock ∧ state = stateForCursor s.clock

/-- The client ends up with the Emails of now: every answer fits what it holds when it
comes, and it was told of every row that is not as it was, but for those of messages that
it never had and that are gone again. -/
def CaughtUp (caller : Caller) (old now : Feed) (state : List Char) (ms : Nat → Option Nat) :
    Prop :=
  ∃ resps, session caller now ms (now.rows.length + 1) 0 state = some resps ∧
    AllFit old.live resps ∧
    (∀ i, i ∈ heldAfter old.live resps ↔ i ∈ now.live) ∧
    ∀ r ∈ now.rows, r ∉ old.rows → r.messageID ∈ old.live ∨ r.destroyed = false →
      ∃ resp ∈ resps, resp.names r.messageID

/-- Nothing stands in the way of a client that holds the Emails of `old`. -/
structure Unbroken (old now : Feed) (ms : Nat → Option Nat) : Prop where
  reachable : now.rows = [] ∨ old.maxUpdatedAt ≤ now.maxUpdatedAt
  kept : ∀ i ∈ old.live, ∃ r ∈ now.rows, r.messageID = i
  pages : now.AllWhole old.live ms 0 old.maxUpdatedAt

variable {old now s : Store} {caller : Caller} {state : List Char} {ms : Nat → Option Nat}
  {r : ChangeRow}

lemma Store.Dated.maxUpdatedAt_le (h : s.Dated) : s.feed.maxUpdatedAt ≤ s.clock := by
  rcases maxUpdatedAt_eq s.feed.rows with ⟨-, hzero⟩ | ⟨r, hr, heq⟩
  · rw [Feed.maxUpdatedAt, hzero]
    exact Nat.zero_le _
  · exact heq.symm.trans_le (h.past r hr)

/-- The cursor of a state string is the watermark of the contents it stands for. -/
lemma Store.Issued.cursor (hs : s.Dated) (h : s.Issued state) :
    cursorFromState state = .ok s.feed.maxUpdatedAt := by
  rcases h with rfl | ⟨r, hr, hclock, rfl⟩
  · exact s.feed.cursorFromState_dataState
  · have heq : s.clock = s.feed.maxUpdatedAt :=
      le_antisymm (hclock ▸ le_maxUpdatedAt hr) hs.maxUpdatedAt_le
    rw [← heq]
    exact cursorFromState_stateText 0 (hclock ▸ r.updatedAt.inRange)

/-- The rows after the watermark are those that are not as they were. -/
lemma Store.Grown.mem_since_iff (hold : old.Dated) (h : old.Grown now) (hr : r ∈ now.feed.rows) :
    r ∈ now.feed.since old.feed.maxUpdatedAt ↔ r ∉ old.feed.rows := by
  refine ⟨fun hsince hthen => ?_, fun hnot => mem_since.2 ⟨hr, ?_⟩⟩
  · exact absurd (le_maxUpdatedAt hthen) (Nat.not_le.2 (mem_since.1 hsince).2)
  · exact hold.maxUpdatedAt_le.trans_lt ((h.stamped r hr).resolve_left hnot)

/-- What is new since the watermark is none of the Emails of then. -/
lemma Store.Grown.not_mem_live (hold : old.Dated) (h : old.Grown now)
    (hr : r ∈ now.feed.rows) (hf : r.fresh old.feed.maxUpdatedAt) :
    r.messageID ∉ old.feed.live := by
  intro hlive
  obtain ⟨q, hq, -, hid⟩ := mem_live.1 hlive
  have hcreated := h.kept r hr q hq hid
  have hborn := hold.born q hq
  have hmax : q.updatedAt.nanos ≤ old.feed.maxUpdatedAt := le_maxUpdatedAt hq
  have hpast := q.updatedAt.pastEpoch
  rw [hcreated] at hborn
  rcases hf with h0 | hf
  · omega
  · omega

lemma session_reachable {f : Feed} {fuel call cursor : Nat}
    (hstate : cursorFromState state = .ok cursor)
    (h : session caller f ms (fuel + 1) call state ≠ none) :
    f.rows = [] ∨ cursor ≤ f.maxUpdatedAt := by
  rw [← checkCursorReachable_iff]
  cases hcheck : checkCursorReachable f cursor with
  | ok => rfl
  | error e =>
    refine absurd ?_ h
    have hload : loadChangeWindow (.still f) ⟨caller.accountID, state, ms call⟩ = .error e := by
      simp [loadChangeWindow, hstate, Reads.still, hcheck, bind, Except.bind]
    cases hparse : parseChanges caller ⟨caller.accountID, state, ms call⟩ with
    | error => simp [session, handleEmailChanges, hparse, bind, Except.bind]
    | ok => simp [session, handleEmailChanges, hparse, hload, bind, Except.bind]

lemma Store.dated_empty : Store.empty.Dated where
  born := by simp [empty, Feed.empty]
  past := by simp [empty, Feed.empty]

/-- The same for contents related as earlier and later ones are. -/
lemma Store.Grown.caughtUp_iff (hold : old.Dated) (h : old.Grown now)
    (hstate : old.Issued state) :
    CaughtUp caller old.feed now.feed state ms ↔ Unbroken old.feed now.feed ms := by
  have hcursor := hstate.cursor hold
  have hlen : (now.feed.since old.feed.maxUpdatedAt).length < now.feed.rows.length + 1 :=
    Nat.lt_succ_of_le ((List.length_insertionSort _ _).trans_le (List.length_filter_le _ _))
  -- what the client holds is the Emails of then, so that it agrees with itself
  have hsession : (now.feed.rows = [] ∨ old.feed.maxUpdatedAt ≤ now.feed.maxUpdatedAt) →
      ((∃ resps, session caller now.feed ms (now.feed.rows.length + 1) 0 state = some resps ∧
          now.feed.Learned old.feed.live old.feed.live old.feed.maxUpdatedAt resps) ↔
        now.feed.AllWhole old.feed.live ms 0 old.feed.maxUpdatedAt) := fun hreach =>
    learned_iff hlen hcursor hreach (fun _ _ => Iff.rfl) fun _ hr => h.not_mem_live hold hr
  refine ⟨fun ⟨resps, hresps, hfit, hheld, htold⟩ => ?_, fun ⟨hreach, hkept, hpages⟩ => ?_⟩
  · have hreach := session_reachable hcursor (by rw [hresps]; exact Option.some_ne_none _)
    have hnames := session_names hcursor hreach hresps
    refine ⟨hreach, fun i hi => ?_, (hsession hreach).1 ⟨resps, hresps, hfit, ?_, ?_⟩⟩
    · -- an Email without a row is never named, and the client would keep it
      by_contra hgone
      have hsame := @mem_heldAfter_of_not_names resps old.feed.live i fun resp hresp hn => by
        obtain ⟨r, hr, hid⟩ := hnames resp hresp i hn
        exact hgone ⟨r, (mem_since.1 hr).1, hid⟩
      obtain ⟨r, hr, -, hid⟩ := mem_live.1 ((hheld i).1 (hsame.2 hi))
      exact hgone ⟨r, hr, hid⟩
    · intro r hr
      exact (hheld r.messageID).trans (messageID_mem_live (mem_since.1 hr).1)
    · intro r hr
      have hrow := (mem_since.1 hr).1
      exact htold r hrow ((h.mem_since_iff hold hrow).1 hr)
  · obtain ⟨resps, hresps, hlearned⟩ := (hsession hreach).2 hpages
    have hnames := session_names hcursor hreach hresps
    refine ⟨resps, hresps, hlearned.fits, fun i => ?_, fun r hr hnot => ?_⟩
    · by_cases hrow : ∃ r ∈ now.feed.rows, r.messageID = i
      · obtain ⟨r, hr, rfl⟩ := hrow
        rw [messageID_mem_live hr]
        by_cases hsince : r ∈ now.feed.since old.feed.maxUpdatedAt
        · exact hlearned.live r hsince
        · -- a row as it was: the session does not name it
          have hthen : r ∈ old.feed.rows := by
            by_contra hnot
            exact hsince ((h.mem_since_iff hold hr).2 hnot)
          rw [← messageID_mem_live hthen]
          refine mem_heldAfter_of_not_names fun resp hresp hn => ?_
          obtain ⟨q, hq, hid⟩ := hnames resp hresp _ hn
          exact hsince (eq_of_messageID (mem_since.1 hq).1 hr hid ▸ hq)
      · have hlive : i ∉ now.feed.live := by
          intro hi
          obtain ⟨r, hr, -, hid⟩ := mem_live.1 hi
          exact hrow ⟨r, hr, hid⟩
        have hsame := @mem_heldAfter_of_not_names resps old.feed.live i fun resp hresp hn => by
          obtain ⟨r, hr, hid⟩ := hnames resp hresp i hn
          exact hrow ⟨r, (mem_since.1 hr).1, hid⟩
        exact hsame.trans ⟨fun hi => absurd (hkept i hi) hrow, fun hi => absurd hi hlive⟩
    · exact hlearned.told r ((h.mem_since_iff hold hr).2 hnot)

/-- **Catching up.**  A client that starts with the Emails of an earlier state of the store
and a state string for it ends up with the Emails of now, told of every change and of
nothing that does not fit, exactly if nothing stands in its way. -/
theorem caught_up_iff {before since : List (Stamp × Write)}
    (hold : Run.exec Store.step .empty before = some old)
    (hnow : Run.exec Store.step old since = some now) (hstate : old.Issued state)
    (caller : Caller) (ms : Nat → Option Nat) :
    CaughtUp caller old.feed now.feed state ms ↔ Unbroken old.feed now.feed ms := by
  have hguard : ∀ {s : Store} {txs}, Run.Guarded step (fun _ _ => True) s txs :=
    Run.guarded_of_forall fun _ _ => trivial
  have hdated : old.Dated :=
    Run.inv_exec (fun _ _ _ _ h hs => dated_step h hs) dated_empty hguard hold
  have hgrown : old.Grown now :=
    Run.inv_exec (fun _ _ _ _ h hs => grown_step h hs) old.grown_refl hguard hnow
  exact hgrown.caughtUp_iff hdated hstate

/-! ### Two histories -/

/-- Whole seconds of the first minute of the epoch. -/
def second (n : Nat) : Stamp where
  nanos := 1000000000 * (n % 60 + 1)
  pastEpoch := by omega
  inRange := by unfold int64Bound; omega

def sampleCaller : Caller :=
  ⟨"a1", by decide⟩

/-- The contents after one message. -/
def oneMessage : Store :=
  ⟨Feed.empty.write (second 0) (.insertMessages [some 1]), (second 0).nanos⟩

/-- A batch of two messages, in one transaction. -/
def batchOfTwo : Store :=
  ⟨oneMessage.feed.write (second 1) (.insertMessages [some 1, some 1]), (second 1).nanos⟩

/-- Two messages, in a transaction each. -/
def oneByOne : Store :=
  ⟨(oneMessage.feed.write (second 1) (.insertMessages [some 1])).write (second 2)
    (.insertMessages [some 1]), (second 2).nanos⟩

/-- One message at a time, they arrive in two pages. -/
theorem caught_up_oneByOne :
    Run.exec Store.step .empty [(second 0, .insertMessages [some 1])] = some oneMessage ∧
      Run.exec Store.step oneMessage [(second 1, .insertMessages [some 1]),
        (second 2, .insertMessages [some 1])] = some oneByOne ∧
      oneMessage.Issued oneMessage.feed.dataState ∧
      Unbroken oneMessage.feed oneByOne.feed (fun _ => some 1) ∧
      CaughtUp sampleCaller oneMessage.feed oneByOne.feed oneMessage.feed.dataState
        (fun _ => some 1) := by
  have hold : Run.exec step .empty [(second 0, .insertMessages [some 1])] =
      some oneMessage := rfl
  have hnow : Run.exec step oneMessage [(second 1, .insertMessages [some 1]),
      (second 2, .insertMessages [some 1])] = some oneByOne := rfl
  have hstate : oneMessage.Issued oneMessage.feed.dataState := .inl rfl
  -- the first page is cut, the second is the last
  have hlast : ¬ oneByOne.feed.more
      (oneByOne.feed.cut oneMessage.feed.maxUpdatedAt (some 1)) (some 1) := by decide
  have hunbroken : Unbroken oneMessage.feed oneByOne.feed (fun _ => some 1) :=
    ⟨.inr (by decide), by decide, allWhole_iff.2
      ⟨⟨by decide, by decide, by decide⟩, fun _ => allWhole_iff.2
        ⟨⟨by decide, by decide, fun h => absurd h hlast⟩, fun h => absurd h hlast⟩⟩⟩
  exact ⟨hold, hnow, hstate, hunbroken, (caught_up_iff hold hnow hstate sampleCaller _).2 hunbroken⟩

/-- One message at a time, the second message of the batch never arrives: the first page
ends with its sibling, and the next one asks for later stamps. -/
theorem batch_cut_in_two :
    Run.exec Store.step .empty [(second 0, .insertMessages [some 1])] = some oneMessage ∧
      Run.exec Store.step oneMessage [(second 1, .insertMessages [some 1, some 1])] =
        some batchOfTwo ∧
      oneMessage.Issued oneMessage.feed.dataState ∧
      ¬ CaughtUp sampleCaller oneMessage.feed batchOfTwo.feed oneMessage.feed.dataState
          (fun _ => some 1) := by
  refine ⟨rfl, rfl, .inl rfl, fun ⟨resps, hresps, _, hheld, _⟩ => ?_⟩
  have hrun : (session sampleCaller batchOfTwo.feed (fun _ => some 1)
      (batchOfTwo.feed.rows.length + 1) 0 oneMessage.feed.dataState).map
        (heldAfter oneMessage.feed.live) = some [1, 2] := by
    decide +kernel
  have hlive : 3 ∈ batchOfTwo.feed.live := by decide
  rw [hresps] at hrun
  have hthree := (hheld 3).2 hlive
  rw [Option.some.inj hrun] at hthree
  simp at hthree

end Moov.Jmap
