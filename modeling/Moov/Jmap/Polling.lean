import Moov.Jmap.Catchup

/-!
# A client that polls while transactions overlap

Transactions are stamped when they begin and seen when they commit, in any order.  Against
them one client polls: `Email/changes` from the state of the last answer, in three queries
(the watermark, the rows, the new state), and `Email/get`, which reads the state before the
rows.  Every query sees what is committed when it is made.

Two lists are for the statement only.  `late` has the messages that were changed since the
last rows query, `due` those that were changed before it and of which the client has not
been told.  No change is lost if what is owed stays after the client's cursor, nothing is
due whenever an answer says that there are no more changes, and a client that goes on
polling comes to such an answer.  `no_change_lost` proves it for the runs in which

* no transaction commits under a stamp that a state given out, or about to be, has passed,
  nor under one older than the message it rewrites;
* none commits between the rows and the state of an answer, none inserts between the state
  and the rows of `Email/get`;
* no state row is deleted outright, and no page ends inside a stamp.

`late_commit_lost` is a run that only breaks the first of these.
-/

namespace Moov.Jmap

open Feed List

/-! ## The client and the transactions -/

/-- Where a request of the client stands between its queries. -/
inductive Phase
  | idle
  /-- `Email/changes` past its watermark query. -/
  | checked (maxChanges : Option Nat) (newest : Feed)
  /-- `Email/changes` past its rows query. -/
  | listed (maxChanges : Option Nat) (newest rows : Feed)
  /-- `Email/get` past its state query. -/
  | fetching (state : List Char)

def Phase.isIdle : Phase → Bool
  | .idle => true
  | _ => false

structure Polling where
  db : Feed
  clock : Nat
  pending : List (Stamp × Write)
  state : List Char
  held : List Nat
  phase : Phase
  due : List Nat
  late : List Nat
  /-- The last answer said that there are no more changes. -/
  settled : Bool
  /-- An answer was an error. -/
  refused : Bool

inductive PollAction
  /-- A transaction begins, at the time of its stamp. -/
  | begin (now : Stamp) (w : Write)
  | commit (i : Nat)
  | ask (maxChanges : Option Nat)
  | list
  | settle
  | getState
  | getRows
deriving DecidableEq

/-- The messages that a write changes.  A tombstone that is deleted outright is no change
to a client. -/
def Feed.changedBy (f : Feed) (now : Stamp) (w : Write) : List Nat :=
  (f.rows.filter fun r => w.touches r && !(r.destroyed && (w.rewrite now r).isNone)).map
      (·.messageID) ++
    (newRows now f.seq w.batch).map (·.messageID)

/-- Whether an answer deals with a change: it names the message, or leaves it out and the
client does not have it. -/
def dealtWith (window : ChangeWindow) (resp : ChangesResponse) (held : List Nat) (i : Nat) :
    Bool :=
  i ∈ resp.created || i ∈ resp.updated || i ∈ resp.destroyed ||
    (i ∈ window.ids .omitted && i ∉ held)

/-- The state query of `Email/changes`, and its answer. -/
def Polling.answered (s : Polling) (caller : Caller) (maxChanges : Option Nat)
    (newest rows : Feed) : Polling :=
  let db : Reads := ⟨newest, rows, s.db⟩
  let req : ChangesRequest := ⟨caller.accountID, s.state, maxChanges⟩
  match handleEmailChanges caller db req, loadChangeWindow db req with
  | .ok resp, .ok window =>
      { s with
        phase := .idle
        state := resp.newState
        held := resp.applyTo s.held
        due := s.due.filter fun i => !dealtWith window resp s.held i
        settled := !resp.hasMoreChanges }
  | _, _ => { s with phase := .idle, refused := true }

def Polling.step (caller : Caller) (s : Polling) : PollAction → Option Polling
  | .begin now w =>
      if s.clock ≤ now.nanos then
        some { s with clock := now.nanos, pending := s.pending ++ [(now, w)] }
      else none
  | .commit i =>
      match s.pending[i]? with
      | none => none
      | some (now, w) =>
          some { s with
            db := s.db.write now w
            pending := s.pending.eraseIdx i
            late := s.late ++ s.db.changedBy now w }
  | .ask maxChanges =>
      match s.phase with
      | .idle => if maxChanges = some 0 then
        none
      else some { s with phase := .checked maxChanges s.db }
      | _ => none
  | .list =>
      match s.phase with
      | .checked maxChanges newest =>
          some { s with
            phase := .listed maxChanges newest s.db
            due := s.due ++ s.late
            late := []
            settled := false }
      | _ => none
  | .settle =>
      match s.phase with
      | .listed maxChanges newest rows => some (s.answered caller maxChanges newest rows)
      | _ => none
  | .getState =>
      match s.phase with
      | .idle => some { s with phase := .fetching s.db.dataState }
      | _ => none
  | .getRows =>
      match s.phase with
      | .fetching state =>
          some { s with
            phase := .idle
            state := state
            held := s.db.live
            due := []
            late := []
            settled := true }
      | _ => none

/-- An empty account, and a client that has seen it. -/
def Polling.start : Polling where
  db := .empty
  clock := 0
  pending := []
  state := Feed.empty.dataState
  held := []
  phase := .idle
  due := []
  late := []
  settled := false
  refused := false

/-! ## Runs in order -/

open Polling

/-- The cursor in a state string. -/
def cursorOf (state : List Char) : Nat :=
  match cursorFromState state with
  | .ok c => c
  | .error _ => 0

def Polling.cursor (s : Polling) : Nat :=
  cursorOf s.state

/-- A write leaves every row in place and rewrites none that is younger than itself. -/
def Feed.keptBy (f : Feed) (now : Stamp) (w : Write) : Bool :=
  f.rows.all fun r =>
    !w.touches r || ((w.rewrite now r).isSome && r.createdAt.nanos ≤ now.nanos)

/-- A transaction may commit now, as far as the request that is being answered goes. -/
def Polling.undisturbed (s : Polling) (now : Stamp) (w : Write) : Bool :=
  match s.phase with
  | .idle => true
  | .checked _ _ => true
  | .listed maxChanges _ rows =>
      rows.more s.cursor maxChanges && rows.cut s.cursor maxChanges < now.nanos
  | .fetching state => w.batch = [] && cursorOf state < now.nanos

/-- The limit does not cut the feed inside a stamp. -/
def Feed.cutClean (f : Feed) (cursor : Nat) (maxChanges : Option Nat) : Bool :=
  !f.more cursor maxChanges ||
    (f.left cursor maxChanges).all fun r => r.updatedAt.nanos ≠ f.cut cursor maxChanges

/-- The condition on a step. -/
def orderly (s : Polling) : PollAction → Bool
  | .commit i =>
      match s.pending[i]? with
      | none => true
      | some (now, w) =>
          s.db.keptBy now w && s.cursor < now.nanos && s.undisturbed now w
  | .list =>
      match s.phase with
      | .checked maxChanges _ => s.db.cutClean s.cursor maxChanges
      | _ => true
  | _ => true

/-! ## What a write does to the feed after a cursor -/

/-- Later contents, in which every message is still there: its row as it was, or stamped
after the cursor. -/
structure Feed.Follows (f g : Feed) (cursor : Nat) : Prop where
  seq : f.seq ≤ g.seq
  row : ∀ r ∈ f.rows, ∃ q ∈ g.rows, q.messageID = r.messageID ∧ q.createdAt = r.createdAt ∧
    (q = r ∨ cursor < q.updatedAt.nanos)

section Follows

variable {f g h : Feed} {cursor : Nat} {now : Stamp} {w : Write} {i : Nat} {r : ChangeRow}

lemma Feed.Follows.refl (f : Feed) (cursor : Nat) : f.Follows f cursor :=
  ⟨le_refl _, fun r hr => ⟨r, hr, rfl, rfl, .inl rfl⟩⟩

lemma Feed.Follows.trans (hfg : f.Follows g cursor) (hgh : g.Follows h cursor) :
    f.Follows h cursor := by
  refine ⟨hfg.seq.trans hgh.seq, fun r hr => ?_⟩
  obtain ⟨q, hq, hid, hcreated, hqr⟩ := hfg.row r hr
  obtain ⟨p, hp, hid', hcreated', hpq⟩ := hgh.row q hq
  refine ⟨p, hp, hid'.trans hid, hcreated'.trans hcreated, ?_⟩
  rcases hpq with rfl | hlt
  · exact hqr
  · exact .inr hlt

/-- What was after the cursor stays after it. -/
lemma Feed.Follows.ahead (hfg : f.Follows g cursor)
    (hi : ∃ r ∈ f.rows, r.messageID = i ∧ cursor < r.updatedAt.nanos) :
    ∃ r ∈ g.rows, r.messageID = i ∧ cursor < r.updatedAt.nanos := by
  obtain ⟨r, hr, hid, hlt⟩ := hi
  obtain ⟨q, hq, hid', -, hqr⟩ := hfg.row r hr
  refine ⟨q, hq, hid'.trans hid, ?_⟩
  rcases hqr with rfl | hlt'
  · exact hlt
  · exact hlt'

/-- A watermark that has reached the cursor does not fall behind it. -/
lemma Feed.Follows.le_max (hfg : f.Follows g cursor) (hle : cursor ≤ f.maxUpdatedAt) :
    cursor ≤ g.maxUpdatedAt := by
  rcases maxUpdatedAt_eq f.rows with ⟨-, hzero⟩ | ⟨r, hr, heq⟩
  · unfold maxUpdatedAt at hle
    omega
  · obtain ⟨q, hq, -, -, hqr⟩ := hfg.row r hr
    have hmax : q.updatedAt.nanos ≤ g.maxUpdatedAt := le_maxUpdatedAt hq
    unfold maxUpdatedAt at hle
    rcases hqr with rfl | hlt
    · omega
    · omega

section

variable (hkept : f.keptBy now w = true)
include hkept

lemma Feed.keptBy_row (hr : r ∈ f.rows) (ht : w.touches r = true) :
    (w.rewrite now r).isSome = true ∧ r.createdAt.nanos ≤ now.nanos := by
  have := all_eq_true.1 hkept r hr
  simpa [ht] using this

/-- A row under a write that leaves all rows in place. -/
lemma Feed.exists_rewritten (hr : r ∈ f.rows) :
    ∃ q ∈ (f.write now w).rows, Rewritten now w r q := by
  have hsome : (w.onRow now r).isSome = true := by
    unfold Write.onRow
    split
    · rename_i ht
      exact (keptBy_row hkept hr ht).1
    · rfl
  obtain ⟨q, hq⟩ := Option.isSome_iff_exists.1 hsome
  exact ⟨q, mem_append_left _ (mem_filterMap.2 ⟨r, hr, hq⟩), rewritten_of_onRow hq⟩

lemma Feed.follows_write (hlt : cursor < now.nanos) : f.Follows (f.write now w) cursor := by
  refine ⟨Nat.le_add_right _ _, fun r hr => ?_⟩
  obtain ⟨q, hq, hrq⟩ := exists_rewritten hkept hr
  refine ⟨q, hq, hrq.messageID, hrq.createdAt, ?_⟩
  rcases hrq.stamped with ⟨-, rfl⟩ | ⟨-, hstamp⟩
  · exact .inl rfl
  · exact .inr (hstamp ▸ hlt)

/-- What a write changes carries its stamp afterwards. -/
lemma Feed.changedBy_stamped (hi : i ∈ f.changedBy now w) :
    ∃ r ∈ (f.write now w).rows, r.messageID = i ∧ r.updatedAt = now := by
  rcases mem_append.1 hi with hi | hi
  · obtain ⟨r, hr, hid⟩ := mem_map.1 hi
    obtain ⟨hrow, hcond⟩ := mem_filter.1 hr
    obtain ⟨q, hq, hrq⟩ := exists_rewritten hkept hrow
    refine ⟨q, hq, hrq.messageID.trans hid, ?_⟩
    rcases hrq.stamped with ⟨hnot, -⟩ | ⟨-, hstamp⟩
    · simp [hnot] at hcond
    · exact hstamp
  · obtain ⟨r, hr, hid⟩ := mem_map.1 hi
    exact ⟨r, mem_append_right _ hr, hid, (mem_newRows hr).2.2.2.1⟩

lemma Feed.born_write (hborn : ∀ r ∈ f.rows, r.createdAt.nanos ≤ r.updatedAt.nanos) :
    ∀ r ∈ (f.write now w).rows, r.createdAt.nanos ≤ r.updatedAt.nanos := by
  intro q hq
  rcases mem_write hq with ⟨r, hr, hrq⟩ | ⟨-, hcreated, hupdated⟩
  · rcases hrq.stamped with ⟨-, rfl⟩ | ⟨ht, hstamp⟩
    · exact hborn _ hr
    · rw [hrq.createdAt, hstamp]
      exact (keptBy_row hkept hr ht).2
  · rw [hcreated, hupdated]

end

end Follows

/-! ## The invariant -/

/-- `Email/changes` past its rows query. -/
structure Polling.Listed (s : Polling) (maxChanges : Option Nat) (newest rows : Feed) : Prop where
  asked : maxChanges ≠ some 0
  reached : s.cursor ≤ newest.maxUpdatedAt
  born : ∀ r ∈ rows.rows, r.createdAt.nanos ≤ r.updatedAt.nanos
  due : ∀ i ∈ s.due, ∃ r ∈ rows.rows, r.messageID = i ∧ s.cursor < r.updatedAt.nanos
  clean : rows.cutClean s.cursor maxChanges = true
  whole : ¬ rows.more s.cursor maxChanges → s.db = rows ∧ s.late = []
  follows : rows.more s.cursor maxChanges → rows.Follows s.db (rows.cut s.cursor maxChanges)
  late : rows.more s.cursor maxChanges → ∀ i ∈ s.late, ∃ r ∈ s.db.rows, r.messageID = i ∧
    rows.cut s.cursor maxChanges < r.updatedAt.nanos

/-- `Email/get` past its state query. -/
structure Polling.Fetching (s : Polling) (state : List Char) : Prop where
  known : cursorFromState state = .ok (cursorOf state)
  reached : cursorOf state ≤ s.db.maxUpdatedAt
  held : ∀ r ∈ s.db.rows, r.createdAt.nanos ≤ cursorOf state

/-- What holds while a request is between its queries. -/
def Polling.Between (s : Polling) : Phase → Prop
  | .idle => True
  | .checked maxChanges newest => maxChanges ≠ some 0 ∧ s.cursor ≤ newest.maxUpdatedAt
  | .listed maxChanges newest rows => s.Listed maxChanges newest rows
  | .fetching state => s.Fetching state

structure Polling.Inv (s : Polling) : Prop where
  known : cursorFromState s.state = .ok s.cursor
  reached : s.cursor ≤ s.db.maxUpdatedAt
  born : ∀ r ∈ s.db.rows, r.createdAt.nanos ≤ r.updatedAt.nanos
  issued : ∀ i ∈ s.held, i < s.db.seq
  /-- What the client holds is not new since its cursor. -/
  held : ∀ r ∈ s.db.rows, r.messageID ∈ s.held → r.createdAt.nanos ≤ s.cursor
  /-- What the client is owed is after its cursor. -/
  ahead : ∀ i ∈ s.due ++ s.late, ∃ r ∈ s.db.rows, r.messageID = i ∧ s.cursor < r.updatedAt.nanos
  between : s.Between s.phase
  quiet : s.settled = true → s.due = []
  served : s.refused = false

lemma Polling.Inv.at_phase {s : Polling} {p : Phase} (h : s.Inv) (hphase : s.phase = p) :
    s.Between p :=
  hphase ▸ h.between

lemma cursorOf_eq {state : List Char} {c : Nat} (h : cursorFromState state = .ok c) :
    cursorOf state = c := by
  rw [cursorOf, h]

lemma Polling.inv_start : Polling.start.Inv where
  known := by decide
  reached := by decide
  born := by simp [start, empty]
  issued := by simp [start]
  held := by simp [start]
  ahead := by simp [start]
  between := trivial
  quiet := by simp [start]
  served := rfl

open Polling

section Step

variable {s : Polling} {now : Stamp} {w : Write} {i c : Nat}

/-- What the client holds is not new since a cursor, after a write as before it. -/
lemma Feed.held_write {f : Feed} {held : List Nat} (hissued : ∀ i ∈ held, i < f.seq)
    (hheld : ∀ r ∈ f.rows, r.messageID ∈ held → r.createdAt.nanos ≤ c) :
    ∀ r ∈ (f.write now w).rows, r.messageID ∈ held → r.createdAt.nanos ≤ c := by
  intro q hq hmem
  rcases mem_write hq with ⟨r, hr, hrq⟩ | ⟨hlow, -, -⟩
  · rw [hrq.createdAt]
    exact hheld r hr (hrq.messageID ▸ hmem)
  · exact absurd (hissued _ hmem) (by omega)

/-- A transaction that has only begun is seen by nobody. -/
lemma Polling.inv_begin (h : s.Inv) (clock : Nat) (pending : List (Stamp × Write)) :
    Polling.Inv { s with clock, pending } := by
  refine { h with between := ?_ }
  show Polling.Between _ s.phase
  cases hphase : s.phase with
  | idle => trivial
  | checked => exact h.at_phase hphase
  | listed => exact { (h.at_phase hphase : s.Listed ..) with }
  | fetching => exact { (h.at_phase hphase : s.Fetching _) with }

lemma Polling.between_commit (h : s.Inv) (hkept : s.db.keptBy now w = true)
    (hundisturbed : s.undisturbed now w = true) (pending : List (Stamp × Write)) :
    Polling.Between
      { s with db := s.db.write now w, pending, late := s.late ++ s.db.changedBy now w }
      s.phase := by
  cases hphase : s.phase with
  | idle => trivial
  | checked => exact h.at_phase hphase
  | listed =>
    simp only [undisturbed, hphase, Bool.and_eq_true, decide_eq_true_eq] at hundisturbed
    obtain ⟨hmore, hcut⟩ := hundisturbed
    have hlisted : s.Listed .. := h.at_phase hphase
    have hfollows := follows_write hkept hcut
    exact
      { hlisted with
        whole := fun hnot => absurd hmore hnot
        follows := fun hm => (hlisted.follows hm).trans hfollows
        late := by
          intro hm i hi
          rcases mem_append.1 hi with hi | hi
          · exact hfollows.ahead (hlisted.late hm i hi)
          · obtain ⟨r, hr, hid, hstamp⟩ := changedBy_stamped hkept hi
            exact ⟨r, hr, hid, hstamp ▸ hcut⟩ }
  | fetching =>
    simp only [undisturbed, hphase, Bool.and_eq_true, decide_eq_true_eq] at hundisturbed
    obtain ⟨hbatch, hlt⟩ := hundisturbed
    have hfetching : s.Fetching _ := h.at_phase hphase
    refine ⟨hfetching.known, (follows_write hkept hlt).le_max hfetching.reached, ?_⟩
    intro q hq
    rcases mem_append.1 hq with hq | hq
    · obtain ⟨r, hr, hrq⟩ := mem_filterMap.1 hq
      rw [(rewritten_of_onRow hrq).createdAt]
      exact hfetching.held r hr
    · rw [hbatch] at hq
      cases hq

lemma Polling.inv_commit (h : s.Inv) (hkept : s.db.keptBy now w = true)
    (hlt : s.cursor < now.nanos) (hundisturbed : s.undisturbed now w = true)
    (pending : List (Stamp × Write)) :
    Polling.Inv
      { s with db := s.db.write now w, pending, late := s.late ++ s.db.changedBy now w } :=
  { h with
    reached := (follows_write hkept hlt).le_max h.reached
    born := born_write hkept h.born
    issued := fun i hi => (h.issued i hi).trans_le (follows_write hkept hlt).seq
    held := held_write h.issued h.held
    ahead := by
      intro i hi
      rw [← append_assoc] at hi
      rcases mem_append.1 hi with hi | hi
      · exact (follows_write hkept hlt).ahead (h.ahead i hi)
      · obtain ⟨r, hr, hid, hstamp⟩ := changedBy_stamped hkept hi
        exact ⟨r, hr, hid, hstamp ▸ hlt⟩
    between := between_commit h hkept hundisturbed pending }

lemma Polling.inv_list {maxChanges : Option Nat} {newest : Feed} (h : s.Inv)
    (hphase : s.phase = .checked maxChanges newest)
    (hclean : s.db.cutClean s.cursor maxChanges = true) :
    Polling.Inv
      { s with
        phase := .listed maxChanges newest s.db
        due := s.due ++ s.late
        late := []
        settled := false } := by
  obtain ⟨hm, hnewest⟩ := h.at_phase hphase
  exact
    { h with
      ahead := by
        intro i hi
        rw [append_nil] at hi
        exact h.ahead i hi
      between :=
        { asked := hm
          reached := hnewest
          born := h.born
          due := h.ahead
          clean := hclean
          whole := fun _ => ⟨rfl, rfl⟩
          follows := fun _ => .refl _ _
          late := nofun }
      quiet := nofun }

lemma Polling.inv_getState (h : s.Inv) :
    Polling.Inv { s with phase := .fetching s.db.dataState } := by
  have hcursor := s.db.cursorFromState_dataState
  refine { h with between := ⟨?_, ?_, fun r hr => ?_⟩ }
  · rw [cursorOf_eq hcursor, hcursor]
  · rw [cursorOf_eq hcursor]
  · rw [cursorOf_eq hcursor]
    exact (h.born r hr).trans (le_maxUpdatedAt hr)

lemma Polling.inv_getRows {state : List Char} (h : s.Inv) (hphase : s.phase = .fetching state) :
    Polling.Inv
      { s with
        phase := .idle
        state := state
        held := s.db.live
        due := []
        late := []
        settled := true } := by
  have hfetching : s.Fetching _ := h.at_phase hphase
  exact
    { h with
      known := hfetching.known
      reached := hfetching.reached
      issued := by
        intro i hi
        obtain ⟨r, hr, -, hid⟩ := mem_live.1 hi
        exact hid ▸ s.db.issued r hr
      held := fun r hr _ => hfetching.held r hr
      ahead := forall_mem_nil _
      between := trivial
      quiet := fun _ => rfl }

/-- The state string of an answer. -/
def Polling.nextState (s : Polling) (maxChanges : Option Nat) (rows : Feed) : List Char :=
  if rows.more s.cursor maxChanges then stateForCursor (rows.cut s.cursor maxChanges)
  else s.db.dataState

/-- The window of an answer. -/
def Polling.window (s : Polling) (maxChanges : Option Nat) (rows : Feed) : ChangeWindow :=
  ⟨rows.page s.cursor maxChanges, s.cursor, s.nextState maxChanges rows,
    rows.more s.cursor maxChanges⟩

/-- The answer itself. -/
def Polling.response (s : Polling) (caller : Caller) (maxChanges : Option Nat) (rows : Feed) :
    ChangesResponse :=
  { rows.answer caller.accountID s.state s.cursor maxChanges with
    newState := s.nextState maxChanges rows }

variable {caller : Caller} {maxChanges : Option Nat} {newest rows : Feed}

/-- An answer in a run in order is not an error. -/
lemma Polling.answered_eq (hknown : cursorFromState s.state = .ok s.cursor)
    (hreached : s.cursor ≤ newest.maxUpdatedAt) (hm : maxChanges ≠ some 0) :
    s.answered caller maxChanges newest rows =
      { s with
        phase := .idle
        state := s.nextState maxChanges rows
        held := (s.response caller maxChanges rows).applyTo s.held
        due := s.due.filter fun i =>
          !dealtWith (s.window maxChanges rows) (s.response caller maxChanges rows) s.held i
        settled := !rows.more s.cursor maxChanges } := by
  have hload := @loadChangeWindow_eq s.cursor ⟨newest, rows, s.db⟩
    ⟨caller.accountID, s.state, maxChanges⟩ hknown (checkCursorReachable_iff.2 (.inr hreached))
  have hhandle : handleEmailChanges caller ⟨newest, rows, s.db⟩
      ⟨caller.accountID, s.state, maxChanges⟩ = .ok (s.response caller maxChanges rows) := by
    simp only [handleEmailChanges, parseChanges_ok hknown hm, hload, bind, Except.bind, pure,
      Except.pure]
    rfl
  simp only [answered, hhandle, hload]
  rfl

/-- The answer deals with every change in its page. -/
lemma Polling.dealtWith_of_page {r : ChangeRow} (hr : r ∈ rows.page s.cursor maxChanges)
    (hheld : r.messageID ∈ s.held → r.createdAt.nanos ≤ s.cursor) :
    dealtWith (s.window maxChanges rows) (s.response caller maxChanges rows) s.held
      r.messageID = true := by
  by_cases homitted : r.fresh s.cursor ∧ r.destroyed = true
  · have hids : r.messageID ∈ (s.window maxChanges rows).ids .omitted := by
      refine (mem_ids_iff hr _ _ .omitted).2 ?_
      rw [classify_eq, if_pos homitted.1, if_pos homitted.2]
    have hnot : r.messageID ∉ s.held := by
      intro hmem
      have hle := hheld hmem
      have hpast := r.createdAt.pastEpoch
      rcases homitted.1 with h0 | hlt
      · omega
      · omega
    simp [dealtWith, hids, hnot]
  · have hnames := @names_of_page rows s.cursor maxChanges r caller.accountID s.state hr homitted
    rcases hnames with hn | hn | hn
    · have : r.messageID ∈ (s.response caller maxChanges rows).created := hn
      simp [dealtWith, this]
    · have : r.messageID ∈ (s.response caller maxChanges rows).updated := hn
      simp [dealtWith, this]
    · have : r.messageID ∈ (s.response caller maxChanges rows).destroyed := hn
      simp [dealtWith, this]

/-- The invariant after an answer, from what its new cursor `c` has to do with the page and
with the contents. -/
lemma Polling.inv_answered (h : s.Inv) (hlisted : s.Listed maxChanges newest rows)
    (hstate : cursorFromState (s.nextState maxChanges rows) = .ok c)
    (hreached : c ≤ s.db.maxUpdatedAt) (hle : s.cursor ≤ c)
    (hfollows : rows.Follows s.db c)
    (hpage : ∀ r ∈ rows.page s.cursor maxChanges, r.updatedAt.nanos ≤ c)
    (hleft : ∀ r ∈ rows.since s.cursor, r ∉ rows.page s.cursor maxChanges → c < r.updatedAt.nanos)
    (hlate : ∀ i ∈ s.late, ∃ r ∈ s.db.rows, r.messageID = i ∧ c < r.updatedAt.nanos)
    (hmore : ¬ rows.more s.cursor maxChanges →
      rows.page s.cursor maxChanges = rows.since s.cursor) :
    (s.answered caller maxChanges newest rows).Inv := by
  rw [answered_eq h.known hlisted.reached hlisted.asked]
  have hcursor : cursorOf (s.nextState maxChanges rows) = c := cursorOf_eq hstate
  have hthen : ∀ r ∈ rows.rows, r.messageID ∈ s.held → r.createdAt.nanos ≤ s.cursor := by
    intro r hr hmem
    obtain ⟨q, hq, hid, hcreated, -⟩ := hfollows.row r hr
    rw [← hcreated]
    exact h.held q hq (hid ▸ hmem)
  -- what is still due is past the page
  have hdue : ∀ i ∈ s.due, dealtWith (s.window maxChanges rows)
      (s.response caller maxChanges rows) s.held i = false →
        ∃ r ∈ rows.rows, r.messageID = i ∧ c < r.updatedAt.nanos ∧
          r ∉ rows.page s.cursor maxChanges := by
    intro i hi hnot
    obtain ⟨r, hr, rfl, hlt⟩ := hlisted.due i hi
    have hout : r ∉ rows.page s.cursor maxChanges := by
      intro hin
      rw [dealtWith_of_page hin (hthen r hr)] at hnot
      cases hnot
    exact ⟨r, hr, rfl, hleft r (mem_since.2 ⟨hr, hlt⟩) hout, hout⟩
  have hrow : ∀ r ∈ rows.page s.cursor maxChanges, r ∈ rows.rows := fun r hr =>
    (mem_since.1 (mem_since_iff_page.2 (.inl hr))).1
  have hcreated : ∀ i ∈ (s.response caller maxChanges rows).created,
      ∃ r ∈ rows.page s.cursor maxChanges, r.messageID = i :=
    fun i hi => @answer_names rows s.cursor maxChanges caller.accountID s.state i (.inl hi)
  exact
    { h with
      known := hstate.trans (congrArg Except.ok hcursor.symm)
      reached := hcursor.le.trans hreached
      issued := by
        intro i hi
        rcases ChangesResponse.mem_applyTo.1 hi with ⟨hi, -⟩ | hi
        · exact h.issued i hi
        · obtain ⟨r, hr, hid⟩ := hcreated i hi
          exact hid ▸ (rows.issued r (hrow r hr)).trans_le hfollows.seq
      held := by
        intro q hq hmem
        show q.createdAt.nanos ≤ cursorOf (s.nextState maxChanges rows)
        rw [hcursor]
        rcases ChangesResponse.mem_applyTo.1 hmem with ⟨hmem, -⟩ | hmem
        · exact (h.held q hq hmem).trans hle
        · obtain ⟨r, hr, hid⟩ := hcreated _ hmem
          obtain ⟨p, hp, hid', hborn, -⟩ := hfollows.row r (hrow r hr)
          have hpq := eq_of_messageID hp hq (hid'.trans hid)
          rw [← hpq, hborn]
          exact (hlisted.born r (hrow r hr)).trans (hpage r hr)
      ahead := by
        intro i hi
        show ∃ r ∈ s.db.rows, r.messageID = i ∧
          cursorOf (s.nextState maxChanges rows) < r.updatedAt.nanos
        rw [hcursor]
        rcases mem_append.1 hi with hi | hi
        · obtain ⟨hmem, hnot⟩ := mem_filter.1 hi
          obtain ⟨r, hr, hid, hlt, -⟩ := hdue i hmem (by simpa using hnot)
          exact hfollows.ahead ⟨r, hr, hid, hlt⟩
        · exact hlate i hi
      between := trivial
      quiet := by
        intro hsettled
        have hall := hmore (by simpa using hsettled)
        refine filter_eq_nil_iff.2 fun i hi hnot => ?_
        obtain ⟨r, hr, hid, -, hout⟩ := hdue i hi (by simpa using hnot)
        obtain ⟨q, hq, hid', hlt⟩ := hlisted.due i hi
        have hqr := eq_of_messageID hq hr (hid'.trans hid.symm)
        exact hout (hall ▸ mem_since.2 ⟨hr, hqr ▸ hlt⟩) }

lemma Polling.inv_settle (h : s.Inv) (hphase : s.phase = .listed maxChanges newest rows) :
    (s.answered caller maxChanges newest rows).Inv := by
  have hlisted : s.Listed .. := h.at_phase hphase
  by_cases hmore : rows.more s.cursor maxChanges
  · -- the page is cut: the new state is the stamp of its last row
    obtain ⟨hstate, hmax⟩ := cut_state hlisted.asked hmore
    obtain ⟨-, -, -, hpage⟩ := exists_cut hlisted.asked hmore
    have hfollows := hlisted.follows hmore
    have hclean : ∀ r ∈ rows.left s.cursor maxChanges,
        r.updatedAt.nanos ≠ rows.cut s.cursor maxChanges := by
      simpa [cutClean, hmore] using hlisted.clean
    refine inv_answered h hlisted (by rw [nextState, if_pos hmore, hstate])
      (hfollows.le_max hmax) (cursor_lt_cut hlisted.asked hmore).le hfollows hpage ?_
      (hlisted.late hmore) (fun hnot => absurd hmore hnot)
    intro r hr hout
    rcases mem_since_cases hlisted.asked hmore hr with hin | ⟨hleft, hstamp⟩ | hafter
    · exact absurd hin hout
    · exact absurd hstamp (hclean r hleft)
    · exact (mem_since.1 hafter).2
  · -- nothing was committed since the rows were read
    obtain ⟨hdb, hlate⟩ := hlisted.whole hmore
    have hall : rows.page s.cursor maxChanges = rows.since s.cursor :=
      take_of_length_le (Nat.le_of_not_lt hmore)
    have hstate : cursorFromState (s.nextState maxChanges rows) = .ok rows.maxUpdatedAt := by
      rw [nextState, if_neg hmore, hdb, rows.cursorFromState_dataState]
    refine inv_answered h hlisted hstate (hdb ▸ le_refl _) (hdb ▸ h.reached)
      (hdb ▸ .refl _ _) (fun r hr => ?_) (fun r hr hout => absurd (hall ▸ hr) hout)
      (fun i hi => ?_) fun _ => hall
    · exact le_maxUpdatedAt (mem_since.1 (hall ▸ hr)).1
    · rw [hlate] at hi
      cases hi

end Step

/-- **One step.**  Every step in order keeps the invariant. -/
theorem Polling.inv_step {caller : Caller} {s s' : Polling} {a : PollAction}
    (hg : orderly s a = true) (h : s.Inv) (hs : s.step caller a = some s') : s'.Inv := by
  cases a with
  | begin =>
    obtain ⟨-, ⟨⟩⟩ := Option.ite_none_right_eq_some.1 hs
    exact inv_begin h _ _
  | commit =>
    simp only [step] at hs
    split at hs
    · cases hs
    · rename_i now w hi
      cases hs
      simp only [orderly, hi, Bool.and_eq_true, decide_eq_true_eq] at hg
      exact inv_commit h hg.1.1 hg.1.2 hg.2 _
  | ask =>
    simp only [step] at hs
    split at hs
    · split at hs
      · cases hs
      · rename_i hm
        cases hs
        exact { h with between := ⟨hm, h.reached⟩ }
    · cases hs
  | list =>
    simp only [step] at hs
    split at hs
    · rename_i maxChanges newest hphase
      cases hs
      simp only [orderly, hphase] at hg
      exact inv_list h hphase hg
    · cases hs
  | settle =>
    simp only [step] at hs
    split at hs
    · rename_i maxChanges newest rows hphase
      cases hs
      exact inv_settle h hphase
    · cases hs
  | getState =>
    simp only [step] at hs
    split at hs
    · cases hs
      exact inv_getState h
    · cases hs
  | getRows =>
    simp only [step] at hs
    split at hs
    · rename_i state hphase
      cases hs
      exact inv_getRows h hphase
    · cases hs

/-! ## Polling on -/

/-- The calls of `n` times `Email/changes`, each with a limit of its own. -/
def polls (ms : Nat → Option Nat) : Nat → List PollAction
  | 0 => []
  | n + 1 => .ask (ms 0) :: .list :: .settle :: polls (fun k => ms (k + 1)) n

/-- After the two queries of an `Email/changes` that no commit comes between. -/
def Polling.listed (s : Polling) (maxChanges : Option Nat) : Polling :=
  { s with
    phase := .listed maxChanges s.db s.db
    due := s.due ++ s.late
    late := []
    settled := false }

/-- After the answer to it. -/
def Polling.polled (s : Polling) (caller : Caller) (maxChanges : Option Nat) : Polling :=
  (s.listed maxChanges).answered caller maxChanges s.db s.db

section Polls

variable {caller : Caller} {s : Polling} {m : Option Nat} {rest : List PollAction}

lemma exec_poll (hidle : s.phase = .idle) (hm : m ≠ some 0) :
    Run.exec (Polling.step caller) s (.ask m :: .list :: .settle :: rest) =
      Run.exec (Polling.step caller) (s.polled caller m) rest := by
  simp [Run.exec, Polling.step, hidle, hm, Polling.polled, Polling.listed]

lemma guarded_poll (hidle : s.phase = .idle) (hm : m ≠ some 0)
    (hg : Run.Guarded (Polling.step caller) (fun s a => orderly s a = true) s
      (.ask m :: .list :: .settle :: rest)) :
    s.db.cutClean s.cursor m = true ∧
      Run.Guarded (Polling.step caller) (fun s a => orderly s a = true) (s.polled caller m)
        rest := by
  obtain ⟨hclean, hg⟩ := hg.2 { s with phase := .checked m s.db } (by simp [step, hidle, hm])
  exact ⟨hclean, (hg _ rfl).2 _ rfl⟩

/-- A poll answers that there are no more changes, or leaves fewer of them. -/
lemma Polling.polled_shorter (caller : Caller) (h : s.Inv) (hm : m ≠ some 0) :
    (s.polled caller m).db = s.db ∧ (s.polled caller m).phase = .idle ∧
      (s.polled caller m).late = [] ∧ ((s.polled caller m).settled = true ∨
        (s.db.since (s.polled caller m).cursor).length < (s.db.since s.cursor).length) := by
  have hknown : cursorFromState (s.listed m).state = .ok (s.listed m).cursor := h.known
  rw [polled, answered_eq hknown h.reached hm]
  refine ⟨rfl, rfl, rfl, ?_⟩
  by_cases hmore : s.db.more s.cursor m
  · have hcursor : cursorOf (stateForCursor (s.db.cut s.cursor m)) = s.db.cut s.cursor m :=
      cursorOf_eq (cut_state hm hmore).1
    refine .inr ?_
    change (s.db.since (cursorOf (if s.db.more s.cursor m then
      stateForCursor (s.db.cut s.cursor m) else _))).length < _
    rw [if_pos hmore, hcursor]
    exact length_since_cut_lt hm hmore
  · exact .inl (Bool.not_eq_true' _ ▸ decide_eq_false hmore)

lemma Polling.inv_polled (h : s.Inv) (hm : m ≠ some 0)
    (hclean : s.db.cutClean s.cursor m = true) : (s.polled caller m).Inv := by
  have hasked : Polling.Inv { s with phase := .checked m s.db } :=
    { h with between := ⟨hm, h.reached⟩ }
  have hlisted := inv_list hasked rfl hclean
  exact inv_settle (s := s.listed m) hlisted rfl

/-- A client that polls on is told of everything, by as many polls as there are changes
after its cursor, and one. -/
lemma Polling.settles (h : s.Inv) (hidle : s.phase = .idle) {ms : Nat → Option Nat}
    (hm : ∀ k, ms k ≠ some 0) (hg : ∀ n, Run.Guarded (Polling.step caller)
      (fun s a => orderly s a = true) s (polls ms n)) :
    ∃ n s', Run.exec (Polling.step caller) s (polls ms n) = some s' ∧ s'.settled = true ∧
      s'.due = [] ∧ s'.late = [] := by
  induction hk : (s.db.since s.cursor).length using Nat.strong_induction_on
    generalizing s ms with
  | _ k ih =>
    have hclean := (guarded_poll hidle (hm 0) (hg 1)).1
    have hinv : (s.polled caller (ms 0)).Inv := inv_polled h (hm 0) hclean
    obtain ⟨hdb, hphase, hlate, hsettled | hlt⟩ := polled_shorter caller h (hm 0)
    · exact ⟨1, _, exec_poll hidle (hm 0), hsettled, hinv.quiet hsettled, hlate⟩
    · rw [← hdb] at hlt
      obtain ⟨n, s', hrun, hend⟩ := ih _ (hk ▸ hdb ▸ hlt) hinv hphase (fun k => hm (k + 1))
        (fun n => (guarded_poll hidle (hm 0) (hg (n + 1))).2) rfl
      exact ⟨n + 1, s', (exec_poll hidle (hm 0)).trans hrun, hend⟩

end Polls

/-- **No change is lost.**  In a run in order, however transactions and requests overlap, no
answer is an error, what the client has not been told of is after its cursor, whenever an
answer says that there are no more changes it has been told of everything that the rows
query could see, and if it polls on without further commits there is such an answer. -/
theorem no_change_lost (caller : Caller) (acts : List PollAction)
    (hg : Run.Guarded (Polling.step caller) (fun s a => orderly s a = true) .start acts) :
    ∀ s ∈ Run.states (Polling.step caller) .start acts,
      s.refused = false ∧ (s.settled = true → s.due = []) ∧
      (∀ i ∈ s.due ++ s.late, ∃ r ∈ s.db.rows, r.messageID = i ∧ s.cursor < r.updatedAt.nanos) ∧
      (s.phase = .idle → ∀ ms : Nat → Option Nat, (∀ k, ms k ≠ some 0) →
        (∀ n, Run.Guarded (Polling.step caller) (fun s a => orderly s a = true) s (polls ms n)) →
        ∃ n s', Run.exec (Polling.step caller) s (polls ms n) = some s' ∧ s'.settled = true ∧
          s'.due = [] ∧ s'.late = []) := by
  intro s hs
  have hinv : s.Inv :=
    Run.inv_of_mem_states (fun _ _ _ hg h hs => inv_step hg h hs) inv_start hg s hs
  exact ⟨hinv.served, hinv.quiet, hinv.ahead, fun hidle ms hm hg => settles hinv hidle hm hg⟩

/-- Two transactions that commit in the order in which they began, and two polls. -/
def inOrder : List PollAction :=
  [.begin (second 0) (.insertMessages [some 1]), .begin (second 1) (.insertMessages [some 1]),
    .commit 0, .ask none, .list, .settle, .commit 0, .ask none, .list, .settle]

theorem no_change_lost_inOrder :
    Run.Guarded (Polling.step sampleCaller) (fun s a => orderly s a = true) .start inOrder ∧
      ∀ s ∈ Run.states (Polling.step sampleCaller) .start inOrder,
        s.refused = false ∧ (s.settled = true → s.due = []) := by
  have hg : Run.Guarded (step sampleCaller) (fun s a => orderly s a = true) .start
      inOrder := by decide +kernel
  refine ⟨hg, fun s hs => ?_⟩
  obtain ⟨hserved, hquiet, -⟩ := no_change_lost sampleCaller inOrder hg s hs
  exact ⟨hserved, hquiet⟩

/-- A transaction that commits after one that began later: the client polls in between, and
the change is behind the state it was given. -/
def outOfOrder : List PollAction :=
  [.begin (second 0) (.insertMessages [some 1]), .begin (second 1) (.insertMessages [some 1]),
    .commit 1, .ask none, .list, .settle, .commit 0, .ask none, .list, .settle]

theorem late_commit_lost : ∃ s, Run.exec (Polling.step sampleCaller) .start outOfOrder = some s ∧
      s.settled = true ∧ s.due ≠ [] ∧ s.phase.isIdle = true :=
  Run.exists_exec (by decide +kernel)

end Moov.Jmap
