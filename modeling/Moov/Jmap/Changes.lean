import Moov.Jmap.Feed

/-!
# What a client learns from `Email/changes`

A client that lags behind calls `Email/changes` again and again, each time from the state
of the last answer, until `hasMoreChanges` is false.  The store does not change meanwhile.

* `Feed.page`, `Feed.cut`: the rows of one answer and the stamp at which the limit cuts the
  feed.  The next call asks for what is *after* that stamp, so that rows past the end of the
  page that carry the same stamp are in no answer at all (`Feed.mem_since_cases`).
* `classify` compares with the cursor of the page, not with the state the client started
  from: a row created in between is reported as updated or destroyed to a client that never
  heard of it (`Feed.answer_fits_iff`).
* `Feed.learned_iff`: these are the only two ways in which a session goes wrong.  It ends,
  and the client learns what it should, exactly if every page is `Feed.Whole`.
-/

namespace Moov.Jmap

open Feed List Option

/-! ## One page -/

section Page

variable (f : Feed) (cursor : Nat) (maxChanges : Option Nat)

/-- The rows of one answer. -/
def Feed.page : List ChangeRow :=
  (f.since cursor).take (pageLimit maxChanges)

/-- Whether the limit cuts the feed. -/
def Feed.more : Prop :=
  pageLimit maxChanges < (f.since cursor).length

instance : Decidable (f.more cursor maxChanges) :=
  inferInstanceAs (Decidable (_ < _))

/-- The stamp of the last row of a page, where the next one begins. -/
def Feed.cut : Nat :=
  (f.page cursor maxChanges).getLast?.elim 0 (·.updatedAt.nanos)

/-- The rows past the end of a page. -/
def Feed.left : List ChangeRow :=
  (f.since cursor).drop (pageLimit maxChanges)

end Page

variable {f : Feed} {cursor : Nat} {maxChanges : Option Nat} {r q : ChangeRow}
  {resps : List ChangesResponse} {resp : ChangesResponse} {state : List Char} {caller : Caller}

lemma pageLimit_pos (h : maxChanges ≠ some 0) : 0 < pageLimit maxChanges := by
  cases maxChanges with
  | none => decide
  | some m =>
    have hm : m ≠ 0 := fun h0 => h (h0 ▸ rfl)
    simp only [pageLimit, maxChangesCeiling]
    omega

lemma Feed.mem_since_iff_page :
    r ∈ f.since cursor ↔ r ∈ f.page cursor maxChanges ∨ r ∈ f.left cursor maxChanges := by
  rw [← mem_append, page, left, take_append_drop]

section

variable (hr : r ∈ f.page cursor maxChanges)
include hr

/-- What is past the end of a page stands behind everything in it. -/
lemma Feed.page_precedes_left (hq : q ∈ f.left cursor maxChanges) : r.precedes q := by
  have h := f.since_pairwise cursor
  rw [← take_append_drop (pageLimit maxChanges) (f.since cursor)] at h
  exact (pairwise_append.1 h).2.2 r hr q hq

/-- No message stands both in a page and past its end. -/
lemma Feed.messageID_ne_of_left
    (hq : q ∈ f.left cursor maxChanges) : r.messageID ≠ q.messageID := by
  intro h
  have hnd : (f.since cursor).Pairwise fun r q => r.messageID ≠ q.messageID := by
    refine (List.Perm.pairwise_iff (fun {_ _} hne => Ne.symm hne)
      (perm_insertionSort _ _)).2 (f.key.filter _)
  rw [← take_append_drop (pageLimit maxChanges) (f.since cursor)] at hnd
  exact (pairwise_append.1 hnd).2.2 r hr q hq h

end

section Cut

variable (hm : maxChanges ≠ some 0) (h : f.more cursor maxChanges)
include hm h

/-- A page that is cut ends with a row, whose stamp is the next cursor. -/
lemma Feed.exists_cut :
    ∃ r ∈ f.page cursor maxChanges, r.updatedAt.nanos = f.cut cursor maxChanges ∧
      ∀ q ∈ f.page cursor maxChanges, q.updatedAt.nanos ≤ f.cut cursor maxChanges := by
  have hne : f.page cursor maxChanges ≠ [] := by
    intro hnil
    have hlen : (f.page cursor maxChanges).length = 0 := by rw [hnil]; rfl
    have := pageLimit_pos hm
    unfold page at hlen
    unfold more at h
    rw [length_take] at hlen
    omega
  have hcut : f.cut cursor maxChanges =
      ((f.page cursor maxChanges).getLast hne).updatedAt.nanos := by
    rw [cut, getLast?_eq_some_getLast hne]
    rfl
  refine ⟨_, getLast_mem hne, hcut.symm, fun q hq => ?_⟩
  have hsorted : (f.page cursor maxChanges).Pairwise ChangeRow.precedes :=
    (f.since_pairwise cursor).sublist (take_sublist _ _)
  rw [← dropLast_append_getLast hne] at hq hsorted
  rw [hcut]
  rcases mem_append.1 hq with hq | hq
  · have := (pairwise_append.1 hsorted).2.2 q hq _ mem_cons_self
    unfold ChangeRow.precedes at this
    omega
  · rw [mem_singleton.1 hq]

lemma Feed.cursor_lt_cut : cursor < f.cut cursor maxChanges := by
  obtain ⟨r, hr, hcut, -⟩ := exists_cut hm h
  exact hcut ▸ (mem_since.1 (mem_since_iff_page.2 (.inl hr))).2

/-- **The feed at a cut.**  A change stands in the page, or past its end under the stamp of
its last row, or after the next cursor. -/
theorem Feed.mem_since_cases (hr : r ∈ f.since cursor) : r ∈ f.page cursor maxChanges ∨
      (r ∈ f.left cursor maxChanges ∧ r.updatedAt.nanos = f.cut cursor maxChanges) ∨
      r ∈ f.since (f.cut cursor maxChanges) := by
  rcases mem_since_iff_page.1 hr with hpage | hleft
  · exact .inl hpage
  · obtain ⟨q, hq, hcut, -⟩ := exists_cut hm h
    have hle := page_precedes_left hq hleft
    unfold ChangeRow.precedes at hle
    rcases Nat.lt_or_ge (f.cut cursor maxChanges) r.updatedAt.nanos with hlt | hge
    · exact .inr (.inr (mem_since.2 ⟨(mem_since.1 hr).1, hlt⟩))
    · exact .inr (.inl ⟨hleft, by omega⟩)

lemma Feed.since_of_since_cut (hr : r ∈ f.since (f.cut cursor maxChanges)) :
    r ∈ f.since cursor ∧ r ∉ f.page cursor maxChanges := by
  obtain ⟨hrow, hlt⟩ := mem_since.1 hr
  obtain ⟨-, -, -, hle⟩ := exists_cut hm h
  refine ⟨mem_since.2 ⟨hrow, (cursor_lt_cut hm h).trans hlt⟩, fun hpage => ?_⟩
  exact absurd (hle r hpage) (by omega)

/-- Every page that is cut shortens what is left of the feed. -/
lemma Feed.length_since_cut_lt :
    (f.since (f.cut cursor maxChanges)).length < (f.since cursor).length := by
  obtain ⟨r, hr, hcut, -⟩ := exists_cut hm h
  rw [← filter_since (Nat.le_of_lt (cursor_lt_cut hm h))]
  refine length_filter_lt_length_iff_exists.2 ⟨r, mem_since_iff_page.2 (.inl hr), ?_⟩
  simp [hcut]

/-- The state of a page that is cut leads on. -/
lemma Feed.cut_state :
    cursorFromState (stateForCursor (f.cut cursor maxChanges)) = .ok (f.cut cursor maxChanges) ∧
      f.cut cursor maxChanges ≤ f.maxUpdatedAt := by
  obtain ⟨r, hr, hcut, -⟩ := exists_cut hm h
  refine ⟨cursorFromState_stateText 0 (hcut ▸ r.updatedAt.inRange), ?_⟩
  exact hcut ▸ le_maxUpdatedAt (mem_since.1 (mem_since_iff_page.2 (.inl hr))).1

end Cut

/-! ## One call -/

/-- The answer to a call, over contents that do not change while it is made. -/
def Feed.answer (f : Feed) (account : String) (state : List Char) (cursor : Nat)
    (maxChanges : Option Nat) : ChangesResponse :=
  let window : ChangeWindow := ⟨f.page cursor maxChanges, cursor, [], false⟩
  ⟨account, state,
    if f.more cursor maxChanges then stateForCursor (f.cut cursor maxChanges) else f.dataState,
    f.more cursor maxChanges,
    window.ids .created, window.ids .updated, window.ids .destroyed⟩

/-- All the queries of a call see the same contents. -/
def Reads.still (f : Feed) : Reads :=
  ⟨f, f, f⟩

/-- The window of a call whose queries see different contents: the rows are those of its
second query, and so is the place at which they are cut. -/
lemma loadChangeWindow_eq {db : Reads} {req : ChangesRequest}
    (hstate : cursorFromState req.sinceState = .ok cursor)
    (hreach : checkCursorReachable db.newest cursor = .ok ()) :
    loadChangeWindow db req = .ok ⟨db.rows.page cursor req.maxChanges, cursor,
        if db.rows.more cursor req.maxChanges then
          stateForCursor (db.rows.cut cursor req.maxChanges)
        else db.state.dataState,
        db.rows.more cursor req.maxChanges⟩ := by
  have hmore : pageLimit req.maxChanges <
      ((db.rows.since cursor).take (pageLimit req.maxChanges + 1)).length ↔
        db.rows.more cursor req.maxChanges := by
    rw [length_take, more]
    omega
  simp only [loadChangeWindow, hstate, hreach, bind, Except.bind, changedSinceRows,
    Nat.succ_ne_zero, if_false, hmore, pure, Except.pure]
  by_cases h : db.rows.more cursor req.maxChanges
  · rw [if_pos h, if_pos h, decide_eq_true h, take_take, Nat.min_eq_left (Nat.le_succ _)]
    rfl
  · have hle := Nat.le_of_not_lt h
    rw [if_neg h, if_neg h, decide_eq_false h, page, take_of_length_le hle,
      take_of_length_le (Nat.le_succ_of_le hle)]

lemma parseChanges_ok (hstate : cursorFromState state = .ok cursor) (hm : maxChanges ≠ some 0) :
    parseChanges caller ⟨caller.accountID, state, maxChanges⟩ = .ok () := by
  have hne : state ≠ [] := by
    rintro rfl
    cases hstate
  simp [parseChanges, caller.named, hne, hm]

/-- **One call.**  A known state within the account's data is answered with its page. -/
theorem handleEmailChanges_still (hstate : cursorFromState state = .ok cursor)
    (hreach : checkCursorReachable f cursor = .ok ()) (hm : maxChanges ≠ some 0) :
    handleEmailChanges caller (.still f) ⟨caller.accountID, state, maxChanges⟩ =
      .ok (f.answer caller.accountID state cursor maxChanges) := by
  have hload := @loadChangeWindow_eq cursor (.still f) ⟨caller.accountID, state, maxChanges⟩
    hstate hreach
  simp only [handleEmailChanges, parseChanges_ok hstate hm, hload, bind, Except.bind, pure,
    Except.pure]
  rfl

/-- Created since the cursor, as `classify` sees it. -/
def ChangeRow.fresh (r : ChangeRow) (since : Nat) : Prop :=
  since = 0 ∨ since < r.createdAt.nanos

instance (r : ChangeRow) (since : Nat) : Decidable (r.fresh since) :=
  inferInstanceAs (Decidable (_ ∨ _))

lemma classify_eq (r : ChangeRow) (since : Nat) : classify r since =
      if r.fresh since then (if r.destroyed then .omitted else .created)
      else (if r.destroyed then .destroyed else .updated) := by
  unfold classify ChangeRow.fresh
  by_cases hc : since = 0 ∨ since < r.createdAt.nanos <;> cases r.destroyed <;> simp [hc]

/-! ## A client -/

/-- The Emails a client holds once it has applied a response. -/
def ChangesResponse.applyTo (resp : ChangesResponse) (held : List Nat) : List Nat :=
  (held.filter fun i => i ∉ resp.destroyed) ++ resp.created

def heldAfter (held : List Nat) (resps : List ChangesResponse) : List Nat :=
  resps.foldl (fun h resp => resp.applyTo h) held

/-- The client is told of an Email. -/
def ChangesResponse.names (resp : ChangesResponse) (i : Nat) : Prop :=
  i ∈ resp.created ∨ i ∈ resp.updated ∨ i ∈ resp.destroyed

/-- A response fits what the client holds. -/
structure ChangesResponse.Fits (resp : ChangesResponse) (held : List Nat) : Prop where
  created : ∀ i ∈ resp.created, i ∉ held
  updated : ∀ i ∈ resp.updated, i ∈ held
  destroyed : ∀ i ∈ resp.destroyed, i ∈ held

/-- Every response fits what the client holds when it comes. -/
def AllFit : List Nat → List ChangesResponse → Prop
  | _, [] => True
  | held, resp :: resps => resp.Fits held ∧ AllFit (resp.applyTo held) resps

/-- The responses of successive calls, each from the state of the one before, until
`hasMoreChanges` is false; `maxChanges k` is what the client asks for in call `k`. -/
def session (caller : Caller) (f : Feed) (maxChanges : Nat → Option Nat) :
    (fuel call : Nat) → (state : List Char) → Option (List ChangesResponse)
  | 0, _, _ => none
  | fuel + 1, call, state =>
      match handleEmailChanges caller (.still f) ⟨caller.accountID, state, maxChanges call⟩ with
      | .error _ => none
      | .ok resp =>
          if resp.hasMoreChanges then
            (session caller f maxChanges fuel (call + 1) resp.newState).map (resp :: ·)
          else some [resp]

open ChangesResponse

section Answer

variable {account : String} {state : List Char}

/-- In which list of the answer a row of the page stands. -/
lemma Feed.mem_ids_iff (hr : r ∈ f.page cursor maxChanges) (newState : List Char)
    (hasMore : Bool) (kind : ChangeKind) :
    r.messageID ∈ ChangeWindow.ids ⟨f.page cursor maxChanges, cursor, newState, hasMore⟩ kind ↔
      classify r cursor = kind := by
  refine ⟨fun h => ?_, fun h => ?_⟩
  · obtain ⟨q, hq, hid⟩ := mem_map.1 h
    obtain ⟨hpage, hkind⟩ := mem_filter.1 hq
    have hrow : ∀ p ∈ f.page cursor maxChanges, p ∈ f.rows := fun p hp =>
      (mem_since.1 (mem_since_iff_page.2 (.inl hp))).1
    rw [← eq_of_messageID (hrow q hpage) (hrow r hr) hid]
    exact of_decide_eq_true hkind
  · exact mem_map.2 ⟨r, mem_filter.2 ⟨hr, decide_eq_true h⟩, rfl⟩

lemma Feed.answer_names {i : Nat} (h : (f.answer account state cursor maxChanges).names i) :
    ∃ r ∈ f.page cursor maxChanges, r.messageID = i := by
  have hids : ∀ kind, i ∈ ChangeWindow.ids ⟨f.page cursor maxChanges, cursor, [], false⟩ kind →
      ∃ r ∈ f.page cursor maxChanges, r.messageID = i := by
    intro kind hi
    obtain ⟨r, hr, hid⟩ := mem_map.1 hi
    exact ⟨r, (mem_filter.1 hr).1, hid⟩
  rcases h with h | h | h
  · exact hids _ h
  · exact hids _ h
  · exact hids _ h

/-- A row of the page is named, but for one that came and went since the cursor. -/
lemma Feed.names_of_page (hr : r ∈ f.page cursor maxChanges)
    (h : ¬ (r.fresh cursor ∧ r.destroyed = true)) :
    (f.answer account state cursor maxChanges).names r.messageID := by
  have hids := mem_ids_iff hr [] false
  have hkind := classify_eq r cursor
  by_cases hf : r.fresh cursor
  · have hd : r.destroyed = false := by simpa [hf] using h
    exact .inl ((hids _).2 (by simpa [hf, hd] using hkind))
  · cases hd : r.destroyed with
    | false => exact .inr (.inl ((hids _).2 (by simpa [hf, hd] using hkind)))
    | true => exact .inr (.inr ((hids _).2 (by simpa [hf, hd] using hkind)))

end Answer

variable {held : List Nat}

lemma ChangesResponse.mem_applyTo {i : Nat} :
    i ∈ resp.applyTo held ↔ (i ∈ held ∧ i ∉ resp.destroyed) ∨ i ∈ resp.created := by
  simp [applyTo]

/-- What a response does not name stays as it is. -/
lemma ChangesResponse.mem_applyTo_of_not_names
    {i : Nat} (h : ¬ resp.names i) : i ∈ resp.applyTo held ↔ i ∈ held := by
  have hc : i ∉ resp.created := fun hi => h (.inl hi)
  have hd : i ∉ resp.destroyed := fun hi => h (.inr (.inr hi))
  simp [mem_applyTo, hc, hd]

lemma mem_heldAfter_of_not_names {i : Nat}
    (h : ∀ resp ∈ resps, ¬ resp.names i) : i ∈ heldAfter held resps ↔ i ∈ held := by
  induction resps generalizing held with
  | nil => rfl
  | cons resp resps ih =>
    have htail := @ih (resp.applyTo held) fun q hq => h q (mem_cons_of_mem resp hq)
    exact htail.trans (mem_applyTo_of_not_names (h resp mem_cons_self))

section Page

variable {account : String} {state : List Char} {held start : List Nat}
  (hagree : ∀ r ∈ f.page cursor maxChanges, r.messageID ∈ held ↔ r.messageID ∈ start)
  (hfresh : ∀ r ∈ f.page cursor maxChanges, r.fresh cursor → r.messageID ∉ start)
include hfresh

/-- What a client that may be told of a row of the page is told. -/
lemma Feed.told_of_page (hr : r ∈ f.page cursor maxChanges)
    (h : r.messageID ∈ start ∨ r.destroyed = false) :
    (f.answer account state cursor maxChanges).names r.messageID := by
  refine names_of_page hr fun ⟨hf, hd⟩ => ?_
  rcases h with h | h
  · exact hfresh r hr hf h
  · rw [hd] at h
    cases h

include hagree

/-- A page fits a client that holds each of its rows that are not new since the cursor,
and none of those that are. -/
theorem Feed.answer_fits_iff : (f.answer account state cursor maxChanges).Fits held ↔
      ∀ r ∈ f.page cursor maxChanges, r.fresh cursor ∨ r.messageID ∈ start := by
  refine ⟨fun h r hr => ?_, fun h => ?_⟩
  · by_cases hf : r.fresh cursor
    · exact .inl hf
    · have hids := mem_ids_iff hr [] false
      have hkind := classify_eq r cursor
      right
      rw [← hagree r hr]
      cases hd : r.destroyed with
      | false => exact h.updated _ ((hids _).2 (by simpa [hf, hd] using hkind))
      | true => exact h.destroyed _ ((hids _).2 (by simpa [hf, hd] using hkind))
  · -- the rows under one of the three headings
    have hrows : ∀ {kind i}, i ∈ ChangeWindow.ids ⟨f.page cursor maxChanges, cursor, [], false⟩
        kind → ∃ r ∈ f.page cursor maxChanges, classify r cursor = kind ∧ r.messageID = i := by
      intro kind i hi
      obtain ⟨r, hr, hid⟩ := mem_map.1 hi
      obtain ⟨hpage, hkind⟩ := mem_filter.1 hr
      exact ⟨r, hpage, of_decide_eq_true hkind, hid⟩
    have hold : ∀ r ∈ f.page cursor maxChanges, ¬ r.fresh cursor → r.messageID ∈ held :=
      fun r hr hf => (hagree r hr).2 ((h r hr).resolve_left hf)
    refine ⟨fun i hi => ?_, fun i hi => ?_, fun i hi => ?_⟩
    · obtain ⟨r, hr, hkind, rfl⟩ := hrows hi
      rw [hagree r hr]
      refine hfresh r hr ?_
      by_contra hf
      rw [classify_eq, if_neg hf] at hkind
      cases hd : r.destroyed <;> simp [hd] at hkind
    · obtain ⟨r, hr, hkind, rfl⟩ := hrows hi
      refine hold r hr fun hf => ?_
      rw [classify_eq, if_pos hf] at hkind
      cases hd : r.destroyed <;> simp [hd] at hkind
    · obtain ⟨r, hr, hkind, rfl⟩ := hrows hi
      refine hold r hr fun hf => ?_
      rw [classify_eq, if_pos hf] at hkind
      cases hd : r.destroyed <;> simp [hd] at hkind

/-- After a page that fits, the client holds of its rows those that are live. -/
lemma Feed.mem_applyTo_of_page
    (hknown : ∀ r ∈ f.page cursor maxChanges, r.fresh cursor ∨ r.messageID ∈ start)
    (hr : r ∈ f.page cursor maxChanges) :
    r.messageID ∈ (f.answer account state cursor maxChanges).applyTo held ↔
      r.destroyed = false := by
  have hids := mem_ids_iff hr [] false
  have hcreated : r.messageID ∈ (f.answer account state cursor maxChanges).created ↔ _ :=
    hids .created
  have hdestroyed : r.messageID ∈ (f.answer account state cursor maxChanges).destroyed ↔ _ :=
    hids .destroyed
  rw [mem_applyTo, hcreated, hdestroyed, hagree r hr, classify_eq]
  by_cases hf : r.fresh cursor
  · have hout := hfresh r hr hf
    cases hd : r.destroyed <;> simp [hf, hout]
  · have hin := (hknown r hr).resolve_left hf
    cases hd : r.destroyed <;> simp [hf, hin]

end Page

/-! ## The calls of a session -/

/-- What `checkCursorReachable` accepts. -/
lemma checkCursorReachable_iff {since : Nat} :
    checkCursorReachable f since = .ok () ↔ f.rows = [] ∨ since ≤ f.maxUpdatedAt := by
  have hempty : f.maxUpdatedAt = 0 ↔ f.rows = [] := by
    refine ⟨fun h => ?_, fun h => by rw [Feed.maxUpdatedAt, h]; rfl⟩
    rcases maxUpdatedAt_eq f.rows with ⟨hnil, -⟩ | ⟨r, -, heq⟩
    · exact hnil
    · have := r.updatedAt.pastEpoch
      unfold Feed.maxUpdatedAt at h
      omega
  unfold checkCursorReachable
  rw [f.newestChangeAt_eq, ← hempty]
  by_cases h0 : since = 0
  · simp [h0]
  · by_cases hnew : f.maxUpdatedAt = 0
    · simp [h0, hnew]
    · by_cases hlt : f.maxUpdatedAt < since
      · simp [h0, hnew, hlt]
      · simp [h0, hnew, hlt, Nat.le_of_not_lt hlt]

variable {caller : Caller} {ms : Nat → Option Nat} {fuel call : Nat} {state : List Char}

lemma session_succ (hstate : cursorFromState state = .ok cursor)
    (hreach : f.rows = [] ∨ cursor ≤ f.maxUpdatedAt) (hm : ms call ≠ some 0) :
    session caller f ms (fuel + 1) call state = if f.more cursor (ms call) then
        (session caller f ms fuel (call + 1) (stateForCursor (f.cut cursor (ms call)))).map
          (f.answer caller.accountID state cursor (ms call) :: ·)
      else some [f.answer caller.accountID state cursor (ms call)] := by
  rw [session, handleEmailChanges_still hstate (checkCursorReachable_iff.2 hreach) hm]
  by_cases h : f.more cursor (ms call)
  · simp [answer, h]
  · simp [answer, h]

/-- A call that asks for nothing is refused. -/
lemma session_asked (h : session caller f ms (fuel + 1) call state ≠ none) :
    ms call ≠ some 0 := by
  intro hm
  refine h ?_
  have hparse : ∃ e, parseChanges caller ⟨caller.accountID, state, ms call⟩ = .error e := by
    by_cases hne : state = []
    · simp [parseChanges, caller.named, hne]
    · simp [parseChanges, caller.named, hne, hm]
  obtain ⟨e, he⟩ := hparse
  simp [session, handleEmailChanges, he, bind, Except.bind]

/-- A session names nothing that is not after its first cursor. -/
lemma session_names (hstate : cursorFromState state = .ok cursor)
    (hreach : f.rows = [] ∨ cursor ≤ f.maxUpdatedAt)
    (h : session caller f ms fuel call state = some resps) :
    ∀ resp ∈ resps, ∀ i, resp.names i → ∃ r ∈ f.since cursor, r.messageID = i := by
  induction fuel generalizing call state cursor resps with
  | zero => cases h
  | succ fuel ih =>
    have hm : ms call ≠ some 0 := session_asked (by rw [h]; exact some_ne_none _)
    have hpage : ∀ i, (f.answer caller.accountID state cursor (ms call)).names i →
        ∃ r ∈ f.since cursor, r.messageID = i := by
      intro i hi
      obtain ⟨r, hr, hid⟩ := answer_names hi
      exact ⟨r, mem_since_iff_page.2 (.inl hr), hid⟩
    rw [session_succ hstate hreach hm] at h
    intro resp hresp i hi
    by_cases hmore : f.more cursor (ms call)
    · rw [if_pos hmore] at h
      obtain ⟨rest, hrest, rfl⟩ := map_eq_some_iff.1 h
      rcases mem_cons.1 hresp with rfl | hresp
      · exact hpage i hi
      · obtain ⟨hnext, hle⟩ := cut_state hm hmore
        obtain ⟨r, hr, hid⟩ := ih hnext (.inr hle) hrest resp hresp i hi
        exact ⟨r, (since_of_since_cut hm hmore hr).1, hid⟩
    · rw [if_neg hmore] at h
      cases h
      rw [mem_singleton.1 hresp] at hi
      exact hpage i hi

/-! ## Where a session goes wrong -/

/-- The cursor of each call of a session, as far as it goes. -/
def Feed.cursors (f : Feed) (ms : Nat → Option Nat) : (call cursor n : Nat) → Option Nat
  | _, cursor, 0 => some cursor
  | call, cursor, n + 1 =>
      if f.more cursor (ms call) then
        Feed.cursors f ms (call + 1) (f.cut cursor (ms call)) n
      else none

/-- A page does no harm to a client that started with `start`: a row that is not new since
the cursor of the page is one the client started with; and where the limit cuts the feed,
what stands past the end of the page under the stamp of its last row is of no concern to
the client, a message it never had and that is gone again. -/
structure Feed.Whole (f : Feed) (start : List Nat) (cursor : Nat) (maxChanges : Option Nat) :
    Prop where
  asked : maxChanges ≠ some 0
  known : ∀ r ∈ f.page cursor maxChanges, r.fresh cursor ∨ r.messageID ∈ start
  behind : f.more cursor maxChanges → ∀ r ∈ f.left cursor maxChanges,
    r.updatedAt.nanos = f.cut cursor maxChanges → r.destroyed = true ∧ r.messageID ∉ start

/-- Every page of a session does no harm. -/
def Feed.AllWhole (f : Feed) (start : List Nat) (ms : Nat → Option Nat) (call cursor : Nat) :
    Prop :=
  ∀ n c, f.cursors ms call cursor n = some c → f.Whole start c (ms (call + n))

/-- What a session tells about the changes after its first cursor. -/
structure Feed.Learned (f : Feed) (start held : List Nat) (cursor : Nat)
    (resps : List ChangesResponse) : Prop where
  fits : AllFit held resps
  live : ∀ r ∈ f.since cursor, r.messageID ∈ heldAfter held resps ↔ r.destroyed = false
  told : ∀ r ∈ f.since cursor, r.messageID ∈ start ∨ r.destroyed = false →
    ∃ resp ∈ resps, resp.names r.messageID

lemma Feed.allWhole_iff {start : List Nat} :
    f.AllWhole start ms call cursor ↔ f.Whole start cursor (ms call) ∧
      (f.more cursor (ms call) → f.AllWhole start ms (call + 1) (f.cut cursor (ms call))) := by
  refine ⟨fun h => ⟨h 0 cursor rfl, fun hmore n c hc => ?_⟩, fun ⟨hhere, hrest⟩ n c hc => ?_⟩
  · have hnext : f.cursors ms call cursor (n + 1) = some c := by rw [cursors, if_pos hmore, hc]
    have := h (n + 1) c hnext
    rwa [Nat.add_comm n 1, ← Nat.add_assoc] at this
  · cases n with
    | zero => exact some.inj hc ▸ hhere
    | succ n =>
      obtain ⟨hmore, hc⟩ := ite_none_right_eq_some.1 hc
      have := hrest hmore n c hc
      rwa [Nat.add_assoc, Nat.add_comm 1 n] at this

section Learning

variable {account : String} {start held : List Nat} {rest : List ChangesResponse}

lemma Feed.not_names (hr : r ∈ f.since cursor) (hout : r ∉ f.page cursor maxChanges) :
    ¬ (f.answer account state cursor maxChanges).names r.messageID := by
  intro hnames
  obtain ⟨q, hq, hid⟩ := answer_names hnames
  have hqr := eq_of_messageID (mem_since.1 (mem_since_iff_page.2 (.inl hq))).1
    (mem_since.1 hr).1 hid
  exact hout (hqr ▸ hq)

section Page

variable (hm : maxChanges ≠ some 0)
  (hagree : ∀ r ∈ f.since cursor, r.messageID ∈ held ↔ r.messageID ∈ start)
  (hfresh : ∀ r ∈ f.page cursor maxChanges, r.fresh cursor → r.messageID ∉ start)
include hm hagree hfresh

/-- The last page of a session. -/
lemma Feed.learned_last_iff (hmore : ¬ f.more cursor maxChanges) :
    f.Learned start held cursor [f.answer account state cursor maxChanges] ↔
      f.Whole start cursor maxChanges := by
  have hall : f.page cursor maxChanges = f.since cursor :=
    take_of_length_le (Nat.le_of_not_lt hmore)
  have hagree' : ∀ r ∈ f.page cursor maxChanges, r.messageID ∈ held ↔ r.messageID ∈ start :=
    fun r hr => hagree r (hall ▸ hr)
  refine ⟨fun h => ⟨hm, (answer_fits_iff hagree' hfresh).1 h.fits.1,
    fun hc => absurd hc hmore⟩, fun h => ⟨⟨?_, trivial⟩, fun r hr => ?_, fun r hr htold => ?_⟩⟩
  · exact (answer_fits_iff hagree' hfresh).2 h.known
  · exact mem_applyTo_of_page hagree' hfresh h.known (hall ▸ hr)
  · exact ⟨_, mem_singleton_self _, told_of_page hfresh (hall ▸ hr) htold⟩

/-- A page that is cut, and what comes after it. -/
lemma Feed.learned_cut_iff (hmore : f.more cursor maxChanges)
    (hrest : ∀ resp ∈ rest, ∀ i, resp.names i →
      ∃ r ∈ f.since (f.cut cursor maxChanges), r.messageID = i) :
    f.Learned start held cursor (f.answer account state cursor maxChanges :: rest) ↔
      f.Whole start cursor maxChanges ∧
        f.Learned start ((f.answer account state cursor maxChanges).applyTo held)
          (f.cut cursor maxChanges) rest := by
  have hagree' : ∀ r ∈ f.page cursor maxChanges, r.messageID ∈ held ↔ r.messageID ∈ start :=
    fun r hr => hagree r (mem_since_iff_page.2 (.inl hr))
  -- the later calls name no row up to the cut, this one no row past its page
  have hlater : ∀ r ∈ f.rows, r.updatedAt.nanos ≤ f.cut cursor maxChanges →
      ∀ resp ∈ rest, ¬ resp.names r.messageID := by
    intro r hr hle resp hresp hnames
    obtain ⟨q, hq, hid⟩ := hrest resp hresp _ hnames
    have hqr := eq_of_messageID (mem_since.1 hq).1 hr hid
    have hlt := (mem_since.1 hq).2
    rw [hqr] at hlt
    omega
  have hleft : ∀ r ∈ f.left cursor maxChanges, r ∉ f.page cursor maxChanges :=
    fun r hr hpage => messageID_ne_of_left hpage hr rfl
  obtain ⟨-, -, -, hcut⟩ := exists_cut hm hmore
  have hrow : ∀ r ∈ f.since cursor, r ∈ f.rows := fun r hr => (mem_since.1 hr).1
  refine ⟨fun h => ⟨⟨hm, (answer_fits_iff hagree' hfresh).1 h.fits.1, ?_⟩,
    ⟨h.fits.2, fun r hr => ?_, fun r hr htold => ?_⟩⟩,
    fun ⟨hpage, h⟩ => ⟨⟨(answer_fits_iff hagree' hfresh).2 hpage.known, h.fits⟩,
      fun r hr => ?_, fun r hr htold => ?_⟩⟩
  · intro _ r hr hstamp
    have hsince := mem_since_iff_page.2 (.inr hr)
    by_contra hconcern
    have htold : r.messageID ∈ start ∨ r.destroyed = false := by
      by_contra hnot
      rw [not_or, Bool.not_eq_false] at hnot
      exact hconcern ⟨hnot.2, hnot.1⟩
    obtain ⟨resp, hresp, hnames⟩ := h.told r hsince htold
    rcases mem_cons.1 hresp with rfl | hresp
    · exact not_names hsince (hleft r hr) hnames
    · exact hlater r (hrow r hsince) (le_of_eq hstamp) resp hresp hnames
  · exact h.live r (since_of_since_cut hm hmore hr).1
  · obtain ⟨hsince, hout⟩ := since_of_since_cut hm hmore hr
    obtain ⟨resp, hresp, hnames⟩ := h.told r hsince htold
    rcases mem_cons.1 hresp with rfl | hresp
    · exact absurd hnames (not_names hsince hout)
    · exact ⟨resp, hresp, hnames⟩
  · rcases mem_since_cases hm hmore hr with hin | ⟨hbehind, hstamp⟩ | hafter
    · have hsame := @mem_heldAfter_of_not_names rest
        ((f.answer account state cursor maxChanges).applyTo held) r.messageID
        (hlater r (hrow r hr) (hcut r hin))
      exact hsame.trans (mem_applyTo_of_page hagree' hfresh hpage.known hin)
    · have hsame := @mem_heldAfter_of_not_names rest
        ((f.answer account state cursor maxChanges).applyTo held) r.messageID
        (hlater r (hrow r hr) (le_of_eq hstamp))
      have hkeep := @mem_applyTo_of_not_names
        (f.answer account state cursor maxChanges) held r.messageID (not_names hr (hleft r hbehind))
      obtain ⟨hdead, hnot⟩ := hpage.behind hmore r hbehind hstamp
      refine (hsame.trans (hkeep.trans (hagree r hr))).trans ?_
      simp [hdead, hnot]
    · exact h.live r hafter
  · rcases mem_since_cases hm hmore hr with hin | ⟨hbehind, hstamp⟩ | hafter
    · exact ⟨_, mem_cons_self, told_of_page hfresh hin htold⟩
    · obtain ⟨hdead, hnot⟩ := hpage.behind hmore r hbehind hstamp
      simp [hdead, hnot] at htold
    · obtain ⟨resp, hresp, hnames⟩ := h.told r hafter htold
      exact ⟨resp, mem_cons_of_mem _ hresp, hnames⟩

end Page

/-- **A whole session.**  Given calls enough to finish, a client learns what it should from
a cursor on exactly if every page on the way does no harm. -/
theorem Feed.learned_iff (hlen : (f.since cursor).length < fuel)
    (hstate : cursorFromState state = .ok cursor)
    (hreach : f.rows = [] ∨ cursor ≤ f.maxUpdatedAt)
    (hagree : ∀ r ∈ f.since cursor, r.messageID ∈ held ↔ r.messageID ∈ start)
    (hfresh : ∀ r ∈ f.rows, r.fresh cursor → r.messageID ∉ start) :
    (∃ resps, session caller f ms fuel call state = some resps ∧
        f.Learned start held cursor resps) ↔
      f.AllWhole start ms call cursor := by
  induction fuel generalizing call cursor state held with
  | zero => omega
  | succ fuel ih =>
    rw [allWhole_iff]
    by_cases hm : ms call = some 0
    · refine ⟨fun ⟨resps, hresps, _⟩ => ?_, fun h => absurd hm h.1.asked⟩
      exact absurd hm (session_asked (by rw [hresps]; exact some_ne_none _))
    have hfresh' : ∀ r ∈ f.page cursor (ms call), r.fresh cursor → r.messageID ∉ start :=
      fun r hr => hfresh r (mem_since.1 (mem_since_iff_page.2 (.inl hr))).1
    rw [session_succ hstate hreach hm]
    by_cases hmore : f.more cursor (ms call)
    · obtain ⟨hnext, hle⟩ := cut_state hm hmore
      have hshorter := length_since_cut_lt hm hmore
      have hlt := cursor_lt_cut hm hmore
      have hlater : ∀ r ∈ f.rows, r.fresh (f.cut cursor (ms call)) → r.messageID ∉ start := by
        intro r hr hf
        refine hfresh r hr (.inr ?_)
        rcases hf with h0 | hf
        · omega
        · exact hlt.trans hf
      -- what is after the cut is not named by this page
      have hafter : ∀ r ∈ f.since (f.cut cursor (ms call)),
          r.messageID ∈ (f.answer caller.accountID state cursor (ms call)).applyTo held ↔
            r.messageID ∈ start := by
        intro r hr
        obtain ⟨hsince, hout⟩ := since_of_since_cut hm hmore hr
        exact (mem_applyTo_of_not_names (not_names hsince hout)).trans
          (hagree r hsince)
      have hrest := @ih _ (call + 1) _ _ (by omega) hnext (.inr hle) hafter hlater
      rw [if_pos hmore]
      refine ⟨fun ⟨resps, hresps, h⟩ => ?_, fun ⟨hpage, h⟩ => ?_⟩
      · obtain ⟨rest, hsession, rfl⟩ := map_eq_some_iff.1 hresps
        have hnames := session_names hnext (.inr hle) hsession
        obtain ⟨hpage, htail⟩ := (learned_cut_iff hm hagree hfresh' hmore hnames).1 h
        exact ⟨hpage, fun _ => hrest.1 ⟨rest, hsession, htail⟩⟩
      · obtain ⟨rest, hsession, htail⟩ := hrest.2 (h hmore)
        have hnames := session_names hnext (.inr hle) hsession
        exact ⟨_, map_eq_some_iff.2 ⟨rest, hsession, rfl⟩,
          (learned_cut_iff hm hagree hfresh' hmore hnames).2 ⟨hpage, htail⟩⟩
    · rw [if_neg hmore]
      have hlast := @learned_last_iff f cursor (ms call) state caller.accountID start held
        hm hagree hfresh' hmore
      refine ⟨fun ⟨resps, hresps, h⟩ => ?_, fun h => ⟨_, rfl, hlast.2 h.1⟩⟩
      cases hresps
      exact ⟨hlast.1 h, fun hc => absurd hc hmore⟩

end Learning

end Moov.Jmap
