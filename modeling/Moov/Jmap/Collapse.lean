import Moov.Jmap.Paging

/-!
# Following `NextCursor`

`ListCollapsedMessages` (`store/collapse.go`) collapses a window of rows to the newest of
each conversation, cuts the page at a limit, and resumes behind the last row it scanned.
What the cut leaves out is behind the cursor for good: the next page excludes it as already
offered.  A page that the exclusion leaves empty has no row to say that there is a cursor.

* `collapsedPage_take` — one page, at a place of the walk;
* `followed_left` — what a caller collects from a place on, and when it is all of it;
* `followed_eq_newest_iff` — following `NextCursor` shows each conversation once, by its
  newest message, exactly when no window opens more conversations than a page holds and
  none follows a window that opens none.
-/

namespace Moov.Query

open List

open Moov.Jmap (MethodError)

variable {db : Mailstore} {rows : List Mail} {window limit n k : Nat}

/-! ## Conversations -/

lemma leads_congr {seen seen' : List Nat} (h : ∀ t, t ∈ seen ↔ t ∈ seen') (rows : List Mail) :
    leads seen rows = leads seen' rows := by
  induction rows generalizing seen seen' with
  | nil => rfl
  | cons m rows ih =>
    simp only [leads, h m.threadID]
    split
    · exact ih h
    · exact congrArg _ (ih fun t => by simp only [mem_cons, h t])

lemma leads_append (seen : List Nat) (front rest : List Mail) : leads seen (front ++ rest) =
      leads seen front ++ leads (front.map Mail.threadID ++ seen) rest := by
  induction front generalizing seen with
  | nil => rfl
  | cons m front ih =>
    simp only [cons_append, leads, map_cons]
    split
    · rename_i hseen
      rw [ih]
      congr 1
      refine leads_congr (fun t => ?_) rest
      simp only [mem_cons, mem_append]
      constructor
      · exact .inr
      · rintro (rfl | h)
        · exact .inr hseen
        · exact h
    · rw [ih, cons_append]
      congr 2
      refine leads_congr (fun t => ?_) rest
      simp only [mem_cons, mem_append]
      tauto

/-- Leaving conversations out of the result is not looking at them. -/
lemma leads_filter (seen skip : List Nat) (rows : List Mail) :
    ((leads seen rows).filter fun m => m.threadID ∉ skip) = leads (skip ++ seen) rows := by
  induction rows generalizing seen with
  | nil => rfl
  | cons m rows ih =>
    by_cases hseen : m.threadID ∈ seen
    · simp only [leads, hseen, mem_append, or_true, if_true]
      exact ih seen
    · by_cases hskip : m.threadID ∈ skip
      · simp only [leads, hseen, hskip, mem_append, true_or, if_true, if_false]
        rw [filter_cons_of_neg (by simpa using hskip), ih]
        refine leads_congr (fun t => ?_) rows
        simp only [mem_cons, mem_append]
        constructor
        · rintro (h | rfl | h)
          · exact .inl h
          · exact .inl hskip
          · exact .inr h
        · rintro (h | h)
          · exact .inl h
          · exact .inr (.inr h)
      · simp only [leads, hseen, hskip, mem_append, or_self, if_false]
        rw [filter_cons_of_pos (by simpa using hskip), ih]
        refine congrArg _ (leads_congr (fun t => ?_) rows)
        simp only [mem_cons, mem_append]
        tauto

lemma above_take {rows : List Mail} (hrows : rows.Pairwise newer) (n : Nat) :
    above rows (rows.take n).getLast? = (rows.take n).map Mail.threadID := by
  rcases eq_or_ne (rows.take n) [] with hnil | hne
  · rw [hnil]
    rfl
  · rw [getLast?_eq_some_getLast hne, above,
      Keyset.filter_ahead hrows newer_asymm (Keyset.eq_take_getLast hne),
      dropLast_append_getLast hne]

/-- Of each conversation its newest message. -/
def newestOf (rows : List Mail) : List Mail :=
  rows.filter fun m => ∀ n ∈ rows, n.threadID = m.threadID → ¬ newer n m

lemma leads_eq_filter (hrows : rows.Pairwise newer) (seen : List Nat) :
    leads seen rows = rows.filter fun m =>
      m.threadID ∉ seen ∧ ∀ n ∈ rows, n.threadID = m.threadID → ¬ newer n m := by
  induction rows generalizing seen with
  | nil => rfl
  | cons m rows ih =>
    obtain ⟨hm, hrows⟩ := pairwise_cons.1 hrows
    have hself : ∀ n ∈ m :: rows, n.threadID = m.threadID → ¬ newer n m := fun n hn _ => by
      rcases mem_cons.1 hn with rfl | hn
      · exact fun h => newer_asymm _ _ h h
      · exact newer_asymm _ _ (hm n hn)
    -- behind it, no message of its conversation is the newest
    have hrest : ∀ n ∈ rows, (∀ a ∈ m :: rows, a.threadID = n.threadID → ¬ newer a n) ↔
        n.threadID ≠ m.threadID ∧ ∀ a ∈ rows, a.threadID = n.threadID → ¬ newer a n := by
      intro n hn
      rw [forall_mem_cons]
      exact and_congr_left' ⟨fun h ht => h ht.symm (hm n hn), fun h ht => absurd ht.symm h⟩
    by_cases hseen : m.threadID ∈ seen
    · rw [leads, if_pos hseen, filter_cons_of_neg (by simp [hseen]), ih hrows]
      refine filter_congr fun n hn => decide_eq_decide.2 ?_
      rw [hrest n hn]
      refine and_congr_right fun hn => ⟨fun h => ⟨fun ht => hn (ht ▸ hseen), h⟩, And.right⟩
    · rw [leads, if_neg hseen, filter_cons_of_pos (by simpa [hseen] using hself), ih hrows]
      refine congrArg _ (filter_congr fun n hn => decide_eq_decide.2 ?_)
      rw [hrest n hn, mem_cons, not_or]
      tauto

lemma leads_eq_newestOf (hrows : rows.Pairwise newer) : leads [] rows = newestOf rows := by
  rw [leads_eq_filter hrows]
  simp [newestOf]

/-! ## One page -/

/-- The conversations that the window at a place opens. -/
def news (window : Nat) (rows : List Mail) (n : Nat) : List Mail :=
  leads ((rows.take n).map Mail.threadID) ((rows.drop n).take window)

theorem collapsedPage_take (hrows : rows.Pairwise newer) (hw : 0 < window) :
    collapsedPage window rows (rows.take n).getLast? limit = ⟨(news window rows n).take limit,
        decide ((news window rows n).take limit ≠ [] ∧ n + window ≤ rows.length),
        if (news window rows n).take limit ≠ [] ∧ n + window ≤ rows.length
          then (rows.take (n + window)).getLast? else none⟩ := by
  have hpage : (leads ((rows.take n).map Mail.threadID) ((rows.drop n).take window)).take limit =
      (news window rows n).take limit := rfl
  unfold collapsedPage
  simp only [Keyset.behind_take hrows newer_asymm, above_take hrows, leads_filter, append_nil,
    hpage]
  generalize (news window rows n).take limit = page
  have hlen : ((rows.drop n).take window).length = min window (rows.length - n) := by
    rw [length_take, length_drop]
  have hgo : window ≤ (if page = [] then 0 else ((rows.drop n).take window).length) ↔
      page ≠ [] ∧ n + window ≤ rows.length := by
    split
    · rename_i hnil
      simp only [hnil, ne_eq, not_true_eq_false, false_and, iff_false]
      omega
    · rename_i hne
      simp only [ne_eq, hne, not_false_eq_true, true_and]
      omega
  simp only [hgo]
  split
  · have hne : (rows.drop n).take window ≠ [] := ne_nil_of_length_pos (by omega)
    rw [take_add, getLast?_append_of_ne_nil _ hne]
  · rfl

/-! ## All pages -/

/-- What a caller collects that follows `NextCursor` until there is none, within so many
calls. -/
def followed (window limit : Nat) (rows : List Mail) :
    (calls : Nat) → Option Mail → Option (List Mail)
  | 0, _ => none
  | calls + 1, cursor =>
      let page := collapsedPage window rows cursor limit
      match page.nextCursor with
      | none => some page.rows
      | some last => (followed window limit rows calls (some last)).map (page.rows ++ ·)

/-- The conversations from the window at a place on. -/
def left (window : Nat) (rows : List Mail) (k : Nat) : List Mail :=
  leads ((rows.take (window * k)).map Mail.threadID) (rows.drop (window * k))

lemma left_eq : left window rows k = news window rows (window * k) ++ left window rows (k + 1) := by
  have hsplit : rows.drop (window * k) =
      (rows.drop (window * k)).take window ++ rows.drop (window * (k + 1)) := by
    rw [Nat.mul_succ, ← drop_drop, take_append_drop]
  unfold left news
  nth_rewrite 1 [hsplit]
  rw [leads_append]
  refine congrArg _ (leads_congr (fun t => ?_) _)
  rw [Nat.mul_succ, take_add, map_append, mem_append, mem_append, or_comm]

lemma left_eq_nil_iff (hw : 0 < window) :
    left window rows k = [] ↔ ∀ j, k ≤ j → news window rows (window * j) = [] := by
  constructor
  · intro h j hj
    have hj' : left window rows j = [] := by
      induction j, hj using Nat.le_induction with
      | base => exact h
      | succ j _ ih => exact (append_eq_nil_iff.1 (left_eq ▸ ih)).2
    exact (append_eq_nil_iff.1 (left_eq ▸ hj')).1
  · intro h
    have hskip : ∀ d, left window rows k = left window rows (k + d) := by
      intro d
      induction d with
      | zero => rfl
      | succ d ih => rw [ih, left_eq, h _ (Nat.le_add_right k d), nil_append, Nat.add_assoc]
    rw [hskip rows.length, left, drop_of_length_le]
    · rfl
    · calc rows.length ≤ k + rows.length := Nat.le_add_left _ _
        _ ≤ window * (k + rows.length) := Nat.le_mul_of_pos_left _ hw

/-- A window opens no more conversations than a page holds, and where it opens none, the
next one opens none either. -/
def Shown (window limit : Nat) (rows : List Mail) (k : Nat) : Prop :=
  (news window rows (window * k)).length ≤ limit ∧
    (news window rows (window * k) = [] → news window rows (window * (k + 1)) = [])

lemma take_append_eq_iff {α : Type} {a b c : List α} (h : b.Sublist c) :
    a.take limit ++ b = a ++ c ↔ a.length ≤ limit ∧ b = c := by
  constructor
  · intro heq
    have hlen := congrArg length heq
    have hle := h.length_le
    simp only [length_append, length_take] at hlen
    exact ⟨by omega, h.eq_of_length (by omega)⟩
  · rintro ⟨hle, rfl⟩
    rw [take_of_length_le hle]

/-- Where the walk stops, nothing is left exactly when every window from there on is shown. -/
lemma shown_of_stop (hw : 0 < window) (hl : 0 < limit)
    (hstop : ¬ ((news window rows (window * k)).take limit ≠ [] ∧ window * k + window ≤
      rows.length)) :
    (news window rows (window * k)).length ≤ limit ∧ left window rows (k + 1) = [] ↔
      ∀ j, k ≤ j → Shown window limit rows j := by
  rw [left_eq_nil_iff hw]
  constructor
  · rintro ⟨hlen, hnone⟩ j hj
    rcases Nat.eq_or_lt_of_le hj with rfl | hj
    · exact ⟨hlen, fun _ => hnone _ (Nat.le_refl _)⟩
    · exact ⟨by rw [hnone j hj]; exact Nat.zero_le _, fun _ => hnone _ (Nat.le_succ_of_le hj)⟩
  · intro h
    refine ⟨(h k (Nat.le_refl _)).1, ?_⟩
    by_cases hnil : news window rows (window * k) = []
    · intro j hj
      induction j, hj using Nat.le_induction with
      | base => exact (h k (Nat.le_refl _)).2 hnil
      | succ j hj ih => exact (h j (Nat.le_of_succ_le hj)).2 ih
    · -- the last window was not full
      have hshort : ¬ window * k + window ≤ rows.length := fun hfull =>
        hstop ⟨fun hcut => (take_eq_nil_iff.1 hcut).elim (Nat.ne_of_gt hl) hnil, hfull⟩
      refine (left_eq_nil_iff hw).1 ?_
      rw [left, Nat.mul_succ, drop_of_length_le (by omega)]
      rfl

/-- What a caller collects from a place on, and when it is all there is. -/
theorem followed_left (hrows : rows.Pairwise newer) (hw : 0 < window) (hl : 0 < limit)
    (calls : Nat) :
    ∀ k, window * k ≤ rows.length → rows.length < window * k + calls →
      ∃ shown, followed window limit rows calls (rows.take (window * k)).getLast? = some shown ∧
        shown.Sublist (left window rows k) ∧
        (shown = left window rows k ↔ ∀ j, k ≤ j → Shown window limit rows j) := by
  induction calls with
  | zero =>
    intro k hk hlt
    omega
  | succ calls ih =>
    intro k hk hlt
    rw [followed, collapsedPage_take hrows hw]
    by_cases hgo : (news window rows (window * k)).take limit ≠ [] ∧
      window * k + window ≤ rows.length
    · obtain ⟨shown, hshown, hsub, hall⟩ := ih (k + 1) hgo.2 (by rw [Nat.mul_succ]; omega)
      have hne : rows.take (window * k + window) ≠ [] :=
        ne_nil_of_length_pos (by rw [length_take]; omega)
      rw [Nat.mul_succ, getLast?_eq_some_getLast hne] at hshown
      refine ⟨(news window rows (window * k)).take limit ++ shown, ?_, ?_, ?_⟩
      · simp only [hgo, getLast?_eq_some_getLast hne, hshown, ne_eq, not_false_eq_true, and_self,
          if_true, Option.map_some]
      · rw [left_eq]
        exact (take_sublist _ _).append hsub
      · rw [left_eq, take_append_eq_iff hsub, hall]
        constructor
        · rintro ⟨hlen, hrest⟩ j hj
          rcases Nat.eq_or_lt_of_le hj with rfl | hj
          · exact ⟨hlen, fun hnil => absurd (by rw [hnil, take_nil]) hgo.1⟩
          · exact hrest j hj
        · exact fun h => ⟨(h k (Nat.le_refl _)).1, fun j hj => h j (Nat.le_of_succ_le hj)⟩
    · refine ⟨(news window rows (window * k)).take limit, by simp only [if_neg hgo], ?_, ?_⟩
      · rw [left_eq]
        exact (take_sublist _ _).trans (sublist_append_left _ _)
      · rw [← shown_of_stop hw hl hgo, left_eq]
        have hcut := @take_append_eq_iff limit _ (news window rows (window * k)) _ _
          (nil_sublist (left window rows (k + 1)))
        rwa [append_nil, eq_comm (a := [])] at hcut

def defaultSearchLimit : Nat := 50

def maxCollapseWindow : Nat := 5000

def effectiveLimit (limit : Int) : Nat :=
  min (if limit ≤ 0 then defaultSearchLimit else limit.toNat) maxSearchLimit

def effectiveWindow (limit window : Int) : Nat :=
  max (min (if window ≤ 0 then collapseWindow else window.toNat) maxCollapseWindow)
    (effectiveLimit limit)

/-- `ListCollapsedMessages` with one filter, called again with its `NextCursor` until that is
nil: all the rows, or `none` where there is no end to it. -/
def followNextCursor (db : Mailstore) (c : Condition) (limit window : Int) :
    Except MethodError (Option (List Mail)) := do
  let test ← collapsedShape db c
  let rows := db.matching test
  return followed (effectiveWindow limit window) (effectiveLimit limit) rows (rows.length + 1) none

/-- **Following `NextCursor`.**  The pages together have of each conversation its newest
matching message, newest first, exactly when every window is shown. -/
theorem followed_eq_newest_iff {c : Condition} {test : Mail → Bool}
    (h : collapsedShape db c = .ok test)
    (limit window : Int) :
    followNextCursor db c limit window = .ok (some (newestOf (db.matching test))) ↔
      ∀ k, Shown (effectiveWindow limit window) (effectiveLimit limit) (db.matching test) k := by
  have hrows := db.matching_newer test
  have hl : 0 < effectiveLimit limit := by
    unfold effectiveLimit defaultSearchLimit maxSearchLimit
    split <;> omega
  have hw : 0 < effectiveWindow limit window := Nat.lt_of_lt_of_le hl (Nat.le_max_right _ _)
  obtain ⟨shown, hshown, -, hall⟩ := followed_left hrows hw hl ((db.matching test).length + 1) 0
    (Nat.zero_le _) (by omega)
  have hleft : left (effectiveWindow limit window) (db.matching test) 0 =
    newestOf (db.matching test) :=
    leads_eq_newestOf hrows
  have hrun : followNextCursor db c limit window = .ok (some shown) := by
    simp only [followNextCursor, h, bind, Except.bind, pure, Except.pure]
    exact congrArg _ hshown
  rw [hrun, Except.ok.injEq, Option.some.injEq, ← hleft, hall]
  exact ⟨fun h k => h k (Nat.zero_le _), fun h k _ => h k⟩

/-- Two windows of one row, and two pages. -/
theorem followed_eq_newest_iff_twoMails :
    followNextCursor twoMails inFolder 1 1 = .ok (some [sampleMail 2 20, sampleMail 1 10]) ∧
      ∀ k, Shown 1 1 [sampleMail 2 20, sampleMail 1 10] k :=
  ⟨rfl, (@followed_eq_newest_iff twoMails inFolder _ rfl 1 1).1 rfl⟩

/-- Two conversations in one window, and pages of one: the second is cut from the first
page, and excluded from the second. -/
theorem second_conversation_is_skipped : ∃ test, collapsedShape twoMails inFolder = .ok test ∧
      followNextCursor twoMails inFolder 1 2 = .ok (some [sampleMail 2 20]) ∧
      newestOf (twoMails.matching test) = [sampleMail 2 20, sampleMail 1 10] :=
  ⟨_, rfl, rfl, rfl⟩

end Moov.Query
