import Moov.Jmap.Query

/-!
# Pages of `Email/query`
-/

namespace Moov.Query

open List

open Moov.Jmap (MethodError)

variable {db : Mailstore} {s : SortSpec} {m n k : Mail} {req : QueryRequest}

/-! ## The two orders -/

lemma newer_asymm (m n : Mail) (h : newer m n) : ¬ newer n m := by
  unfold newer at *
  omega

instance : Std.Total fun m n : Mail => ¬ newer n m :=
  ⟨fun m n => by unfold newer; omega⟩

instance : IsTrans Mail fun m n => ¬ newer n m :=
  ⟨fun m n k => by unfold newer; omega⟩

lemma Mailstore.matching_perm (db : Mailstore) (test : Mail → Bool) :
    (db.matching test).Perm (db.mails.filter fun m => !m.deleted && test m) :=
  perm_insertionSort _ _

/-- No two matches have the same id. -/
lemma Mailstore.matching_key (db : Mailstore) (test : Mail → Bool) :
    (db.matching test).Pairwise fun m n => m.id ≠ n.id :=
  (List.Perm.pairwise_iff (fun {_ _} hne => Ne.symm hne) (db.matching_perm test)).2
    (db.key.filter _)

/-- The matches stand in strict order. -/
lemma Mailstore.matching_newer (db : Mailstore) (test : Mail → Bool) :
    (db.matching test).Pairwise newer := by
  have hle : (db.matching test).Pairwise fun m n => ¬ newer n m :=
    pairwise_insertionSort _ _
  refine (hle.and (db.matching_key test)).imp fun {m n} h => ?_
  unfold newer at *
  omega

/-- The order a client asks for, as `sort.SliceStable` uses it. -/
def inOrder (db : Mailstore) (s : SortSpec) (m n : Mail) : Prop :=
  less db s n m = false

instance : DecidableRel (inOrder db s) :=
  fun m n => inferInstanceAs (Decidable (less db s n m = false))

/-- What the order compares: a group, then a key that grows. -/
def sortKey (db : Mailstore) (s : SortSpec) (m : Mail) : Nat :=
  if s.keyword ≠ "" ∧ (hasKeyword db m s.keyword == s.keywordFirst) = false then 1 else 0

lemma inOrder_iff : inOrder db s m n ↔
      sortKey db s m < sortKey db s n ∨ (sortKey db s m = sortKey db s n ∧
        if s.ascending then m.date < n.date ∨ (m.date = n.date ∧ m.id ≤ n.id)
        else n.date < m.date ∨ (m.date = n.date ∧ n.id ≤ m.id)) := by
  have hdates : (if n.date = m.date then
        if s.ascending then decide (n.id < m.id) else decide (m.id < n.id)
      else if s.ascending then decide (n.date < m.date) else decide (m.date < n.date)) = false ↔
      if s.ascending then m.date < n.date ∨ (m.date = n.date ∧ m.id ≤ n.id)
        else n.date < m.date ∨ (m.date = n.date ∧ n.id ≤ m.id) := by
    cases s.ascending
    · by_cases hd : n.date = m.date
      · simp [hd]
      · simp only [hd, Bool.false_eq_true, if_false, decide_eq_false_iff_not]
        omega
    · by_cases hd : n.date = m.date
      · simp [hd]
      · simp only [hd, if_true, if_false, decide_eq_false_iff_not]
        omega
  unfold inOrder less sortKey
  by_cases hk : s.keyword = ""
  · simpa [hk] using hdates
  · cases hasKeyword db m s.keyword <;> cases hasKeyword db n s.keyword <;>
      cases s.keywordFirst <;> simp [hk] <;> simpa using hdates

instance : Std.Total (inOrder db s) :=
  ⟨fun m n => by
    rw [inOrder_iff, inOrder_iff]
    cases s.ascending <;> simp only [Bool.false_eq_true, if_true, if_false] <;> omega⟩

instance : IsTrans Mail (inOrder db s) :=
  ⟨fun m n k => by
    rw [inOrder_iff, inOrder_iff, inOrder_iff]
    cases s.ascending <;> simp only [Bool.false_eq_true, if_true, if_false] <;> omega⟩

lemma sortIDsStable_eq (hits : List Mail) :
    sortIDsStable db s hits = (hits.insertionSort (inOrder db s)).map (·.id) :=
  rfl

/-! ## One page -/

/-- The matches of a translated condition, newest first. -/
def Mailstore.found (db : Mailstore) (c : Condition) : List Mail :=
  match shape db (resolveExclusions db c) with
  | .ok test => db.matching test
  | .error _ => []

/-- No match is found twice. -/
lemma Mailstore.found_nodup (db : Mailstore) (c : Condition) :
    ((db.found c).map (·.id)).Nodup := by
  unfold Mailstore.found
  split
  · exact pairwise_map.2 (db.matching_key _)
  · exact nodup_nil

variable {c c' : Condition}

/-- A condition that `answerable` accepts names one of the three shapes. -/
lemma answerable_ok (h : answerable c = .ok c') :
    c'.text ≠ "" ∨ c'.accountWide = true ∨ (c'.mailboxID ≠ none ∧ c'.keyword = "") := by
  unfold answerable at h
  by_cases hbare : c.keyword ≠ "" ∧ c.text = "" ∧ c.mailboxID = none ∧ c.accountWide = false
  · -- a bare keyword becomes the account-wide label view
    obtain ⟨_, _, hmailbox, _⟩ := id hbare
    simp only [if_pos hbare] at h
    rw [if_neg (fun hnone => Bool.noConfusion hnone.2.2),
      if_neg (fun hfolder => hfolder.2.2 hmailbox)] at h
    cases h
    exact .inr (.inl rfl)
  · simp only [if_neg hbare] at h
    split at h
    · cases h
    · rename_i hsome
      split at h
      · cases h
      · rename_i hfolder
        cases h
        by_cases htext : c.text = ""
        · cases hwide : c.accountWide with
          | true => exact .inr (.inl rfl)
          | false =>
            have hmailbox : c.mailboxID ≠ none := fun hnone => hsome ⟨htext, hnone, hwide⟩
            refine .inr (.inr ⟨hmailbox, ?_⟩)
            by_contra hkeyword
            exact hfolder ⟨hkeyword, htext, hmailbox⟩
        · exact .inl htext

lemma applyDefaultExclusion_eq (c : Condition) : (applyDefaultExclusion c).text = c.text ∧
      (applyDefaultExclusion c).accountWide = c.accountWide ∧
      (applyDefaultExclusion c).mailboxID = c.mailboxID ∧
      (applyDefaultExclusion c).keyword = c.keyword := by
  unfold applyDefaultExclusion
  split
  · exact ⟨rfl, rfl, rfl, rfl⟩
  · split <;> exact ⟨rfl, rfl, rfl, rfl⟩

lemma resolveExclusions_eq (c : Condition) : (resolveExclusions db c).text = c.text ∧
      (resolveExclusions db c).accountWide = c.accountWide ∧
      (resolveExclusions db c).mailboxID = c.mailboxID ∧
      (resolveExclusions db c).keyword = c.keyword := by
  unfold resolveExclusions
  split <;> exact ⟨rfl, rfl, rfl, rfl⟩

/-- An accepted condition has a list query. -/
lemma exists_shape (h : answerable c = .ok c') :
    ∃ test, shape db (resolveExclusions db (applyDefaultExclusion c')) = .ok test := by
  obtain ⟨ht, hw, hm, hk⟩ := @resolveExclusions_eq db (applyDefaultExclusion c')
  obtain ⟨ht', hw', hm', hk'⟩ := applyDefaultExclusion_eq c'
  unfold shape
  rw [ht, ht', hw, hw', hm, hm', hk, hk']
  rcases answerable_ok h with htext | hwide | ⟨hmailbox, hkeyword⟩
  · rw [if_pos htext]
    exact ⟨_, rfl⟩
  · rw [hwide]
    split <;> exact ⟨_, rfl⟩
  · split
    · exact ⟨_, rfl⟩
    · split
      · exact ⟨_, rfl⟩
      · rw [if_neg (not_not.2 hkeyword)]
        cases hid : c'.mailboxID with
        | none => exact absurd hid hmailbox
        | some => exact ⟨_, rfl⟩

/-- `SearchEmails` sorts the newest `reach` matches. -/
lemma searchEmails_eq {c : Condition} {test : Mail → Bool}
    (hshape : shape db (resolveExclusions db c) = .ok test) (hs : s.byRelevance = false)
    (reach : Nat) :
    searchEmails db c s reach = .ok (sortIDsStable db s ((db.found c).take reach)) := by
  have hfound : db.found c = db.matching test := by rw [Mailstore.found, hshape]
  unfold searchEmails
  by_cases hreach : reach = 0
  · rw [if_pos hreach, hreach, take_zero]
    rfl
  · rw [if_neg hreach]
    simp only [hshape, hs, bind, Except.bind, Bool.false_eq_true, if_false, pure, Except.pure]
    rw [hfound, Keyset.walk_eq_take (db.matching_newer test) newer_asymm (by decide)]

/-- A request for one page: a place and a size. -/
def QueryRequest.page (req : QueryRequest) (p l : Nat) : QueryRequest :=
  { req with position := some p, limit := some l }

lemma effectiveQueryLimit_some (l : Nat) :
    (effectiveQueryLimit (some l)).1 = min l defaultSearchWindow := by
  simp only [effectiveQueryLimit]
  split
  · exact (Nat.min_eq_right (Nat.le_of_lt ‹_›)).symm
  · exact (Nat.min_eq_left (Nat.le_of_not_lt ‹_›)).symm

lemma queryReach_page (hanchor : req.anchor = none) {p l lim : Nat}
    (hlim : p + lim ≤ maxQueryReach) : queryReach (req.page p l) lim = p + lim := by
  unfold queryReach QueryRequest.page
  simp only [hanchor]
  rw [if_neg (by omega), if_neg (by omega)]
  omega

lemma translateFilter_one (hc : translateFilter (.one c) = .ok (.one c')) :
    ∃ b, answerable c = .ok b ∧ c' = applyDefaultExclusion b := by
  simp only [translateFilter] at hc
  cases hb : answerable c with
  | error => rw [hb] at hc; cases hc
  | ok b =>
    rw [hb] at hc
    cases hc
    exact ⟨b, rfl, rfl⟩

section Pages

variable {window : Nat} {req : QueryRequest} {c c' : Condition}

/-- The answer to a request that is answered. -/
def answerOf (window : Nat) (req : QueryRequest) (found : List Nat) (start : Nat) :
    QueryResponse where
  accountID := req.accountID
  position := min start found.length
  ids := (found.drop start).take (effectiveQueryLimit req.limit).1
  total := if req.calculateTotal then
      queryTotal window found.length (queryReach req (effectiveQueryLimit req.limit).1)
    else none
  limit := if (effectiveQueryLimit req.limit).2 then some (effectiveQueryLimit req.limit).1
    else none

/-- `handleEmailQuery` answers when its five steps do. -/
lemma handleEmailQuery_ok {resp : QueryResponse} : handleEmailQuery window db req = .ok resp ↔
      ∃ filter found start, translateFilter req.filter = .ok filter ∧ refusal req filter = .ok () ∧
        search db req.collapseThreads filter req.sort
          (queryReach req (effectiveQueryLimit req.limit).1) = .ok found ∧
        resolveStart req found = .ok start ∧ resp = answerOf window req found start := by
  unfold handleEmailQuery
  cases hfilter : translateFilter req.filter with
  | error => simp [bind, Except.bind]
  | ok filter =>
    cases hrefusal : refusal req filter with
    | error => simp [bind, Except.bind, hrefusal]
    | ok =>
      cases hsearch : search db req.collapseThreads filter req.sort
          (queryReach req (effectiveQueryLimit req.limit).1) with
      | error e => simp [bind, Except.bind, hrefusal, hsearch]
      | ok found =>
        cases hstart : resolveStart req found with
        | error => simp [bind, Except.bind, hrefusal, hsearch, hstart]
        | ok =>
          simp [bind, Except.bind, hrefusal, hsearch, hstart, pure, Except.pure, answerOf,
            @eq_comm _ _ resp]

lemma getElem?_take_one {α : Type} (l : List α) (k : Nat) : ((l.drop k).take 1)[0]? = l[k]? := by
  rw [getElem?_take_of_lt Nat.one_pos, getElem?_drop, Nat.add_zero]

variable (hfilter : req.filter = .one c) (hc : translateFilter (.one c) = .ok (.one c'))
  (hsort : req.sort.byRelevance = false) (hanchor : req.anchor = none)
  (hthreads : req.collapseThreads = false)
include hfilter hc hsort hanchor hthreads

/-- A page is cut from the sorted front of the matches, and the front is as long as the page
needs. -/
lemma handleEmailQuery_page {p l : Nat} (hreach : p + l ≤ maxQueryReach) :
    ∃ resp, handleEmailQuery window db (req.page p l) = .ok resp ∧
      resp.ids = ((sortIDsStable db req.sort
        ((db.found c').take (p + min l defaultSearchWindow))).drop p).take
          (min l defaultSearchWindow) := by
  obtain ⟨b, hb, rfl⟩ := translateFilter_one hc
  obtain ⟨test, hshape⟩ := @exists_shape db _ _ hb
  have hlim : (effectiveQueryLimit (req.page p l).limit).1 = min l defaultSearchWindow :=
    effectiveQueryLimit_some l
  have hok : refusal (req.page p l) (.one (applyDefaultExclusion b)) = .ok () := by
    unfold refusal QueryRequest.page
    simp [hsort]
  have hsearch : search db (req.page p l).collapseThreads (.one (applyDefaultExclusion b))
      (req.page p l).sort (queryReach (req.page p l) (min l defaultSearchWindow)) =
      .ok (sortIDsStable db req.sort ((db.found (applyDefaultExclusion b)).take
        (p + min l defaultSearchWindow))) := by
    rw [queryReach_page hanchor (by omega),
      show (req.page p l).collapseThreads = false from hthreads]
    exact searchEmails_eq hshape hsort _
  have hstart : ∀ found, resolveStart (req.page p l) found = .ok p := fun found => by
    unfold resolveStart QueryRequest.page
    simp only [hanchor, Option.getD_some]
    rw [if_neg (by omega), Int.toNat_natCast]
  refine ⟨_, handleEmailQuery_ok.2 ⟨_, _, p, ?_, hok, hlim.symm ▸ hsearch, hstart _, rfl⟩, ?_⟩
  · rw [← hc, ← hfilter]
    rfl
  · show take (effectiveQueryLimit (req.page p l).limit).1 _ = _
    rw [hlim]

/-- **Pages.**  The pages of a query are pages of one list of the matches exactly when the
newest-first order that the store is read in is, as far as the reach goes, already the order
that the client asks for: a page is sorted after it was cut from the store. -/
theorem pages_of_one_list_iff :
    (∃ shown : List Nat, shown.Perm ((db.found c').map (·.id)) ∧
        ∀ p l, p + l ≤ maxQueryReach → ∃ resp,
          handleEmailQuery window db (req.page p l) = .ok resp ∧
            resp.ids = (shown.drop p).take (min l defaultSearchWindow)) ↔
      ((db.found c').take maxQueryReach).Pairwise (inOrder db req.sort) := by
  constructor
  · rintro ⟨shown, hperm, hpages⟩
    have hshown : shown.Nodup := hperm.nodup_iff.2 (db.found_nodup c')
    refine Keyset.pairwise_take_of_prefixes (f := (·.id)) hshown _ fun k hk => ?_
    -- the page of one result at place k
    obtain ⟨resp, hresp, hids⟩ := hpages k 1 hk
    obtain ⟨resp', hresp', hids'⟩ :=
      @handleEmailQuery_page db window req c c' hfilter hc hsort hanchor hthreads k 1 hk
    cases hresp.symm.trans hresp'
    have hone : min 1 defaultSearchWindow = 1 := rfl
    rw [hids', hone, sortIDsStable_eq] at hids
    rw [← getElem?_take_one shown, ← hids, getElem?_take_one]
  · intro hordered
    refine ⟨(db.found c').map (·.id), .rfl, fun p l hpl => ?_⟩
    obtain ⟨resp, hresp, hids⟩ :=
      @handleEmailQuery_page db window req c c' hfilter hc hsort hanchor hthreads p l hpl
    refine ⟨resp, hresp, ?_⟩
    have hfront : ((db.found c').take (p + min l defaultSearchWindow)).Pairwise
        (inOrder db req.sort) :=
      hordered.sublist (take_sublist_take_left (by omega))
    rw [hids, sortIDsStable_eq, hfront.insertionSort_eq, map_take, drop_take,
      Nat.add_sub_cancel_left, take_take, Nat.min_self]

end Pages

/-! ### Two messages in a folder -/

def sampleMail (id date : Nat) : Mail where
  id := id
  date := date
  threadID := id
  mailboxID := 1
  flags := 0
  keywords := []
  hasAttachments := false
  rawSize := 100
  deleted := false

def twoMails : Mailstore where
  mails := [sampleMail 1 10, sampleMail 2 20]
  key := by decide
  junk := none
  trash := none
  text := fun _ _ => true
  cc := fun _ _ => true
  bcc := fun _ _ => true
  rank := fun _ _ => 0
  equalFold := fun a b => a = b

/-- `{"inMailbox": …}` alone. -/
def inFolder : Condition where
  text := ""
  mailboxID := some 1
  since := none
  before := none
  unreadOnly := false
  keyword := ""
  hasAttachment := none
  cc := ""
  bcc := ""
  minSize := none
  maxSize := none
  flagsAll := 0
  flagsNone := 0
  excludeMailboxIDs := none
  defaultExclusion := false
  accountWide := false

def listFolder (ascending : Bool) : QueryRequest where
  accountID := "a"
  filter := .one inFolder
  sort := ⟨false, ascending, "", false⟩
  position := none
  anchor := none
  anchorOffset := 0
  limit := none
  calculateTotal := true
  collapseThreads := false

theorem pages_of_one_list_newest_first :
    ∃ shown : List Nat, shown.Perm ((twoMails.found inFolder).map (·.id)) ∧
      ∀ p l, p + l ≤ maxQueryReach → ∃ resp,
        handleEmailQuery 200 twoMails ((listFolder false).page p l) = .ok resp ∧
          resp.ids = (shown.drop p).take (min l defaultSearchWindow) :=
  (@pages_of_one_list_iff twoMails 200 (listFolder false) inFolder inFolder rfl rfl rfl rfl rfl).2
    (by decide)

/-- Oldest first, the first page of one is the newer message, and the first page of two
begins with the older. -/
theorem pages_oldest_first_disagree :
    ¬ ∃ shown : List Nat, shown.Perm ((twoMails.found inFolder).map (·.id)) ∧
      ∀ p l, p + l ≤ maxQueryReach → ∃ resp,
        handleEmailQuery 200 twoMails ((listFolder true).page p l) = .ok resp ∧
          resp.ids = (shown.drop p).take (min l defaultSearchWindow) := by
  rintro ⟨shown, -, hpages⟩
  obtain ⟨_, hone, hids⟩ := hpages 0 1 (by decide)
  obtain ⟨_, htwo, hids'⟩ := hpages 0 2 (by decide)
  cases hone
  cases htwo
  have hone : [2] = shown.take 1 := hids
  have htwo : [1, 2] = shown.take 2 := hids'
  have hfirst : (shown.take 2).take 1 = shown.take 1 := by rw [take_take]; rfl
  rw [← hone, ← htwo] at hfirst
  exact absurd hfirst (by decide)

end Moov.Query
