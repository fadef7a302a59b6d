import Moov.Store.Messages
import Moov.Store.Types

/-!
# A mailbox on the server, and what a delta of it does to the rows

The server's side of a mailbox is a versioned source: a message's key is its UID,
its version the MODSEQ of its last change, its fixed part the INTERNALDATE and its
value the flags.  The first half of this file is the wire: what `SelectQResync`
and `FetchChanges` (`imap/mailbox.go`, `imap/fetch.go`) make of the server's
answers, with the VANISHED sets and the cap on their expansion.  What VANISHED
reports is the server's choice within its promise, so the sets are an input and
`Vanished.valid` is the promise.

The second half is `sync/incremental.go`: a delta is collected and then written
in a fixed order, tombstones, flags, new messages.  Each function has a lemma that
says what it makes of the row at a UID, and the passes are built from those.
-/

namespace Moov.Sync

open Moov.Store Moov.Versioned Table List

/-! ## Flags -/

/-- `sanitizeText` on a string that is valid Unicode: NUL bytes are dropped. -/
def sanitizeText (s : String) : String := String.ofList (s.toList.filter (· ≠ Char.ofNat 0))

/-- `sanitizeAll`. -/
def sanitizeAll (l : List String) : List String := l.map sanitizeText

/-- `sameKeywords`: the two lists hold the same strings, each as often. -/
def sameKeywords (a b : List String) : Bool :=
  decide (a.length = b.length) && b.all fun k => decide (b.count k ≤ a.count k)

/-- The flags as a row keeps them. -/
def sanitizeFlags (st : FlagState) : FlagState := ⟨st.flags, sanitizeAll st.keywords⟩

/-- A row with the state `st` shows the flags a server reports: the test of
`applyFlagChanges` for a change that is none. -/
def carries (st srv : FlagState) : Bool :=
  decide (st.flags = srv.flags) && sameKeywords st.keywords (sanitizeAll srv.keywords)

@[simp] lemma sameKeywords_self (a : List String) : sameKeywords a a = true := by
  simp [sameKeywords]

@[simp] lemma carries_sanitizeFlags (st : FlagState) : carries (sanitizeFlags st) st = true := by
  simp [carries, sanitizeFlags]

/-! ## The server -/

/-- A message on the server. -/
abbrev ServerMessage := Item (Option Nat) FlagState

/-- A mailbox on the server.  A server that does not announce UIDNEXT is one the
code provides for. -/
structure ServerMailbox where
  uidValidity : Nat
  announcesUIDNext : Bool
  log : Source (Option Nat) FlagState
  uidValidity_pos : 0 < uidValidity

/-- The messages of the mailbox, in the order of their UIDs. -/
def ServerMailbox.messages (srv : ServerMailbox) : List ServerMessage := srv.log.items

/-- A set of UIDs as it is on the wire: ranges, where no upper end is `*`. -/
abbrev UIDSet := List (Nat × Option Nat)

/-- The UID is in the set. -/
def inUIDSet (set : UIDSet) (u : Nat) : Bool :=
  set.any fun r => decide (r.1 ≤ u) && r.2.all fun hi => decide (u ≤ hi)

/-- `UIDSet.Nums`: the numbers of a set without `*`. -/
def nums : UIDSet → Option (List Nat)
  | [] => some []
  | (_, none) :: _ => none
  | (lo, some hi) :: rest => (nums rest).map (List.range' lo (hi + 1 - lo) ++ ·)

/-- `maxVanishedUIDs`. -/
def maxVanishedUIDs : Nat := 1048576

/-- `uidsFromUIDSet`: the expansion, and whether it was cut. -/
def uidsFromUIDSet (set : UIDSet) (limit : Nat) : List Nat × Bool :=
  match nums set with
  | none => ([], true)
  | some ns => if limit < ns.length then (ns.take limit, true) else (ns, false)

/-- `dedupeUIDs`. -/
def dedupeUIDs (uids : List Nat) : List Nat := uids.eraseDups

/-- The sets a pass receives: `unilateral` by the handler during the SELECT,
`selectData` with its result, `changes` by the handler during the FETCH. -/
structure Vanished where
  unilateral : List UIDSet
  selectData : UIDSet
  changes : List UIDSet
  deriving DecidableEq

/-- All the sets of a pass. -/
def Vanished.sets (van : Vanished) : List UIDSet :=
  van.selectData :: van.unilateral ++ van.changes

/-- The UID is in the set, with fewer than `limit` numbers before it. -/
def inFirst : UIDSet → Nat → Nat → Bool
  | [], _, _ => false
  | (lo, hi) :: rest, limit, u =>
      decide (lo ≤ u) && hi.any (fun hi => decide (u ≤ hi)) && decide (u < lo + limit) ||
        inFirst rest (limit - (hi.getD 0 + 1 - lo)) u

/-- The `Vanished` callback of `unilateralHandler`, for all that arrived while the
collector was armed. -/
def collected (sets : List UIDSet) : List Nat :=
  sets.flatMap fun set => (uidsFromUIDSet set maxVanishedUIDs).1

/-- `SelectQResync`. -/
def selectQResync (srv : ServerMailbox) (uidValidity modSeq : Nat) (van : Vanished) :
    SelectResult where
  uidValidity := srv.uidValidity
  uidNext := if srv.announcesUIDNext then srv.log.next else 0
  highestModSeq := srv.log.version
  numMessages := srv.messages.length
  vanishedUIDs :=
    if uidValidity ≠ 0 ∧ modSeq ≠ 0 ∧ srv.uidValidity ≠ uidValidity then []
    else dedupeUIDs (collected van.unilateral ++ (uidsFromUIDSet van.selectData maxVanishedUIDs).1)

/-- RFC 7162, one half: the sets name every message expunged after the MODSEQ. -/
def namesExpunged (srv : ServerMailbox) (since : Nat) (sets : List UIDSet) : Bool :=
  srv.log.removed.all fun e => decide (e.2 ≤ since) || sets.any (inUIDSet · e.1)

/-- The other half: they name no message that is there, and none that is still to
come. -/
def sparesMessages (srv : ServerMailbox) (sets : List UIDSet) : Bool :=
  (srv.messages.all fun m => !sets.any (inUIDSet · m.key)) &&
    sets.all fun set => set.all fun r => r.2.any fun hi => decide (hi < srv.log.next)

/-- What the server promises about the sets of one pass. -/
def Vanished.valid (srv : ServerMailbox) (since : Nat) (van : Vanished) : Bool :=
  namesExpunged srv since (van.selectData :: van.unilateral) &&
    sparesMessages srv van.sets

/-- One FETCH response of a CHANGEDSINCE pass. -/
structure ChangedMessage where
  uid : Nat
  modSeq : Nat
  state : FlagState
  deriving DecidableEq

/-- `mailboxDelta`, without the MODSEQ nothing reads. -/
structure MailboxDelta where
  changed : List ChangedMessage
  vanished : List Nat
  uidNext : Nat
  deriving DecidableEq

/-- `collectChanges`: what `FetchChanges` reports. -/
def collectChanges (srv : ServerMailbox) (since : Nat) : List ChangedMessage :=
  (srv.log.changedSince since).map fun m => ⟨m.key, m.version, m.value⟩

/-- The delta `incrementalMailbox` assembles from the SELECT and the FETCH. -/
def mailboxDelta (srv : ServerMailbox) (sel : SelectResult) (since : Nat)
    (changes : List UIDSet) : MailboxDelta where
  changed := collectChanges srv since
  vanished := sel.vanishedUIDs ++ dedupeUIDs (collected changes)
  uidNext := sel.uidNext

/-! ## Writing a delta -/

/-- `applyVanished`. -/
def applyVanished (vanished : List Nat) (t : Table) : Table := t.markDeleted (dedupeUIDs vanished)

/-- The update `applyFlagChanges` makes for one changed message: none for a UID
that is not stored and none where the row carries the flags already. -/
def flagUpdate (t : Table) (ch : ChangedMessage) : Option Table.FlagUpdate :=
  match t.rowAt ch.uid with
  | none => none
  | some r => if carries r.state ch.state then none else some ⟨r.messageID, sanitizeFlags ch.state⟩

/-- `applyFlagChanges`. -/
def applyFlagChanges (changed : List ChangedMessage) (t : Table) : Table :=
  t.updateFlags (changed.filterMap (flagUpdate t))

/-- `newUIDCandidates`: the arrivals since the stored UIDNEXT and whatever the
change list names, but nothing that vanished. -/
def newUIDCandidates (storedUIDNext : Nat) (delta : MailboxDelta) : List Nat :=
  let arrivals :=
    if 0 < storedUIDNext ∧ 0 < delta.uidNext then
      List.range' storedUIDNext (delta.uidNext - storedUIDNext)
    else []
  let named := dedupeUIDs ((arrivals ++ delta.changed.map ChangedMessage.uid).filter (· ≠ 0))
  named.filter fun u => !delta.vanished.contains u

/-- `filterStored`: what is left to fetch.  Tombstones count as stored. -/
def filterStored (t : Table) (uids : List Nat) : List Nat := uids.filter fun u => !t.has u

/-- What a FETCH of UIDs delivers of a mailbox, as the rows will keep it. -/
def fetchStage (srv : ServerMailbox) (uids : List Nat) : List (Nat × FlagState) :=
  (srv.messages.filter fun m => uids.contains m.key).map fun m => (m.key, sanitizeFlags m.value)

/-- What the database makes of the inserts of a pass: the first key of its new rows, and
the UIDs it refuses even stripped of their content, which `insertDegraded` skips. -/
structure Inserts where
  id : Nat
  refused : List Nat

/-- `fetchAndStore` while nothing else happens.  Its batches are inserted one after
the other, and that is the insert of the whole. -/
def fetchAndStore (srv : ServerMailbox) (db : Inserts) (uids : List Nat) (t : Table) : Table :=
  t.insertMessages db.id
    ((fetchStage srv (filterStored t uids)).filter fun p => !db.refused.contains p.1)

/-! ## What VANISHED names -/

section Wire

variable {set : UIDSet} {sets : List UIDSet} {u limit since : Nat} {srv : ServerMailbox}
  {van : Vanished}

@[simp] lemma mem_dedupeUIDs {uids : List Nat} : u ∈ dedupeUIDs uids ↔ u ∈ uids :=
  mem_eraseDups

lemma mem_nums {ns : List Nat} (h : nums set = some ns) : u ∈ ns ↔ inUIDSet set u = true := by
  induction set generalizing ns with
  | nil =>
    cases h
    simp [inUIDSet]
  | cons r rest ih =>
    obtain ⟨lo, hi⟩ := r
    cases hi with
    | none => cases h
    | some hi =>
      obtain ⟨ns', hns', rfl⟩ := Option.map_eq_some_iff.1 h
      have hrange : u ∈ range' lo (hi + 1 - lo) ↔ lo ≤ u ∧ u ≤ hi := by
        rw [mem_range'_1]
        omega
      rw [mem_append, hrange, ih hns']
      simp [inUIDSet]

/-- The numbers of a set that are kept when it is cut. -/
lemma mem_take_nums {ns : List Nat} (h : nums set = some ns) :
    u ∈ ns.take limit ↔ inFirst set limit u = true := by
  induction set generalizing ns limit with
  | nil =>
    cases h
    simp [inFirst]
  | cons r rest ih =>
    obtain ⟨lo, hi⟩ := r
    cases hi with
    | none => cases h
    | some hi =>
      obtain ⟨ns', hns', rfl⟩ := Option.map_eq_some_iff.1 h
      have hrange : u ∈ (range' lo (hi + 1 - lo)).take limit ↔
          (lo ≤ u ∧ u ≤ hi) ∧ u < lo + limit := by
        rw [mem_take_iff_getElem]
        simp only [length_range', getElem_range']
        constructor
        · rintro ⟨i, hi, rfl⟩
          omega
        · intro h
          exact ⟨u - lo, by omega, by omega⟩
      rw [take_append, mem_append, hrange, length_range', ih hns']
      simp [inFirst]

/-- The expansion of a set without `*`. -/
lemma mem_uidsFromUIDSet (hs : sparesMessages srv sets = true) (hset : set ∈ sets) :
    u ∈ (uidsFromUIDSet set limit).1 ↔ inFirst set limit u = true := by
  have hno := all_eq_true.1 ((Bool.and_eq_true_iff.1 hs).2) set hset
  obtain ⟨ns, hns⟩ : ∃ ns, nums set = some ns := by
    clear hset
    induction set with
    | nil => exact ⟨[], rfl⟩
    | cons r rest ih =>
      obtain ⟨lo, hi⟩ := r
      rw [all_cons, Bool.and_eq_true] at hno
      obtain ⟨ns, hns⟩ := ih hno.2
      cases hi with
      | none => cases hno.1
      | some hi => exact ⟨_, by rw [nums, hns]; rfl⟩
  rw [← mem_take_nums hns]
  unfold uidsFromUIDSet
  simp only [hns]
  split
  · rfl
  · next hle => rw [take_of_length_le (Nat.le_of_not_lt hle)]

/-- The expansion names nothing the set does not. -/
lemma inUIDSet_of_mem (h : u ∈ (uidsFromUIDSet set limit).1) : inUIDSet set u = true := by
  unfold uidsFromUIDSet at h
  cases hn : nums set with
  | none => simp [hn] at h
  | some =>
    refine (mem_nums hn).1 ?_
    simp only [hn] at h
    split at h
    · exact mem_of_mem_take h
    · exact h

/-- An expansion that was not cut names all of the set. -/
lemma mem_of_inUIDSet (hcut : (uidsFromUIDSet set limit).2 = false)
    (h : inUIDSet set u = true) : u ∈ (uidsFromUIDSet set limit).1 := by
  unfold uidsFromUIDSet at hcut ⊢
  cases hn : nums set with
  | none => simp [hn] at hcut
  | some =>
    simp only [hn] at hcut ⊢
    split at hcut
    · cases hcut
    · next hlen =>
      rw [if_neg hlen]
      exact (mem_nums hn).2 h

lemma mem_collected :
    u ∈ collected sets ↔ ∃ set ∈ sets, u ∈ (uidsFromUIDSet set maxVanishedUIDs).1 := by
  simp [collected]

/-- What the sets name is gone from the server for good, and so is what the client
makes of them. -/
lemma gone_of_sparesMessages (hs : sparesMessages srv sets = true) (hset : set ∈ sets)
    (h : u ∈ (uidsFromUIDSet set limit).1) : srv.log.Gone u := by
  have hin := inUIDSet_of_mem h
  unfold sparesMessages at hs
  rw [Bool.and_eq_true, all_eq_true, all_eq_true] at hs
  refine ⟨?_, ?_⟩
  · obtain ⟨r, hr, hu⟩ := any_eq_true.1 hin
    have hlt := all_eq_true.1 (hs.2 set hset) r hr
    obtain ⟨lo, hi⟩ := r
    cases hi with
    | none => cases hlt
    | some =>
      simp only [Option.any_some, decide_eq_true_eq, Option.all_some, Bool.and_eq_true] at hlt hu
      omega
  · rintro m hm rfl
    have hno := hs.1 m hm
    rw [Bool.not_eq_true', any_eq_false] at hno
    exact hno set hset hin

lemma gone_of_collected (hs : sparesMessages srv sets = true)
    (h : u ∈ dedupeUIDs (collected sets)) : srv.log.Gone u := by
  rw [mem_dedupeUIDs, mem_collected] at h
  obtain ⟨set, hset, h⟩ := h
  exact gone_of_sparesMessages hs hset h

lemma gone_of_selectQResync {known modSeq : Nat}
    (hs : sparesMessages srv (van.selectData :: van.unilateral) = true)
    (h : u ∈ (selectQResync srv known modSeq van).vanishedUIDs) : srv.log.Gone u := by
  unfold selectQResync at h
  simp only at h
  split at h
  · cases h
  · rw [mem_dedupeUIDs, mem_append, mem_collected] at h
    rcases h with ⟨set, hset, h⟩ | h
    · exact gone_of_sparesMessages hs (mem_cons_of_mem _ hset) h
    · exact gone_of_sparesMessages hs mem_cons_self h

lemma sparesMessages_append {sets' : List UIDSet} : sparesMessages srv (sets ++ sets') = true ↔
      sparesMessages srv sets = true ∧ sparesMessages srv sets' = true := by
  simp only [sparesMessages, Bool.and_eq_true, all_eq_true, any_append, Bool.not_or, mem_append]
  constructor
  · rintro ⟨h, h'⟩
    exact ⟨⟨fun m hm => (h m hm).1, fun set hs => h' set (.inl hs)⟩,
      ⟨fun m hm => (h m hm).2, fun set hs => h' set (.inr hs)⟩⟩
  · rintro ⟨⟨h₁, h₁'⟩, ⟨h₂, h₂'⟩⟩
    exact ⟨fun m hm => ⟨h₁ m hm, h₂ m hm⟩, fun set hs => hs.elim (h₁' set) (h₂' set)⟩

lemma Vanished.valid_spares (hv : van.valid srv since = true) :
    sparesMessages srv (van.selectData :: van.unilateral) = true ∧
      sparesMessages srv van.changes = true :=
  sparesMessages_append.1 (Bool.and_eq_true_iff.1 hv).2

/-- Nothing a pass takes for vanished is on the server. -/
lemma not_mem_of_vanished (hv : van.valid srv since = true) {known modSeq : Nat}
    (h : u ∈ (selectQResync srv known modSeq van).vanishedUIDs ∨
      u ∈ dedupeUIDs (collected van.changes)) : ∀ m ∈ srv.messages, m.key ≠ u := by
  obtain ⟨hsel, hch⟩ := Vanished.valid_spares hv
  rcases h with h | h
  · exact (gone_of_selectQResync hsel h).2
  · exact (gone_of_collected hch h).2

end Wire

/-! ## What a delta makes of the row at a UID -/

section Apply

variable {t : Table} {r : Row} {u id : Nat} {vanished uids : List Nat}
  {changed : List ChangedMessage} {srv : ServerMailbox}

@[simp] lemma has_applyVanished : (applyVanished vanished t).has u = t.has u :=
  has_markDeleted

lemma live_applyVanished :
    (applyVanished vanished t).live u = (t.live u && decide (u ∉ vanished)) := by
  unfold applyVanished
  rw [live_markDeleted]
  simp

lemma rowAt_applyVanished (h : t.rowAt u = some r) : (applyVanished vanished t).rowAt u =
      some (if u ∈ vanished then { r with deleted := true } else r) := by
  unfold applyVanished
  rw [rowAt_markDeleted, h]
  have hu : r.uid = u := uid_of_rowAt h
  by_cases hm : u ∈ vanished <;> simp [tombstone, hu, hm]

/-- A row after the tombstones: it kept its UID and flags, and it is a new tombstone
only when its UID was named. -/
lemma mem_applyVanished (h : r ∈ (applyVanished vanished t).rows) :
    ∃ r₀ ∈ t.rows, r₀.uid = r.uid ∧ r₀.state = r.state ∧
      (r.deleted = r₀.deleted ∨ r.deleted = true ∧ r.uid ∈ vanished) := by
  obtain ⟨r₀, hr₀, rfl⟩ := mem_map.1 h
  refine ⟨r₀, hr₀, ?_⟩
  unfold tombstone
  split
  · next hu => exact ⟨rfl, rfl, .inr ⟨rfl, mem_dedupeUIDs.1 hu⟩⟩
  · exact ⟨rfl, rfl, .inl rfl⟩

@[simp] lemma has_applyFlagChanges : (applyFlagChanges changed t).has u = t.has u :=
  has_updateFlags

@[simp] lemma live_applyFlagChanges : (applyFlagChanges changed t).live u = t.live u :=
  live_updateFlags

/-- An update that names the key of the row at `u` comes from a change of `u`. -/
lemma flagUpdate_of_messageID {w : Table.FlagUpdate} (hr : t.rowAt u = some r)
    (hw : w ∈ changed.filterMap (flagUpdate t)) (hid : w.messageID = r.messageID) :
    ∃ ch ∈ changed, ch.uid = u ∧ w.state = sanitizeFlags ch.state := by
  obtain ⟨ch, hch, hf⟩ := mem_filterMap.1 hw
  unfold flagUpdate at hf
  cases hr' : t.rowAt ch.uid with
  | none => simp [hr'] at hf
  | some r' =>
    simp only [hr'] at hf
    split at hf
    · cases hf
    · cases hf
      have hrr : r' = r :=
        eq_of_messageID (rowAt_eq_some.1 hr').1 (rowAt_eq_some.1 hr).1 hid
      refine ⟨ch, hch, ?_, rfl⟩
      rw [← uid_of_rowAt hr', hrr, uid_of_rowAt hr]

/-- A row after the flag changes was there before. -/
lemma rowAt_of_mem_applyFlagChanges (h : r ∈ (applyFlagChanges changed t).rows) :
    ∃ r₀, t.rowAt r.uid = some r₀ := by
  have hhas := has_eq_true.2 ⟨r, rowAt_of_mem h⟩
  rw [has_applyFlagChanges] at hhas
  exact has_eq_true.1 hhas

/-- After the flag changes a row carries what was reported for its UID, and is as
it was when nothing was reported. -/
lemma rowAt_applyFlagChanges (hnd : (changed.map ChangedMessage.uid).Nodup)
    (hr : t.rowAt u = some r) :
    ∃ r', (applyFlagChanges changed t).rowAt u = some r' ∧ r'.deleted = r.deleted ∧
      r'.messageID = r.messageID ∧
      (∀ ch ∈ changed, ch.uid = u → carries r'.state ch.state = true) ∧
      ((∀ ch ∈ changed, ch.uid ≠ u) → r'.state = r.state) := by
  set ws := changed.filterMap (flagUpdate t) with hws
  refine ⟨ws.foldl (fun r w => setFlags w r) r, ?_, (foldl_setFlags_keeps ws r).1,
    (foldl_setFlags_keeps ws r).2, ?_, ?_⟩
  · unfold applyFlagChanges
    rw [rowAt_updateFlags, hr]
    rfl
  · intro ch hch hu
    have hone : ∀ w ∈ ws, w.messageID = r.messageID → w.state = sanitizeFlags ch.state := by
      intro w hw hid
      obtain ⟨ch', hch', hu', hst⟩ := flagUpdate_of_messageID hr hw hid
      rw [hst, inj_on_of_nodup_map hnd hch' hch (hu'.trans hu.symm)]
    rcases foldl_setFlags_state hone with ⟨hst, hnone⟩ | hst
    · rw [hst]
      by_contra hc
      have hup : flagUpdate t ch = some ⟨r.messageID, sanitizeFlags ch.state⟩ := by
        simp [flagUpdate, hu, hr, hc]
      exact hnone _ (mem_filterMap.2 ⟨ch, hch, hup⟩) rfl
    · rw [hst]
      exact carries_sanitizeFlags _
  · intro hno
    have hone : ∀ w ∈ ws, w.messageID = r.messageID → w.state = r.state := by
      intro w hw hid
      obtain ⟨ch, hch, hu, -⟩ := flagUpdate_of_messageID hr hw hid
      exact absurd hu (hno ch hch)
    rcases foldl_setFlags_state hone with ⟨hst, -⟩ | hst <;> exact hst

/-- No report differs from what the rows show: nothing is written. -/
lemma applyFlagChanges_eq_self
    (h : ∀ ch ∈ changed, ∀ r, t.rowAt ch.uid = some r → carries r.state ch.state = true) :
    applyFlagChanges changed t = t := by
  have hnil : changed.filterMap (flagUpdate t) = [] := by
    rw [filterMap_eq_nil_iff]
    intro ch hch
    unfold flagUpdate
    cases hr : t.rowAt ch.uid with
    | none => rfl
    | some r => simp [h ch hch r hr]
  rw [applyFlagChanges, hnil]
  rfl

lemma mem_newUIDCandidates {n : Nat} {delta : MailboxDelta} :
    u ∈ newUIDCandidates n delta ↔ u ≠ 0 ∧ u ∉ delta.vanished ∧
      (0 < n ∧ 0 < delta.uidNext ∧ n ≤ u ∧ u < delta.uidNext ∨
        ∃ ch ∈ delta.changed, ch.uid = u) := by
  have harr : u ∈ (if 0 < n ∧ 0 < delta.uidNext then range' n (delta.uidNext - n) else []) ↔
      0 < n ∧ 0 < delta.uidNext ∧ n ≤ u ∧ u < delta.uidNext := by
    split
    · next h =>
      rw [mem_range'_1]
      omega
    · next h =>
      simp only [not_mem_nil, false_iff]
      omega
  unfold newUIDCandidates
  simp only [mem_filter, mem_dedupeUIDs, mem_append, harr, mem_map]
  simp
  tauto

lemma mem_filterStored : u ∈ filterStored t uids ↔ u ∈ uids ∧ t.has u = false := by
  simp [filterStored]

lemma stored_or_filterStored (h : t.has u = true ∨ u ∈ uids) :
    t.has u = true ∨ u ∈ filterStored t uids := by
  cases hu : t.has u with
  | true => exact .inl rfl
  | false => exact .inr (mem_filterStored.2 ⟨h.resolve_left (by simp [hu]), hu⟩)

/-- What is wanted is fetched, or wanted still. -/
lemma wanted_or_fetched {fetched : List (Nat × FlagState)} {k : Nat} {flags : FlagState}
    (h : u ∈ uids ∨ u ∈ fetched.map Prod.fst) :
    u ∈ uids.filter (· ≠ k) ∨ u ∈ (fetched ++ [(k, flags)]).map Prod.fst := by
  simp only [mem_filter, map_append, mem_append, decide_eq_true_eq]
  by_cases he : u = k
  · exact .inr (.inr (by simp [he]))
  · exact h.imp (fun h => ⟨h, he⟩) .inl

/-- A FETCH delivers the messages that are there. -/
lemma mem_fetchStage {p : Nat × FlagState} : p ∈ fetchStage srv uids ↔
      ∃ m ∈ srv.messages, m.key ∈ uids ∧ p = (m.key, sanitizeFlags m.value) := by
  simp only [fetchStage, mem_map, mem_filter, contains_iff_mem]
  constructor
  · rintro ⟨m, ⟨hm, hu⟩, rfl⟩
    exact ⟨m, hm, hu, rfl⟩
  · rintro ⟨m, hm, hu, rfl⟩
    exact ⟨m, ⟨hm, hu⟩, rfl⟩

/-- What the database takes of it. -/
lemma mem_fst_fetchStage {refused : List Nat} :
    u ∈ ((fetchStage srv uids).filter fun p => !refused.contains p.1).map Prod.fst ↔
      u ∈ uids ∧ u ∉ refused ∧ ∃ m ∈ srv.messages, m.key = u := by
  simp only [mem_map, mem_filter, mem_fetchStage, Bool.not_eq_true', contains_eq_mem,
    decide_eq_false_iff_not]
  constructor
  · rintro ⟨p, ⟨⟨m, hm, hu, rfl⟩, hr⟩, rfl⟩
    exact ⟨hu, hr, m, hm, rfl⟩
  · rintro ⟨hu, hr, m, hm, rfl⟩
    exact ⟨_, ⟨⟨m, hm, hu, rfl⟩, hr⟩, rfl⟩

end Apply

end Moov.Sync
