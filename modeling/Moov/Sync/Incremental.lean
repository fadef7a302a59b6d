import Moov.Sync.Delta

/-!
# One incremental pass

`incrementalMailbox` (`sync/incremental.go`) while the server stands still: the
delta since the stored cursor is read, written in its fixed order, and the cursor
advances.  The main result, `incremental_exact_iff`, starts from a sound cursor
and says exactly when the pass makes the rows a mirror of the server: when

* every live row whose message is gone is named by a VANISHED set *among the numbers
  the client keeps of it*,
* no tombstone stands at the UID of a message that is there,
* every message without a row is announced, by UIDNEXT or by its MODSEQ, and
* none of them is refused by the database even without its content.

Then the pass has also settled the mailbox: a further pass, from this cursor or
from an older one, changes nothing.  `vanished_beyond_cap` is a mailbox where the
first condition fails: one message more than the cap was expunged.
-/

namespace Moov.Sync

open Moov.Store Moov.Versioned Moov.Versioned.Source Table List

/-! ## The pass -/

/-- The three columns a mailbox row keeps of its last SELECT. -/
structure Cursor where
  uidValidity : Nat
  uidNext : Nat
  highestModSeq : Nat
  deriving DecidableEq

/-- `modSeqToDB`: clamped at the largest `bigint`. -/
def modSeqToDB (m : Nat) : Nat := min m 9223372036854775807

/-- What `SetMailboxSyncState` writes after a SELECT. -/
def setMailboxSyncState (sel : SelectResult) : Cursor :=
  ⟨sel.uidValidity, sel.uidNext, modSeqToDB sel.highestModSeq⟩

/-- `mailboxCursor`: the columns of a row, zero when they are NULL. -/
def mailboxCursor : Option Cursor → Nat × Nat
  | none => (0, 0)
  | some c => (c.uidValidity, c.highestModSeq)

/-- The UIDNEXT column, zero when it is NULL. -/
def storedUIDNext : Option Cursor → Nat
  | none => 0
  | some c => c.uidNext

/-- What the store has of a mailbox: the message rows and the cursor. -/
structure Local where
  table : Table
  cursor : Option Cursor
  deriving DecidableEq

/-- `applyDelta`: tombstones first, then flags, new messages last. -/
def applyDelta (srv : ServerMailbox) (db : Inserts) (uidNext : Nat) (delta : MailboxDelta)
    (t : Table) : Table :=
  fetchAndStore srv db (newUIDCandidates uidNext delta)
    (applyFlagChanges delta.changed (applyVanished delta.vanished t))

/-- How a pass ends: the mailbox was never selected, its UIDVALIDITY changed and
`resyncMailbox` takes over, or the delta is applied. -/
inductive PassOutcome
  | needsInitialSync
  | resync
  | applied (l : Local)
  deriving DecidableEq

/-- The delta a pass from the cursor `row` collects. -/
def deltaSince (srv : ServerMailbox) (row : Option Cursor) (van : Vanished) : MailboxDelta :=
  mailboxDelta srv (selectQResync srv (mailboxCursor row).1 (mailboxCursor row).2 van)
    (mailboxCursor row).2 van.changes

/-- `incrementalMailbox` from the mailbox row `row`, which may be older than what
the store has by now. -/
def incrementalMailbox (srv : ServerMailbox) (row : Option Cursor) (van : Vanished)
    (db : Inserts) (l : Local) : PassOutcome :=
  let known := (mailboxCursor row).1
  let since := (mailboxCursor row).2
  if known = 0 ∨ since = 0 then .needsInitialSync
  else
    let sel := selectQResync srv known since van
    if sel.uidValidity ≠ known then .resync
    else .applied ⟨applyDelta srv db (storedUIDNext row) (deltaSince srv row van) l.table,
        some (setMailboxSyncState sel)⟩

/-! ## What a sound cursor and a mirror are -/

/-- A row shows what the server has. -/
def Shows (st srv : FlagState) : Prop := carries st srv = true

instance : DecidableRel Shows := fun st srv => inferInstanceAs (Decidable (carries st srv = true))

/-- The cursor is sound: every message below its UIDNEXT has a row, and every live
row shows the server's flags unless they changed after its HIGHESTMODSEQ. -/
structure CursorSound (srv : ServerMailbox) (t : Table) (c : Cursor) : Prop where
  stored : Covers srv.log 0 c.uidNext fun u => t.has u = true
  flags : ∀ r ∈ t.rows, r.deleted = false → UpToDate Shows srv.log c.highestModSeq r.uid r.state

/-- The live rows are the server's messages, with the server's flags. -/
structure Mirrors (srv : ServerMailbox) (t : Table) : Prop where
  live : ∀ u, t.live u = true ↔ ∃ m ∈ srv.messages, m.key = u
  flags : ∀ m ∈ srv.messages, ∀ r, t.rowAt m.key = some r → Shows r.state m.value

/-- Nothing of what happened since the cursor is lost on the way to the rows. -/
structure Reported (srv : ServerMailbox) (t : Table) (c : Cursor) (van : Vanished)
    (db : Inserts) : Prop where
  vanished : ∀ r ∈ t.rows, r.deleted = false → (∀ m ∈ srv.messages, m.key ≠ r.uid) →
    ∃ set ∈ van.sets, inFirst set maxVanishedUIDs r.uid = true
  tombstones : ∀ m ∈ srv.messages, ∀ r ∈ t.rows, r.uid = m.key → r.deleted = false
  announced : ∀ m ∈ srv.messages, t.has m.key = false →
    0 < c.uidNext ∧ srv.announcesUIDNext = true ∨ c.highestModSeq < m.version
  accepted : ∀ m ∈ srv.messages, t.has m.key = false → m.key ∉ db.refused

/-- What a pass should have done: the rows mirror the server, what vanished is not
live whatever else was reported about it, no tombstone was revived, and a pass
from any cursor of this mailbox changes nothing further. -/
structure Exact (srv : ServerMailbox) (van : Vanished) (l l' : Local) : Prop where
  mirrors : Mirrors srv l'.table
  vanished : ∀ set ∈ van.sets, ∀ u, inUIDSet set u = true → l'.table.live u = false
  tombstones : ∀ u, l.table.has u = true → l.table.live u = false → l'.table.live u = false
  settled : ∀ c' van' db', c'.uidValidity = srv.uidValidity → 0 < c'.highestModSeq →
    van'.valid srv c'.highestModSeq = true →
    incrementalMailbox srv (some c') van' db' l' = .applied l'

/-! ## What the pass does -/

section Pass

variable {srv : ServerMailbox} {l : Local} {t : Table} {c : Cursor} {van : Vanished}
  {db : Inserts} {u n : Nat} {delta : MailboxDelta}

/-- A pass with a cursor of this mailbox applies its delta. -/
lemma incrementalMailbox_eq (hval : c.uidValidity = srv.uidValidity)
    (hmod : 0 < c.highestModSeq) :
    incrementalMailbox srv (some c) van db l =
      .applied ⟨applyDelta srv db c.uidNext (deltaSince srv (some c) van) l.table,
        some (setMailboxSyncState (selectQResync srv c.uidValidity c.highestModSeq van))⟩ := by
  have hpos : c.uidValidity ≠ 0 := by
    have := srv.uidValidity_pos
    omega
  have hmod' : c.highestModSeq ≠ 0 := by omega
  have hsel := not_not.2 hval.symm
  unfold incrementalMailbox
  simp only [mailboxCursor, storedUIDNext, hpos, hmod', or_self, if_false]
  exact if_neg hsel

lemma has_applyDelta_before :
    (applyFlagChanges delta.changed (applyVanished delta.vanished t)).has u = t.has u := by simp

section
variable (hid : t.freshFrom db.id = true)
include hid

lemma freshFrom_applyDelta_before :
    (applyFlagChanges delta.changed (applyVanished delta.vanished t)).freshFrom db.id = true :=
  freshFrom_updateFlags (freshFrom_markDeleted hid)

/-- The UIDs that are live after a delta. -/
lemma live_applyDelta :
    (applyDelta srv db n delta t).live u = true ↔ t.live u = true ∧ u ∉ delta.vanished ∨
      t.has u = false ∧ u ∈ newUIDCandidates n delta ∧ u ∉ db.refused ∧
        ∃ m ∈ srv.messages, m.key = u := by
  unfold applyDelta fetchAndStore
  rw [live_insertMessages (freshFrom_applyDelta_before hid), has_applyDelta_before,
    live_applyFlagChanges, live_applyVanished]
  simp only [Bool.or_eq_true, Bool.and_eq_true, Bool.not_eq_true', decide_eq_true_eq,
    mem_fst_fetchStage, mem_filterStored, has_applyDelta_before]
  tauto

/-- The row at a UID after a delta: the row that was there, with the reported
flags, or a copy of the message. -/
lemma rowAt_applyDelta {r' : Row} (hnd : (delta.changed.map ChangedMessage.uid).Nodup)
    (hr' : (applyDelta srv db n delta t).rowAt u = some r') :
    (∃ r, t.rowAt u = some r ∧ (∀ ch ∈ delta.changed, ch.uid = u → Shows r'.state ch.state) ∧
      ((∀ ch ∈ delta.changed, ch.uid ≠ u) → r'.state = r.state)) ∨
    ∃ m ∈ srv.messages, m.key = u ∧ r'.state = sanitizeFlags m.value := by
  have hfresh := @freshFrom_applyDelta_before t db delta hid
  unfold applyDelta fetchAndStore at hr'
  cases hr : t.rowAt u with
  | some r =>
    have htomb : (applyVanished delta.vanished t).rowAt u = some _ := rowAt_applyVanished hr
    obtain ⟨r₂, hr₂, -, -, hch, hno⟩ := rowAt_applyFlagChanges hnd htomb
    rw [rowAt_insertMessages_of_some hfresh hr₂] at hr'
    cases hr'
    refine .inl ⟨r, rfl, hch, fun h => (hno h).trans ?_⟩
    split <;> rfl
  | none =>
    have hnone : (applyFlagChanges delta.changed (applyVanished delta.vanished t)).rowAt u =
      none := by
      rw [← has_eq_false, has_applyDelta_before, has_eq_false, hr]
    obtain ⟨hm, -, -⟩ := rowAt_insertMessages_new hfresh hnone hr'
    obtain ⟨m, hm, -, he⟩ := mem_fetchStage.1 (mem_of_mem_filter hm)
    exact .inr ⟨m, hm, (congrArg Prod.fst he).symm, congrArg Prod.snd he⟩

end

lemma changed_nodup (row : Option Cursor) :
    ((deltaSince srv row van).changed.map ChangedMessage.uid).Nodup := by
  show ((collectChanges srv (mailboxCursor row).2).map ChangedMessage.uid).Nodup
  unfold collectChanges
  rw [map_map]
  exact (List.Sublist.map _ filter_sublist).nodup (key_nodup (s := srv.log))

/-- The change list names what changed after the cursor, with the server's flags. -/
lemma mem_changed {ch : ChangedMessage} : ch ∈ (deltaSince srv (some c) van).changed ↔
      ∃ m ∈ srv.messages, c.highestModSeq < m.version ∧ ch = ⟨m.key, m.version, m.value⟩ := by
  show ch ∈ collectChanges srv c.highestModSeq ↔ _
  simp only [collectChanges, mem_map, mem_changedSince, ServerMailbox.messages]
  constructor
  · rintro ⟨m, ⟨hm, hv⟩, rfl⟩
    exact ⟨m, hm, hv, rfl⟩
  · rintro ⟨m, hm, hv, rfl⟩
    exact ⟨m, ⟨hm, hv⟩, rfl⟩

/-- What the pass takes for vanished, in terms of the sets. -/
lemma mem_vanished (hval : c.uidValidity = srv.uidValidity)
    (hv : van.valid srv c.highestModSeq = true) :
    u ∈ (deltaSince srv (some c) van).vanished ↔
      ∃ set ∈ van.sets, inFirst set maxVanishedUIDs u = true := by
  have hexp : ∀ set ∈ van.sets, u ∈ (uidsFromUIDSet set maxVanishedUIDs).1 ↔
      inFirst set maxVanishedUIDs u = true :=
    fun set hset => mem_uidsFromUIDSet (Bool.and_eq_true_iff.1 hv).2 hset
  have hall : u ∈ (deltaSince srv (some c) van).vanished ↔
      ∃ set ∈ van.sets, u ∈ (uidsFromUIDSet set maxVanishedUIDs).1 := by
    simp only [deltaSince, mailboxDelta, selectQResync, mailboxCursor, hval, ne_eq,
      not_true_eq_false, and_false, if_false, mem_append, mem_dedupeUIDs, mem_collected,
      Vanished.sets, mem_cons, or_and_right, exists_or, exists_eq_left]
    exact or_congr_left or_comm
  rw [hall]
  exact exists_congr fun set => and_congr_right (hexp set)

/-- A message without a row is a candidate exactly when it is announced. -/
lemma mem_candidates (hs : CursorSound srv t c) (hv : van.valid srv c.highestModSeq = true)
    {m : ServerMessage} (hm : m ∈ srv.messages) (hno : t.has m.key = false) :
    m.key ∈ newUIDCandidates c.uidNext (deltaSince srv (some c) van) ↔
      0 < c.uidNext ∧ srv.announcesUIDNext = true ∨ c.highestModSeq < m.version := by
  have hpos : 0 < m.key := srv.log.key_pos m hm
  have hlt : m.key < srv.log.next := srv.log.key_lt m hm
  have hge : c.uidNext ≤ m.key := by
    by_contra hlt'
    have hhas : t.has m.key = true := hs.stored m hm (Nat.zero_le _) (by omega)
    rw [hno] at hhas
    cases hhas
  have hgone : m.key ∉ (deltaSince srv (some c) van).vanished := by
    intro h
    exact not_mem_of_vanished hv (mem_append.1 h) m hm rfl
  have hnext : (deltaSince srv (some c) van).uidNext =
      if srv.announcesUIDNext then srv.log.next else 0 := rfl
  rw [mem_newUIDCandidates, hnext]
  constructor
  · rintro ⟨-, -, ⟨h0, h1, -, -⟩ | ⟨ch, hch, hu⟩⟩
    · refine .inl ⟨h0, ?_⟩
      cases ha : srv.announcesUIDNext with
      | true => rfl
      | false => simp [ha] at h1
    · obtain ⟨m', hm', hv', rfl⟩ := mem_changed.1 hch
      rw [← eq_of_key hm' hm hu]
      exact .inr hv'
  · intro h
    refine ⟨by omega, hgone, ?_⟩
    rcases h with ⟨h0, ha⟩ | h
    · left
      rw [ha]
      simp only [if_true]
      omega
    · exact .inr ⟨_, mem_changed.2 ⟨m, hm, h, rfl⟩, rfl⟩

/-! ## A settled mailbox -/

/-- Tombstoning what is not live changes nothing. -/
lemma applyVanished_eq_self {vanished : List Nat} (h : ∀ u ∈ vanished, t.live u = false) :
    applyVanished vanished t = t := by
  refine ext_rows ?_
  show t.rows.map (tombstone (dedupeUIDs vanished)) = t.rows
  refine (map_congr_left ?_).trans (map_id _)
  intro r hr
  unfold tombstone
  split
  · next hu =>
    have hl := h r.uid (mem_dedupeUIDs.1 hu)
    have hd : r.deleted = true := by
      simpa [live, rowAt_of_mem hr] using hl
    rw [← hd]
    rfl
  · rfl

/-- Fetching finds nothing to store when every message is stored. -/
lemma fetchAndStore_eq_self {uids : List Nat} (h : ∀ m ∈ srv.messages, t.has m.key = true) :
    fetchAndStore srv db uids t = t := by
  have hnil : fetchStage srv (filterStored t uids) = [] := by
    rw [eq_nil_iff_forall_not_mem]
    intro p hp
    obtain ⟨m, hm, hu, -⟩ := mem_fetchStage.1 hp
    rw [mem_filterStored, h m hm] at hu
    exact absurd hu.2 (by decide)
  rw [fetchAndStore, hnil]
  rfl

/-- Over a mirror a delta changes nothing, whatever cursor it starts from. -/
lemma applyDelta_eq_self (hm : Mirrors srv t) (hv : van.valid srv c.highestModSeq = true) :
    applyDelta srv db n (deltaSince srv (some c) van) t = t := by
  have hvan : applyVanished (deltaSince srv (some c) van).vanished t = t := by
    refine applyVanished_eq_self fun u hu => ?_
    cases hl : t.live u with
    | false => rfl
    | true =>
      obtain ⟨m, hmem, hk⟩ := (hm.live u).1 hl
      exact absurd hk (not_mem_of_vanished hv (mem_append.1 hu) m hmem)
  have hfl : applyFlagChanges (deltaSince srv (some c) van).changed t = t := by
    refine applyFlagChanges_eq_self fun ch hch r hr => ?_
    obtain ⟨m, hmem, -, rfl⟩ := mem_changed.1 hch
    exact hm.flags m hmem r hr
  unfold applyDelta
  rw [hvan, hfl]
  exact fetchAndStore_eq_self fun m hmem => has_of_live ((hm.live _).2 ⟨m, hmem, rfl⟩)

/-! ## When the pass is exact -/

/-- The rows mirror the server after the delta exactly when all of it was reported. -/
lemma mirrors_applyDelta_iff (hval : c.uidValidity = srv.uidValidity) (hs : CursorSound srv t c)
    (hv : van.valid srv c.highestModSeq = true) (hid : t.freshFrom db.id = true) :
    Mirrors srv (applyDelta srv db c.uidNext (deltaSince srv (some c) van) t) ↔
      Reported srv t c van db := by
  constructor
  · intro hm
    refine ⟨?_, ?_, ?_, ?_⟩
    · -- a live row without a message is live after the delta unless it is named
      intro r hr hd hgone
      rw [← mem_vanished hval hv]
      by_contra hno
      have hlive : t.live r.uid = true := live_eq_true.2 ⟨r, rowAt_of_mem hr, hd⟩
      obtain ⟨m, hmem, hk⟩ := (hm.live _).1 ((live_applyDelta hid).2 (.inl ⟨hlive, hno⟩))
      exact hgone m hmem hk
    · intro m hmem r hr hu
      have hat : t.rowAt m.key = some r := rowAt_eq_some.2 ⟨hr, hu⟩
      rcases (live_applyDelta hid).1 ((hm.live _).2 ⟨m, hmem, rfl⟩) with ⟨hl, -⟩ | ⟨hh, -, -⟩
      · simpa [live, hat] using hl
      · simp [has, hat] at hh
    · intro m hmem hno
      rcases (live_applyDelta hid).1 ((hm.live _).2 ⟨m, hmem, rfl⟩) with ⟨hl, -⟩ | ⟨-, hc, -⟩
      · rw [has_of_live hl] at hno
        cases hno
      · exact (mem_candidates hs hv hmem hno).1 hc
    · intro m hmem hno
      rcases (live_applyDelta hid).1 ((hm.live _).2 ⟨m, hmem, rfl⟩) with ⟨hl, -⟩ | ⟨-, -, hr, -⟩
      · rw [has_of_live hl] at hno
        cases hno
      · exact hr
  · intro hrep
    refine ⟨fun u => ⟨fun hl => ?_, ?_⟩, ?_⟩
    · rcases (live_applyDelta hid).1 hl with ⟨hl, hno⟩ | ⟨-, -, -, h⟩
      · obtain ⟨r, hr, hd⟩ := live_eq_true.1 hl
        by_contra hgone
        have hu : r.uid = u := uid_of_rowAt hr
        refine hno (hu ▸ (mem_vanished hval hv).2 (hrep.vanished r (rowAt_eq_some.1 hr).1 hd ?_))
        intro m hmem hk
        exact hgone ⟨m, hmem, hk.trans hu⟩
      · exact h
    · rintro ⟨m, hmem, rfl⟩
      refine (live_applyDelta hid).2 ?_
      cases hh : t.has m.key with
      | false =>
        exact .inr ⟨rfl, (mem_candidates hs hv hmem hh).2 (hrep.announced m hmem hh),
          hrep.accepted m hmem hh, m, hmem, rfl⟩
      | true =>
        obtain ⟨r, hr⟩ := has_eq_true.1 hh
        have hd := hrep.tombstones m hmem r (rowAt_eq_some.1 hr).1 (uid_of_rowAt hr)
        refine .inl ⟨live_eq_true.2 ⟨r, hr, hd⟩, fun hvan => ?_⟩
        exact not_mem_of_vanished hv (mem_append.1 hvan) m hmem rfl
    · intro m hmem r' hr'
      rcases rowAt_applyDelta hid (changed_nodup (some c)) hr' with
        ⟨r, hr, hch, hno⟩ | ⟨m', hm', hk, hst⟩
      · by_cases hver : c.highestModSeq < m.version
        · exact hch _ (mem_changed.2 ⟨m, hmem, hver, rfl⟩) rfl
        · have hd := hrep.tombstones m hmem r (rowAt_eq_some.1 hr).1 (uid_of_rowAt hr)
          have hu := uid_of_rowAt hr
          rw [hno ?_]
          · exact hs.flags r (rowAt_eq_some.1 hr).1 hd m hmem hu.symm (by omega)
          · rintro ch hch' hk
            obtain ⟨m', hm', hver', rfl⟩ := mem_changed.1 hch'
            rw [eq_of_key hm' hmem hk] at hver'
            exact hver hver'
      · rw [hst, eq_of_key hm' hmem hk]
        exact carries_sanitizeFlags _

end Pass

/-- **One pass from a sound cursor.**  It completes, and it does all it should
exactly when everything that happened since the cursor is reported to it. -/
theorem incremental_exact_iff (srv : ServerMailbox) (l : Local) (c : Cursor) (van : Vanished)
    (db : Inserts) (hcur : l.cursor = some c) (hval : c.uidValidity = srv.uidValidity)
    (hmod : 0 < c.highestModSeq) (hsound : CursorSound srv l.table c)
    (hvan : van.valid srv c.highestModSeq = true) (hid : l.table.freshFrom db.id = true) :
    ∃ l', incrementalMailbox srv l.cursor van db l = .applied l' ∧
      (Exact srv van l l' ↔ Reported srv l.table c van db) := by
  refine ⟨_, by rw [hcur]; exact incrementalMailbox_eq hval hmod, ?_⟩
  rw [← mirrors_applyDelta_iff hval hsound hvan hid]
  constructor
  · exact fun h => h.mirrors
  · intro hm
    refine ⟨hm, ?_, ?_, ?_⟩
    · intro set hset u hin
      refine Bool.eq_false_iff.2 fun hl => ?_
      obtain ⟨m, hmem, rfl⟩ := (hm.live u).1 hl
      have hno := all_eq_true.1 (Bool.and_eq_true_iff.1 (Bool.and_eq_true_iff.1 hvan).2).1 m hmem
      rw [any_eq_true.2 ⟨set, hset, hin⟩] at hno
      cases hno
    · intro u hh hd
      by_contra hl
      rcases (live_applyDelta hid).1 (by simpa using hl) with ⟨hl, -⟩ | ⟨hno, -, -⟩
      · rw [hd] at hl
        cases hl
      · rw [hh] at hno
        cases hno
    · intro c' van' db' hval' hmod' hvan'
      rw [incrementalMailbox_eq hval' hmod', applyDelta_eq_self hm hvan']
      rfl

/-- Three messages were stored; then the second was flagged, the third expunged and
a fourth delivered. -/
def sampleServer : ServerMailbox where
  uidValidity := 7
  announcesUIDNext := true
  log := ((((((empty.add 0 none ⟨0, []⟩).add 0 none ⟨0, []⟩).add 0 none ⟨0, []⟩).change 2
    ⟨1, []⟩).remove 3).add 0 none ⟨0, []⟩)
  uidValidity_pos := by decide

def sampleCursor : Cursor := ⟨7, 4, 4⟩

def sampleLocal : Local where
  table := Table.empty.insertMessages 1 [(1, ⟨0, []⟩), (2, ⟨0, []⟩), (3, ⟨0, []⟩)]
  cursor := some sampleCursor

def sampleVanished : Vanished := ⟨[[(3, some 3)]], [(3, some 3)], []⟩

theorem incremental_exact_iff_threeChanges :
    ∃ l', incrementalMailbox sampleServer sampleLocal.cursor sampleVanished ⟨4, [2]⟩ sampleLocal =
        .applied l' ∧
      Exact sampleServer sampleVanished sampleLocal l' := by
  obtain ⟨l', hl', hiff⟩ := incremental_exact_iff sampleServer sampleLocal sampleCursor
    sampleVanished ⟨4, [2]⟩ rfl rfl (by decide) ⟨by decide, by decide⟩ (by decide) (by decide)
  exact ⟨l', hl', hiff.2 ⟨by decide, by decide, by decide, by decide⟩⟩

/-! ## A pass that is repeated -/

/-- What a delta has stored, tombstoned and flagged, the same delta finds done. -/
lemma applyDelta_again {srv : ServerMailbox} {t : Table} {db db' : Inserts} {n : Nat}
    {delta : MailboxDelta}
    (hid : t.freshFrom db.id = true) (hnd : (delta.changed.map ChangedMessage.uid).Nodup)
    (hch : ∀ ch ∈ delta.changed, ∃ m ∈ srv.messages, m.key = ch.uid ∧ m.value = ch.state)
    (hdb : db.refused ⊆ db'.refused) :
    applyDelta srv db' n delta (applyDelta srv db n delta t) = applyDelta srv db n delta t := by
  set t' := applyDelta srv db n delta t with ht'
  have hvan : applyVanished delta.vanished t' = t' := by
    refine applyVanished_eq_self fun u hu => Bool.eq_false_iff.2 fun hl => ?_
    rcases (live_applyDelta hid).1 hl with ⟨-, hno⟩ | ⟨-, hc, -⟩
    · exact hno hu
    · exact (mem_newUIDCandidates.1 hc).2.1 hu
  have hfl : applyFlagChanges delta.changed t' = t' := by
    refine applyFlagChanges_eq_self fun ch hc r hr => ?_
    rcases rowAt_applyDelta hid hnd hr with ⟨-, -, hshows, -⟩ | ⟨m, hm, hk, hst⟩
    · exact hshows ch hc rfl
    · obtain ⟨m', hm', hk', hv⟩ := hch ch hc
      rw [hst, ← hv, eq_of_key hm hm' (hk.trans hk'.symm)]
      exact carries_sanitizeFlags _
  have hnil : ((fetchStage srv (filterStored t' (newUIDCandidates n delta))).filter
      fun p => !db'.refused.contains p.1) = [] := by
    refine (map_eq_nil_iff (f := Prod.fst)).1 (eq_nil_iff_forall_not_mem.2 fun u hu => ?_)
    obtain ⟨hu, hr, hm⟩ := mem_fst_fetchStage.1 hu
    obtain ⟨hc, hno⟩ := mem_filterStored.1 hu
    rw [ht', applyDelta, fetchAndStore, has_insertMessages (freshFrom_applyDelta_before hid),
      Bool.or_eq_false_iff, decide_eq_false_iff_not, mem_fst_fetchStage, mem_filterStored] at hno
    exact hno.2 ⟨⟨hc, hno.1⟩, fun h => hr (hdb h), hm⟩
  rw [applyDelta, hvan, hfl, fetchAndStore, hnil]
  rfl

/-- **A pass may be repeated.**  Whatever the server reported, and from whatever cursor, a pass
that is made again over its own result (the process had died before the cursor was written)
changes no row, if the database still refuses what it refused. -/
theorem incremental_again (srv : ServerMailbox) (row : Option Cursor) (van : Vanished)
    (db db' : Inserts) (l l' : Local) (hid : l.table.freshFrom db.id = true)
    (hdb : db.refused ⊆ db'.refused)
    (h : incrementalMailbox srv row van db l = .applied l') :
    incrementalMailbox srv row van db' l' = .applied l' := by
  cases row with
  | none => simp [incrementalMailbox, mailboxCursor] at h
  | some c =>
    have hchanged : ∀ ch ∈ (deltaSince srv (some c) van).changed,
        ∃ m ∈ srv.messages, m.key = ch.uid ∧ m.value = ch.state := by
      intro ch hch
      obtain ⟨m, hm, -, rfl⟩ := mem_changed.1 hch
      exact ⟨m, hm, rfl, rfl⟩
    simp only [incrementalMailbox] at h ⊢
    split_ifs at h ⊢
    cases h
    rw [applyDelta_again hid (changed_nodup _) hchanged hdb]

/-- The pass over the three changes, made twice; the new message is refused each time. -/
theorem incremental_again_threeChanges :
    ∃ l', incrementalMailbox sampleServer sampleLocal.cursor sampleVanished ⟨4, [4]⟩ sampleLocal =
        .applied l' ∧
      incrementalMailbox sampleServer sampleLocal.cursor sampleVanished ⟨5, [4]⟩ l' = .applied l' :=
  ⟨_, rfl, incremental_again sampleServer sampleLocal.cursor sampleVanished ⟨4, [4]⟩ ⟨5, [4]⟩
    sampleLocal _ (by decide) (by decide) rfl⟩

/-! ## More than the client expands -/

/-- A mailbox whose `n` messages were all expunged. -/
def emptied (n : Nat) : ServerMailbox where
  uidValidity := 7
  announcesUIDNext := true
  log :=
    { next := n + 1
      version := 2
      items := []
      removed := (List.range n).map fun i => (i + 1, 2)
      next_pos := by omega
      version_pos := by omega
      ascending := List.Pairwise.nil
      key_pos := by simp
      key_lt := by simp
      version_le := by simp
      removed_lt := by
        intro e he
        obtain ⟨i, hi, rfl⟩ := List.mem_map.1 he
        have := List.mem_range.1 hi
        show i + 1 < n + 1
        omega
      gone := by simp }
  uidValidity_pos := by decide

/-- The rows of all `n` messages, live. -/
def fullTable (n : Nat) : Table where
  rows := (List.range n).map fun i => ⟨i + 1, i + 1, ⟨0, []⟩, false⟩
  uid_nodup := by
    rw [List.map_map]
    exact List.nodup_range.map fun a b h => Nat.succ.inj h
  id_nodup := by
    rw [List.map_map]
    exact List.nodup_range.map fun a b h => Nat.succ.inj h

/-- The pass over a mailbox that was emptied leaves the row at `n` live when `n` is
beyond the cap. -/
lemma live_after_emptied {n : Nat} (hn : maxVanishedUIDs < n) :
    ∃ srv l c van l', l.cursor = some c ∧ c.uidValidity = srv.uidValidity ∧
      0 < c.highestModSeq ∧ CursorSound srv l.table c ∧
      van.valid srv c.highestModSeq = true ∧
      incrementalMailbox srv l.cursor van ⟨n + 1, []⟩ l = .applied l' ∧
      srv.messages = [] ∧ l'.table.live n = true := by
  set c : Cursor := ⟨7, n + 1, 1⟩ with hc
  set van : Vanished := ⟨[[(1, some n)]], [(1, some n)], []⟩ with hv
  have hvan : van.valid (emptied n) c.highestModSeq = true := by
    unfold Vanished.valid namesExpunged
    rw [Bool.and_eq_true, all_eq_true]
    refine ⟨fun e he => ?_, by
      simp [hv, Vanished.sets, sparesMessages, emptied, ServerMailbox.messages]⟩
    obtain ⟨i, hi, rfl⟩ := mem_map.1 he
    have hle : i + 1 ≤ n := mem_range.1 hi
    have hin : inUIDSet [(1, some n)] (i + 1) = true := by
      simp only [inUIDSet, any_cons, any_nil, Bool.or_false, Option.all_some,
        Bool.and_eq_true, decide_eq_true_eq]
      omega
    exact Bool.or_eq_true_iff.2 (.inr (any_eq_true.2 ⟨_, mem_cons_self, hin⟩))
  have hfresh : (fullTable n).freshFrom (Inserts.mk (n + 1) []).id = true := by
    refine freshFrom_eq_true.2 fun r hr => ?_
    obtain ⟨i, hi, rfl⟩ := mem_map.1 hr
    have := mem_range.1 hi
    show i + 1 < n + 1
    omega
  have hlive : (fullTable n).live n = true := by
    refine live_eq_true.2 ⟨⟨n, n, ⟨0, []⟩, false⟩, rowAt_eq_some.2 ⟨?_, rfl⟩, rfl⟩
    obtain ⟨k, rfl⟩ := Nat.exists_eq_add_of_lt hn
    exact mem_map.2 ⟨maxVanishedUIDs + k, mem_range.2 (by omega), rfl⟩
  have hno : n ∉ (deltaSince (emptied n) (some c) van).vanished := by
    rw [mem_vanished rfl hvan]
    simp only [hv, Vanished.sets, inFirst, cons_append, nil_append, mem_cons, not_mem_nil, or_false,
      or_self, exists_eq_left, Bool.or_false, Bool.and_eq_true, decide_eq_true_eq]
    omega
  exact ⟨emptied n, ⟨fullTable n, some c⟩, c, van, _, rfl, rfl, Nat.one_pos,
    ⟨fun i hi => by simp [emptied] at hi, fun r _ _ i hi => by simp [emptied] at hi⟩, hvan,
    incrementalMailbox_eq rfl Nat.one_pos, rfl, (live_applyDelta hfresh).2 (.inl ⟨hlive, hno⟩)⟩

/-- One message more than the cap was stored and then expunged.  The cursor is
sound and the server reports every one of them, but the last row stays live: the
cut of the expansion is logged, and nothing else comes of it. -/
theorem vanished_beyond_cap :
    ∃ srv l c van l', l.cursor = some c ∧ c.uidValidity = srv.uidValidity ∧
      0 < c.highestModSeq ∧ CursorSound srv l.table c ∧
      van.valid srv c.highestModSeq = true ∧
      incrementalMailbox srv l.cursor van ⟨maxVanishedUIDs + 2, []⟩ l = .applied l' ∧
      srv.messages = [] ∧ l'.table.live (maxVanishedUIDs + 1) = true :=
  live_after_emptied (Nat.lt_succ_self _)

end Moov.Sync
