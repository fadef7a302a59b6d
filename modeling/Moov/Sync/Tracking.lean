import Moov.Sync.Vouched

/-!
# What an incremental pass makes of the rows

The part of an incremental pass that decides which rows are live, whatever else
writes to the table meanwhile.  `Tracks log t h` is what a cursor with the MODSEQ `h`
has to be right about: every message that did not change after `h` has a row, and a
live row without a message stands for one that was removed after `h`, so that the
next pass is told of it.

* `Pass.Tracking` is what a pass knows at its next call.
* `Moved mb mb'`: the server moved on, and somebody else wrote to the table without
  touching the row of a message that is there or reviving one that is gone.  All of it
  stays true (`Follows.moved`, `Pass.Tracking.moved`).
* `tracking_move`: a call of the pass keeps it.
-/

namespace Moov.Sync

open Moov.Store Moov.Versioned Moov.Versioned.Source List

/-! ## Live rows without a message -/

/-- A live row without a message is on the list, or its message was removed after `h`. -/
def Accounted (log : Log) (t : Table) (h : Nat) (vanished : List Nat) : Prop :=
  ∀ u, t.live u = true → (∀ i ∈ log.items, i.key ≠ u) → u ∈ vanished ∨ RemovedAfter log h u

/-- What a cursor with the MODSEQ `h` has to be right about. -/
structure Tracks (log : Log) (t : Table) (h : Nat) : Prop where
  stored : ∀ i ∈ log.items, i.version ≤ h → Stored t i.key
  accounted : Accounted log t h []

/-- The server moved on; the rows of its messages are still there, and no row became
live but those of its messages. -/
structure Shifts (log : Log) (t : Table) (log' : Log) (t' : Table) : Prop where
  later : Later log log'
  stored : ∀ i ∈ log'.items, Stored t i.key → Stored t' i.key
  live : ∀ u, t'.live u = true → t.live u = true ∨ ∃ i ∈ log'.items, i.key = u

section Rows

variable {log log' : Log} {t t' : Table} {h h₀ : Nat} {vanished : List Nat}

lemma Accounted.shift (ha : Accounted log t h vanished) (hs : Shifts log t log' t')
    (hv : h ≤ log.version) : Accounted log' t' h vanished := by
  intro u hu hno
  rcases hs.live u hu with hu | ⟨i, hi, hk⟩
  · by_cases hex : ∃ i ∈ log.items, i.key = u
    · obtain ⟨i, hi, rfl⟩ := hex
      rcases hs.later.kept_or_removedAfter hv hi with ⟨j, hj, hk⟩ | hr
      · exact absurd hk (hno j hj)
      · exact .inr hr
    · refine (ha u hu fun i hi hk => hex ⟨i, hi, hk⟩).imp_right fun hr => hr.later hs.later
  · exact absurd hk (hno i hi)

lemma Accounted.mono (ha : Accounted log t h vanished) (hh : h₀ ≤ h) :
    Accounted log t h₀ vanished :=
  fun u hu hno => (ha u hu hno).imp_right fun hr => hr.mono hh

lemma Tracks.shift (ht : Tracks log t h) (hs : Shifts log t log' t') (hv : h ≤ log.version) :
    Tracks log' t' h where
  stored := fun i hi hiv =>
    hs.stored i hi (ht.stored i (hs.later.unchanged i hi (Nat.le_trans hiv hv)) hiv)
  accounted := ht.accounted.shift hs hv

lemma Tracks.mono (ht : Tracks log t h) (hh : h₀ ≤ h) : Tracks log t h₀ :=
  ⟨fun i hi hiv => ht.stored i hi (Nat.le_trans hiv hh), ht.accounted.mono hh⟩

/-- The tombstones of a pass clear its list. -/
lemma Accounted.vanish (ha : Accounted log t h vanished) :
    Accounted log (applyVanished vanished t) h [] := by
  intro u hu hno
  rw [live_applyVanished, Bool.and_eq_true, decide_eq_true_eq] at hu
  exact (ha u hu.1 hno).elim (fun hm => absurd hm hu.2) .inr

/-- New rows are live rows of messages that were just read. -/
lemma Accounted.insert {id : Nat} {new : List (Nat × FlagState)}
    (ha : Accounted log t h vanished) (hid : t.freshFrom id = true)
    (hnew : ∀ x ∈ new, (∃ i ∈ log.items, i.key = x.1) ∨ RemovedAfter log h x.1) :
    Accounted log (t.insertMessages id new) h vanished := by
  intro u hu hno
  rw [Table.live_insertMessages hid] at hu
  simp only [Bool.or_eq_true, Bool.and_eq_true, decide_eq_true_eq] at hu
  rcases hu with hu | ⟨-, hu⟩
  · exact ha u hu hno
  · obtain ⟨x, hx, rfl⟩ := mem_map.1 hu
    rcases hnew x hx with ⟨i, hi, hk⟩ | hr
    · exact absurd hk (hno i hi)
    · exact .inr hr

end Rows

/-! ## What a pass knows -/

section Definitions

variable (mb : Mailbox)

/-- What a pass has made of its SELECT so far. -/
structure Progress (c : Cursor) (sel : SelectResult) (vanished : List Nat) : Prop where
  cursor : mb.cursor = some c
  resumed : Resumed mb c sel
  accounted : Accounted mb.server.log mb.table sel.highestModSeq vanished

/-- Every message that changed between the cursor and the SELECT has a row, or is
still to be stored. -/
def Pending (c : Cursor) (sel : SelectResult) (P : Nat → Prop) : Prop :=
  ∀ i ∈ mb.server.log.items, c.highestModSeq < i.version → i.version ≤ sel.highestModSeq →
    Stored mb.table i.key ∨ P i.key

/-- What an incremental pass knows at its next call. -/
def Pass.Tracking : Pass → Prop
  | .resume row => row = mb.cursor
  | .changes c sel => Progress mb c sel sel.vanishedUIDs ∧
      ∀ u ∈ sel.vanishedUIDs, Gone mb.server.log u
  | .vanish c sel delta => Progress mb c sel delta.vanished ∧
      (∀ u ∈ delta.vanished, Gone mb.server.log u) ∧
      ChangesTrue mb.server.log c.highestModSeq sel.highestModSeq delta.changed
  | .flags c sel delta => Progress mb c sel [] ∧ (∀ u ∈ delta.vanished, Gone mb.server.log u) ∧
      ChangesTrue mb.server.log c.highestModSeq sel.highestModSeq delta.changed
  | .filter uids (.delta sel) => ∃ c, Progress mb c sel [] ∧ Pending mb c sel (· ∈ uids)
  | .fetch wanted fetched (.delta sel) => ∃ c, Progress mb c sel [] ∧
      Pending mb c sel (fun u => u ∈ wanted ∨ u ∈ fetched.map Prod.fst) ∧
      ∀ x ∈ fetched, (∃ i ∈ mb.server.log.items, i.key = x.1) ∨
        RemovedAfter mb.server.log sel.highestModSeq x.1
  | .advance sel => ∃ c, Progress mb c sel [] ∧ Pending mb c sel fun _ => False
  | _ => False

/-- What is true of the store of a mailbox between the calls. -/
structure Follows : Prop where
  tombs : TombsGone mb.server.log mb.table
  removals : RemovedLe mb.server.log
  cursor : ∃ c, mb.cursor = some c ∧ c.uidValidity = mb.server.uidValidity ∧
    0 < c.highestModSeq ∧ c.highestModSeq ≤ mb.server.log.version ∧
    Tracks mb.server.log mb.table c.highestModSeq

end Definitions

/-- The server moved on and the table was written to, by somebody else than a pass. -/
structure Moved (mb mb' : Mailbox) : Prop where
  shifts : Shifts mb.server.log mb.table mb'.server.log mb'.table
  tombs : TombsGone mb.server.log mb.table → TombsGone mb'.server.log mb'.table
  removals : RemovedLe mb.server.log → RemovedLe mb'.server.log
  uidValidity : mb'.server.uidValidity = mb.server.uidValidity
  announces : mb'.server.announcesUIDNext = mb.server.announcesUIDNext
  cursor : mb'.cursor = mb.cursor

section Moved

variable {mb mb' : Mailbox} {c : Cursor} {sel : SelectResult} {p : Pass} {vanished : List Nat}
  {P : Nat → Prop} (hm : Moved mb mb')

include hm

theorem Follows.moved (hf : Follows mb) : Follows mb' := by
  obtain ⟨c, hc, hval, hpos, hle, ht⟩ := hf.cursor
  exact ⟨hm.tombs hf.tombs, hm.removals hf.removals, c, hm.cursor.trans hc,
    hval.trans hm.uidValidity.symm, hpos, Nat.le_trans hle hm.shifts.later.version_le,
    ht.shift hm.shifts hle⟩

lemma Progress.moved (h : Progress mb c sel vanished) : Progress mb' c sel vanished where
  cursor := hm.cursor.trans h.cursor
  resumed :=
    { uidValidity := h.resumed.uidValidity.trans hm.uidValidity.symm
      since := h.resumed.since
      modSeq := Nat.le_trans h.resumed.modSeq hm.shifts.later.version_le
      announced := fun ha => h.resumed.announced (hm.announces ▸ ha) }
  accounted := h.accounted.shift hm.shifts h.resumed.modSeq

lemma Pending.moved (h : Pending mb c sel P) (hr : Resumed mb c sel) : Pending mb' c sel P := by
  intro i hi hlo hhi
  have hi' := hm.shifts.later.unchanged i hi (Nat.le_trans hhi hr.modSeq)
  exact (h i hi' hlo hhi).imp_left (hm.shifts.stored i hi)

theorem Pass.Tracking.moved (h : p.Tracking mb) : p.Tracking mb' := by
  have hgone : ∀ u, Gone mb.server.log u → Gone mb'.server.log u :=
    fun u hu => hu.later hm.shifts.later
  cases p with
  | resume => exact h.trans hm.cursor.symm
  | changes => exact ⟨h.1.moved hm, fun u hu => hgone u (h.2 u hu)⟩
  | vanish | flags =>
    exact ⟨h.1.moved hm, fun u hu => hgone u (h.2.1 u hu),
      h.2.2.later hm.shifts.later h.1.resumed.modSeq⟩
  | filter uids w =>
    cases w with
    | delta =>
      obtain ⟨c, hp, hs⟩ := h
      exact ⟨c, hp.moved hm, hs.moved hm hp.resumed⟩
    | _ => exact absurd h id
  | fetch wanted fetched w =>
    cases w with
    | delta =>
      obtain ⟨c, hp, hs, hf⟩ := h
      refine ⟨c, hp.moved hm, hs.moved hm hp.resumed, fun x hx => ?_⟩
      rcases hf x hx with ⟨i, hi, hk⟩ | hr
      · exact hk ▸ hm.shifts.later.kept_or_removedAfter hp.resumed.modSeq hi
      · exact .inr (hr.later hm.shifts.later)
    | _ => exact absurd h id
  | advance =>
    obtain ⟨c, hp, hs⟩ := h
    exact ⟨c, hp.moved hm, hs.moved hm hp.resumed⟩
  | _ => exact absurd h id

end Moved

/-! ## The calls of a pass -/

/-- The sets of a SELECT are expanded to their end. -/
def Vanished.uncut (van : Vanished) : Bool :=
  (van.selectData :: van.unilateral).all fun set => !(uidsFromUIDSet set maxVanishedUIDs).2

/-- The answer to a call is told in full and skips nothing. -/
def Reply.orderly : Reply → Bool
  | .vanished van => van.uncut
  | reply => reply.stores

lemma Reply.stores_of_orderly {reply : Reply} (h : reply.orderly = true) : reply.stores = true := by
  cases reply <;> first | rfl | exact h

section Calls

variable {win : Int} {mb mb' : Mailbox} {c : Cursor} {sel : SelectResult} {p q : Pass}
  {next : Option Pass} {reply : Reply} {van : Vanished} {t : Table}

/-- Sets that are not cut name every removal since the cursor to the client. -/
lemma mem_vanishedUIDs_of_uncut (hcut : van.uncut = true)
    (hv : van.valid mb.server c.highestModSeq = true) (hval : c.uidValidity = mb.server.uidValidity)
    {u : Nat} (hr : RemovedAfter mb.server.log c.highestModSeq u) :
    u ∈ (selectQResync mb.server c.uidValidity c.highestModSeq van).vanishedUIDs := by
  obtain ⟨v, hmem, hlt⟩ := hr
  have hnames := all_eq_true.1 (Bool.and_eq_true_iff.1 hv).1 _ hmem
  simp only [Bool.or_eq_true, decide_eq_true_eq, any_eq_true] at hnames
  obtain ⟨set, hset, hin⟩ := hnames.resolve_left (Nat.not_le_of_lt hlt)
  have hexp : u ∈ (uidsFromUIDSet set maxVanishedUIDs).1 := by
    refine mem_of_inUIDSet ?_ hin
    simpa using all_eq_true.1 hcut set hset
  unfold selectQResync
  simp only [hval, ne_eq, not_true_eq_false, and_false, if_false, mem_dedupeUIDs, mem_append,
    mem_collected]
  rcases mem_cons.1 hset with rfl | hset
  · exact .inr hexp
  · exact .inl ⟨set, hset, hexp⟩

/-- The SELECT of a pass whose cursor is this mailbox's. -/
lemma resume_reply (hval : c.uidValidity = mb.server.uidValidity) (hpos : 0 < c.highestModSeq)
    (h : mb.advance win (.resume (some c)) reply = some (mb', next)) :
    ∃ van, reply = .vanished van ∧ van.valid mb.server c.highestModSeq = true ∧ mb' = mb ∧
      next = some (.changes c (selectQResync mb.server c.uidValidity c.highestModSeq van)) := by
  cases reply with
  | vanished van =>
    have hne : ¬(c.uidValidity = 0 ∨ c.highestModSeq = 0) := by
      have := mb.server.uidValidity_pos
      omega
    have hsame : ¬(selectQResync mb.server c.uidValidity c.highestModSeq van).uidValidity
        ≠ c.uidValidity := not_not.2 hval.symm
    simp only [Mailbox.advance, if_neg hne, if_neg hsame] at h
    split at h
    · next hv =>
      cases h
      exact ⟨van, rfl, hv, rfl, rfl⟩
    · cases h
  | _ => cases h

lemma tracking_resume (hf : Follows mb) (hcur : mb.cursor = some c) (hcut : van.uncut = true)
    (hv : van.valid mb.server c.highestModSeq = true) :
    (Pass.changes c (selectQResync mb.server c.uidValidity c.highestModSeq van)).Tracking mb := by
  obtain ⟨c', hc', hval, hpos, hle, ht⟩ := hf.cursor
  rw [hcur] at hc'
  cases hc'
  refine ⟨⟨hcur, ⟨rfl, hle, Nat.le_refl _, ?_⟩, fun u hu hno => .inl ?_⟩, fun u hu => ?_⟩
  · intro ha
    simp only [selectQResync, ha, if_true]
    exact mb.server.log.next_pos
  · rcases ht.accounted u hu hno with hm | hr
    · cases hm
    · exact mem_vanishedUIDs_of_uncut hcut hv hval hr
  · exact gone_of_selectQResync (Vanished.valid_spares hv).1 hu

/-- Every change between the cursor and the SELECT is among the candidates, or has a
row already. -/
lemma pending_candidates {delta : MailboxDelta}
    (hgone : ∀ u ∈ delta.vanished, Gone mb.server.log u)
    (hch : ChangesTrue mb.server.log c.highestModSeq sel.highestModSeq delta.changed) :
    Pending { mb with table := t } c sel (· ∈ newUIDCandidates c.uidNext delta) := by
  intro i hi hlo hhi
  have hpos := mb.server.log.key_pos i hi
  refine .inr (mem_newUIDCandidates.2 ⟨by omega, fun hv => ?_, .inr (hch.all i hi hlo hhi)⟩)
  exact (hgone _ hv).2 i hi rfl

/-- At the end of a pass the rows are right about its SELECT. -/
lemma tracks_advance (hf : Follows mb) (hp : (Pass.advance sel).Tracking mb) :
    Tracks mb.server.log mb.table sel.highestModSeq := by
  obtain ⟨c, hprog, hpend⟩ := hp
  obtain ⟨c', hc', -, -, -, ht⟩ := hf.cursor
  rw [hprog.cursor] at hc'
  cases hc'
  refine ⟨fun i hi hiv => ?_, hprog.accounted⟩
  by_cases hlo : i.version ≤ c.highestModSeq
  · exact ht.stored i hi hlo
  · exact (hpend i hi (by omega) hiv).resolve_right id

/-- A write of the pass to the table, as seen by the cursor. -/
lemma Follows.setTable (hf : Follows mb) (htombs : TombsGone mb.server.log t)
    (hstored : ∀ u, Stored mb.table u → Stored t u)
    (hacc : ∀ h, mb.cursor.map Cursor.highestModSeq = some h → Accounted mb.server.log t h []) :
    Follows { mb with table := t } := by
  obtain ⟨c, hc, hval, hpos, hle, ht⟩ := hf.cursor
  refine ⟨htombs, hf.removals, c, hc, hval, hpos, hle,
    fun i hi hiv => hstored _ (ht.stored i hi hiv), hacc _ ?_⟩
  rw [hc]
  rfl

lemma Progress.accounted_cursor (hp : Progress mb c sel []) {h : Nat}
    (hh : mb.cursor.map Cursor.highestModSeq = some h)
    (ha : Accounted mb.server.log t sel.highestModSeq []) : Accounted mb.server.log t h [] := by
  rw [hp.cursor] at hh
  cases hh
  exact ha.mono hp.resumed.since

lemma Progress.setTable {vanished vanished' : List Nat} (hp : Progress mb c sel vanished)
    (ha : Accounted mb.server.log t sel.highestModSeq vanished') :
    Progress { mb with table := t } c sel vanished' :=
  ⟨hp.cursor, hp.resumed.withTable t, ha⟩

/-- What a call of a pass does. -/
structure Advanced (mb mb' : Mailbox) (p : Pass) (next : Option Pass) : Prop where
  server : mb'.server = mb.server
  follows : Follows mb'
  tracking : ∀ q, next = some q → q.Tracking mb'
  ended : next = none → ∃ sel, p = .advance sel ∧
    Tracks mb'.server.log mb'.table sel.highestModSeq

/-- A pass that goes on after a write to the table. -/
lemma advanced_setTable (hf : Follows { mb with table := t })
    (hq : q.Tracking { mb with table := t }) : Advanced mb { mb with table := t } p (some q) where
  server := rfl
  follows := hf
  tracking := fun q' hq' => by
    cases hq'
    exact hq
  ended := nofun

/-- A pass that goes on without a write. -/
lemma advanced_of_read (hf : Follows mb) (hq : q.Tracking mb) : Advanced mb mb p (some q) :=
  advanced_setTable (t := mb.table) hf hq

lemma tracking_fetch {wanted : List Nat} {fetched : List (Nat × FlagState)} {w : Work}
    (hm : PassMove win mb (.fetch wanted fetched w) mb' next) (hf : Follows mb)
    (hp : (Pass.fetch wanted fetched w).Tracking mb) :
    Advanced mb mb' (.fetch wanted fetched w) next := by
  cases w with
  | recent | window => exact absurd hp id
  | delta sel =>
    obtain ⟨c, hprog, hpend, hread⟩ := hp
    cases hm with
    | gone _ _ _ u hno =>
      refine advanced_of_read hf ⟨c, hprog, fun i hi hlo hhi => ?_, hread⟩
      refine (hpend i hi hlo hhi).imp_right (Or.imp_left fun hm => mem_filter.2 ⟨hm, ?_⟩)
      simpa using hno i hi
    | read _ _ _ m hmem =>
      exact advanced_of_read hf ⟨c, hprog,
        fun i hi hlo hhi => (hpend i hi hlo hhi).imp_right wanted_or_fetched,
        Run.forall_mem_concat hread (.inl ⟨m, hmem, rfl⟩)⟩
    | commit _ uids _ _ id hid =>
      have hnew : ∀ x ∈ fetched.filter fun p => uids.contains p.1,
          (∃ i ∈ mb.server.log.items, i.key = x.1) ∨
            RemovedAfter mb.server.log sel.highestModSeq x.1 :=
        fun x hx => hread x (mem_of_mem_filter hx)
      have hacc := hprog.accounted.insert hid hnew
      have hstored : ∀ u, Stored mb.table u → Stored (mb.table.insertMessages id
          (fetched.filter fun p => uids.contains p.1)) u := by
        intro u hu
        unfold Stored at hu ⊢
        rw [Table.has_insertMessages hid, hu]
        rfl
      refine advanced_setTable
        (hf.setTable (hf.tombs.insert hid) hstored fun h hh => hprog.accounted_cursor hh hacc)
        ⟨c, hprog.setTable hacc, fun i hi hlo hhi => ?_,
          fun x hx => hread x (mem_of_mem_filter hx)⟩
      rcases hpend i hi hlo hhi with hs | hw | hfe
      · exact .inl (hstored _ hs)
      · exact .inr (.inl hw)
      · exact (stored_or_left hid hfe).imp_right .inr
    | stored _ =>
      refine advanced_of_read hf ⟨c, hprog, fun i hi hlo hhi => .inl ?_⟩
      rcases hpend i hi hlo hhi with hs | hw | hfe
      · exact hs
      · cases hw
      · cases hfe

/-- **One call of an incremental pass** keeps the store and the pass in step. -/
theorem tracking_move (h : mb.advance win p reply = some (mb', next)) (hf : Follows mb)
    (hp : p.Tracking mb) (ho : reply.orderly = true) : Advanced mb mb' p next := by
  have hm := advance_move h (Reply.stores_of_orderly ho)
  cases p with
  | resume row =>
    obtain ⟨c, hc, hval, hpos, -⟩ := hf.cursor
    have hrow : row = some c := Eq.trans hp hc
    subst hrow
    obtain ⟨van, rfl, hv, rfl, rfl⟩ := resume_reply hval hpos h
    exact advanced_of_read hf (tracking_resume hf hc ho hv)
  | changes =>
    cases hm with
    | changes _ _ sets hs =>
      refine advanced_of_read hf ⟨⟨hp.1.cursor, hp.1.resumed, fun u hu hno => ?_⟩, fun u hu => ?_,
        changesTrue_collect⟩
      · exact (hp.1.accounted u hu hno).imp_left fun hm => mem_append.2 (.inl hm)
      · rcases mem_append.1 hu with hu | hu
        · exact hp.2 u hu
        · exact gone_of_collected hs hu
  | vanish c sel delta =>
    cases hm with
    | vanish _ _ _ =>
      have hacc := hp.1.accounted.vanish
      have hprog : Progress { mb with table := applyVanished delta.vanished mb.table } c sel [] :=
        hp.1.setTable hacc
      refine advanced_setTable (hf.setTable (hf.tombs.vanished hp.2.1) (fun u hu => ?_)
        fun h hh => hprog.accounted_cursor hh hacc) ⟨hprog, hp.2⟩
      exact has_applyVanished.trans hu
  | flags c sel delta =>
    cases hm with
    | flags =>
      have hacc : Accounted mb.server.log (applyFlagChanges delta.changed mb.table)
          sel.highestModSeq [] := by
        intro u hu hno
        rw [live_applyFlagChanges] at hu
        exact hp.1.accounted u hu hno
      have hprog := hp.1.setTable hacc
      exact advanced_setTable (hf.setTable (hf.tombs.changes hp.2.2.nodup)
        (fun u hu => has_applyFlagChanges.trans hu) fun h hh => hprog.accounted_cursor hh hacc)
        ⟨c, hprog, pending_candidates hp.2.1 hp.2.2⟩
  | filter uids w =>
    cases w with
    | recent | window => exact absurd hp id
    | delta =>
      cases hm with
      | filter _ _ =>
        obtain ⟨c, hprog, hpend⟩ := hp
        refine advanced_of_read hf ⟨c, hprog, fun i hi hlo hhi => ?_, fun x hx => ?_⟩
        · exact (stored_or_filterStored (hpend i hi hlo hhi)).imp_right .inl
        · cases hx
  | fetch => exact tracking_fetch hm hf hp
  | advance sel =>
    cases hm with
    | advance _ =>
      have ht := tracks_advance hf hp
      obtain ⟨c, hprog, -⟩ := hp
      obtain ⟨c', hc', -, hpos, -⟩ := hf.cursor
      rw [hprog.cursor] at hc'
      cases hc'
      have hle : (setMailboxSyncState sel).highestModSeq ≤ sel.highestModSeq := Nat.min_le_left _ _
      have hpos' : 0 < (setMailboxSyncState sel).highestModSeq := by
        have := hprog.resumed.since
        exact Nat.lt_min.2 ⟨by omega, by decide⟩
      refine ⟨rfl, ⟨hf.tombs, hf.removals, _, rfl, hprog.resumed.uidValidity, hpos',
        Nat.le_trans hle hprog.resumed.modSeq, ht.mono hle⟩, fun q hq => (nomatch hq),
        fun _ => ⟨sel, rfl, ht⟩⟩
  | _ => exact absurd hp id

end Calls

end Moov.Sync
