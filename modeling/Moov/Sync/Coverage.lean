import Moov.Sync.Passes

/-!
# What the watermarks of a mailbox promise

The records of the initial sync say how far down a mailbox is stored: the
checkpoint and the columns of the mailbox row each have a watermark and a mark for
"complete".  This file says what such a record promises *below a UID `N`*, and what
every pass under way knows, phase by phase, so that the promise is true of what it
is about to record.

* `RecordsCover N mb`: every message from a recorded watermark on and below `N` has
  a row.
* `Pass.Covered log N t p`: what the pass `p` relies on at its next call.
* `covered_move`: a move of a pass keeps both, and `Pass.Covered.grow`: so does
  whatever else happens to the mailbox.

The one fact the recent phase needs from outside is `DatesAscend`: below `N` no
message is dated before the cutoff when a message with a smaller UID is not.  The
bound `N` is a parameter, because two results use these lemmas: for a server that
stands still it is the end of the mailbox, and for one that moves it is the UIDNEXT
of the cursor.
-/

namespace Moov.Sync

open Moov.Store Moov.Versioned Moov.Versioned.Source List BackfillState

/-- The server's side of a mailbox, as a source. -/
abbrev Log := Source (Option Nat) FlagState

/-- There is a row with this UID. -/
def Stored (t : Table) (u : Nat) : Prop := t.has u = true

/-- A batch is stored, and what is not in it is still to be stored. -/
lemma stored_or_left {t : Table} {id u : Nat} {uids : List Nat} {fetched : List (Nat × FlagState)}
    (hid : t.freshFrom id = true) (h : u ∈ fetched.map Prod.fst) :
    Stored (t.insertMessages id (fetched.filter fun p => uids.contains p.1)) u ∨
      u ∈ (fetched.filter fun p => !uids.contains p.1).map Prod.fst := by
  obtain ⟨x, hx, he⟩ := mem_map.1 h
  by_cases hu : x.1 ∈ uids
  · left
    unfold Stored
    rw [Table.has_insertMessages hid, Bool.or_eq_true]
    refine .inr (decide_eq_true (mem_map.2 ⟨x, mem_filter.2 ⟨hx, ?_⟩, he⟩))
    simpa using hu
  · refine .inr (mem_map.2 ⟨x, mem_filter.2 ⟨hx, ?_⟩, he⟩)
    simpa using hu

section Definitions

variable (log : Log) (N : Nat) (t : Table)

/-- What a checkpoint promises. -/
structure Checkpoint.Covered (cp : Checkpoint) : Prop where
  low : 0 < cp.uidLow → Covers log cp.uidLow N (Stored t)
  complete : cp.complete = true → Covers log 1 N (Stored t)

/-- Below `N`, a message dated before the cutoff comes before every message that is
not. -/
def DatesAscend (cutoff : Nat) : Prop :=
  ∀ i ∈ log.items, ∀ j ∈ log.items, i.key < j.key → j.key < N →
    older cutoff j = true → older cutoff i = true

/-- The recent phase needs the dates in order, the backfill nothing. -/
def Kind.Ordered : Kind → Prop
  | .recent cutoff => DatesAscend log N cutoff
  | .backfill => True

/-- What an initial phase knows from its SELECT. -/
structure TopKnown (sel : SelectResult) : Prop where
  empty : sel.numMessages = 0 → ∀ i ∈ log.items, N ≤ i.key
  top : ∀ i ∈ log.items, i.key < N → i.key ≤ highestUID sel

/-- Together with a UID the list has every UID of a message above it. -/
def UpClosed (uids : List Nat) : Prop :=
  ∀ u ∈ uids, ∀ i ∈ log.items, u ≤ i.key → i.key < N → i.key ∈ uids

/-- What the descending scan of `recentUIDs` knows when it has come down to `high`. -/
structure Probed (cutoff high : Nat) (found : List Nat) : Prop where
  ordered : DatesAscend log N cutoff
  closed : UpClosed log N found
  above : ∀ i ∈ log.items, high < i.key → i.key < N → older cutoff i = true ∨ i.key ∈ found

/-- The UIDs a call of `fetchAndStore` has to store. -/
def Work.Target : Work → Nat → Prop
  | .recent _ uids, u => u < N ∧ u ∈ uids
  | .window _ low, u => u < N ∧ low ≤ u
  | .delta sel, u => N ≤ u ∧ u < sel.uidNext

/-- What is known of the caller's variables. -/
def Work.Covered : Work → Prop
  | .recent cp uids => cp.Covered log N t ∧ UpClosed log N uids
  | .window cp low => cp.Covered log N t ∧ 0 < low
  | .delta sel => sel.uidNext ≤ log.next

/-- What may be recorded: the promise of the checkpoint, and of the state that goes
into the mailbox row with it. -/
structure Recordable (cp : Checkpoint) (st : BackfillState) : Prop where
  covered : cp.Covered log N t
  inProgress : st = .inProgress → 0 < cp.uidLow
  complete : st = .complete → Covers log 1 N (Stored t)

/-- What an incremental pass knows of its delta. -/
structure DeltaKnown (c : Cursor) (sel : SelectResult) (delta : MailboxDelta) : Prop where
  start : c.uidNext = N
  announced : 0 < sel.uidNext → 0 < N
  le : sel.uidNext ≤ log.next
  uidNext : delta.uidNext = sel.uidNext
  gone : ∀ u ∈ delta.vanished, Gone log u

/-- What a pass relies on at its next call. -/
def Pass.Covered : Pass → Prop
  | .select _ _ => True
  | .record k _ sel => k.Ordered log N ∧ TopKnown log N sel
  | .load k sel => k.Ordered log N ∧ TopKnown log N sel
  | .probe cp cutoff high found => cp.Covered log N t ∧ Probed log N cutoff high found
  | .mark cp high => cp.Covered log N t ∧ Covers log (high + 1) N (Stored t)
  | .filter uids w => w.Covered log N t ∧
      ∀ i ∈ log.items, w.Target N i.key → Stored t i.key ∨ i.key ∈ uids
  | .fetch wanted fetched w => w.Covered log N t ∧ ∀ i ∈ log.items, w.Target N i.key →
        Stored t i.key ∨ i.key ∈ wanted ∨ i.key ∈ fetched.map Prod.fst
  | .save cp st => Recordable log N t cp st
  | .progress cp st => Recordable log N t cp st
  | .changes c sel => c.uidNext = N ∧ (0 < sel.uidNext → 0 < N) ∧ sel.uidNext ≤ log.next ∧
      ∀ u ∈ sel.vanishedUIDs, Gone log u
  | .vanish c sel delta => DeltaKnown log N c sel delta
  | .flags c sel delta => DeltaKnown log N c sel delta
  | .advance sel => sel.uidNext ≤ log.next ∧ Covers log N sel.uidNext (Stored t)
  | .resume _ => True
  | .status => True
  | .seed _ => True

end Definitions

/-- What the records of a mailbox promise below `N`. -/
structure RecordsCover (N : Nat) (mb : Mailbox) : Prop where
  checkpoint : ∀ cp, mb.checkpoint = some cp → cp.Covered mb.server.log N mb.table
  low : ∀ w, mb.backfillUIDLow = some w → 0 < w → Covers mb.server.log w N (Stored mb.table)
  complete : mb.backfillState = .complete → Covers mb.server.log 1 N (Stored mb.table)

/-! ## The mailbox moves on -/

/-- The server moved on, and no row was lost. -/
structure Grows (log : Log) (t : Table) (log' : Log) (t' : Table) : Prop where
  later : Later log log'
  stored : ∀ u, Stored t u → Stored t' u

section Grow

variable {log log' : Log} {t t' : Table} {N lo hi cutoff : Nat} {sel : SelectResult}

lemma Grows.of_stored (h : ∀ u, Stored t u → Stored t' u) : Grows log t log t' :=
  ⟨Later.refl log, h⟩

variable (hg : Grows log t log' t') (hN : N ≤ log.next) {cp : Checkpoint}

include hg in
lemma covers_grow (hhi : hi ≤ log.next) (h : Covers log lo hi (Stored t)) :
    Covers log' lo hi (Stored t') :=
  (h.later hg.later hhi).imp hg.stored

include hg hN

lemma Checkpoint.Covered.grow (h : cp.Covered log N t) : cp.Covered log' N t' :=
  ⟨fun h₀ => covers_grow hg hN (h.low h₀), fun hc => covers_grow hg hN (h.complete hc)⟩

lemma DatesAscend.grow (h : DatesAscend log N cutoff) : DatesAscend log' N cutoff := by
  intro i hi j hj hij hjN hold
  obtain ⟨i₀, hi₀, hik, hif⟩ := hg.later.old i hi (by omega)
  obtain ⟨j₀, hj₀, hjk, hjf⟩ := hg.later.old j hj (by omega)
  unfold older at hold ⊢
  rw [← hjf] at hold
  rw [← hif]
  exact h i₀ hi₀ j₀ hj₀ (by omega) (by omega) hold

lemma Kind.Ordered.grow {k : Kind} (h : k.Ordered log N) : k.Ordered log' N := by
  cases k with
  | recent => exact DatesAscend.grow hg hN h
  | backfill => trivial

lemma TopKnown.grow (h : TopKnown log N sel) : TopKnown log' N sel := by
  refine ⟨fun h₀ i hi => ?_, fun i hi hiN => ?_⟩
  · by_contra hlt
    obtain ⟨j, hj, hjk, -⟩ := hg.later.old i hi (by omega)
    have := h.empty h₀ j hj
    omega
  · obtain ⟨j, hj, hjk, -⟩ := hg.later.old i hi (by omega)
    exact hjk ▸ h.top j hj (by omega)

lemma UpClosed.grow {uids : List Nat} (h : UpClosed log N uids) : UpClosed log' N uids := by
  intro u hu i hi hui hiN
  obtain ⟨j, hj, hjk, -⟩ := hg.later.old i hi (by omega)
  exact hjk ▸ h u hu j hj (by omega) (by omega)

lemma Probed.grow {high : Nat} {found : List Nat} (h : Probed log N cutoff high found) :
    Probed log' N cutoff high found := by
  refine ⟨h.ordered.grow hg hN, h.closed.grow hg hN, fun i hi hhi hiN => ?_⟩
  obtain ⟨j, hj, hjk, hjf⟩ := hg.later.old i hi (by omega)
  unfold older
  rw [← hjf, ← hjk]
  exact h.above j hj (by omega) (by omega)

lemma Work.Covered.grow {w : Work} (h : w.Covered log N t) : w.Covered log' N t' := by
  cases w with
  | recent => exact ⟨h.1.grow hg hN, h.2.grow hg hN⟩
  | window => exact ⟨h.1.grow hg hN, h.2⟩
  | delta => exact Nat.le_trans h hg.later.next_le

lemma Recordable.grow {st : BackfillState} (h : Recordable log N t cp st) :
    Recordable log' N t' cp st :=
  ⟨h.covered.grow hg hN, h.inProgress, fun hc => covers_grow hg hN (h.complete hc)⟩

omit hN in
lemma DeltaKnown.grow {c : Cursor} {delta : MailboxDelta}
    (h : DeltaKnown log N c sel delta) : DeltaKnown log' N c sel delta :=
  ⟨h.start, h.announced, Nat.le_trans h.le hg.later.next_le, h.uidNext,
    fun u hu => (h.gone u hu).later hg.later⟩

/-- A message that has to be stored was there before. -/
lemma Work.Target.old {w : Work} (hw : w.Covered log N t) {i : ServerMessage}
    (hi : i ∈ log'.items) (hT : w.Target N i.key) : ∃ j ∈ log.items, j.key = i.key := by
  have hlt : i.key < log.next := by
    cases w with
    | recent | window => exact Nat.lt_of_lt_of_le hT.1 hN
    | delta => exact Nat.lt_of_lt_of_le hT.2 hw
  obtain ⟨j, hj, hjk, -⟩ := hg.later.old i hi hlt
  exact ⟨j, hj, hjk⟩

/-- What a pass relies on stays true while the mailbox moves on. -/
theorem Pass.Covered.grow {p : Pass} (h : p.Covered log N t) : p.Covered log' N t' := by
  cases p with
  | select | resume | status | seed => trivial
  | record | load | probe => exact ⟨h.1.grow hg hN, h.2.grow hg hN⟩
  | mark => exact ⟨h.1.grow hg hN, covers_grow hg hN h.2⟩
  | filter | fetch =>
    refine ⟨h.1.grow hg hN, fun i hi hT => ?_⟩
    obtain ⟨j, hj, hjk⟩ := Work.Target.old hg hN h.1 hi hT
    rw [← hjk] at hT ⊢
    exact (h.2 j hj hT).imp_left (hg.stored _)
  | save | progress => exact Recordable.grow hg hN h
  | changes =>
    exact ⟨h.1, h.2.1, Nat.le_trans h.2.2.1 hg.later.next_le,
      fun u hu => (h.2.2.2 u hu).later hg.later⟩
  | vanish | flags => exact DeltaKnown.grow hg h
  | advance => exact ⟨Nat.le_trans h.1 hg.later.next_le, covers_grow hg h.1 h.2⟩

end Grow

/-- The promises of the records stay true while the mailbox moves on. -/
lemma RecordsCover.grow {N : Nat} {mb mb' : Mailbox} (h : RecordsCover N mb)
    (hg : Grows mb.server.log mb.table mb'.server.log mb'.table) (hN : N ≤ mb.server.log.next)
    (hcp : mb'.checkpoint = mb.checkpoint) (hlow : mb'.backfillUIDLow = mb.backfillUIDLow)
    (hst : mb'.backfillState = mb.backfillState) : RecordsCover N mb' := by
  refine ⟨fun cp h₀ => ?_, fun w h₀ hw => ?_, fun h₀ => ?_⟩
  · exact (h.checkpoint cp (hcp ▸ h₀)).grow hg hN
  · exact covers_grow hg hN (h.low w (hlow ▸ h₀) hw)
  · exact covers_grow hg hN (h.complete (hst ▸ h₀))

/-! ## What a pass knows next -/

section Next

variable {log : Log} {t : Table} {N high cutoff : Nat} {cp : Checkpoint}
  {sel : SelectResult} {win : Int}
  {found : List Nat} {srv : ServerMailbox}

/-- No progress promises nothing. -/
lemma covered_noProgress (v : Nat) : (noProgress v).Covered log N t :=
  ⟨fun h => absurd h (Nat.lt_irrefl 0), fun h => Bool.noConfusion h⟩

lemma covered_loadMailboxCheckpoint {stored : Option Checkpoint} {v : Nat}
    (h : ∀ cp, stored = some cp → cp.Covered log N t) :
    (loadMailboxCheckpoint stored v).Covered log N t := by
  unfold loadMailboxCheckpoint
  cases stored with
  | none => exact covered_noProgress v
  | some cp =>
    simp only
    split
    · exact covered_noProgress v
    · exact h cp rfl

lemma windowLow_pos (win : Int) (high : Nat) : 0 < windowLow win high := by
  unfold windowLow
  split <;> omega

lemma mem_uidRange {low u : Nat} : u ∈ uidRange low high ↔ low ≤ u ∧ u ≤ high := by
  unfold uidRange
  split
  · simp only [not_mem_nil, false_iff]
    omega
  · rw [mem_range'_1]
    omega

/-- A mailbox that is stored from UID 1 on may be marked complete. -/
lemma recordable_markComplete (h : Covers log 1 N (Stored t)) :
    Recordable log N t (markComplete cp) .complete :=
  ⟨⟨fun _ => h, fun _ => h⟩, fun h₀ => noConfusion h₀, fun _ => h⟩

/-- The window below what is stored; at the bottom, everything is. -/
lemma covered_nextWindow (hcp : cp.Covered log N t)
    (hc : Covers log (high + 1) N (Stored t)) : (nextWindow win cp high).Covered log N t := by
  unfold nextWindow
  split
  · next h₀ =>
    subst h₀
    exact recordable_markComplete hc
  · refine ⟨⟨hcp, windowLow_pos win high⟩, fun i hi hT => ?_⟩
    by_cases hh : i.key ≤ high
    · exact .inr (mem_uidRange.2 ⟨hT.2, hh⟩)
    · exact .inl (hc i hi (by omega) hT.1)

/-- Above the UID a backfill resumes at, everything is stored. -/
lemma covers_resumeHigh (hcp : cp.Covered log N t) (htop : TopKnown log N sel) :
    Covers log (resumeHigh cp sel + 1) N (Stored t) := by
  unfold resumeHigh
  split
  · next h =>
    have : cp.uidLow - 1 + 1 = cp.uidLow := by omega
    rw [this]
    exact hcp.low h.1
  · intro i hi hlo hiN
    have := htop.top i hi hiN
    omega

lemma covered_loaded {k : Kind} {q : Pass} (hk : k.Ordered log N) (htop : TopKnown log N sel)
    (hcp : cp.Covered log N t) (hq : loaded cp sel k = some q) : q.Covered log N t := by
  cases k with
  | recent =>
    obtain ⟨-, hq⟩ := Option.ite_none_left_eq_some.1 hq
    split at hq
    · cases hq
      exact ⟨⟨hcp, nofun⟩, fun i _ hT => nomatch hT.2⟩
    · cases hq
      refine ⟨hcp, hk, fun u hu => (nomatch hu), fun i hi hhi hiN => ?_⟩
      have := htop.top i hi hiN
      omega
  | backfill =>
    obtain ⟨-, hq⟩ := Option.ite_none_left_eq_some.1 hq
    split at hq
    · next hnum =>
      cases hq
      refine recordable_markComplete fun i hi _ hiN => ?_
      have := htop.empty hnum i hi
      omega
    · cases hq
      exact ⟨hcp, covers_resumeHigh hcp htop⟩

/-- One turn of the descending scan. -/
lemma probed_band {low : Nat} (h : Probed srv.log N cutoff high found) (hlow : 0 < low) :
    Probed srv.log N cutoff (low - 1) ((probeWindow srv low high cutoff).1 ++ found) := by
  have hband : ∀ i ∈ srv.log.items, low ≤ i.key → i.key ≤ high → older cutoff i = true ∨
      i.key ∈ (probeWindow srv low high cutoff).1 := by
    intro i hi hlo hhi
    cases hold : older cutoff i with
    | true => exact .inl rfl
    | false =>
      refine .inr (mem_map.2 ⟨i, mem_filter.2 ⟨mem_filter.2 ⟨hi, ?_⟩, ?_⟩, rfl⟩)
      · simp [hlo, hhi]
      · simp [hold]
  have habove : ∀ i ∈ srv.log.items, low - 1 < i.key → i.key < N → older cutoff i = true ∨
      i.key ∈ (probeWindow srv low high cutoff).1 ++ found := by
    intro i hi hlo hiN
    by_cases hh : i.key ≤ high
    · exact (hband i hi (by omega) hh).imp_right fun hm => mem_append.2 (.inl hm)
    · exact (h.above i hi (by omega) hiN).imp_right fun hm => mem_append.2 (.inr hm)
  refine ⟨h.ordered, ?_, habove⟩
  intro u hu i hi hui hiN
  rcases mem_append.1 hu with hu | hu
  · -- a message of the band that is not dated before the cutoff: nor is any above it
    obtain ⟨m, hm, rfl⟩ := mem_map.1 hu
    obtain ⟨hm, hnew⟩ := mem_filter.1 hm
    obtain ⟨hm, hrange⟩ := mem_filter.1 hm
    simp only [Bool.and_eq_true, decide_eq_true_eq] at hrange
    have hnew' : ¬older cutoff m = true := by simpa using hnew
    refine (habove i hi (by omega) hiN).resolve_left fun hold => hnew' ?_
    by_cases he : m.key = i.key
    · rwa [eq_of_key hm hi he]
    · exact h.ordered m hm i hi (by omega) hiN hold
  · exact mem_append.2 (.inr (h.closed u hu i hi hui hiN))

lemma covered_probed (hcp : cp.Covered srv.log N t) (h : Probed srv.log N cutoff high found) :
    (probed win srv cp cutoff high found).Covered srv.log N t := by
  have hband := probed_band h (windowLow_pos win high)
  unfold probed
  simp only
  split
  · exact ⟨⟨hcp, hband.closed⟩, fun i _ hT => .inr hT.2⟩
  · exact ⟨hcp, hband⟩

/-- When all it had to store is stored, a phase may record it. -/
lemma covered_stored {w : Work} (hw : w.Covered log N t)
    (h : ∀ i ∈ log.items, w.Target N i.key → Stored t i.key) : w.stored.Covered log N t := by
  cases w with
  | recent cp uids =>
    refine ⟨⟨fun h₀ => ?_, hw.1.complete⟩, fun hst => noConfusion hst,
      fun hst => noConfusion hst⟩
    cases uids with
    | nil => exact hw.1.low h₀
    | cons u =>
      intro i hi hlo hiN
      exact h i hi ⟨hiN, hw.2 u mem_cons_self i hi hlo hiN⟩
  | window =>
    exact ⟨⟨fun _ i hi hlo hiN => h i hi ⟨hiN, hlo⟩, hw.1.complete⟩, fun _ => hw.2,
      fun hst => noConfusion hst⟩
  | delta => exact ⟨hw, fun i hi hlo hlt => h i hi ⟨hlo, hlt⟩⟩

lemma covered_recorded {st : BackfillState} {q : Pass} (h : Recordable log N t cp st)
    (hq : recorded win cp st = some q) : q.Covered log N t := by
  cases st with
  | inProgress =>
    cases hq
    have hpos := h.inProgress rfl
    refine covered_nextWindow h.covered ?_
    have : cp.uidLow - 1 + 1 = cp.uidLow := by omega
    rw [this]
    exact h.covered.low hpos
  | pending | recentDone | complete => cases hq

/-- The candidates of an incremental pass include every arrival. -/
lemma covered_candidates {c : Cursor} {delta : MailboxDelta} (h : DeltaKnown log N c sel delta) :
    (Pass.filter (newUIDCandidates c.uidNext delta) (.delta sel)).Covered log N t := by
  refine ⟨h.le, fun i hi hT => .inr (mem_newUIDCandidates.2 ?_)⟩
  obtain ⟨hlo, hlt⟩ := hT
  have hN : 0 < N := h.announced (by omega)
  refine ⟨by omega, fun hv => (h.gone _ hv).2 i hi rfl, .inl ?_⟩
  rw [h.start, h.uidNext]
  omega

end Next

/-! ## The moves -/

/-- The calls of a pass during which the records speak about one `N`: all but those
that write the cursor, and those before. -/
def Pass.walks : Pass → Bool
  | .load _ _ => true
  | .probe _ _ _ _ => true
  | .mark _ _ => true
  | .filter _ _ => true
  | .fetch _ _ _ => true
  | .save _ _ => true
  | .progress _ _ => true
  | .changes _ _ => true
  | .vanish _ _ _ => true
  | .flags _ _ _ => true
  | _ => false

section Moves

variable {win : Int} {mb mb' : Mailbox} {p : Pass} {next : Option Pass} {N : Nat}

/-- Such a call leaves the server and the cursor alone and loses no row. -/
lemma walks_keeps (hm : PassMove win mb p mb' next) (hw : p.walks = true) :
    mb'.server = mb.server ∧ mb'.cursor = mb.cursor ∧
      ∀ u, Stored mb.table u → Stored mb'.table u := by
  cases hm with
  | commit wanted uids fetched w id hid =>
    refine ⟨rfl, rfl, fun u hu => ?_⟩
    unfold Stored at hu ⊢
    rw [Table.has_insertMessages hid, hu]
    rfl
  | vanish => exact ⟨rfl, rfl, fun u hu => has_applyVanished.trans hu⟩
  | flags => exact ⟨rfl, rfl, fun u hu => has_applyFlagChanges.trans hu⟩
  | _ => first | exact ⟨rfl, rfl, fun _ hu => hu⟩ | cases hw

/-- **The promise of the records is kept**: by a call of a pass that knows what it
relies on, which then knows what it relies on next. -/
theorem covered_move (hm : PassMove win mb p mb' next) (hw : p.walks = true)
    (hN : N ≤ mb.server.log.next) (hrec : RecordsCover N mb)
    (hp : p.Covered mb.server.log N mb.table) :
    RecordsCover N mb' ∧ ∀ q, next = some q → q.Covered mb'.server.log N mb'.table := by
  have hkeep := (walks_keeps hm hw).2.2
  cases hm with
  | load =>
    refine ⟨hrec, fun q hq => covered_loaded hp.1 hp.2 ?_ hq⟩
    exact covered_loadMailboxCheckpoint hrec.checkpoint
  | probe =>
    refine ⟨hrec, fun q hq => ?_⟩
    cases hq
    exact covered_probed hp.1 hp.2
  | mark =>
    refine ⟨⟨hrec.checkpoint, hrec.low, fun h => noConfusion h⟩, fun q hq => ?_⟩
    cases hq
    exact covered_nextWindow hp.1 hp.2
  | filter =>
    refine ⟨hrec, fun q hq => ?_⟩
    cases hq
    exact ⟨hp.1, fun i hi hT => (stored_or_filterStored (hp.2 i hi hT)).imp_right .inl⟩
  | gone wanted fetched w u hno =>
    refine ⟨hrec, fun q hq => ?_⟩
    cases hq
    refine ⟨hp.1, fun i hi hT => (hp.2 i hi hT).imp_right (Or.imp_left fun h => ?_)⟩
    exact mem_filter.2 ⟨h, by simpa using hno i hi⟩
  | read =>
    refine ⟨hrec, fun q hq => ?_⟩
    cases hq
    exact ⟨hp.1, fun i hi hT => (hp.2 i hi hT).imp_right wanted_or_fetched⟩
  | commit wanted uids fetched w id hid =>
    have hg : Grows mb.server.log mb.table mb.server.log
        (mb.table.insertMessages id (fetched.filter fun p => uids.contains p.1)) :=
      Grows.of_stored hkeep
    refine ⟨hrec.grow hg hN rfl rfl rfl, fun q hq => ?_⟩
    cases hq
    refine ⟨hp.1.grow hg hN, fun i hi hT => ?_⟩
    rcases hp.2 i hi hT with h | h | h
    · exact .inl (hg.stored _ h)
    · exact .inr (.inl h)
    · exact (stored_or_left hid h).imp_right .inr
  | stored =>
    refine ⟨hrec, fun q hq => ?_⟩
    cases hq
    refine covered_stored hp.1 fun i hi hT => ?_
    rcases hp.2 i hi hT with h | h | h
    · exact h
    · cases h
    · cases h
  | save =>
    refine ⟨⟨fun cp' h => ?_, hrec.low, hrec.complete⟩, fun q hq => ?_⟩
    · cases h
      exact hp.covered
    · cases hq
      exact hp
  | progress =>
    refine ⟨⟨hrec.checkpoint, fun w h hw => ?_, fun h => hp.complete h⟩,
      fun q hq => covered_recorded hp hq⟩
    cases h
    exact hp.covered.low hw
  | changes c sel sets hs =>
    refine ⟨hrec, fun q hq => ?_⟩
    cases hq
    exact ⟨hp.1, hp.2.1, hp.2.2.1, rfl, forall_mem_append.2
      ⟨hp.2.2.2, fun _ => gone_of_collected hs⟩⟩
  | vanish c sel delta =>
    have hg : Grows mb.server.log mb.table mb.server.log (applyVanished delta.vanished mb.table) :=
      Grows.of_stored hkeep
    refine ⟨hrec.grow hg hN rfl rfl rfl, fun q hq => ?_⟩
    cases hq
    exact DeltaKnown.grow hg hp
  | flags c sel delta =>
    have hg : Grows mb.server.log mb.table mb.server.log
        (applyFlagChanges delta.changed mb.table) :=
      Grows.of_stored hkeep
    refine ⟨hrec.grow hg hN rfl rfl rfl, fun q hq => ?_⟩
    cases hq
    exact covered_candidates hp
  | _ => cases hw

end Moves

end Moov.Sync
