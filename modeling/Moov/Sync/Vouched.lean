import Moov.Sync.Coverage

/-!
# What a stored cursor stands for

The counterpart of the watermarks for a mailbox whose server moves on: `Vouched mb c`
says that the cursor `c`, stored now, would be true of the records and the flags, and
`Pass.Knows` what a pass knows at its next call, phase by phase, so that it is true of
the cursor it is about to store.

* `Vouched.ahead`, `Pass.Knows.ahead`: all of it stays true while the server moves on
  and passes come and go.
* `knows_walk`: so it does when a pass makes a call that leaves the cursor alone.

Two passes over one mailbox at a time are not covered: the knowledge of a pass is
about the cursor in the store.
-/

namespace Moov.Sync

open Moov.Store Moov.Versioned Moov.Versioned.Source Table

/-! ## Flags and tombstones -/

/-- Every live row shows the server's flags unless they changed after `h`. -/
def FlagsTrue (log : Log) (t : Table) (h : Nat) : Prop :=
  ∀ r ∈ t.rows, r.deleted = false → UpToDate Shows log h r.uid r.state

/-- A tombstone stands for a message that is gone. -/
def TombsGone (log : Log) (t : Table) : Prop :=
  ∀ r ∈ t.rows, r.deleted = true → Gone log r.uid

section Flags

variable {log log' : Log} {t : Table} {h h₀ id : Nat} {changed : List ChangedMessage}
  {new : List (Nat × FlagState)}

lemma FlagsTrue.later (hf : FlagsTrue log t h) (hl : Later log log') (hv : h ≤ log.version) :
    FlagsTrue log' t h :=
  fun r hr hd => (hf r hr hd).later hl hv

lemma FlagsTrue.mono (hf : FlagsTrue log t h) (hh : h₀ ≤ h) : FlagsTrue log t h₀ :=
  fun r hr hd => (hf r hr hd).mono hh

lemma TombsGone.later (ht : TombsGone log t) (hl : Later log log') : TombsGone log' t :=
  fun r hr hd => (ht r hr hd).later hl

lemma FlagsTrue.insert (hf : FlagsTrue log t h)
    (hid : t.freshFrom id = true) (hnew : ∀ x ∈ new, UpToDate Shows log h x.1 x.2) :
    FlagsTrue log (t.insertMessages id new) h := by
  intro r hr hd
  rcases mem_insertMessages hid hr with hr | ⟨hm, -⟩
  · exact hf r hr hd
  · exact hnew _ hm

lemma TombsGone.insert (ht : TombsGone log t)
    (hid : t.freshFrom id = true) : TombsGone log (t.insertMessages id new) := by
  intro r hr hd
  rcases mem_insertMessages hid hr with hr | ⟨-, hl⟩
  · exact ht r hr hd
  · rw [hd] at hl
    cases hl

lemma FlagsTrue.vanished {vanished : List Nat} (hf : FlagsTrue log t h) :
    FlagsTrue log (applyVanished vanished t) h := by
  intro r hr hd
  obtain ⟨r₀, hr₀, hu, hst, hdel⟩ := mem_applyVanished hr
  rcases hdel with hdel | ⟨hdel, -⟩
  · rw [← hu, ← hst]
    exact hf r₀ hr₀ (hdel ▸ hd)
  · rw [hd] at hdel
    cases hdel

lemma TombsGone.vanished {vanished : List Nat} (ht : TombsGone log t)
    (hg : ∀ u ∈ vanished, Gone log u) : TombsGone log (applyVanished vanished t) := by
  intro r hr hd
  obtain ⟨r₀, hr₀, hu, -, hdel⟩ := mem_applyVanished hr
  rcases hdel with hdel | ⟨-, hv⟩
  · exact hu ▸ ht r₀ hr₀ (hdel ▸ hd)
  · exact hg _ hv

/-- A message of the server with a row has a live one. -/
lemma TombsGone.live (ht : TombsGone log t) {m : ServerMessage}
    (hm : m ∈ log.items) (hs : Stored t m.key) : t.live m.key = true := by
  obtain ⟨r, hr⟩ := has_eq_true.1 hs
  refine live_eq_true.2 ⟨r, hr, ?_⟩
  have hmem := rowAt_eq_some.1 hr
  cases hd : r.deleted with
  | false => rfl
  | true => exact absurd hmem.2.symm ((ht r hmem.1 hd).2 m hm)

/-- What a change list collected at the version `h` is good for: it has the server's
flags, and everything that changed after `h₀`. -/
structure ChangesTrue (log : Log) (h₀ h : Nat) (changed : List ChangedMessage) : Prop where
  nodup : (changed.map ChangedMessage.uid).Nodup
  exact : ∀ ch ∈ changed, UpToDate Eq log h ch.uid ch.state
  all : ∀ i ∈ log.items, h₀ < i.version → i.version ≤ h → ∃ ch ∈ changed, ch.uid = i.key

lemma ChangesTrue.later (hc : ChangesTrue log h₀ h changed) (hl : Later log log')
    (hv : h ≤ log.version) : ChangesTrue log' h₀ h changed :=
  ⟨hc.nodup, fun ch hch => (hc.exact ch hch).later hl hv,
    fun i hi hlo hhi => hc.all i (hl.unchanged i hi (Nat.le_trans hhi hv)) hlo hhi⟩

/-- The change list `FetchChanges` answers with. -/
lemma changesTrue_collect {srv : ServerMailbox} :
    ChangesTrue srv.log h₀ h (collectChanges srv h₀) := by
  refine ⟨?_, ?_, ?_⟩
  · unfold collectChanges
    rw [List.map_map]
    exact (List.Sublist.map _ List.filter_sublist).nodup (key_nodup (s := srv.log))
  · intro ch hch
    obtain ⟨m, hm, rfl⟩ := List.mem_map.1 hch
    exact UpToDate.of_read (mem_changedSince.1 hm).1 rfl
  · intro i hi hlo _
    exact ⟨_, List.mem_map.2 ⟨i, mem_changedSince.2 ⟨hi, hlo⟩, rfl⟩, rfl⟩

/-- Applying the change list brings the rows from one version to the next. -/
lemma FlagsTrue.changes (hf : FlagsTrue log t h₀) (hc : ChangesTrue log h₀ h changed) :
    FlagsTrue log (applyFlagChanges changed t) h := by
  intro r' hr' hd i hi hk hv
  have hat := rowAt_of_mem hr'
  obtain ⟨r, hr⟩ := rowAt_of_mem_applyFlagChanges hr'
  obtain ⟨r₂, hr₂, hdel, -, hch, hno⟩ := rowAt_applyFlagChanges hc.nodup hr
  rw [hat] at hr₂
  cases hr₂
  by_cases hex : ∃ ch ∈ changed, ch.uid = r'.uid
  · obtain ⟨ch, hmem, hu⟩ := hex
    have hval : ch.state = i.value := hc.exact ch hmem i hi (hk.trans hu.symm) hv
    exact hval ▸ hch ch hmem hu
  · have hno' : ∀ ch ∈ changed, ch.uid ≠ r'.uid := fun ch hmem hu => hex ⟨ch, hmem, hu⟩
    have hle : i.version ≤ h₀ := by
      by_contra hlt
      obtain ⟨ch, hmem, hu⟩ := hc.all i hi (by omega) hv
      exact hno' ch hmem (hu.trans hk)
    rw [hno hno']
    have hmem := rowAt_eq_some.1 hr
    exact hf r hmem.1 (hdel ▸ hd) i hi (hk.trans hmem.2.symm) hle

lemma TombsGone.changes (ht : TombsGone log t) (hnd : (changed.map ChangedMessage.uid).Nodup) :
    TombsGone log (applyFlagChanges changed t) := by
  intro r' hr' hd
  have hat := rowAt_of_mem hr'
  obtain ⟨r, hr⟩ := rowAt_of_mem_applyFlagChanges hr'
  obtain ⟨r₂, hr₂, hdel, -⟩ := rowAt_applyFlagChanges hnd hr
  rw [hat] at hr₂
  cases hr₂
  have hmem := rowAt_eq_some.1 hr
  exact hmem.2 ▸ ht r hmem.1 (hdel ▸ hd)

end Flags

/-! ## What a cursor stands for, and what the passes know -/

section Definitions

variable (mb : Mailbox)

/-- The cursor `c`, stored now, would be true. -/
structure Vouched (c : Cursor) : Prop where
  uidValidity : c.uidValidity = mb.server.uidValidity
  uidNext : c.uidNext ≤ mb.server.log.next
  modSeq : c.highestModSeq ≤ mb.server.log.version
  announced : mb.server.announcesUIDNext = true → 0 < c.uidNext
  records : RecordsCover c.uidNext mb
  flags : FlagsTrue mb.server.log mb.table c.highestModSeq

/-- What a pass that resumes from `c` knows from its SELECT. -/
structure Resumed (c : Cursor) (sel : SelectResult) : Prop where
  uidValidity : sel.uidValidity = mb.server.uidValidity
  since : c.highestModSeq ≤ sel.highestModSeq
  modSeq : sel.highestModSeq ≤ mb.server.log.version
  announced : mb.server.announcesUIDNext = true → 0 < sel.uidNext

/-- The MODSEQ at which the copies of a fetch are good. -/
def Work.modSeq (c : Cursor) : Work → Nat
  | .delta sel => sel.highestModSeq
  | _ => c.highestModSeq

/-- An incremental pass that fetches has already brought the flags up to its SELECT. -/
def Work.Fresh (c : Cursor) : Work → Prop
  | .delta sel => Resumed mb c sel ∧ FlagsTrue mb.server.log mb.table sel.highestModSeq
  | _ => True

/-- What a pass knows beyond `Pass.Covered`. -/
def Pass.Fresh : Pass → Prop
  | .select _ known => known = 0 ∨ known = mb.server.uidValidity
  | .record _ known sel =>
      (known = 0 ∨ known = mb.server.uidValidity) ∧ Vouched mb (setMailboxSyncState sel)
  | .filter _ w => ∃ c, mb.cursor = some c ∧ w.Fresh mb c
  | .fetch _ fetched w => ∃ c, mb.cursor = some c ∧ w.Fresh mb c ∧
      ∀ x ∈ fetched, UpToDate Shows mb.server.log (w.modSeq c) x.1 x.2
  | .resume row => row = mb.cursor
  | .changes c sel => mb.cursor = some c ∧ Resumed mb c sel
  | .vanish c sel delta => mb.cursor = some c ∧ Resumed mb c sel ∧
      ChangesTrue mb.server.log c.highestModSeq sel.highestModSeq delta.changed
  | .flags c sel delta => mb.cursor = some c ∧ Resumed mb c sel ∧
      ChangesTrue mb.server.log c.highestModSeq sel.highestModSeq delta.changed
  | .advance sel => ∃ c, mb.cursor = some c ∧ (Work.delta sel).Fresh mb c
  | .status => mb.cursor = none
  | .seed c => mb.cursor = none ∧ Vouched mb c
  | _ => ∃ c, mb.cursor = some c

/-- The UIDNEXT the knowledge of a pass is about. -/
def Pass.bound : Pass → Nat
  | .record _ _ sel => sel.uidNext
  | _ => storedUIDNext mb.cursor

/-- What a pass knows. -/
structure Pass.Knows (p : Pass) : Prop where
  covered : p.Covered mb.server.log (p.bound mb) mb.table
  fresh : p.Fresh mb

/-- The mailbox was never selected. -/
structure Blank : Prop where
  rows : mb.table.rows = []
  checkpoint : mb.checkpoint = none
  low : mb.backfillUIDLow = none
  state : mb.backfillState ≠ .complete

/-- What is true of the store. -/
structure StoreTrue : Prop where
  tombs : TombsGone mb.server.log mb.table
  vouched : ∀ c, mb.cursor = some c → Vouched mb c
  blank : mb.cursor = none → Blank mb

/-- What is true of a mailbox after every careful step. -/
structure CursorInv : Prop where
  store : StoreTrue mb
  single : mb.passes.length ≤ 1
  passes : ∀ p ∈ mb.passes, p.Knows mb

end Definitions

section Consequences

variable {mb : Mailbox} {c : Cursor} {p : Pass} {N : Nat}

lemma Blank.recordsCover (h : Blank mb) : RecordsCover N mb := by
  refine ⟨fun cp hcp => ?_, fun w hw => ?_, fun hst => absurd hst h.state⟩
  · rw [h.checkpoint] at hcp
    cases hcp
  · rw [h.low] at hw
    cases hw

lemma Blank.flagsTrue (h : Blank mb) {log : Log} {v : Nat} : FlagsTrue log mb.table v := by
  intro r hr
  rw [h.rows] at hr
  cases hr

lemma StoreTrue.bound_le (h : StoreTrue mb) (hp : p.Fresh mb) :
    p.bound mb ≤ mb.server.log.next := by
  have hcur : storedUIDNext mb.cursor ≤ mb.server.log.next := by
    cases hc : mb.cursor with
    | none => exact Nat.zero_le _
    | some c => exact (h.vouched c hc).uidNext
  cases p with
  | record => exact hp.2.uidNext
  | _ => exact hcur

end Consequences

/-! ## The server moves on, passes come and go -/

/-- The store is the same, and the server moved on. -/
structure Ahead (mb mb' : Mailbox) : Prop where
  later : Later mb.server.log mb'.server.log
  uidValidity : mb'.server.uidValidity = mb.server.uidValidity
  announces : mb'.server.announcesUIDNext = mb.server.announcesUIDNext
  table : mb'.table = mb.table
  cursor : mb'.cursor = mb.cursor
  state : mb'.backfillState = mb.backfillState
  low : mb'.backfillUIDLow = mb.backfillUIDLow
  checkpoint : mb'.checkpoint = mb.checkpoint

section Ahead

variable {mb mb' : Mailbox} {c : Cursor} {sel : SelectResult} {p : Pass} {w : Work}

lemma ahead_passes (mb : Mailbox) (passes : List Pass) : Ahead mb { mb with passes := passes } :=
  ⟨Later.refl _, rfl, rfl, rfl, rfl, rfl, rfl, rfl⟩

variable (ha : Ahead mb mb')
include ha

lemma Ahead.grows : Grows mb.server.log mb.table mb'.server.log mb'.table :=
  ⟨ha.later, fun _ hu => ha.table ▸ hu⟩

theorem Vouched.ahead (h : Vouched mb c) : Vouched mb' c where
  uidValidity := h.uidValidity.trans ha.uidValidity.symm
  uidNext := Nat.le_trans h.uidNext ha.later.next_le
  modSeq := Nat.le_trans h.modSeq ha.later.version_le
  announced := fun hann => h.announced (ha.announces ▸ hann)
  records := h.records.grow ha.grows h.uidNext ha.checkpoint ha.low ha.state
  flags := ha.table ▸ h.flags.later ha.later h.modSeq

lemma Resumed.ahead (h : Resumed mb c sel) : Resumed mb' c sel where
  uidValidity := h.uidValidity.trans ha.uidValidity.symm
  since := h.since
  modSeq := Nat.le_trans h.modSeq ha.later.version_le
  announced := fun hann => h.announced (ha.announces ▸ hann)

lemma Work.Fresh.ahead (h : w.Fresh mb c) : w.Fresh mb' c := by
  cases w with
  | delta => exact ⟨h.1.ahead ha, ha.table ▸ h.2.later ha.later h.1.modSeq⟩
  | _ => trivial

omit ha in
lemma Work.Fresh.modSeq_le (h : w.Fresh mb c) (hv : Vouched mb c) :
    w.modSeq c ≤ mb.server.log.version := by
  cases w with
  | delta => exact h.1.modSeq
  | _ => exact hv.modSeq

lemma Pass.Fresh.ahead (hs : StoreTrue mb) (h : p.Fresh mb) : p.Fresh mb' := by
  cases p with
  | select => exact h.imp_right fun hk => hk.trans ha.uidValidity.symm
  | record =>
    exact ⟨h.1.imp_right fun hk => hk.trans ha.uidValidity.symm, h.2.ahead ha⟩
  | filter | advance =>
    obtain ⟨c, hc, hw⟩ := h
    exact ⟨c, ha.cursor.trans hc, hw.ahead ha⟩
  | fetch =>
    obtain ⟨c, hc, hw, hf⟩ := h
    refine ⟨c, ha.cursor.trans hc, hw.ahead ha, fun x hx => ?_⟩
    exact (hf x hx).later ha.later (hw.modSeq_le (hs.vouched c hc))
  | resume => exact h.trans ha.cursor.symm
  | changes | seed => exact ⟨ha.cursor.trans h.1, h.2.ahead ha⟩
  | vanish | flags =>
    exact ⟨ha.cursor.trans h.1, h.2.1.ahead ha, h.2.2.later ha.later h.2.1.modSeq⟩
  | status => exact ha.cursor.trans h
  | _ =>
    obtain ⟨c, hc⟩ := h
    exact ⟨c, ha.cursor.trans hc⟩

lemma Ahead.bound_eq : p.bound mb' = p.bound mb := by
  cases p with
  | record => rfl
  | _ => exact congrArg storedUIDNext ha.cursor

theorem Pass.Knows.ahead (hs : StoreTrue mb) (h : p.Knows mb) : p.Knows mb' where
  covered := by
    rw [ha.bound_eq]
    exact h.covered.grow ha.grows (hs.bound_le h.fresh)
  fresh := h.fresh.ahead ha hs

lemma StoreTrue.ahead (h : StoreTrue mb) : StoreTrue mb' where
  tombs := ha.table ▸ h.tombs.later ha.later
  vouched := fun c hc => (h.vouched c (ha.cursor ▸ hc)).ahead ha
  blank := fun hc =>
    have hb := h.blank (ha.cursor ▸ hc)
    ⟨ha.table ▸ hb.rows, ha.checkpoint.trans hb.checkpoint, ha.low.trans hb.low,
      ha.state ▸ hb.state⟩

end Ahead

/-! ## What a pass knows next -/

section Next

variable {win : Int} {mb mb' : Mailbox} {c : Cursor} {sel : SelectResult} {p q : Pass}
  {next : Option Pass} {cp : Checkpoint} {N high known : Nat} {w : Work} {k : Kind}

lemma fresh_loaded (hc : mb.cursor = some c) (hq : loaded cp sel k = some q) :
    q.Fresh mb := by
  cases k with
  | recent =>
    simp only [loaded] at hq
    split at hq
    · cases hq
    · split at hq
      · cases hq
        exact ⟨c, hc, trivial⟩
      · cases hq
        exact ⟨c, hc⟩
  | backfill =>
    simp only [loaded] at hq
    split at hq
    · cases hq
    · split at hq <;> cases hq <;> exact ⟨c, hc⟩

lemma fresh_probed {srv : ServerMailbox} {cutoff : Nat} {found : List Nat}
    (hc : mb.cursor = some c) : (probed win srv cp cutoff high found).Fresh mb := by
  unfold probed
  simp only
  split
  · exact ⟨c, hc, trivial⟩
  · exact ⟨c, hc⟩

lemma fresh_nextWindow (hc : mb.cursor = some c) : (nextWindow win cp high).Fresh mb := by
  unfold nextWindow
  split
  · exact ⟨c, hc⟩
  · exact ⟨c, hc, trivial⟩

lemma fresh_stored (hc : mb.cursor = some c) (hw : w.Fresh mb c) :
    w.stored.Fresh mb := by
  cases w with
  | delta => exact ⟨c, hc, hw⟩
  | _ => exact ⟨c, hc⟩

lemma fresh_recorded {st : BackfillState} (hc : mb.cursor = some c)
    (hq : recorded win cp st = some q) : q.Fresh mb := by
  cases st with
  | inProgress =>
    cases hq
    exact fresh_nextWindow hc
  | _ => cases hq

/-- A pass that walks has a cursor. -/
lemma Pass.Fresh.cursor (h : p.Fresh mb) (hw : p.walks = true) : ∃ c, mb.cursor = some c := by
  cases p with
  | load | probe | mark | save | progress => exact h
  | filter | fetch => exact h.imp fun c hc => hc.1
  | changes c | vanish c | flags c => exact ⟨c, h.1⟩
  | _ => cases hw

lemma Resumed.withTable (h : Resumed mb c sel) (t : Table) :
    Resumed { mb with table := t } c sel :=
  { h with }

/-- A batch of copies that are good at the MODSEQ of the work. -/
lemma Work.Fresh.insert {id : Nat} {new : List (Nat × FlagState)} (h : w.Fresh mb c)
    (hid : mb.table.freshFrom id = true)
    (hnew : ∀ x ∈ new, UpToDate Shows mb.server.log (w.modSeq c) x.1 x.2) :
    w.Fresh { mb with table := mb.table.insertMessages id new } c := by
  cases w with
  | delta => exact ⟨h.1.withTable _, h.2.insert hid hnew⟩
  | _ => trivial

lemma Work.Fresh.le_modSeq (h : w.Fresh mb c) : c.highestModSeq ≤ w.modSeq c := by
  cases w with
  | delta => exact h.1.since
  | _ => exact Nat.le_refl _

lemma nextWindow_ne_record : nextWindow win cp high ≠ .record k known sel := by
  unfold nextWindow
  split <;> exact nofun

lemma bound_of_walks (hw : p.walks = true) : p.bound mb = storedUIDNext mb.cursor := by
  cases p with
  | record => cases hw
  | _ => rfl

variable (hm : PassMove win mb p mb' next) (hw : p.walks = true)
include hm hw

/-- What a walking pass does to the flags and the tombstones. -/
lemma rowsTrue_move (hcur : mb.cursor = some c) (hs : StoreTrue mb) (hp : p.Knows mb) :
    FlagsTrue mb'.server.log mb'.table c.highestModSeq ∧ TombsGone mb'.server.log mb'.table := by
  have hflags := (hs.vouched c hcur).flags
  cases hm with
  | commit wanted uids fetched w id hid =>
    obtain ⟨c', hc', hfresh, hread⟩ := hp.fresh
    rw [hcur] at hc'
    cases hc'
    refine ⟨hflags.insert hid fun x hx => ?_, hs.tombs.insert hid⟩
    exact (hread x (List.mem_of_mem_filter hx)).mono hfresh.le_modSeq
  | vanish => exact ⟨hflags.vanished, hs.tombs.vanished hp.covered.gone⟩
  | flags =>
    obtain ⟨hc', hres, hch⟩ := hp.fresh
    rw [hcur] at hc'
    cases hc'
    exact ⟨(hflags.changes hch).mono hres.since, hs.tombs.changes hch.nodup⟩
  | _ => first | exact ⟨hflags, hs.tombs⟩ | cases hw

/-- What a walking pass knows of the flags next. -/
lemma fresh_move (hs : StoreTrue mb) (hf : p.Fresh mb) (hq : next = some q) : q.Fresh mb' := by
  obtain ⟨c, hcur⟩ := hf.cursor hw
  cases hm with
  | load => exact fresh_loaded hcur hq
  | probe =>
    cases hq
    exact fresh_probed hcur
  | mark =>
    cases hq
    exact fresh_nextWindow hcur
  | filter =>
    cases hq
    obtain ⟨c, hc, hfw⟩ := hf
    exact ⟨c, hc, hfw, nofun⟩
  | gone =>
    cases hq
    exact hf
  | read wanted fetched w m hmem =>
    cases hq
    obtain ⟨c, hc, hfw, hread⟩ := hf
    exact ⟨c, hc, hfw, Run.forall_mem_concat hread
      (UpToDate.of_read hmem (carries_sanitizeFlags m.value))⟩
  | commit wanted uids fetched w id hid =>
    cases hq
    obtain ⟨c, hc, hfw, hread⟩ := hf
    exact ⟨c, hc, hfw.insert hid fun x hx => hread x (List.mem_of_mem_filter hx),
      fun x hx => hread x (List.mem_of_mem_filter hx)⟩
  | stored =>
    cases hq
    obtain ⟨c, hc, hfw, -⟩ := hf
    exact fresh_stored hc hfw
  | save =>
    cases hq
    exact ⟨c, hcur⟩
  | progress => exact fresh_recorded hcur hq
  | changes =>
    cases hq
    exact ⟨hf.1, hf.2, changesTrue_collect⟩
  | vanish =>
    cases hq
    exact ⟨hf.1, hf.2.1.withTable _, hf.2.2⟩
  | flags c' =>
    cases hq
    exact ⟨c', hf.1, hf.2.1.withTable _, (hs.vouched c' hf.1).flags.changes hf.2.2⟩
  | _ => cases hw

/-- A walking pass does not select the mailbox anew. -/
lemma ne_record_of_move : next ≠ some (.record k known sel) := by
  intro hq
  cases hm with
  | load k' =>
    cases k' <;> simp only [loaded] at hq <;> split at hq
    · cases hq
    · split at hq <;> cases hq
    · cases hq
    · split at hq <;> cases hq
  | probe =>
    simp only [probed] at hq
    split at hq <;> cases hq
  | mark => exact nextWindow_ne_record (Option.some.inj hq)
  | stored w => cases w <;> cases hq
  | progress cp st =>
    cases st with
    | inProgress => exact nextWindow_ne_record (Option.some.inj hq)
    | _ => cases hq
  | _ => first | (cases hw; done) | cases hq

lemma bound_move (hq : next = some q) :
    q.bound mb' = storedUIDNext mb'.cursor := by
  cases q with
  | record => exact absurd hq (ne_record_of_move hm hw)
  | _ => rfl

/-- A walking pass keeps the store true and knows what it relies on next. -/
theorem knows_walk (hs : StoreTrue mb)
    (hp : p.Knows mb) : StoreTrue mb' ∧ ∀ q, next = some q → q.Knows mb' := by
  obtain ⟨c, hcur⟩ := hp.fresh.cursor hw
  obtain ⟨hsrv, hcur', -⟩ := walks_keeps hm hw
  have hv := hs.vouched c hcur
  have hN : p.bound mb = c.uidNext := by rw [bound_of_walks hw, hcur]; rfl
  obtain ⟨hrec, hcov⟩ := covered_move hm hw hv.uidNext hv.records (hN ▸ hp.covered)
  obtain ⟨hflags, htombs⟩ := rowsTrue_move hm hw hcur hs hp
  have hnow : mb'.cursor = some c := hcur'.trans hcur
  refine ⟨⟨htombs, fun c' hc' => ?_, fun hnone => ?_⟩, fun q hq =>
    ⟨?_, fresh_move hm hw hs hp.fresh hq⟩⟩
  · rw [hnow] at hc'
    cases hc'
    exact ⟨hsrv ▸ hv.uidValidity, hsrv ▸ hv.uidNext, hsrv ▸ hv.modSeq, hsrv ▸ hv.announced, hrec,
      hflags⟩
  · rw [hnow] at hnone
    cases hnone
  · rw [bound_move hm hw hq, hnow]
    exact hcov q hq

end Next

end Moov.Sync
