import Moov.Sync.Initial
import Moov.Sync.Vouched

/-!
# What the cursor of a mailbox vouches for

Every interleaving of server changes, recent, backfill and incremental passes,
creations, failures and kills, over any number of mailboxes.  `Mailbox.Vouches` is
the promise of a stored cursor: every server message below its UIDNEXT and at or
above a recorded watermark has a live row, and every live row shows the server's
flags unless they changed after its HIGHESTMODSEQ.

`cursor_vouches` proves it in every state reached by a run whose steps meet four
conditions (`careful`): no pass over a mailbox starts while another one is under
way; none of them skips a message; when an initial phase selects a mailbox, UIDNEXT and
HIGHESTMODSEQ are those of the stored cursor, if there is one (`standsStill`); and the
dates are in order when it is the recent phase.  The third condition is needed because
`selectMailbox` overwrites the cursor before the messages it then vouches for are read:
`arrival_between_phases` is a run with one delivery between the two phases, after
which the message is stored by nobody.
-/

namespace Moov.Sync

open Moov.Store Moov.Versioned Moov.Versioned.Source List

/-! ## The property and the conditions -/

/-- The watermarks on record; a mailbox that is complete is stored from UID 1 on. -/
def Mailbox.watermarks (mb : Mailbox) : List Nat :=
  (match mb.checkpoint with
    | none => []
    | some cp => cp.uidLow :: if cp.complete then [1] else []) ++
  mb.backfillUIDLow.toList ++ if mb.backfillState = .complete then [1] else []

/-- The promise of the stored cursor.  A watermark of zero means "nothing yet". -/
structure Mailbox.Vouches (mb : Mailbox) (c : Cursor) : Prop where
  stored : ∀ w ∈ mb.watermarks, 0 < w →
    Covers mb.server.log w c.uidNext fun u => mb.table.live u = true
  flags : ∀ r ∈ mb.table.rows, r.deleted = false →
    UpToDate Shows mb.server.log c.highestModSeq r.uid r.state

instance (mb : Mailbox) (c : Cursor) : Decidable (mb.Vouches c) :=
  decidable_of_iff ((∀ w ∈ mb.watermarks, 0 < w →
        Covers mb.server.log w c.uidNext fun u => mb.table.live u = true) ∧
      ∀ r ∈ mb.table.rows, r.deleted = false →
        UpToDate Shows mb.server.log c.highestModSeq r.uid r.state)
    ⟨fun h => ⟨h.1, h.2⟩, fun h => ⟨h.stored, h.flags⟩⟩

/-- Nothing has happened on the server since the stored cursor: a SELECT would answer
with its UIDNEXT and its HIGHESTMODSEQ. -/
def standsStill (mb : Mailbox) : Bool :=
  mb.cursor.all fun c =>
    decide (c = setMailboxSyncState (selectQResync mb.server 0 0 ⟨[], [], []⟩))

/-- The conditions on a step. -/
def careful (mb : Mailbox) (a : Action) : Bool :=
  (match a with
    | .start _ => decide (mb.passes = [])
    | _ => a.stores) &&
  ((mb.selects a).isNone || standsStill mb) && recentInOrder mb a

/-! ## The calls that read or write the cursor -/

open Mailbox

section Calls

variable {win : Int} {mb mb' : Mailbox} {c : Cursor} {sel : SelectResult} {p : Pass}
  {next : Option Pass} {N known modSeq : Nat} {van : Vanished}

/-- The records promise what their watermarks say. -/
lemma recordsCover_iff : RecordsCover N mb ↔
    ∀ w ∈ mb.watermarks, 0 < w → Covers mb.server.log w N (Stored mb.table) := by
  constructor
  · intro h w hw hpos
    simp only [watermarks, mem_append, Option.mem_toList] at hw
    rcases hw with (hw | hw) | hw
    · cases hcp : mb.checkpoint with
      | none => simp [hcp] at hw
      | some cp =>
        simp only [hcp, mem_cons] at hw
        rcases hw with rfl | hw
        · exact (h.checkpoint cp hcp).low hpos
        · split at hw
          · next hc =>
            rw [mem_singleton.1 hw]
            exact (h.checkpoint cp hcp).complete hc
          · cases hw
    · exact h.low w hw hpos
    · split at hw
      · next hst =>
        rw [mem_singleton.1 hw]
        exact h.complete hst
      · cases hw
  · intro h
    refine ⟨fun cp hcp => ⟨fun hpos => h _ ?_ hpos, fun hc => h 1 ?_ Nat.one_pos⟩,
      fun w hw hpos => h w ?_ hpos, fun hst => h 1 ?_ Nat.one_pos⟩
    · simp [watermarks, hcp]
    · simp [watermarks, hcp, hc]
    · simp [watermarks, hw]
    · simp [watermarks, hst]

/-- A cursor that would be true vouches for what it should. -/
lemma Vouched.vouches (h : Vouched mb c) (ht : TombsGone mb.server.log mb.table) :
    mb.Vouches c where
  stored := fun w hw hpos i hi hlo hlt =>
    ht.live hi (recordsCover_iff.1 h.records w hw hpos i hi hlo hlt)
  flags := h.flags

lemma uidNext_selectQResync_le (known modSeq : Nat) (van : Vanished) :
    (selectQResync mb.server known modSeq van).uidNext ≤ mb.server.log.next := by
  unfold selectQResync
  split
  · exact Nat.le_refl _
  · exact Nat.zero_le _

lemma announced_selectQResync (known modSeq : Nat) (van : Vanished)
    (h : mb.server.announcesUIDNext = true) :
    0 < (selectQResync mb.server known modSeq van).uidNext := by
  unfold selectQResync
  simp only [h, if_true]
  exact mb.server.log.next_pos

/-- A cursor read from the server now: it is the stored one, or the first. -/
lemma vouched_select (hs : StoreTrue mb) (hn : standsStill mb = true) :
    Vouched mb (setMailboxSyncState (selectQResync mb.server known modSeq van)) := by
  cases hcur : mb.cursor with
  | none =>
    have hb := hs.blank hcur
    exact ⟨rfl, uidNext_selectQResync_le known modSeq van, Nat.min_le_left _ _,
      announced_selectQResync known modSeq van, hb.recordsCover, hb.flagsTrue⟩
  | some c =>
    rw [standsStill, hcur] at hn
    have hc := hs.vouched c hcur
    rw [of_decide_eq_true hn] at hc
    exact hc

/-- The SELECT of an initial phase, below the UIDNEXT it announced. -/
lemma topKnown_uidNext :
    TopKnown mb.server.log (selectQResync mb.server known 0 ⟨[], [], []⟩).uidNext
      (selectQResync mb.server known 0 ⟨[], [], []⟩) := by
  cases ha : mb.server.announcesUIDNext with
  | true =>
    have hnext : (selectQResync mb.server known 0 ⟨[], [], []⟩).uidNext = mb.server.log.next := by
      simp [selectQResync, ha]
    rw [hnext]
    exact topKnown_select (by simp [topAnnounced, ha]) known
  | false =>
    have hnext : (selectQResync mb.server known 0 ⟨[], [], []⟩).uidNext = 0 := by
      simp [selectQResync, ha]
    rw [hnext]
    exact ⟨fun _ i _ => Nat.zero_le _, fun i _ h => absurd h (Nat.not_lt_zero _)⟩

lemma Vouched.setCursor (h : Vouched mb c) (c' : Option Cursor) :
    Vouched { mb with cursor := c' } c :=
  { h with records := { h.records with } }

/-- Storing a cursor that would be true. -/
lemma StoreTrue.setCursor (hs : StoreTrue mb) (h : Vouched mb c) :
    StoreTrue { mb with cursor := some c } where
  tombs := hs.tombs
  vouched := fun c' hc' => by
    cases hc'
    exact h.setCursor _
  blank := nofun

/-- The cursor an incremental pass ends with. -/
lemma vouched_advance (hs : StoreTrue mb) (hp : (Pass.advance sel).Knows mb) :
    Vouched mb (setMailboxSyncState sel) := by
  obtain ⟨hle, hcov⟩ := hp.covered
  obtain ⟨c, hcur, hres, hflags⟩ := hp.fresh
  have hv := hs.vouched c hcur
  have hN : (Pass.advance sel).bound mb = c.uidNext := by
    show storedUIDNext mb.cursor = c.uidNext
    rw [hcur]
    rfl
  rw [hN] at hcov
  refine ⟨hres.uidValidity, hle, Nat.le_trans (Nat.min_le_left _ _) hres.modSeq, hres.announced,
    ?_, hflags.mono (Nat.min_le_left _ _)⟩
  refine recordsCover_iff.2 fun w hw hpos => ?_
  exact (recordsCover_iff.1 hv.records w hw hpos).append hcov

/-- What an incremental pass knows from its SELECT. -/
lemma knows_changes (hs : StoreTrue mb) (hcur : mb.cursor = some c)
    (hv : van.valid mb.server c.highestModSeq = true) :
    (Pass.changes c (selectQResync mb.server c.uidValidity c.highestModSeq van)).Knows mb := by
  have hvc := hs.vouched c hcur
  have hN : storedUIDNext mb.cursor = c.uidNext := by
    rw [hcur]
    rfl
  refine ⟨⟨hN.symm, fun hpos => ?_, uidNext_selectQResync_le _ _ _, fun u hu => ?_⟩, hcur,
    rfl, hvc.modSeq, Nat.le_refl _, announced_selectQResync _ _ _⟩
  · show 0 < storedUIDNext mb.cursor
    rw [hN]
    refine hvc.announced ?_
    cases ha : mb.server.announcesUIDNext with
    | true => rfl
    | false => simp [selectQResync, ha] at hpos
  · exact gone_of_selectQResync (Vanished.valid_spares hv).1 hu

/-- **One call of a pass** keeps the store true, and the pass knows what it relies on
next, provided the server stood still when the call is the SELECT of an initial phase. -/
theorem knows_move (hm : PassMove win mb p mb' next) (hs : StoreTrue mb) (hp : p.Knows mb)
    (hsel : ∀ k known, p = .select k known → standsStill mb = true ∧
      ∀ N, k.Ordered mb.server.log N) :
    StoreTrue mb' ∧ ∀ q, next = some q → q.Knows mb' := by
  by_cases hw : p.walks = true
  · exact knows_walk hm hw hs hp
  cases hm with
  | select k known =>
    obtain ⟨hn, hord⟩ := hsel k known rfl
    refine ⟨hs, fun q hq => ?_⟩
    cases hq
    exact ⟨⟨hord _, topKnown_uidNext⟩, hp.fresh, vouched_select hs hn⟩
  | record =>
    refine ⟨hs.setCursor hp.fresh.2, fun q hq => ?_⟩
    cases hq
    exact ⟨hp.covered, _, rfl⟩
  | invalidate k known sel h₀ h =>
    -- the UIDVALIDITY of the mailbox is the one that was known
    rcases hp.fresh.1 with hk | hk
    · exact absurd hk h₀
    · exact absurd (hp.fresh.2.uidValidity.trans hk.symm) h
  | noCursor => exact ⟨hs, nofun⟩
  | resync c h₀ h =>
    have hcur : mb.cursor = some c := hp.fresh.symm
    exact absurd (hs.vouched c hcur).uidValidity.symm h
  | resume c van h₀ hv =>
    refine ⟨hs, fun q hq => ?_⟩
    cases hq
    exact knows_changes hs hp.fresh.symm hv
  | advance => exact ⟨hs.setCursor (vouched_advance hs hp), nofun⟩
  | status =>
    refine ⟨hs, fun q hq => ?_⟩
    cases hq
    have hcur : mb.cursor = none := hp.fresh
    exact ⟨trivial, hcur, vouched_select hs (by simp [standsStill, hcur])⟩
  | seed => exact ⟨hs.setCursor hp.fresh.2, nofun⟩
  | _ => exact absurd rfl hw

end Calls

/-! ## Steps -/

section Steps

variable {win : Int} {mb mb' : Mailbox} {a : Action}

lemma cursorInv_discovered (srv : ServerMailbox) : CursorInv (Mailbox.discovered srv) where
  store :=
    { tombs := nofun
      vouched := nofun
      blank := fun _ => ⟨rfl, rfl, rfl, nofun⟩ }
  single := Nat.zero_le _
  passes := nofun

/-- What `careful` says of the SELECT of an initial phase. -/
lemma careful_select {i known : Nat} {reply : Reply} {k : Kind}
    (hg : careful mb (.advance i reply) = true) (hp : mb.passes[i]? = some (.select k known)) :
    standsStill mb = true ∧ ∀ N, k.Ordered mb.server.log N := by
  simp only [careful, recentInOrder, selects, hp, Bool.and_eq_true, Option.isNone_some,
    Bool.false_or] at hg
  cases k with
  | recent => exact ⟨hg.1.2, fun N => datesAscend_of_datesInOrder hg.2⟩
  | backfill => exact ⟨hg.1.2, fun N => trivial⟩

/-- A careful step skips nothing. -/
lemma stores_of_careful (hg : careful mb a = true) : a.stores = true := by
  cases a with
  | advance => exact (Bool.and_eq_true_iff.1 (Bool.and_eq_true_iff.1 hg).1).1
  | _ => rfl

/-- What a pass knows before its first call. -/
lemma knows_start (hs : StoreTrue mb) (s : Start) : (s.pass mb.cursor).Knows mb := by
  cases s with
  | incremental => exact ⟨trivial, rfl⟩
  | initial =>
    refine ⟨trivial, ?_⟩
    show (mailboxCursor mb.cursor).1 = 0 ∨ (mailboxCursor mb.cursor).1 = mb.server.uidValidity
    cases hc : mb.cursor with
    | none => exact .inl rfl
    | some c => exact .inr (hs.vouched c hc).uidValidity

/-- **The step lemma.** -/
theorem cursorInv_step (hI : CursorInv mb) (hg : careful mb a = true)
    (h : mb.step win a = some mb') : CursorInv mb' := by
  cases step_move h (stores_of_careful hg) with
  | serve a log hsrv hl =>
    have ha : Ahead mb (mb.serve log) := ⟨hl, rfl, rfl, rfl, rfl, rfl, rfl, rfl⟩
    exact ⟨hI.store.ahead ha, hI.single, fun p hp => (hI.passes p hp).ahead ha hI.store⟩
  | start s =>
    have hnil : mb.passes = [] := by simpa [careful, recentInOrder, selects] using hg
    have ha := ahead_passes mb (mb.passes ++ [s.pass mb.cursor])
    refine ⟨hI.store.ahead ha, by simp [hnil], fun p hp => ?_⟩
    simp only [hnil, nil_append, mem_singleton] at hp
    rw [hp]
    exact (knows_start hI.store s).ahead ha hI.store
  | move i reply p mb₁ next hp hm =>
    have hsel : ∀ k known, p = .select k known → standsStill mb = true ∧
        ∀ N, k.Ordered mb.server.log N := by
      rintro k known rfl
      exact careful_select hg hp
    obtain ⟨hstore, hnext⟩ := knows_move hm hI.store (hI.passes p (mem_of_getElem? hp)) hsel
    rw [continueAt_single hI.single hp]
    have ha := ahead_passes mb₁ next.toList
    refine ⟨hstore.ahead ha, ?_, fun q hq => ?_⟩
    · cases next <;> simp
    · exact (hnext q (Option.mem_toList.1 hq)).ahead ha hstore
  | drop a passes hsub hlen =>
    have ha := ahead_passes mb passes
    exact ⟨hI.store.ahead ha, Nat.le_trans hlen hI.single,
      fun p hp => (hI.passes p (hsub p hp)).ahead ha hI.store⟩

end Steps

/-! ## The mailboxes of an account -/

/-- The mailboxes of an account. -/
abbrev World := List Mailbox

/-- What can happen: `ApplyMailboxCreate`, or an action in one of the mailboxes. -/
inductive WorldAction
  | create (uidValidity : Nat) (announces : Bool)
  | mailbox (i : Nat) (a : Action)
  deriving DecidableEq

/-- The mailboxes the server has, before any of them was selected. -/
def World.discovered (srvs : List ServerMailbox) : World := srvs.map Mailbox.discovered

/-- A mailbox `ApplyMailboxCreate` has created on the server, before its STATUS. -/
def Mailbox.created (uidValidity : Nat) (announces : Bool) (h : 0 < uidValidity) : Mailbox :=
  { Mailbox.discovered ⟨uidValidity, announces, empty, h⟩ with passes := [.status] }

/-- One step of the account. -/
def World.step (win : Int) (w : World) : WorldAction → Option World
  | .create uidValidity announces =>
      if h : 0 < uidValidity then some (w ++ [Mailbox.created uidValidity announces h]) else none
  | .mailbox i a =>
      match w[i]? with
      | none => none
      | some mb => (mb.step win a).map fun mb' => w.set i mb'

/-- The conditions on a step of the account. -/
def World.careful (w : World) : WorldAction → Bool
  | .create _ _ => true
  | .mailbox i a => w[i]?.all fun mb => Sync.careful mb a

lemma cursorInv_created (uidValidity : Nat) (announces : Bool) (h : 0 < uidValidity) :
    CursorInv (Mailbox.created uidValidity announces h) := by
  have ha := ahead_passes (discovered ⟨uidValidity, announces, empty, h⟩) [.status]
  have hI := cursorInv_discovered ⟨uidValidity, announces, empty, h⟩
  exact ⟨hI.store.ahead ha, Nat.le_refl _, forall_mem_singleton.2 ⟨trivial, rfl⟩⟩

/-- A step of the account keeps what is true of every mailbox. -/
lemma World.inv_step {win : Int} {w w' : World} {a : WorldAction}
    (hI : ∀ mb ∈ w, CursorInv mb) (hg : w.careful a = true) (h : w.step win a = some w') :
    ∀ mb ∈ w', CursorInv mb := by
  cases a with
  | create =>
    simp only [World.step] at h
    split at h
    · cases h
      exact Run.forall_mem_concat hI (cursorInv_created _ _ _)
    · cases h
  | mailbox i a =>
    simp only [World.step] at h
    split at h
    · cases h
    · next mb hmb =>
      obtain ⟨mb', hstep, rfl⟩ := Option.map_eq_some_iff.1 h
      have hga : Sync.careful mb a = true := by simpa [World.careful, hmb] using hg
      exact Run.forall_mem_set hI (cursorInv_step (hI mb (mem_of_getElem? hmb)) hga hstep)

/-- **The cursor keeps its promise.**  In every state reached by careful steps, the
cursor of every mailbox vouches for what is stored: the messages below its UIDNEXT
and at or above a watermark, and the flags up to its HIGHESTMODSEQ. -/
theorem cursor_vouches (win : Int) (srvs : List ServerMailbox) (as : List WorldAction) (w : World)
    (hg : Run.Guarded (World.step win) (fun w a => w.careful a = true) (World.discovered srvs) as)
    (hrun : Run.exec (World.step win) (World.discovered srvs) as = some w) :
    ∀ mb ∈ w, ∀ c, mb.cursor = some c → mb.Vouches c := by
  have hI : ∀ mb ∈ w, CursorInv mb := by
    refine Run.inv_exec (fun s a s' hga hs h => World.inv_step hs hga h) ?_ hg hrun
    intro mb hmb
    obtain ⟨srv, -, rfl⟩ := mem_map.1 hmb
    exact cursorInv_discovered srv
  intro mb hmb c hc
  exact ((hI mb hmb).store.vouched c hc).vouches (hI mb hmb).store.tombs

/-- A mailbox with one message. -/
def oneDated (date : Nat) : ServerMailbox := announcing (empty.add 0 (some date) ⟨0, []⟩)

/-- An incremental pass with nothing vanished, over the arrivals it has to fetch. -/
def incrementalPass (fetches : List Action) : List Action :=
  [.start .incremental, .advance 0 (.vanished ⟨[], [], []⟩), .advance 0 (.vanished ⟨[], [], []⟩),
    .advance 0 .ok, .advance 0 .ok, .advance 0 .ok] ++ fetches ++ [.advance 0 .ok, .advance 0 .ok]

/-- The fetch of one message. -/
def fetchOne (uid id : Nat) : List Action :=
  [.advance 0 (.read uid), .advance 0 (.commit [uid] id)]

/-- A message arrives between the two phases of the initial sync, and an incremental
pass picks it up before the backfill selects the mailbox; its flags change, and the
backfill is killed once. -/
def arrivalPickedUp : List Action :=
  recentPhase (fetchOne 1 1) ++ [.deliver 0 (some 120) ⟨0, []⟩] ++ incrementalPass (fetchOne 2 2) ++
    [.start (.initial .backfill), .advance 0 .ok, .setFlags 2 ⟨1, ["seen"]⟩, .kill] ++
    incrementalPass [] ++ backfillNone

/-- A mailbox is created, with a message that arrives before its STATUS. -/
def createdMeanwhile : List WorldAction :=
  [.create 9 true, .mailbox 1 (.deliver 0 none ⟨0, []⟩), .mailbox 1 (.advance 0 .ok),
    .mailbox 1 (.advance 0 .ok)]

/-- A message arrives between the two phases, and the backfill runs first. -/
def arrivalSkipped : List Action :=
  recentPhase (fetchOne 1 1) ++ [.deliver 0 (some 120) ⟨0, []⟩] ++ backfillNone ++
    incrementalPass []

theorem cursor_vouches_arrivalPickedUp :
    ∃ w, Run.exec (World.step 0) (World.discovered [oneDated 100])
        (arrivalPickedUp.map (.mailbox 0) ++ createdMeanwhile) = some w ∧
      (w.map fun mb => (mb.cursor.isSome, mb.watermarks, mb.table.rows.map Row.uid)) =
        [(true, [1, 1, 1, 1], [1, 2]), (true, [], [])] ∧
      ∀ mb ∈ w, ∀ c, mb.cursor = some c → mb.Vouches c :=
  Run.exists_of_guarded (by decide +kernel) (by decide +kernel) fun w hg hrun _ =>
    cursor_vouches 0 [oneDated 100] _ w hg hrun

/-- A message arrives between the two phases.  The SELECT of the backfill moves the
cursor past it, the watermark says that everything from UID 1 on is stored, and the
incremental pass that follows starts above it: nobody fetches it. -/
theorem arrival_between_phases : ∃ w, Run.exec (World.step 0) (World.discovered [oneDated 100])
        (arrivalSkipped.map (.mailbox 0)) = some w ∧
      ∃ mb ∈ w, mb.cursor = some ⟨7, 3, 3⟩ ∧ mb.backfillUIDLow = some 1 ∧
        mb.server.messages.map Item.key = [1, 2] ∧ mb.table.rows.map Row.uid = [1] ∧
        mb.passes = [] ∧ ¬mb.Vouches ⟨7, 3, 3⟩ :=
  Run.exists_exec (by decide +kernel)

/-- Two incremental passes over a message whose flags change twice: the first reads
the first change, the second pass stores the second change and the cursor, and the
first pass writes what it read and dies. -/
def overlappingPasses : List Action :=
  recentPhase (fetchOne 1 1) ++
    [.setFlags 1 ⟨1, []⟩, .start .incremental, .advance 0 (.vanished ⟨[], [], []⟩),
      .advance 0 (.vanished ⟨[], [], []⟩), .advance 0 .ok, .setFlags 1 ⟨2, []⟩,
      .start .incremental, .advance 1 (.vanished ⟨[], [], []⟩),
      .advance 1 (.vanished ⟨[], [], []⟩), .advance 1 .ok, .advance 1 .ok, .advance 1 .ok,
      .advance 1 .ok, .advance 1 .ok, .advance 0 .ok, .kill]

/-- Why a pass must not start while another one is under way: the row keeps flags
the server no longer has, under a cursor that says they were read. -/
lemma flags_of_overlapping_passes :
    ∃ mb, Run.exec (Mailbox.step 0) (Mailbox.discovered (oneDated 100)) overlappingPasses =
      some mb ∧
      mb.cursor = some ⟨7, 2, 4⟩ ∧ mb.table.rows.map (·.state.flags) = [1] ∧
      mb.server.messages.map (·.value.flags) = [2] ∧ mb.passes = [] ∧ ¬mb.Vouches ⟨7, 2, 4⟩ :=
  Run.exists_exec (by decide +kernel)

end Moov.Sync
