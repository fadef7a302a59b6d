import Moov.Sync.Coverage

/-!
# The initial sync of a mailbox that stands still

Phase A (`runRecent`) and phase B (`backfillMailbox`) over one mailbox, killed and
resumed at will, in any order and even side by side.  When either record says that
the mailbox is complete, the stored UIDs are the server's UIDs
(`complete_stores_all`), for every mailbox and every window size, provided

* the server announces UIDNEXT, or no UID exceeds the number of messages, so that
  `highestUID` is at least the highest UID; and
* whenever the recent phase selects the mailbox, the messages dated before its
  cutoff come first in the order of the UIDs (`recentInOrder`).

Without the second the recent phase hands the backfill a watermark with holes above
it: `complete_with_a_hole` is a mailbox of two messages, the later one with the
earlier date, which is recorded complete with one of them missing.
-/

namespace Moov.Sync

open Moov.Store Moov.Versioned Moov.Versioned.Source List

/-- The records say that the mailbox is fully local: the checkpoint, or the
mailbox row. -/
def Mailbox.recordedComplete (mb : Mailbox) : Bool :=
  mb.checkpoint.any (·.complete) || decide (mb.backfillState = .complete)

/-- The actions of an initial sync: its two phases, kills and failures. -/
def Action.initialSync : Action → Bool
  | .start (.initial _) => true
  | .advance _ _ => true
  | .fail _ => true
  | .kill => true
  | _ => false

/-- The phase, if any, whose SELECT the action answers. -/
def Mailbox.selects (mb : Mailbox) : Action → Option Kind
  | .advance i _ =>
      match mb.passes[i]? with
      | some (.select k _) => some k
      | _ => none
  | _ => none

/-- The messages dated before the cutoff come first. -/
def datesInOrder (srv : ServerMailbox) (cutoff : Nat) : Bool :=
  srv.messages.all fun i => srv.messages.all fun j =>
    decide (i.key < j.key → older cutoff j = true → older cutoff i = true)

/-- When a recent phase selects the mailbox, its dates are in order. -/
def recentInOrder (mb : Mailbox) (a : Action) : Bool :=
  match mb.selects a with
  | some (.recent cutoff) => datesInOrder mb.server cutoff
  | _ => true

/-- `highestUID` of a SELECT is at least the highest UID. -/
def topAnnounced (srv : ServerMailbox) : Bool :=
  srv.announcesUIDNext || srv.messages.all fun m => decide (m.key ≤ srv.messages.length)

/-! ## What holds along the way -/

/-- The work belongs to a phase of the initial sync. -/
def Work.Initial : Work → Prop
  | .delta _ => False
  | _ => True

/-- The pass belongs to an initial sync of the mailbox `srv`. -/
def Pass.Initial (srv : ServerMailbox) : Pass → Prop
  | .select _ known => known = 0 ∨ known = srv.uidValidity
  | .record _ known sel =>
      (known = 0 ∨ known = srv.uidValidity) ∧ sel.uidValidity = srv.uidValidity
  | .load _ _ => True
  | .probe _ _ _ _ => True
  | .mark _ _ => True
  | .filter _ w => w.Initial
  | .fetch _ fetched w => w.Initial ∧ ∀ p ∈ fetched, srv.log.mem p.1 = true
  | .save _ _ => True
  | .progress _ _ => True
  | _ => False

/-- What the store has of the mailbox `srv` while it is synced. -/
structure StoreInitial (srv : ServerMailbox) (mb : Mailbox) : Prop where
  server : mb.server = srv
  cursor : ∀ c, mb.cursor = some c → c.uidValidity = srv.uidValidity
  rows : ∀ u, Stored mb.table u → srv.log.mem u = true
  records : RecordsCover srv.log.next mb

/-- And what the passes know. -/
structure InitialInv (srv : ServerMailbox) (mb : Mailbox) : Prop where
  store : StoreInitial srv mb
  passes : ∀ p ∈ mb.passes, p.Initial srv ∧ p.Covered srv.log srv.log.next mb.table

lemma initialInv_discovered (srv : ServerMailbox) : InitialInv srv (Mailbox.discovered srv) where
  store :=
    { server := rfl
      cursor := nofun
      rows := nofun
      records := ⟨nofun, nofun, nofun⟩ }
  passes := nofun

section Steps

variable {win : Int} {srv : ServerMailbox} {mb mb' : Mailbox} {p q : Pass} {next : Option Pass}

/-- The SELECT of a mailbox that stands still reaches its top. -/
lemma topKnown_select (htop : topAnnounced srv = true) (known : Nat) :
    TopKnown srv.log srv.log.next (selectQResync srv known 0 ⟨[], [], []⟩) := by
  refine ⟨fun h₀ i hi => ?_, fun i hi _ => ?_⟩
  · have hnil : srv.messages = [] := length_eq_zero_iff.1 h₀
    have hi' : i ∈ srv.messages := hi
    rw [hnil] at hi'
    cases hi'
  · have hpos := srv.log.key_pos i hi
    unfold topAnnounced at htop
    unfold highestUID selectQResync
    cases ha : srv.announcesUIDNext with
    | true =>
      simp only [if_true]
      rw [if_pos (by omega)]
      omega
    | false =>
      simp only [ha, Bool.false_or, all_eq_true, decide_eq_true_eq] at htop
      simpa using htop i hi

lemma datesAscend_of_datesInOrder {cutoff N : Nat} (h : datesInOrder srv cutoff = true) :
    DatesAscend srv.log N cutoff := by
  intro i hi j hj hij _ hold
  have := all_eq_true.1 (all_eq_true.1 h i hi) j hj
  exact of_decide_eq_true this hij hold

/-- The passes that follow a pass of the initial sync belong to it too. -/
lemma initial_next (hm : PassMove win mb p mb' next) (hw : p.walks = true)
    (hsrv : mb.server = srv) (hp : p.Initial srv) (hq : next = some q) : q.Initial srv := by
  cases hm with
  | load k =>
    cases k with
    | recent | backfill =>
      simp only [loaded] at hq
      split at hq
      · cases hq
      · split at hq <;> cases hq <;> trivial
  | probe =>
    cases hq
    unfold probed
    simp only
    split <;> trivial
  | mark =>
    cases hq
    unfold nextWindow
    split <;> trivial
  | filter =>
    cases hq
    refine ⟨hp, fun x hx => ?_⟩
    cases hx
  | gone =>
    cases hq
    exact hp
  | read wanted fetched w m hmem =>
    cases hq
    exact ⟨hp.1, Run.forall_mem_concat hp.2 (Source.mem_eq_true.2 ⟨m, hsrv ▸ hmem, rfl⟩)⟩
  | commit =>
    cases hq
    exact ⟨hp.1, fun x hx => hp.2 x (mem_of_mem_filter hx)⟩
  | stored w =>
    cases hq
    cases w with
    | delta => exact absurd hp.1 id
    | _ => trivial
  | save =>
    cases hq
    trivial
  | progress cp st =>
    cases st with
    | inProgress =>
      cases hq
      unfold nextWindow
      split <;> trivial
    | _ => cases hq
  | changes | vanish | flags => exact absurd hp id
  | _ => cases hw

/-- A pass of the initial sync stores messages of the server and nothing else. -/
lemma rows_move (hm : PassMove win mb p mb' next) (hw : p.walks = true) (hp : p.Initial srv)
    (hrows : ∀ u, Stored mb.table u → srv.log.mem u = true) :
    ∀ u, Stored mb'.table u → srv.log.mem u = true := by
  cases hm with
  | commit wanted uids fetched w id hid =>
    intro u hu
    unfold Stored at hu
    rw [Table.has_insertMessages hid, Bool.or_eq_true] at hu
    rcases hu with hu | hu
    · exact hrows u hu
    · obtain ⟨x, hx, rfl⟩ := mem_map.1 (of_decide_eq_true hu)
      exact hp.2 x (mem_of_mem_filter hx)
  | vanish | flags => exact absurd hp id
  | _ => first | exact hrows | cases hw

/-- One move of a pass, for the store and for the pass. -/
lemma initial_move (htop : topAnnounced srv = true) (hm : PassMove win mb p mb' next)
    (hs : StoreInitial srv mb) (hp : p.Initial srv)
    (hc : p.Covered srv.log srv.log.next mb.table)
    (hord : ∀ cutoff known, p = .select (.recent cutoff) known → datesInOrder srv cutoff = true) :
    StoreInitial srv mb' ∧ (∀ u, Stored mb.table u → Stored mb'.table u) ∧
      ∀ q, next = some q → q.Initial srv ∧ q.Covered srv.log srv.log.next mb'.table := by
  by_cases hw : p.walks = true
  · obtain ⟨hsrv, hcur, hkeep⟩ := walks_keeps hm hw
    have hsrv' : mb'.server = srv := hsrv.trans hs.server
    have hlog : mb.server.log = srv.log := congrArg _ hs.server
    have hcov := covered_move (N := srv.log.next) hm hw (hlog ▸ Nat.le_refl _) hs.records
      (hlog ▸ hc)
    refine ⟨⟨hsrv', hcur ▸ hs.cursor, rows_move hm hw hp hs.rows, hcov.1⟩, hkeep,
      fun q hq => ⟨initial_next hm hw hs.server hp hq, ?_⟩⟩
    have := hcov.2 q hq
    rwa [hsrv'] at this
  · cases hm with
    | select k known =>
      refine ⟨hs, fun _ hu => hu, fun q hq => ?_⟩
      cases hq
      rw [hs.server]
      refine ⟨⟨hp, rfl⟩, ?_, topKnown_select htop known⟩
      cases k with
      | recent cutoff => exact datesAscend_of_datesInOrder (hord cutoff known rfl)
      | backfill => trivial
    | record k known sel h =>
      refine ⟨⟨hs.server, fun c h => ?_, hs.rows, ⟨hs.records.1, hs.records.2, hs.records.3⟩⟩,
        fun _ hu => hu, fun q hq => ?_⟩
      · cases h
        exact hp.2
      · cases hq
        exact ⟨trivial, hc⟩
    | invalidate k known sel h₀ h =>
      rcases hp.1 with h | h
      · exact absurd h h₀
      · exact absurd (hp.2.trans h.symm) ‹sel.uidValidity ≠ known›
    | noCursor | resync | resume | advance | status | seed => exact absurd hp id
    | _ => exact absurd rfl hw

lemma serverSide_of_initialSync {a : Action} (h : a.initialSync = true) :
    a.serverSide = false := by
  cases a <;> first | rfl | cases h

/-- The passes that are not concerned by a step know what they knew. -/
lemma initial_others {passes : List Pass} (hI : InitialInv srv mb)
    (hsub : ∀ q ∈ passes, q ∈ mb.passes) {t : Table}
    (hkeep : ∀ u, Stored mb.table u → Stored t u) :
    ∀ q ∈ passes, q.Initial srv ∧ q.Covered srv.log srv.log.next t := by
  intro q hq
  obtain ⟨hi, hc⟩ := hI.passes q (hsub q hq)
  exact ⟨hi, hc.grow (Grows.of_stored hkeep) (Nat.le_refl _)⟩

/-- **The step lemma.** -/
theorem initialInv_step (htop : topAnnounced srv = true) {a : Action}
    (ha : a.initialSync = true) (hst : a.stores = true) (hord : recentInOrder mb a = true)
    (hI : InitialInv srv mb) (h : mb.step win a = some mb') : InitialInv srv mb' := by
  cases step_move h hst with
  | serve a log hs =>
    rw [serverSide_of_initialSync ha] at hs
    cases hs
  | start s =>
    refine ⟨{ hI.store with records := { hI.store.records with } }, fun p hp => ?_⟩
    rcases mem_append.1 hp with hp | hp
    · exact hI.passes p hp
    · rw [mem_singleton.1 hp]
      cases s with
      | incremental => cases ha
      | initial =>
        refine ⟨?_, trivial⟩
        show (mailboxCursor mb.cursor).1 = 0 ∨ (mailboxCursor mb.cursor).1 = srv.uidValidity
        cases hc : mb.cursor with
        | none => exact .inl rfl
        | some c => exact .inr (hI.store.cursor c hc)
  | move i reply p mb₁ next hp hm =>
    have hmem : p ∈ mb.passes := mem_of_getElem? hp
    obtain ⟨hinit, hc⟩ := hI.passes p hmem
    have hsel : ∀ cutoff known, p = .select (.recent cutoff) known →
        datesInOrder srv cutoff = true := by
      rintro cutoff known rfl
      simpa [recentInOrder, Mailbox.selects, hp, hI.store.server] using hord
    obtain ⟨hstore, hkeep, hnext⟩ := initial_move htop hm hI.store hinit hc hsel
    refine ⟨{ hstore with records := { hstore.records with } }, fun q hq => ?_⟩
    rcases mem_continueAt hq with hq | hq
    · exact initial_others hI (fun q hq => hq) hkeep q hq
    · exact hnext q hq
  | drop a passes hsub =>
    exact ⟨{ hI.store with records := { hI.store.records with } },
      initial_others hI hsub fun _ hu => hu⟩

/-- A mailbox that is recorded complete has a row for every message. -/
lemma covers_of_recordedComplete (hI : InitialInv srv mb) (hc : mb.recordedComplete = true) :
    Covers srv.log 1 srv.log.next (Stored mb.table) := by
  have hlog : mb.server.log = srv.log := congrArg _ hI.store.server
  rw [← hlog]
  unfold Mailbox.recordedComplete at hc
  rw [Bool.or_eq_true] at hc
  rcases hc with hc | hc
  · cases hcp : mb.checkpoint with
    | none => simp [hcp] at hc
    | some cp =>
      rw [hcp] at hc
      rw [hlog]
      have := (hI.store.records.checkpoint cp hcp).complete hc
      rwa [hlog] at this
  · have := hI.store.records.complete (of_decide_eq_true hc)
    rw [hlog] at this ⊢
    exact this

end Steps

/-- **The initial sync is complete when it says so.**  In every run of its phases
over a mailbox that stands still, however often it is killed and resumed, the stored
UIDs are the server's as soon as the mailbox is recorded complete, unless a message was
skipped. -/
theorem complete_stores_all (win : Int) (srv : ServerMailbox) (as : List Action) (mb : Mailbox)
    (htop : topAnnounced srv = true)
    (hg : Run.Guarded (Mailbox.step win)
      (fun mb a => a.initialSync = true ∧ a.stores = true ∧ recentInOrder mb a = true)
      (Mailbox.discovered srv) as)
    (hrun : Run.exec (Mailbox.step win) (Mailbox.discovered srv) as = some mb)
    (hc : mb.recordedComplete = true) (u : Nat) :
    mb.table.has u = true ↔ ∃ m ∈ srv.messages, m.key = u := by
  have hI : InitialInv srv mb := by
    refine Run.inv_exec ?_ (initialInv_discovered srv) hg hrun
    intro s a s' hga hs h
    exact initialInv_step htop hga.1 hga.2.1 hga.2.2 hs h
  constructor
  · intro hu
    exact Source.mem_eq_true.1 (hI.store.rows u hu)
  · rintro ⟨m, hm, rfl⟩
    exact covers_of_recordedComplete hI hc m hm (srv.log.key_pos m hm) (srv.log.key_lt m hm)

/-- A mailbox of a server that announces UIDNEXT. -/
def announcing (log : Log) : ServerMailbox := ⟨7, true, log, Nat.succ_pos 6⟩

/-- A mailbox of two messages with the given dates. -/
def twoDated (first second : Nat) : ServerMailbox :=
  announcing ((empty.add 0 (some first) ⟨0, []⟩).add 0 (some second) ⟨0, []⟩)

/-- A recent phase with the cutoff 50 that is killed before it records its window. -/
def killedRecent : List Action :=
  [.start (.initial (.recent 50)), .advance 0 .ok, .advance 0 .ok, .advance 0 .ok,
    .advance 0 .ok, .advance 0 .ok, .advance 0 (.read 2), .advance 0 (.commit [2] 1), .kill]

/-- The recent phase once more, over the messages that are left to fetch. -/
def recentPhase (fetches : List Action) : List Action :=
  [.start (.initial (.recent 50)), .advance 0 .ok, .advance 0 .ok, .advance 0 .ok,
    .advance 0 .ok, .advance 0 .ok] ++ fetches ++ [.advance 0 .ok, .advance 0 .ok, .advance 0 .ok]

/-- A backfill that fetches one window, and one that has nothing left to fetch. -/
def backfillOne : List Action :=
  [.start (.initial .backfill), .advance 0 .ok, .advance 0 .ok, .advance 0 .ok, .advance 0 .ok,
    .advance 0 .ok, .advance 0 (.read 1), .advance 0 (.commit [1] 2), .advance 0 .ok,
    .advance 0 .ok, .advance 0 .ok, .advance 0 .ok, .advance 0 .ok]

def backfillNone : List Action :=
  [.start (.initial .backfill), .advance 0 .ok, .advance 0 .ok, .advance 0 .ok, .advance 0 .ok,
    .advance 0 .ok, .advance 0 .ok]

theorem complete_stores_all_killedOnce :
    ∃ mb, Run.exec (Mailbox.step 0) (Mailbox.discovered (twoDated 10 100))
        (killedRecent ++ recentPhase [] ++ backfillOne) = some mb ∧
      mb.recordedComplete = true ∧
      ∀ u, mb.table.has u = true ↔ ∃ m ∈ (twoDated 10 100).messages, m.key = u :=
  Run.exists_of_guarded (by decide +kernel) (by decide +kernel) fun mb hg hrun hc =>
    complete_stores_all 0 (twoDated 10 100) _ mb (by decide) hg hrun hc

/-- The later message has the earlier date, and only the first is in the recent
window.  The watermark is set below both, so the backfill has nothing to do: the
mailbox is recorded complete, and the second message is never fetched. -/
theorem complete_with_a_hole :
    ∃ mb, Run.exec (Mailbox.step 0) (Mailbox.discovered (twoDated 100 10))
        (recentPhase [.advance 0 (.read 1), .advance 0 (.commit [1] 1)] ++ backfillNone) = some mb ∧
      mb.recordedComplete = true ∧ mb.table.has 2 = false ∧
      (twoDated 100 10).messages.map Item.key = [1, 2] ∧ mb.passes = [] :=
  Run.exists_exec (by decide +kernel)

end Moov.Sync
