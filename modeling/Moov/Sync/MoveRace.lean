import Moov.Sync.Initial
import Moov.Sync.Tracking

/-!
# `ApplyMove` against the incremental passes

`ApplyMove` (`sync/write.go`) cut at its calls: the row it was given is read, the
server moves the message, the destination is selected, `MoveMessages` re-points the
row, and the flags are read back.  Between two calls the incremental passes of both
mailboxes go on, and so does the server.

The calls between the MOVE and the read-back are made under the lock of the
account's connection (`withMailbox`), so there is one of them at a time; the row was
read before, so any number of moves may be `waiting`.  A MOVE whose answer is lost is
tried again by `withMailbox` or given up.

`moves_settle` says that after any run whose steps are `careful`, once everything is
quiet and each mailbox has had one more pass, the live rows of both mailboxes are
their messages, one row each, and no tombstone stands for a message that is there.
The conditions on a step are that a pass starts only when the last one over the
mailbox is over and skips no message, that the VANISHED sets of a SELECT are not cut, and
(`followable`) that `MoveMessages` finds the row live exactly when the message is
still where it was moved to, unless a pass has stored the copy already.
`tombstone_follows_the_move` is a run where a pass over the source came first.
-/

namespace Moov.Sync

open Moov.Store Moov.Versioned Moov.Versioned.Source Table List Later Run

/-! ## The calls of `ApplyMove` -/

/-- An `ApplyMove` that holds the connection, at its next call. -/
inductive MoveCall
  | move (messageID uid : Nat)
  | tombstone (uid : Nat)
  | select (messageID uid destUID destUIDValidity : Nat)
  | reflect (messageID destUID : Nat)
  | readBack (messageID destUID : Nat)
  | flags (messageID : Nat) (st : FlagState)
  deriving DecidableEq

/-- The answer to a call.  A `MOVE` is answered with the UIDVALIDITY of its COPYUID,
zero if that is not known, or without a usable COPYUID; or its answer is lost. -/
inductive MoveReply
  | ok
  | moved (gap : Nat) (copyUID : Option Nat)
  | lost (gap : Nat)
  deriving DecidableEq

/-- The two mailboxes, the moves whose row was read, and the one that holds the
connection. -/
structure Account where
  source : Mailbox
  target : Mailbox
  waiting : List (Nat × Nat)
  call : Option MoveCall

/-- What the server does for a `MOVE` of a message that is there. -/
def Account.serverMove (s : Account) (m : ServerMessage) (gap : Nat) : Account :=
  { s with
    source := s.source.serve (s.source.server.log.remove m.key)
    target := s.target.serve (s.target.server.log.add gap m.fixed m.value) }

/-- The answer to a call of `ApplyMove`, and the next call.  A move that fails is
over. -/
def Account.advance (s : Account) : MoveCall → MoveReply → Option (Account × Option MoveCall)
  | .move id uid, .moved gap copyUID =>
      match s.source.server.log.find uid with
      | none => some (s, some (.tombstone uid))
      | some m => some (s.serverMove m gap, match copyUID with
          | none => some (.tombstone uid)
          | some v => some (.select id uid (s.target.server.log.next + gap) v))
  | .move id uid, .lost gap =>
      match s.source.server.log.find uid with
      | none => some (s, some (.move id uid))
      | some m => some (s.serverMove m gap, some (.move id uid))
  | .tombstone uid, .ok =>
      some ({ s with source := { s.source with table := s.source.table.markDeleted [uid] } }, none)
  | .select id uid destUID v, .ok =>
      -- the destination was recreated between the MOVE and this SELECT
      if v ≠ 0 ∧ v ≠ s.target.server.uidValidity then some (s, some (.tombstone uid))
      else some (s, some (.reflect id destUID))
  | .reflect id destUID, .ok =>
      match Table.moveMessages s.source.table s.target.table id destUID with
      | none => some (s, none)
      | some (src, dst) =>
          some ({ s with
            source := { s.source with table := src }
            target := { s.target with table := dst } }, some (.readBack id destUID))
  | .readBack id destUID, .ok =>
      some (s, (s.target.server.log.find destUID).map fun m => .flags id (sanitizeFlags m.value))
  | .flags id st, .ok =>
      some ({ s with
        source := { s.source with table := s.source.table.updateFlag ⟨id, st⟩ }
        target := { s.target with table := s.target.table.updateFlag ⟨id, st⟩ } }, none)
  | _, _ => none

/-! ## Steps -/

open Account

/-- What can happen.  `apply` is the read of the row at the start of `ApplyMove`. -/
inductive MoveAction
  | source (a : Action)
  | target (a : Action)
  | apply (messageID : Nat)
  | enter (i : Nat)
  | advance (reply : MoveReply)
  | fail
  | give (i : Nat)
  deriving DecidableEq

/-- The passes over a mailbox are incremental ones. -/
def Action.incremental : Action → Bool
  | .start (.initial _) => false
  | _ => true

/-- The keys of new rows come from one sequence for all mailboxes. -/
def Action.freshFor (t : Table) : Action → Bool
  | .advance _ (.commit _ id) => t.freshFrom id
  | _ => true

/-- One step. -/
def Account.step (win : Int) (s : Account) : MoveAction → Option Account
  | .source a =>
      if a.incremental && a.freshFor s.target.table then
        (s.source.step win a).map fun mb => { s with source := mb }
      else none
  | .target a =>
      if a.incremental && a.freshFor s.source.table then
        (s.target.step win a).map fun mb => { s with target := mb }
      else none
  | .apply id =>
      match s.source.table.rowOf id with
      | none => none
      | some r => if r.deleted then none else some { s with waiting := (id, r.uid) :: s.waiting }
  | .enter i =>
      match s.call, s.waiting[i]? with
      | none, some w =>
          some { s with waiting := s.waiting.eraseIdx i, call := some (.move w.1 w.2) }
      | _, _ => none
  | .advance reply =>
      match s.call with
      | none => none
      | some m => (s.advance m reply).map fun r => { r.1 with call := r.2 }
  | .fail => some { s with call := none }
  | .give i => some { s with waiting := s.waiting.eraseIdx i }

/-- `MoveMessages` finds a UID that is taken, or a row that is live exactly when the
message is still where it was moved to. -/
def Account.followable (s : Account) (id destUID : Nat) : Bool :=
  s.target.table.has destUID ||
    (s.source.table.rowOf id).all fun r => r.deleted == !s.target.server.log.mem destUID

/-- The conditions on a step in one of the mailboxes. -/
def Mailbox.orderly (mb : Mailbox) : Action → Bool
  | .start _ => decide (mb.passes = [])
  | .advance _ reply => reply.orderly
  | _ => true

/-- The conditions on a step. -/
def Account.careful (s : Account) : MoveAction → Bool
  | .source a => s.source.orderly a
  | .target a => s.target.orderly a
  | .advance _ =>
      match s.call with
      | some (.reflect id destUID) => s.followable id destUID
      | _ => true
  | _ => true

/-- Nothing is under way. -/
def Account.quiet (s : Account) : Bool :=
  decide (s.source.passes = []) && decide (s.target.passes = []) && decide (s.waiting = []) &&
    decide (s.call = none)

/-- A call of a pass, as opposed to a change of the server, a move, or a failure. -/
def MoveAction.passCall : MoveAction → Bool
  | .source (.start _) => true
  | .source (.advance _ _) => true
  | .target (.start _) => true
  | .target (.advance _ _) => true
  | _ => false

/-! ## What is true of a mailbox -/

/-- At most one pass, and it knows what it relies on. -/
structure PassInv (mb : Mailbox) : Prop where
  follows : Follows mb
  single : mb.passes.length ≤ 1
  passes : ∀ p ∈ mb.passes, p.Tracking mb

/-- The rows stay, in their places. -/
def RowsKept (t t' : Table) : Prop :=
  ∀ r ∈ t.rows, ∃ r' ∈ t'.rows, r'.messageID = r.messageID ∧ r'.uid = r.uid

/-- Every row is an old one, which stays deleted once it is, or has a new key. -/
def Aged (t t' : Table) (fresh : Nat → Prop) : Prop :=
  ∀ r' ∈ t'.rows, (∃ r ∈ t.rows, r.messageID = r'.messageID ∧ r.uid = r'.uid ∧
    (r.deleted = true → r'.deleted = true)) ∨ fresh r'.messageID

/-- The primary key of `message_state`: no two rows of the mailboxes share one. -/
def KeysApart (t t' : Table) : Prop := ∀ r ∈ t.rows, ∀ r' ∈ t'.rows, r.messageID ≠ r'.messageID

section Mailboxes

variable {win : Int} {mb mb' : Mailbox} {a : Action} {p : Pass} {next : Option Pass}
  {reply : Reply} {t t'' : Table} {fresh : Nat → Prop} {f : Row → Row}

lemma RowsKept.refl (t : Table) : RowsKept t t := fun r hr => ⟨r, hr, rfl, rfl⟩

lemma rowsKept_update {hu hi} : RowsKept t (t.update f hu hi) :=
  fun r hr => ⟨f r, mem_map.2 ⟨r, hr, rfl⟩, hi r, hu r⟩

lemma RowsKept.trans (h : RowsKept t t') (h' : RowsKept t' t'') : RowsKept t t'' := by
  intro r hr
  obtain ⟨r', hr', hid, hu⟩ := h r hr
  obtain ⟨r'', hr'', hid', hu'⟩ := h' r' hr'
  exact ⟨r'', hr'', hid'.trans hid, hu'.trans hu⟩

lemma rowsKept_markDeleted (uids : List Nat) : RowsKept t (t.markDeleted uids) := by
  unfold markDeleted
  exact rowsKept_update

lemma rowsKept_updateFlags (ws : List Table.FlagUpdate) : RowsKept t (t.updateFlags ws) := by
  unfold updateFlags
  induction ws generalizing t with
  | nil => exact RowsKept.refl t
  | cons w ws ih => exact RowsKept.trans rowsKept_update ih

/-- The keys an action may give to new rows. -/
def Action.gives (a : Action) (n : Nat) : Prop :=
  ∃ i uids id, a = .advance i (.commit uids id) ∧ id ≤ n

lemma Aged.refl (t : Table) : Aged t t fresh := fun r hr => .inl ⟨r, hr, rfl, rfl, id⟩

lemma aged_update {hu hi} (hd : ∀ r, r.deleted = true → (f r).deleted = true) :
    Aged t (t.update f hu hi) fresh := by
  intro r' hr'
  obtain ⟨r, hr, rfl⟩ := mem_map.1 hr'
  exact .inl ⟨r, hr, (hi r).symm, (hu r).symm, hd r⟩

lemma aged_markDeleted (uids : List Nat) : Aged t (t.markDeleted uids) fresh := by
  unfold markDeleted
  refine aged_update fun r hr => ?_
  unfold tombstone
  split
  · rfl
  · exact hr

lemma aged_updateFlag (u : Table.FlagUpdate) : Aged t (t.updateFlag u) fresh := by
  unfold updateFlag
  exact aged_update fun r hr => (setFlags_deleted u r).trans hr

lemma Aged.trans (h : Aged t t' fresh) (h' : Aged t' t'' fresh) : Aged t t'' fresh := by
  intro r'' hr''
  rcases h' r'' hr'' with ⟨r', hr', hid', hu', hd'⟩ | hf
  · rcases h r' hr' with ⟨r, hr, hid, hu, hd⟩ | hf
    · exact .inl ⟨r, hr, hid.trans hid', hu.trans hu', hd' ∘ hd⟩
    · exact .inr (hid' ▸ hf)
  · exact .inr hf

lemma aged_updateFlags (ws : List Table.FlagUpdate) : Aged t (t.updateFlags ws) fresh := by
  unfold updateFlags
  induction ws generalizing t with
  | nil => exact Aged.refl t
  | cons w ws ih => exact Aged.trans (aged_updateFlag w) ih

lemma aged_insertMessages {id : Nat} {new : List (Nat × FlagState)}
    (hid : t.freshFrom id = true) : Aged t (t.insertMessages id new) (id ≤ ·) := by
  intro r' hr'
  have hat := rowAt_of_mem hr'
  cases h : t.rowAt r'.uid with
  | some =>
    rw [rowAt_insertMessages_of_some hid h] at hat
    cases hat
    exact .inl ⟨r', (rowAt_eq_some.1 h).1, rfl, rfl, fun hd => hd⟩
  | none => exact .inr (rowAt_insertMessages_new hid h hat).2.2

/-- Only a FETCH is followed by new rows. -/
lemma aged_move (hm : PassMove win mb p mb' next) :
    Aged mb.table mb'.table fresh ∨ ∃ wanted fetched w, p = .fetch wanted fetched w := by
  cases hm with
  | invalidate | resync => exact .inl nofun
  | vanish => exact .inl (aged_markDeleted _)
  | flags => exact .inl (aged_updateFlags _)
  | commit wanted uids fetched w => exact .inr ⟨wanted, fetched, w, rfl⟩
  | _ => exact .inl (Aged.refl _)

/-- What a call of a pass does to the rows. -/
lemma aged_advance {i : Nat} (h : mb.advance win p reply = some (mb', next)) :
    Aged mb.table mb'.table (Action.advance i reply).gives := by
  by_cases hs : reply.stores = true
  · rcases aged_move (advance_move h hs) with ha | ⟨wanted, fetched, w, rfl⟩
    · exact ha
    · cases reply with
      | commit uids id =>
        obtain ⟨hid, ⟨⟩⟩ := Option.ite_none_right_eq_some.1 h
        intro r hr
        exact (aged_insertMessages hid r hr).imp_right fun hle => ⟨i, uids, id, rfl, hle⟩
      | vanished => cases h
      | skip => cases hs
      | ok | read =>
        obtain ⟨-, ⟨⟩⟩ := Option.ite_none_right_eq_some.1 h
        exact Aged.refl _
  · cases reply with
    | skip =>
      rw [advance_skip h]
      exact Aged.refl _
    | _ => exact absurd rfl hs

/-- What a step in a mailbox does to the rows. -/
lemma aged_step (h : mb.step win a = some mb') : Aged mb.table mb'.table a.gives := by
  cases a with
  | advance =>
    obtain ⟨p, mb₁, next, -, hr, rfl⟩ := step_advance h
    show Aged mb.table mb₁.table _
    exact aged_advance hr
  | _ =>
    cases step_move h rfl <;> exact Aged.refl _

lemma KeysApart.aged {t t' s s' : Table} {fresh : Nat → Prop} (h : KeysApart t s)
    (ht : Aged t t' fresh) (hs : Aged s s' fun _ => False)
    (hf : ∀ r ∈ s.rows, ¬ fresh r.messageID) : KeysApart t' s' := by
  intro r' hr' q' hq' he
  rcases hs q' hq' with ⟨q, hq, heq, -⟩ | hfalse
  · rcases ht r' hr' with ⟨r, hr, her, -⟩ | hfr
    · exact h r hr q hq (her.trans (he.trans heq.symm))
    · exact hf q hq (heq ▸ he ▸ hfr)
  · exact hfalse

lemma KeysApart.still {t t' s s' : Table} (h : KeysApart t s) (ht : Aged t t' fun _ => False)
    (hs : Aged s s' fun _ => False) : KeysApart t' s' :=
  h.aged ht hs fun _ _ hf => hf

lemma KeysApart.symm {t t' : Table} (h : KeysApart t t') : KeysApart t' t :=
  fun r' hr' r hr he => h r hr r' hr' he.symm

lemma moved_serve {log : Log} (hl : Later mb.server.log log)
    (hr : RemovedLe mb.server.log → RemovedLe log) : Moved mb (mb.serve log) :=
  ⟨⟨hl, fun _ _ hs => hs, fun _ hu => .inl hu⟩, fun ht => ht.later hl, hr, rfl, rfl, rfl⟩

lemma moved_passes (mb : Mailbox) (passes : List Pass) : Moved mb { mb with passes := passes } :=
  ⟨⟨refl _, fun _ _ hs => hs, fun _ hu => .inl hu⟩, id, id, rfl, rfl, rfl⟩

/-- What somebody else does to the mailbox. -/
lemma PassInv.moved (hI : PassInv mb) (hm : Moved mb mb') (hp : mb'.passes = mb.passes) :
    PassInv mb' :=
  ⟨hI.follows.moved hm, hp ▸ hI.single, fun p h => (hI.passes p (hp ▸ h)).moved hm⟩

/-- Passes that are dropped are missed by nobody. -/
lemma PassInv.drop (hI : PassInv mb) {passes : List Pass} (hsub : ∀ p ∈ passes, p ∈ mb.passes)
    (hlen : passes.length ≤ mb.passes.length) : PassInv { mb with passes := passes } :=
  ⟨hI.follows.moved (moved_passes mb passes), Nat.le_trans hlen hI.single,
    fun p hp => (hI.passes p (hsub p hp)).moved (moved_passes mb passes)⟩

/-- A call of an incremental pass keeps the rows. -/
lemma rowsKept_move (hm : PassMove win mb p mb' next) (hf : Follows mb) (hp : p.Tracking mb) :
    RowsKept mb.table mb'.table := by
  cases hm with
  | invalidate => exact absurd hp id
  | resync c h₀ h =>
    obtain ⟨c', hc, hval, -⟩ := hf.cursor
    cases Eq.trans hp hc
    exact absurd hval.symm h
  | vanish => exact rowsKept_markDeleted _
  | flags => exact rowsKept_updateFlags _
  | commit wanted uids fetched w id hid =>
    intro r hr
    exact ⟨r, (rowAt_eq_some.1 (rowAt_insertMessages_of_some hid (rowAt_of_mem hr))).1, rfl, rfl⟩
  | _ => exact RowsKept.refl _

/-- What a step in a mailbox does. -/
structure Stepped (mb mb' : Mailbox) : Prop where
  inv : PassInv mb'
  rows : RowsKept mb.table mb'.table
  later : Later mb.server.log mb'.server.log

lemma stepped_advance {i : Nat} (hI : PassInv mb) (ho : mb.orderly (.advance i reply) = true)
    (h : mb.step win (.advance i reply) = some mb') :
    Stepped mb mb' := by
  obtain ⟨p, mb₁, next, hp, hr, rfl⟩ := step_advance h
  have htr := hI.passes p (mem_of_getElem? hp)
  have hadv := tracking_move hr hI.follows htr ho
  have hmv := moved_passes mb₁ (continueAt mb.passes i next)
  have hrows := rowsKept_move (advance_move hr (Reply.stores_of_orderly ho)) hI.follows htr
  refine ⟨⟨hadv.follows.moved hmv, ?_, ?_⟩, hrows, ?_⟩
  · rw [continueAt_single hI.single hp]
    cases next <;> simp
  · rw [continueAt_single hI.single hp]
    intro q hq
    exact (hadv.tracking q (Option.mem_toList.1 hq)).moved (moved_passes mb₁ _)
  · show Later mb.server.log mb₁.server.log
    rw [hadv.server]
    exact refl _

/-- **The step lemma for one mailbox.** -/
theorem passInv_step (hI : PassInv mb) (ha : a.incremental = true) (ho : mb.orderly a = true)
    (h : mb.step win a = some mb') : Stepped mb mb' := by
  cases a with
  | deliver gap date st =>
    cases h
    have hl := later_add (s := mb.server.log) gap date st
    exact ⟨hI.moved (moved_serve hl fun hr => hr.add gap date st) rfl, RowsKept.refl _, hl⟩
  | setFlags u st =>
    obtain ⟨-, ⟨⟩⟩ := Option.ite_none_right_eq_some.1 h
    have hl := later_change (s := mb.server.log) u st
    exact ⟨hI.moved (moved_serve hl fun hr => hr.change u st) rfl, RowsKept.refl _, hl⟩
  | expunge u =>
    obtain ⟨-, ⟨⟩⟩ := Option.ite_none_right_eq_some.1 h
    have hl := later_remove (s := mb.server.log) u
    exact ⟨hI.moved (moved_serve hl fun hr => hr.remove u) rfl, RowsKept.refl _, hl⟩
  | start s =>
    cases h
    cases s with
    | initial => cases ha
    | incremental =>
      have hnil : mb.passes = [] := of_decide_eq_true ho
      refine ⟨⟨hI.follows.moved (moved_passes mb _), by simp [hnil], fun p hp => ?_⟩,
        RowsKept.refl _, refl _⟩
      simp only [hnil, nil_append, mem_singleton] at hp
      rw [hp]
      exact rfl
  | advance => exact stepped_advance hI ho h
  | fail =>
    obtain ⟨-, ⟨⟩⟩ := Option.ite_none_right_eq_some.1 h
    exact ⟨hI.drop (fun p hp => mem_of_mem_eraseIdx hp) (length_eraseIdx_le _ _),
      RowsKept.refl _, refl _⟩
  | kill =>
    cases h
    refine ⟨hI.drop (fun p hp => ?_) (Nat.zero_le _), RowsKept.refl _, refl _⟩
    cases hp

end Mailboxes

/-! ## What is true of the account -/

open KeysApart

/-- The UID a move has read for a message: the row has it, or the message has left it. -/
structure Claimed (mb : Mailbox) (id uid : Nat) : Prop where
  lt : uid < mb.server.log.next
  row : (∃ r ∈ mb.table.rows, r.messageID = id ∧ r.uid = uid) ∨ Gone mb.server.log uid

/-- The row of the message is still in the source, and its message is not. -/
def Left (mb : Mailbox) (id : Nat) : Prop :=
  ∃ r ∈ mb.table.rows, r.messageID = id ∧ Gone mb.server.log r.uid

/-- What a move knows at its next call. -/
def MoveCall.Knows (s : Account) : MoveCall → Prop
  | .move id uid => Claimed s.source id uid
  | .tombstone uid => Gone s.source.server.log uid
  | .select id uid destUID _ =>
      Gone s.source.server.log uid ∧ Left s.source id ∧ destUID < s.target.server.log.next
  | .reflect id destUID => Left s.source id ∧ destUID < s.target.server.log.next
  | _ => True

/-- What is true of the source while a move is at `call`. -/
structure SourceInv (s : Account) (call : Option MoveCall) : Prop where
  source : PassInv s.source
  waiting : ∀ w ∈ s.waiting, Claimed s.source w.1 w.2
  call : ∀ m, call = some m → m.Knows s

/-- What is true after every careful step. -/
structure AccountInv (s : Account) : Prop extends SourceInv s s.call where
  target : PassInv s.target
  disjoint : KeysApart s.source.table s.target.table

section Accounts

variable {win : Int} {s s' : Account} {mb mb' : Mailbox} {id uid gap : Nat} {fresh : Nat → Prop}
  {m : MoveCall} {next : Option MoveCall} {reply : MoveReply} {a : Action} {i : ServerMessage}

lemma Claimed.keep (h : Claimed mb id uid) (hr : RowsKept mb.table mb'.table)
    (hl : Later mb.server.log mb'.server.log) : Claimed mb' id uid := by
  refine ⟨Nat.lt_of_lt_of_le h.lt hl.next_le, h.row.imp ?_ fun hg => hg.later hl⟩
  rintro ⟨r, hr₀, hid, hu⟩
  obtain ⟨r', hr', hid', hu'⟩ := hr r hr₀
  exact ⟨r', hr', hid'.trans hid, hu'.trans hu⟩

lemma Left.keep (h : Left mb id) (hr : RowsKept mb.table mb'.table)
    (hl : Later mb.server.log mb'.server.log) : Left mb' id := by
  obtain ⟨r, hr₀, hid, hg⟩ := h
  obtain ⟨r', hr', hid', hu'⟩ := hr r hr₀
  exact ⟨r', hr', hid'.trans hid, hu' ▸ hg.later hl⟩

/-- What a move knows stays true while the mailboxes keep their rows. -/
lemma MoveCall.Knows.keep (h : m.Knows s) (hsr : RowsKept s.source.table s'.source.table)
    (hsl : Later s.source.server.log s'.source.server.log)
    (htl : Later s.target.server.log s'.target.server.log) : m.Knows s' := by
  cases m with
  | move => exact Claimed.keep h hsr hsl
  | tombstone => exact Gone.later h hsl
  | select =>
    exact ⟨h.1.later hsl, h.2.1.keep hsr hsl, Nat.lt_of_lt_of_le h.2.2 htl.next_le⟩
  | reflect => exact ⟨h.1.keep hsr hsl, Nat.lt_of_lt_of_le h.2 htl.next_le⟩
  | _ => trivial

/-- The UID of a live row was given out. -/
lemma lt_next_of_live (hf : Follows mb) {u : Nat} (hu : mb.table.live u = true) :
    u < mb.server.log.next := by
  obtain ⟨c, -, -, -, -, ht⟩ := hf.cursor
  by_cases hex : ∃ i ∈ mb.server.log.items, i.key = u
  · obtain ⟨i, hi, rfl⟩ := hex
    exact mb.server.log.key_lt i hi
  · rcases ht.accounted u hu fun i hi hk => hex ⟨i, hi, hk⟩ with hm | ⟨v, hv, -⟩
    · cases hm
    · exact mb.server.log.removed_lt _ hv

/-- Keys that are new are new to the other mailbox as well. -/
lemma not_gives_of_freshFor {t : Table} (hf : a.freshFor t = true) :
    ∀ r ∈ t.rows, ¬ a.gives r.messageID := by
  rintro r hr ⟨i, uids, id, rfl, hle⟩
  have := freshFrom_eq_true.1 hf r hr
  omega

/-! ### The calls of a move -/

lemma moved_table {t : Table}
    (hstored : ∀ i ∈ mb.server.log.items, Stored mb.table i.key → Stored t i.key)
    (hlive : ∀ u, t.live u = true → mb.table.live u = true ∨ ∃ i ∈ mb.server.log.items, i.key = u)
    (htombs : TombsGone mb.server.log mb.table → TombsGone mb.server.log t) :
    Moved mb { mb with table := t } :=
  ⟨⟨refl _, hstored, hlive⟩, htombs, id, rfl, rfl, rfl⟩

/-- A tombstone for a message that is gone. -/
lemma moved_markDeleted (hg : Gone mb.server.log uid) :
    Moved mb { mb with table := mb.table.markDeleted [uid] } := by
  refine moved_table (fun i _ hs => ?_) (fun u hu => ?_) fun ht r hr hd => ?_
  · exact has_markDeleted.trans hs
  · rw [live_markDeleted, Bool.and_eq_true] at hu
    exact .inl hu.1
  · obtain ⟨r₀, hr₀, rfl⟩ := mem_map.1 hr
    unfold tombstone at hd ⊢
    split at hd
    · next hu =>
      rw [if_pos hu]
      exact mem_singleton.1 hu ▸ hg
    · next hu =>
      rw [if_neg hu]
      exact ht r₀ hr₀ hd

/-- Flags change nothing that matters here. -/
lemma moved_updateFlag (w : Table.FlagUpdate) :
    Moved mb { mb with table := mb.table.updateFlag w } := by
  refine moved_table (fun i _ hs => ?_) (fun u hu => .inl ?_) fun ht r hr hd => ?_
  · unfold Stored has at hs ⊢
    rw [rowAt_updateFlag, Option.isSome_map]
    exact hs
  · obtain ⟨r, hr, hd⟩ := live_eq_true.1 hu
    rw [rowAt_updateFlag] at hr
    obtain ⟨r₀, hr₀, rfl⟩ := Option.map_eq_some_iff.1 hr
    exact live_eq_true.2 ⟨r₀, hr₀, (setFlags_deleted w r₀).symm.trans hd⟩
  · obtain ⟨r₀, hr₀, rfl⟩ := mem_map.1 hr
    rw [setFlags_deleted] at hd
    rw [setFlags_uid]
    exact ht r₀ hr₀ hd

/-- The row of a message that is gone leaves the mailbox. -/
lemma moved_dropMessage (hleft : Left mb id) :
    Moved mb { mb with table := mb.table.dropMessage id } := by
  obtain ⟨r, hr, hid, hg⟩ := hleft
  refine moved_table (fun i hi hs => ?_) (fun u hu => .inl ?_) fun ht r' hr' hd => ?_
  · obtain ⟨r', hr'⟩ := has_eq_true.1 hs
    have hmem := rowAt_eq_some.1 hr'
    refine has_eq_true.2 ⟨r', rowAt_eq_some.2 ⟨mem_dropMessage.2 ⟨hmem.1, ?_⟩, hmem.2⟩⟩
    rintro hid'
    rw [eq_of_messageID hmem.1 hr (hid'.trans hid.symm)] at hmem
    exact hg.2 i hi hmem.2.symm
  · obtain ⟨r', hr', hd⟩ := live_eq_true.1 hu
    have hmem := rowAt_eq_some.1 hr'
    exact live_eq_true.2 ⟨r', rowAt_eq_some.2 ⟨(mem_dropMessage.1 hmem.1).1, hmem.2⟩, hd⟩
  · exact ht r' (mem_dropMessage.1 hr').1 hd

/-- The row arrives, live exactly when its message is there. -/
lemma moved_insert {r : Row} (hhas : mb.table.has r.uid = false)
    (hid : ∀ r' ∈ mb.table.rows, r'.messageID ≠ r.messageID) (hlt : r.uid < mb.server.log.next)
    (hdel : r.deleted = !mb.server.log.mem r.uid) :
    Moved mb { mb with table := mb.table.insert r } := by
  have hrows := insert_rows_of_new hhas hid
  have hmem : ∀ r', r' ∈ (mb.table.insert r).rows ↔ r' ∈ mb.table.rows ∨ r' = r := by
    intro r'
    rw [hrows, mem_append, mem_singleton]
  refine moved_table (fun i _ hs => ?_) (fun u hu => ?_) fun ht r' hr' hd => ?_
  · obtain ⟨r', hr'⟩ := has_eq_true.1 hs
    have h := rowAt_eq_some.1 hr'
    exact has_eq_true.2 ⟨r', rowAt_eq_some.2 ⟨(hmem r').2 (.inl h.1), h.2⟩⟩
  · obtain ⟨r', hr', hd⟩ := live_eq_true.1 hu
    obtain ⟨hin, hu'⟩ := rowAt_eq_some.1 hr'
    rcases (hmem r').1 hin with hin | rfl
    · exact .inl (live_eq_true.2 ⟨r', rowAt_eq_some.2 ⟨hin, hu'⟩, hd⟩)
    · rw [hd] at hdel
      obtain ⟨i, hi, hk⟩ := mem_eq_true.1 (show mb.server.log.mem r'.uid = true by simpa using hdel)
      exact .inr ⟨i, hi, hk.trans hu'⟩
  · rcases (hmem r').1 hr' with hr' | rfl
    · exact ht r' hr' hd
    · rw [hd] at hdel
      refine ⟨hlt, fun i hi hk => ?_⟩
      have : mb.server.log.mem r'.uid = true := mem_eq_true.2 ⟨i, hi, hk⟩
      rw [this] at hdel
      cases hdel

/-- A move goes on to a call it knows enough for, or is over. -/
lemma SourceInv.setCall {call : Option MoveCall} (hI : SourceInv s call)
    (hk : ∀ m, next = some m → m.Knows s) : SourceInv s next :=
  { hI with call := hk }

/-- The server moved the message. -/
lemma sourceInv_serverMove {call : Option MoveCall} (hI : SourceInv s call) (gap : Nat)
    (hk : ∀ m, next = some m → m.Knows (s.serverMove i gap)) :
    SourceInv (s.serverMove i gap) next where
  source := hI.source.moved (moved_serve (later_remove i.key) fun hr => hr.remove i.key) rfl
  waiting := fun w hw => (hI.waiting w hw).keep (RowsKept.refl _) (later_remove i.key)
  call := hk

/-- Before the server moved it, the row of the message was where the move had read it. -/
lemma left_serverMove (hi : i ∈ s.source.server.messages)
    (hc : Claimed s.source id i.key) (gap : Nat) :
    Gone (s.serverMove i gap).source.server.log i.key ∧ Left (s.serverMove i gap).source id := by
  have hg := gone_remove hi
  refine ⟨hg, ?_⟩
  rcases hc.row with ⟨r, hr, hid, hu⟩ | hgone
  · exact ⟨r, hr, hid, hu ▸ hg⟩
  · exact absurd rfl (hgone.2 i hi)

/-- `MoveMessages` on a row of the source: the UID is taken, or the row goes over. -/
lemma reflect_cases {destUID : Nat} {r : Row} (hr : r ∈ s.source.table.rows)
    (hid : r.messageID = id) (h : s.advance (.reflect id destUID) .ok = some (s', next)) :
    s' = s ∧ next = none ∨ s.target.table.has destUID = false ∧
      next = some (.readBack id destUID) ∧ s' = { s with
        source := { s.source with table := s.source.table.dropMessage id }
        target := { s.target with table := s.target.table.insert { r with uid := destUID } } } := by
  have hrow : s.source.table.rowOf id = some r := rowOf_eq_some.2 ⟨hr, hid⟩
  cases hhas : s.target.table.has destUID with
  | true =>
    simp only [advance, moveMessages, hrow, hhas, if_true] at h
    cases h
    exact .inl ⟨rfl, rfl⟩
  | false =>
    simp only [advance, moveMessages, hrow, hhas, Bool.false_eq_true, if_false] at h
    cases h
    exact .inr ⟨rfl, rfl, rfl⟩

section

variable (hI : SourceInv s (some m))
include hI

lemma sourceInv_reflect {destUID : Nat} (hleft : Left s.source id)
    (h : s.advance (.reflect id destUID) .ok = some (s', next)) : SourceInv s' next := by
  obtain ⟨r, hr, hid, hg⟩ := hleft
  rcases reflect_cases hr hid h with ⟨rfl, rfl⟩ | ⟨-, rfl, rfl⟩
  · exact hI.setCall nofun
  · refine ⟨hI.source.moved (moved_dropMessage ⟨r, hr, hid, hg⟩) rfl, fun w hw =>
      ?_, fun m hm => ?_⟩
    · refine ⟨(hI.waiting w hw).lt, ?_⟩
      rcases (hI.waiting w hw).row with ⟨r', hr', hid', hu'⟩ | hgone
      · by_cases he : r'.messageID = id
        · rw [eq_of_messageID hr' hr (he.trans hid.symm)] at hu'
          exact .inr (hu' ▸ hg)
        · exact .inl ⟨r', mem_dropMessage.2 ⟨hr', he⟩, hid', hu'⟩
      · exact .inr hgone
    · cases hm
      trivial

/-- **One call of a move**, in the source. -/
theorem sourceInv_advance (h : s.advance m reply = some (s', next)) : SourceInv s' next := by
  have hk := hI.call m rfl
  cases m with
  | move id uid =>
    have hc : Claimed s.source id uid := hk
    cases reply with
    | ok => cases h
    | moved gap copyUID =>
      simp only [advance] at h
      split at h
      · next hf =>
        cases h
        refine hI.setCall fun m hm => ?_
        cases hm
        exact ⟨hc.lt, find_eq_none.1 hf⟩
      · next i hf =>
        obtain ⟨hi, rfl⟩ := find_eq_some.1 hf
        cases h
        have hleft := left_serverMove hi hc gap
        refine sourceInv_serverMove hI gap fun m hm => ?_
        cases copyUID with
        | none =>
          cases hm
          exact hleft.1
        | some =>
          cases hm
          refine ⟨hleft.1, hleft.2, ?_⟩
          show s.target.server.log.next + gap < s.target.server.log.next + gap + 1
          omega
    | lost gap =>
      simp only [advance] at h
      split at h
      · cases h
        exact hI
      · next i hf =>
        cases h
        refine sourceInv_serverMove hI gap fun m hm => ?_
        cases hm
        exact hc.keep (RowsKept.refl _) (later_remove i.key)
  | tombstone =>
    cases reply with
    | ok =>
      cases h
      exact ⟨hI.source.moved (moved_markDeleted hk) rfl,
        fun w hw => (hI.waiting w hw).keep (rowsKept_markDeleted _) (refl _), nofun⟩
    | _ => cases h
  | select =>
    cases reply with
    | ok =>
      simp only [advance] at h
      split at h
      · cases h
        refine hI.setCall fun m hm => ?_
        cases hm
        exact hk.1
      · cases h
        refine hI.setCall fun m hm => ?_
        cases hm
        exact hk.2
    | _ => cases h
  | reflect =>
    cases reply with
    | ok => exact sourceInv_reflect hI hk.1 h
    | _ => cases h
  | readBack =>
    cases reply with
    | ok =>
      cases h
      refine hI.setCall fun m hm => ?_
      obtain ⟨i, -, rfl⟩ := Option.map_eq_some_iff.1 hm
      trivial
    | _ => cases h
  | flags id st =>
    cases reply with
    | ok =>
      cases h
      exact ⟨hI.source.moved (moved_updateFlag _) rfl,
        fun w hw => (hI.waiting w hw).keep (rowsKept_updateFlags [⟨id, st⟩]) (refl _), nofun⟩
    | _ => cases h

end

section

variable (hI : AccountInv s)
include hI

/-- `MoveMessages` on a row that can be followed. -/
lemma targetInv_reflect {destUID : Nat} (hk : (MoveCall.reflect id destUID).Knows s)
    (hfol : s.followable id destUID = true)
    (h : s.advance (.reflect id destUID) .ok = some (s', next)) :
    PassInv s'.target ∧ KeysApart s'.source.table s'.target.table := by
  obtain ⟨⟨r, hr, hid, hg⟩, hlt⟩ := hk
  rcases reflect_cases hr hid h with ⟨rfl, rfl⟩ | ⟨hhas, rfl, rfl⟩
  · exact ⟨hI.target, hI.disjoint⟩
  · have hrow : s.source.table.rowOf id = some r := rowOf_eq_some.2 ⟨hr, hid⟩
    have hdel : r.deleted = !s.target.server.log.mem destUID := by
      simpa [followable, hhas, hrow] using hfol
    have hnew : ∀ r' ∈ s.target.table.rows, r'.messageID ≠ r.messageID :=
      fun r' hr' he => hI.disjoint r hr r' hr' he.symm
    have hrows := insert_rows_of_new (r := { r with uid := destUID }) hhas hnew
    refine ⟨hI.target.moved (moved_insert (r := { r with uid := destUID }) hhas hnew hlt hdel) rfl,
      fun r₁ hr₁ r₂ hr₂ => ?_⟩
    obtain ⟨hr₁, hne⟩ := mem_dropMessage.1 hr₁
    rw [hrows, mem_append, mem_singleton] at hr₂
    rcases hr₂ with hr₂ | rfl
    · exact hI.disjoint r₁ hr₁ r₂ hr₂
    · exact fun he => hne (he.trans hid)

/-- **One call of a move**, in the target. -/
theorem targetInv_advance (hcall : s.call = some m) (hg : s.careful (.advance reply) = true)
    (h : s.advance m reply = some (s', next)) :
    PassInv s'.target ∧ KeysApart s'.source.table s'.target.table := by
  cases m with
  | move =>
    cases reply with
    | ok => cases h
    | moved | lost =>
      simp only [advance] at h
      split at h
      · cases h
        exact ⟨hI.target, hI.disjoint⟩
      · next i hf =>
        cases h
        exact ⟨hI.target.moved (moved_serve (later_add _ i.fixed i.value)
          fun hr => hr.add _ i.fixed i.value) rfl, hI.disjoint⟩
  | reflect =>
    cases reply with
    | ok =>
      simp only [Account.careful, hcall] at hg
      exact targetInv_reflect hI (hI.call _ hcall) hg h
    | _ => cases h
  | tombstone =>
    cases reply with
    | ok =>
      cases h
      exact ⟨hI.target, still hI.disjoint (aged_markDeleted _) (Aged.refl _)⟩
    | _ => cases h
  | select =>
    cases reply with
    | ok =>
      simp only [advance] at h
      split at h <;> cases h <;> exact ⟨hI.target, hI.disjoint⟩
    | _ => cases h
  | readBack =>
    cases reply with
    | ok =>
      cases h
      exact ⟨hI.target, hI.disjoint⟩
    | _ => cases h
  | flags =>
    cases reply with
    | ok =>
      cases h
      exact ⟨hI.target.moved (moved_updateFlag _) rfl,
        still hI.disjoint (aged_updateFlag _) (aged_updateFlag _)⟩
    | _ => cases h

/-- **The step lemma.** -/
theorem accountInv_step {b : MoveAction} (hg : s.careful b = true)
    (h : s.step win b = some s') : AccountInv s' := by
  cases b with
  | source =>
    obtain ⟨hc, h⟩ := Option.ite_none_right_eq_some.1 h
    rw [Bool.and_eq_true] at hc
    obtain ⟨mb, hstep, rfl⟩ := Option.map_eq_some_iff.1 h
    have hst := passInv_step hI.source hc.1 hg hstep
    exact { hI with
      source := hst.inv
      disjoint := aged hI.disjoint (aged_step hstep) (Aged.refl _) (not_gives_of_freshFor hc.2)
      waiting := fun w hw => (hI.waiting w hw).keep hst.rows hst.later
      call := fun m hm => (hI.call m hm).keep hst.rows hst.later (refl _) }
  | target =>
    obtain ⟨hc, h⟩ := Option.ite_none_right_eq_some.1 h
    rw [Bool.and_eq_true] at hc
    obtain ⟨mb, hstep, rfl⟩ := Option.map_eq_some_iff.1 h
    have hst := passInv_step hI.target hc.1 hg hstep
    have hapart := (symm hI.disjoint).aged (aged_step hstep) (Aged.refl _)
      (not_gives_of_freshFor hc.2)
    exact { hI with
      target := hst.inv
      disjoint := hapart.symm
      call := fun m hm => (hI.call m hm).keep (RowsKept.refl _) (refl _) hst.later }
  | apply id =>
    simp only [step] at h
    split at h
    · cases h
    · next r hr =>
      obtain ⟨hd, ⟨⟩⟩ := Option.ite_none_left_eq_some.1 h
      obtain ⟨hmem, hid⟩ := rowOf_eq_some.1 hr
      have hlive := live_eq_true.2 ⟨r, rowAt_of_mem hmem, by simpa using hd⟩
      have hclaimed : Claimed s.source id r.uid :=
        ⟨lt_next_of_live hI.source.follows hlive, .inl ⟨r, hmem, hid, rfl⟩⟩
      exact { hI with waiting := forall_mem_cons.2 ⟨hclaimed, hI.waiting⟩ }
  | enter =>
    simp only [step] at h
    split at h
    · next w hcall hw =>
      cases h
      refine { hI with
        waiting := fun w' hw' => hI.waiting w' (mem_of_mem_eraseIdx hw')
        call := fun m hm => ?_ }
      cases hm
      exact hI.waiting w (mem_of_getElem? hw)
    · cases h
  | advance =>
    simp only [step] at h
    split at h
    · cases h
    · next m hm =>
      obtain ⟨⟨s₁, next⟩, hadv, rfl⟩ := Option.map_eq_some_iff.1 h
      have hsource := sourceInv_advance (hm ▸ hI.toSourceInv) hadv
      have htarget := targetInv_advance hI hm hg hadv
      exact { hsource with target := htarget.1, disjoint := htarget.2 }
  | fail =>
    cases h
    exact { hI with call := nofun }
  | give =>
    cases h
    exact { hI with waiting := fun w hw => hI.waiting w (mem_of_mem_eraseIdx hw) }

end

end Accounts

/-! ## The state it starts from -/

/-- The mailbox is at rest, and whatever its rows do not show happened after its
cursor: the state between two passes. -/
def Mailbox.inStep (mb : Mailbox) : Bool :=
  decide (mb.passes = []) &&
  mb.cursor.any (fun c => decide (c.uidValidity = mb.server.uidValidity) &&
    decide (0 < c.highestModSeq) && decide (c.highestModSeq ≤ mb.server.log.version) &&
    mb.server.messages.all (fun m => decide (c.highestModSeq < m.version) || mb.table.has m.key) &&
    mb.table.rows.all fun r => r.deleted || mb.server.log.mem r.uid ||
      mb.server.log.removed.any fun e => decide (e.1 = r.uid) && decide (c.highestModSeq < e.2)) &&
  mb.table.rows.all (fun r => !r.deleted ||
    decide (r.uid < mb.server.log.next) && !mb.server.log.mem r.uid) &&
  mb.server.log.removed.all fun e => decide (e.2 ≤ mb.server.log.version)

/-- Both mailboxes are, no key is in both, and no move is under way. -/
def Account.inStep (s : Account) : Bool :=
  s.source.inStep && s.target.inStep &&
  (s.source.table.rows.all fun r => s.target.table.rows.all fun r' =>
    decide (r.messageID ≠ r'.messageID)) &&
  decide (s.waiting = []) && decide (s.call = none)

lemma passInv_of_inStep {mb : Mailbox} (h : mb.inStep = true) : PassInv mb := by
  simp only [Mailbox.inStep, Bool.and_eq_true, decide_eq_true_eq, Option.any_eq_true,
    all_eq_true, Bool.or_eq_true, any_eq_true, Bool.not_eq_true'] at h
  obtain ⟨⟨⟨hnil, c, hc, ⟨⟨⟨hval, hpos⟩, hle⟩, hstored⟩, hacc⟩, htombs⟩, hrem⟩ := h
  refine ⟨⟨fun r hr hd => ?_, hrem, c, hc, hval, hpos, hle, fun i hi hiv => ?_, fun u hu hno => ?_⟩,
    by simp [hnil], by simp [hnil]⟩
  · rcases htombs r hr with hl | ⟨hlt, hmem⟩
    · rw [hd] at hl
      cases hl
    · refine ⟨hlt, fun i hi hk => ?_⟩
      rw [mem_eq_true.2 ⟨i, hi, hk⟩] at hmem
      cases hmem
  · exact (hstored i hi).resolve_left (by omega)
  · obtain ⟨r, hr, hd⟩ := live_eq_true.1 hu
    obtain ⟨hmem, rfl⟩ := rowAt_eq_some.1 hr
    rcases hacc r hmem with (hdel | hmem) | ⟨e, he, hk, hlt⟩
    · rw [hd] at hdel
      cases hdel
    · obtain ⟨i, hi, hk⟩ := mem_eq_true.1 hmem
      exact absurd hk (hno i hi)
    · exact .inr ⟨e.2, hk ▸ he, hlt⟩

lemma accountInv_of_inStep {s : Account} (h : s.inStep = true) : AccountInv s := by
  simp only [inStep, Bool.and_eq_true, decide_eq_true_eq, all_eq_true] at h
  obtain ⟨⟨⟨⟨hsrc, hdst⟩, hdisj⟩, hw⟩, hc⟩ := h
  refine ⟨⟨passInv_of_inStep hsrc, ?_, ?_⟩, passInv_of_inStep hdst, hdisj⟩
  · rw [hw]
    exact nofun
  · rw [hc]
    exact nofun

/-! ## One more pass -/

/-- The SELECT a pass works from. -/
def Pass.selected : Pass → Option SelectResult
  | .changes _ sel => some sel
  | .vanish _ sel _ => some sel
  | .flags _ sel _ => some sel
  | .filter _ (.delta sel) => some sel
  | .fetch _ _ (.delta sel) => some sel
  | .advance sel => some sel
  | _ => none

/-- Since the server stands still a pass was started, and it is over or its SELECT, if
it has one, is of the server as it is. -/
def Settling (mb : Mailbox) : Prop :=
  mb.passes = [] ∧ Tracks mb.server.log mb.table mb.server.log.version ∨ ∃ p, mb.passes = [p] ∧
      ∀ sel, p.selected = some sel → sel.highestModSeq = mb.server.log.version

section Settle

variable {win : Int} {s s' : Account} {mb mb' : Mailbox} {p q : Pass} {next : Option Pass}
  {b : MoveAction}

/-- A pass keeps its SELECT; the first call of one makes it. -/
lemma selected_move (hm : PassMove win mb p mb' next) (hp : p.Tracking mb)
    (hq : next = some q) : q.selected = p.selected ∨
      ∃ known modSeq van, q.selected = some (selectQResync mb.server known modSeq van) := by
  cases hm with
  | resume =>
    cases hq
    exact .inr ⟨_, _, _, rfl⟩
  | changes | vanish | flags | resync =>
    cases hq
    exact .inl rfl
  | filter uids w | gone wanted fetched w | read wanted fetched w | commit wanted uids fetched w
  | stored w =>
    cases hq
    cases w with
    | delta => exact .inl rfl
    | _ => exact absurd hp id
  | advance | noCursor => cases hq
  | _ => exact absurd hp id

lemma settling_advance {i : Nat} {reply : Reply} (hI : PassInv mb) (hS : Settling mb)
    (ho : mb.orderly (.advance i reply) = true)
    (h : mb.step win (.advance i reply) = some mb') : Settling mb' := by
  obtain ⟨p, mb₁, next, hp, hr, rfl⟩ := step_advance h
  rcases hS with ⟨hnil, -⟩ | ⟨p', hone, hsel⟩
  · rw [hnil] at hp
    cases hp
  have hpp : p' = p := by
    have := mem_of_getElem? hp
    rw [hone, mem_singleton] at this
    exact this.symm
  subst hpp
  have htr := hI.passes p' (mem_of_getElem? hp)
  have hadv := tracking_move hr hI.follows htr ho
  rw [continueAt_single hI.single hp]
  cases next with
  | none =>
    obtain ⟨sel, rfl, ht⟩ := hadv.ended rfl
    refine .inl ⟨rfl, ?_⟩
    show Tracks mb₁.server.log mb₁.table mb₁.server.log.version
    rw [hadv.server] at ht ⊢
    exact hsel sel rfl ▸ ht
  | some q =>
    refine .inr ⟨q, rfl, fun sel hq => ?_⟩
    show sel.highestModSeq = mb₁.server.log.version
    rw [hadv.server]
    have hmove := advance_move hr (Reply.stores_of_orderly ho)
    rcases selected_move hmove htr rfl with hsame | ⟨known, modSeq, van, hnew⟩
    · exact hsel sel (hsame ▸ hq)
    · rw [hnew] at hq
      cases hq
      rfl

lemma settling_start {st : Start} (ho : mb.orderly (.start st) = true)
    (h : mb.step win (.start st) = some mb') : Settling mb' := by
  cases h
  have hnil : mb.passes = [] := of_decide_eq_true ho
  refine .inr ⟨st.pass mb.cursor, by simp [hnil], fun sel hsel => ?_⟩
  cases st <;> cases hsel

/-- The calls of passes over the two mailboxes, one at a time. -/
lemma settling_step (hI : AccountInv s) (hb : b.passCall = true) (hg : s.careful b = true)
    (h : s.step win b = some s') :
    (Settling s.source ∨ b = .source (.start .incremental) → Settling s'.source) ∧
      (Settling s.target ∨ b = .target (.start .incremental) → Settling s'.target) := by
  cases b with
  | source a =>
    obtain ⟨-, h⟩ := Option.ite_none_right_eq_some.1 h
    obtain ⟨mb, hstep, rfl⟩ := Option.map_eq_some_iff.1 h
    refine ⟨fun hS => ?_, fun hS => hS.resolve_right nofun⟩
    cases a with
    | start => exact settling_start hg hstep
    | advance =>
      exact settling_advance hI.source (hS.resolve_right nofun) hg hstep
    | _ => cases hb
  | target a =>
    obtain ⟨-, h⟩ := Option.ite_none_right_eq_some.1 h
    obtain ⟨mb, hstep, rfl⟩ := Option.map_eq_some_iff.1 h
    refine ⟨fun hS => hS.resolve_right nofun, fun hS => ?_⟩
    cases a with
    | start => exact settling_start hg hstep
    | advance =>
      exact settling_advance hI.target (hS.resolve_right nofun) hg hstep
    | _ => cases hb
  | _ => cases hb

/-- After a run of such calls, every mailbox in which a pass was started is settling. -/
lemma settling_run {bs : List MoveAction} (hI : AccountInv s) (hb : ∀ b ∈ bs, b.passCall = true)
    (hg : Run.Guarded (Account.step win) (fun s b => s.careful b = true) s bs)
    (h : Run.exec (Account.step win) s bs = some s') :
    (Settling s.source ∨ .source (.start .incremental) ∈ bs → Settling s'.source) ∧
      (Settling s.target ∨ .target (.start .incremental) ∈ bs → Settling s'.target) := by
  induction bs generalizing s with
  | nil =>
    cases h
    exact ⟨fun hS => hS.resolve_right nofun,
      fun hS => hS.resolve_right nofun⟩
  | cons b bs ih =>
    obtain ⟨s₁, hstep, hrun⟩ := exec_cons_eq_some.1 h
    have hI₁ := accountInv_step hI hg.1 hstep
    have hone := settling_step hI (hb b mem_cons_self) hg.1 hstep
    have hrest := ih hI₁ (fun b' hb' => hb b' (mem_cons_of_mem _ hb')) (hg.2 s₁ hstep) hrun
    constructor
    · rintro (hS | hm)
      · exact hrest.1 (.inl (hone.1 (.inl hS)))
      · rcases mem_cons.1 hm with he | hm
        · exact hrest.1 (.inl (hone.1 (.inr he.symm)))
        · exact hrest.1 (.inr hm)
    · rintro (hS | hm)
      · exact hrest.2 (.inl (hone.2 (.inl hS)))
      · rcases mem_cons.1 hm with he | hm
        · exact hrest.2 (.inl (hone.2 (.inr he.symm)))
        · exact hrest.2 (.inr hm)

end Settle

/-! ## The result -/

/-- The live rows are the messages, one row each, and no tombstone stands for one. -/
structure InSync (mb : Mailbox) : Prop where
  one : ∀ m ∈ mb.server.messages, ∃! r, r ∈ mb.table.rows ∧ r.deleted = false ∧ r.uid = m.key
  only : ∀ r ∈ mb.table.rows, r.deleted = false → ∃ m ∈ mb.server.messages, m.key = r.uid
  tombstones : ∀ r ∈ mb.table.rows, r.deleted = true → ∀ m ∈ mb.server.messages, m.key ≠ r.uid

lemma inSync_of_settling {mb : Mailbox} (hI : PassInv mb) (hS : Settling mb)
    (hnil : mb.passes = []) : InSync mb := by
  obtain ⟨-, ht⟩ : mb.passes = [] ∧ Tracks mb.server.log mb.table mb.server.log.version := by
    refine hS.resolve_right ?_
    rintro ⟨p, hp, -⟩
    rw [hnil] at hp
    cases hp
  refine ⟨fun m hm => ?_, fun r hr hd => ?_, fun r hr hd => (hI.follows.tombs r hr hd).2⟩
  · have hlive := hI.follows.tombs.live hm (ht.stored m hm (mb.server.log.version_le m hm))
    obtain ⟨r, hr, hd⟩ := live_eq_true.1 hlive
    have hmem := rowAt_eq_some.1 hr
    refine ⟨r, ⟨hmem.1, hd, hmem.2⟩, fun r' hr' => ?_⟩
    have hat := rowAt_eq_some.2 ⟨hr'.1, hr'.2.2⟩
    rw [hr] at hat
    exact (Option.some.inj hat).symm
  · by_contra hno
    have hlive : mb.table.live r.uid = true :=
      live_eq_true.2 ⟨r, rowAt_of_mem hr, hd⟩
    rcases ht.accounted r.uid hlive fun i hi hk => hno ⟨i, hi, hk⟩ with hm | ⟨v, hv, hlt⟩
    · cases hm
    · exact absurd (hI.follows.removals _ hv) (Nat.not_le_of_lt hlt)

/-- **Moves and passes agree in the end.**  After any careful run of moves, passes and
server changes, once nothing is under way and each mailbox has had one more pass, the
live rows of both mailboxes are their messages. -/
theorem moves_settle (win : Int) (s₀ s s' : Account) (as bs : List MoveAction)
    (h₀ : s₀.inStep = true)
    (hga : Run.Guarded (Account.step win) (fun s b => s.careful b = true) s₀ as)
    (hra : Run.exec (Account.step win) s₀ as = some s)
    (hb : ∀ b ∈ bs, b.passCall = true) (hsrc : .source (.start .incremental) ∈ bs)
    (hdst : .target (.start .incremental) ∈ bs)
    (hgb : Run.Guarded (Account.step win) (fun s b => s.careful b = true) s bs)
    (hrb : Run.exec (Account.step win) s bs = some s') (hq' : s'.quiet = true) :
    InSync s'.source ∧ InSync s'.target := by
  have hstep : ∀ s b s', s.careful b = true → AccountInv s → step win s b = some s' →
      AccountInv s' := fun s b s' hg hI h => accountInv_step hI hg h
  have hI : AccountInv s := inv_exec hstep (accountInv_of_inStep h₀) hga hra
  have hI' : AccountInv s' := inv_exec hstep hI hgb hrb
  have hS := settling_run hI hb hgb hrb
  simp only [quiet, Bool.and_eq_true, decide_eq_true_eq] at hq'
  exact ⟨inSync_of_settling hI'.source (hS.1 (.inr hsrc)) hq'.1.1.1,
    inSync_of_settling hI'.target (hS.2 (.inr hdst)) hq'.1.1.2⟩

/-- One stored message in the source, and nothing in the target. -/
def oneToMove : Account where
  source :=
    { Mailbox.discovered (announcing (empty.add 0 none ⟨0, []⟩)) with
      table := Table.empty.insert ⟨1, 1, ⟨0, []⟩, false⟩
      cursor := some ⟨7, 2, 2⟩ }
  target := { Mailbox.discovered (announcing empty) with cursor := some ⟨7, 1, 1⟩ }
  waiting := []
  call := none

/-- An incremental pass that finds nothing to fetch, told what vanished. -/
def passOver (selectData : UIDSet) : List Action :=
  [.start .incremental, .advance 0 (.vanished ⟨[], selectData, []⟩),
    .advance 0 (.vanished ⟨[], [], []⟩), .advance 0 .ok, .advance 0 .ok, .advance 0 .ok,
    .advance 0 .ok, .advance 0 .ok]

/-- One more pass over each mailbox. -/
def lastPasses : List MoveAction := (passOver []).map .source ++ (passOver []).map .target

/-- The pass over the target asks for the changes before `MoveMessages` and for the
stored UIDs after it, the pass over the source follows. -/
def rowFollowed : List MoveAction :=
  [.apply 1, .enter 0, .advance (.moved 0 (some 7))] ++
    ((passOver []).take 3).map .target ++ [.advance .ok, .advance .ok] ++
    ((passOver []).drop 3).map .target ++ [.advance .ok, .advance .ok] ++
    (passOver [(1, some 1)]).map .source

theorem moves_settle_rowFollowed :
    ∃ s s', Run.exec (Account.step 0) oneToMove rowFollowed = some s ∧
      Run.exec (Account.step 0) s lastPasses = some s' ∧
      s'.target.table.rows = [⟨1, 1, ⟨0, []⟩, false⟩] ∧
      InSync s'.source ∧ InSync s'.target := by
  obtain ⟨s, hra, hs⟩ : ∃ s, exec (step 0) oneToMove rowFollowed = some s ∧
      ((exec (step 0) s lastPasses).any fun s' =>
        s'.quiet && decide (s'.target.table.rows = [⟨1, 1, ⟨0, []⟩, false⟩])) = true ∧
      Run.Guarded (step 0) (fun s b => s.careful b = true) s lastPasses :=
    exists_exec (by decide +kernel)
  obtain ⟨s', hrb, hs'⟩ := (Option.any_eq_true _ _).1 hs.1
  rw [Bool.and_eq_true, decide_eq_true_eq] at hs'
  have hga : Run.Guarded (step 0) (fun s b => s.careful b = true) oneToMove rowFollowed := by
    decide +kernel
  exact ⟨s, s', hra, hrb, hs'.2, moves_settle 0 oneToMove s s' rowFollowed lastPasses
    (by decide) hga hra (by decide) (by decide) (by decide) hs.2 hrb hs'.1⟩

/-- A pass over the source is told of the expunge before `MoveMessages` runs. -/
def tombstoneFirst : List MoveAction :=
  [.apply 1, .enter 0, .advance (.moved 0 (some 7))] ++ (passOver [(1, some 1)]).map .source ++
    [.advance .ok, .advance .ok, .advance .ok, .advance .ok]

/-- The tombstone is moved along with the row, and the pass over the target takes it
for the stored message: the message is on the server, and no live row stands for it. -/
theorem tombstone_follows_the_move :
    ∃ s, Run.exec (Account.step 0) oneToMove (tombstoneFirst ++ lastPasses) = some s ∧
      s.quiet = true ∧ s.target.server.messages.map Item.key = [1] ∧
      s.target.table.rows = [⟨1, 1, ⟨0, []⟩, true⟩] ∧ s.source.table.rows = [] :=
  exists_exec (by decide +kernel)

end Moov.Sync
