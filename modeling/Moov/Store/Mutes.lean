import Moov.Store.ThreadRows

/-!
# A mute stays with its conversation

`SetMute` hangs a mute on a row of `threads`, and `IsThreadMuted` and the archiver read it
through the live row of a `thread_id`.  A merge keeps one row and tombstones the others
without a look at the mutes.  `mute_follows` says when the mute is still read afterwards:
no muted row is at stake, or the row that survives is muted.  `mute_left_behind` has a run
in which the muted row is tombstoned, and one in which it is given to another thread.
-/

namespace Moov.Threads

open List ThreadTable

namespace Db

section Call

variable (txt : Texts) (now : Int) (s : Db) (call : Call)

/-- The row is one that the call may change: that of a thread which is brought together with
others, that of the message's own thread, or one with the key of the conversation. -/
def staked (r : ThreadRow) : Bool :=
  (r.live && (decide (r.threadID = s.winner txt now call) ||
    decide (r.threadID ∈ s.absorbed txt now call) ||
    s.messages.any fun m => decide (m.id = call.id) && decide (m.threadID = r.threadID))) ||
  decide (s.keyAfter txt now call = some r.rootMessageID)

/-- The row that survives is muted: that of the winner, or else the one with the key. -/
def survivorMuted : Bool :=
  match s.threads.byThread (s.winner txt now call) with
  | some e => s.mutes.contains e.id
  | none => ((s.keyAfter txt now call).bind s.threads.byKey).any fun r => s.mutes.contains r.id

/-- No muted row is at stake; or the key is free and the row that survives is muted. -/
def sparesMutes : Bool :=
  (s.threads.rows.all fun r => !s.staked txt now call r || !s.mutes.contains r.id) ||
    (s.keyFree txt now call && s.survivorMuted txt now call)

end Call

variable {txt : Texts} {now : Int} {s s' : Db} {call : Call} {t : Nat}

lemma isThreadMuted_iff : s.isThreadMuted t = true ↔
    ∃ r ∈ s.threads.rows, r.live = true ∧ r.threadID = t ∧ r.id ∈ s.mutes := by
  simp only [isThreadMuted, any_eq_true, Bool.and_eq_true, beq_iff_eq]
  constructor
  · rintro ⟨id, hid, r, hr, ⟨rfl, ht⟩, hl⟩
    exact ⟨r, hr, hl, ht, hid⟩
  · rintro ⟨r, hr, hl, ht, hid⟩
    exact ⟨r.id, hid, r, hr, ⟨rfl, ht⟩, hl⟩

/-- What `IsThreadMuted` answers, the lookup of the archiver answers. -/
lemma mem_mutedAmong {ids : List Nat} (h : s.isThreadMuted t = true) (h0 : t ≠ 0)
    (ht : t ∈ ids) : t ∈ s.mutedAmong ids := by
  obtain ⟨r, hr, hl, rfl, hid⟩ := isThreadMuted_iff.1 h
  have hrow : r ∈ s.threadRowsByThreadIDs (ids.filter fun id => id ≠ 0) := by
    refine mem_filter.2 ⟨hr, ?_⟩
    simp [ht, h0, hl]
  refine mem_map.2 ⟨r, mem_filter.2 ⟨hrow, ?_⟩, rfl⟩
  rw [contains_iff_mem]
  exact mem_filter.2 ⟨hid, contains_iff_mem.2 (mem_map_of_mem hrow)⟩

/-- A row that is not at stake stays as it is. -/
lemma row_kept_of_not_staked (ha : Assigned txt now call s s') {r : ThreadRow}
    (hr : r ∈ s.threads.rows) (hl : r.live = true) (hno : s.staked txt now call r = false) :
    r ∈ s'.threads.rows := by
  obtain ⟨key, row, tbl, hkey, -, hrows, hkept, -⟩ := ha.rows
  simp only [staked, hl, hkey, Bool.true_and, Bool.or_eq_false_iff, decide_eq_false_iff_not,
    Option.some.injEq] at hno
  obtain ⟨⟨⟨hw, hab⟩, -⟩, hroot⟩ := hno
  refine hkept r ?_ fun h => hab h.2.1
  rcases hrows with hwritten | htaken
  · refine (hwritten.mem r).2 (.inl ⟨hr, fun hid => ?_⟩)
    exact (hwritten.replaced r hr hid).1.elim (fun he => hroot he.symm) fun h => hw h.2
  · exact htaken.kept r hr (fun he => hroot he.symm) fun h => hw h.2

/-- The row of the winner is the row that survives. -/
lemma muted_winner (hfree : s.keyFree txt now call = true)
    (hmuted : s.survivorMuted txt now call = true) (ha : Assigned txt now call s s') :
    s'.isThreadMuted (s.winner txt now call) = true := by
  obtain ⟨key, row, tbl, hkey, hrow, hwritten | htaken, hkept, -⟩ := ha.rows
  · have hlive : row.live = true := hwritten.live_of_keyFree hfree hkey
    refine isThreadMuted_iff.2 ⟨row, hkept row hrow fun h => h.2.2 rfl, hlive, hwritten.thread, ?_⟩
    rw [ha.mutes]
    -- A row that is kept beside the one that was written does not share its thread or its key.
    have hother : ∀ r ∈ s.threads.rows,
        (r.live = true ∧ r.threadID = s.winner txt now call) ∨ r.rootMessageID = key →
        r.id = row.id := by
      intro r hr hrw
      by_contra hne
      have hmem : r ∈ tbl.rows := (hwritten.mem r).2 (.inl ⟨hr, hne⟩)
      have heq : r = row := by
        rcases hrw with ⟨hl, ht⟩ | hk
        · exact eq_of_thread hmem hrow hl hlive (ht.trans hwritten.thread.symm)
        · exact eq_of_key hmem hrow (hk.trans hwritten.root.symm)
      exact hne (congrArg ThreadRow.id heq)
    unfold survivorMuted at hmuted
    split at hmuted
    · next e hb =>
      obtain ⟨he, hl, ht⟩ := byThread_eq_some.1 hb
      rw [← hother e he (.inl ⟨hl, ht⟩)]
      exact contains_iff_mem.1 hmuted
    · rw [hkey, Option.bind_some] at hmuted
      cases hb : s.threads.byKey key with
      | none =>
        rw [hb] at hmuted
        cases hmuted
      | some r =>
        obtain ⟨hr, hroot⟩ := byKey_eq_some.1 hb
        rw [hb] at hmuted
        rw [← hother r hr (.inr hroot)]
        exact contains_iff_mem.1 hmuted
  · obtain ⟨o, ho, horoot, hdead⟩ := htaken.other
    rw [(of_keyFree hfree hkey ho horoot).1] at hdead
    cases hdead

end Db

/-! ## Runs -/

open Db

/-- The messages of the conversation that a live row names. -/
def Db.conversation (s : Db) (rowID : Nat) : List Nat :=
  match s.threads.byID rowID with
  | some r => if r.live then (s.members r.threadID).map Message.id else []
  | none => []

/-- An account, with the messages whose conversation was muted and not unmuted since. -/
structure Muting where
  account : Account
  quiet : List Nat

namespace Muting

def empty : Muting := ⟨.empty, []⟩

/-- What an action does to the messages that should be quiet. -/
def quietAfter (s : Muting) : Action → List Nat
  | .setMute rowID true => s.quiet ++ s.account.db.conversation rowID
  | .setMute rowID false => s.quiet.filter fun id => id ∉ s.account.db.conversation rowID
  | _ => s.quiet

def step (txt : Texts) (s : Muting) (a : Action) : Option Muting :=
  (s.account.step txt a).map fun account => ⟨account, s.quietAfter a⟩

/-- Every call of the action spares the mutes. -/
def sparing (txt : Texts) (s : Muting) (a : Action) : Bool :=
  a.everyCall txt (fun now db call => db.sparesMutes txt now call) s.account.db

end Muting

namespace Account

variable {txt : Texts} {now : Int} {s : Account} {call : Call} {db : Db} {quiet : List Nat}

/-- The messages that should be quiet are in muted threads. -/
structure Quiet (quiet : List Nat) (s : Account) : Prop where
  sound : s.Sound
  stored : ∀ id ∈ quiet, ∃ m ∈ s.db.messages, m.id = id
  muted : ∀ m ∈ s.db.messages, m.id ∈ quiet → s.db.isThreadMuted m.threadID = true

lemma Quiet.afterCall (hI : Quiet quiet s) (hT : s.Takes call)
    (hc : s.db.sparesMutes txt now call = true)
    (hone : s.db.assignOne txt now call.limit call.id call.candidate = .ok db) :
    Quiet quiet (s.threaded call db) := by
  have ha := assigned_of_ok hone
  refine ⟨hI.sound.afterCall hT hone, fun id hid => ?_, fun m' hm' hq => ?_⟩
  · obtain ⟨m, hm, rfl⟩ := hI.stored id hid
    obtain ⟨f, hms, hf⟩ := ha.moves
    exact ⟨f m, (hms ▸ mem_map_of_mem hm : f m ∈ db.messages), (hf m).1⟩
  obtain ⟨m, hm, hid, -, -, hthread⟩ := ha.moves.mem_iff hm'
  obtain ⟨r, hr, hl, ht, hmute⟩ := isThreadMuted_iff.1 (hI.muted m hm (hid ▸ hq))
  show db.isThreadMuted m'.threadID = true
  rw [sparesMutes, Bool.or_eq_true, Bool.and_eq_true] at hc
  rcases hc with hnone | ⟨hfree, hsurvivor⟩
  · -- The muted row is not at stake: the message stays in its thread, and the row with it.
    have hno : s.db.staked txt now call r = false := by
      simpa [hmute] using all_eq_true.1 hnone r hr
    refine isThreadMuted_iff.2
      ⟨r, row_kept_of_not_staked ha hr hl hno, hl, ?_, by rw [ha.mutes]; exact hmute⟩
    simp only [staked, hl, Bool.true_and, Bool.or_eq_false_iff, decide_eq_false_iff_not,
      any_eq_false, Bool.and_eq_true, decide_eq_true_eq] at hno
    have hne : m.id ≠ call.id := fun he => hno.1.2 m hm ⟨he, ht.symm⟩
    rw [hthread, threadAfter_of_ne hne, if_neg (ht ▸ hno.1.1.2), ht]
  · rcases @threadAfter_cases txt now s.db call m with he | ⟨he, hab⟩
    · rw [hthread, he]
      exact muted_winner hfree hsurvivor ha
    · by_cases hw : m.threadID = s.db.winner txt now call
      · rw [hthread, he, hw]
        exact muted_winner hfree hsurvivor ha
      · refine isThreadMuted_iff.2 ⟨r, row_kept hfree ha hr (ht ▸ hw) (ht ▸ hab), hl, ?_, ?_⟩
        · rw [hthread, he, ht]
        · rw [ha.mutes]
          exact hmute

lemma Quiet.afterInsert {batch : List Arrival} (hI : Quiet quiet s) (hf : s.fresh batch = true) :
    Quiet quiet (s.arrive now batch) := by
  obtain ⟨-, hnew⟩ := fresh_iff.1 hf
  refine ⟨hI.sound.afterInsert hf, fun id hid => ?_, fun m hm hq => ?_⟩
  · obtain ⟨m, hm, he⟩ := hI.stored id hid
    exact ⟨m, mem_append_left _ hm, he⟩
  · rcases mem_append.1 hm with hm | hm
    · exact hI.muted m hm hq
    · obtain ⟨a, ha, rfl⟩ := mem_map.1 hm
      obtain ⟨q, hq, he⟩ := hI.stored _ hq
      exact absurd he ((hnew a ha).2 q hq)

lemma mem_conversation {rowID i : Nat} : i ∈ s.db.conversation rowID ↔
    ∃ r ∈ s.db.threads.rows, r.id = rowID ∧ r.live = true ∧
      ∃ m ∈ s.db.messages, m.threadID = r.threadID ∧ m.id = i := by
  unfold conversation
  constructor
  · intro h
    split at h
    · next r hb =>
      obtain ⟨hr, hid⟩ := byID_eq_some.1 hb
      split at h
      · next hl =>
        obtain ⟨m, hm, rfl⟩ := mem_map.1 h
        obtain ⟨hm, ht⟩ := mem_filter.1 hm
        exact ⟨r, hr, hid, hl, m, hm, beq_iff_eq.1 ht, rfl⟩
      · cases h
    · cases h
  · rintro ⟨r, hr, hid, hl, m, hm, ht, rfl⟩
    rw [byID_eq_some.2 ⟨hr, hid⟩]
    show m.id ∈ if r.live then _ else _
    rw [if_pos hl]
    exact mem_map_of_mem (mem_filter.2 ⟨hm, beq_iff_eq.2 ht⟩)

/-- The conversation of a row that is muted is quiet. -/
lemma Quiet.afterMute (hI : Quiet quiet s) (rowID : Nat) :
    Quiet (quiet ++ s.db.conversation rowID) { s with db := s.db.setMute rowID true } := by
  have hmem : ∀ n, n ∈ s.db.mutes → n ∈ (s.db.setMute rowID true).mutes := by
    intro n hn
    simp only [setMute, if_true]
    split
    · exact mem_append_left _ hn
    · exact hn
  have hrow : ∀ r ∈ s.db.threads.rows, r.id = rowID → rowID ∈ (s.db.setMute rowID true).mutes := by
    intro r hr hid
    simp only [setMute, if_true]
    split
    · exact mem_append_right _ (mem_singleton.2 rfl)
    · next hno =>
      by_contra hmute
      exact hno ⟨by rw [byID_eq_some.2 ⟨hr, hid⟩]; rfl, hmute⟩
  have hS' := hI.sound.afterMute rowID true
  obtain ⟨mutes, he⟩ := s.db.exists_setMute_eq rowID true
  rw [he] at hmem hrow hS' ⊢
  refine ⟨hS', fun id hid => ?_, fun m hm hq => isThreadMuted_iff.2 ?_⟩
  · rcases mem_append.1 hid with hid | hid
    · exact hI.stored id hid
    · obtain ⟨-, -, -, -, m, hm, -, hid⟩ := mem_conversation.1 hid
      exact ⟨m, hm, hid⟩
  · rcases mem_append.1 hq with hq | hq
    · obtain ⟨r, hr, hl, ht, hmute⟩ := isThreadMuted_iff.1 (hI.muted m hm hq)
      exact ⟨r, hr, hl, ht, hmem _ hmute⟩
    · obtain ⟨r, hr, hid, hl, q, hq, ht, hqm⟩ := mem_conversation.1 hq
      rw [hI.sound.eq_of_id hq hm hqm] at ht
      exact ⟨r, hr, hl, ht.symm, hid ▸ hrow r hr hid⟩

/-- An unmute is for the conversation of its row only. -/
lemma Quiet.afterUnmute (hI : Quiet quiet s) (rowID : Nat) :
    Quiet (quiet.filter fun id => id ∉ s.db.conversation rowID)
      { s with db := s.db.setMute rowID false } := by
  refine ⟨hI.sound.afterMute rowID false, fun id hid => hI.stored id (mem_filter.1 hid).1,
    fun m hm hq => isThreadMuted_iff.2 ?_⟩
  obtain ⟨hq, hconv⟩ := mem_filter.1 hq
  obtain ⟨r, hr, hl, ht, hmute⟩ := isThreadMuted_iff.1 (hI.muted m hm hq)
  refine ⟨r, hr, hl, ht, mem_filter.2 ⟨hmute, ?_⟩⟩
  have hconv : m.id ∉ s.db.conversation rowID := by simpa using hconv
  exact decide_eq_true fun hid => hconv (mem_conversation.2 ⟨r, hr, hid, hl, m, hm, ht.symm, rfl⟩)

/-- Inserts and calls keep the messages that are quiet so. -/
lemma Quiet.afterStep {a : Action} {s' : Account} (hno : ∀ rowID muted, a ≠ .setMute rowID muted)
    (hc : a.everyCall txt (fun now db call => db.sparesMutes txt now call) s.db = true)
    (hI : Quiet quiet s) (h : s.step txt a = some s') : Quiet quiet s' := by
  refine inv_step (P := fun s b => (∀ rowID muted, b ≠ .setMute rowID muted) ∧
    b.everyCall txt (fun now db call => db.sparesMutes txt now call) s.db = true)
    (fun _ hI => hI.sound.zero) (fun _ _ _ hP => hP.2) (fun _ _ _ _ hI hf => hI.afterInsert hf)
    (fun _ _ _ _ hI hT _ hc hone => hI.afterCall hT hc hone) ?_ s a s' ⟨hno, hc⟩ hI h
  exact fun s rowID muted hP _ => absurd rfl (hP.1 rowID muted)

end Account

lemma quiet_step {txt : Texts} : ∀ s a s', Muting.sparing txt s a = true →
    s.account.Quiet s.quiet → s.step txt a = some s' → s'.account.Quiet s'.quiet := by
  intro s a s' hc hI h
  obtain ⟨acc, hacc, rfl⟩ := Option.map_eq_some_iff.1 h
  cases a with
  | insert | assign => exact hI.afterStep (fun _ _ he => by cases he) hc hacc
  | setMute rowID muted =>
    cases hacc
    cases muted with
    | true => exact hI.afterMute rowID
    | false => exact hI.afterUnmute rowID

/-- **A mute stays with its conversation.**  In every state of a run whose calls spare the
mutes, `IsThreadMuted` and the lookup of the archiver find the thread of every message
whose conversation was muted and not unmuted since. -/
theorem mute_follows (txt : Texts) (as : List Action) (s : Muting)
    (hG : Run.Guarded (Muting.step txt) (fun s a => s.sparing txt a = true) .empty as)
    (h : Run.exec (Muting.step txt) .empty as = some s) :
    ∀ m ∈ s.account.db.messages, m.id ∈ s.quiet → s.account.db.isThreadMuted m.threadID = true ∧
      ∀ threadIDs, m.threadID ∈ threadIDs → m.threadID ∈ s.account.db.mutedAmong threadIDs := by
  have hI : s.account.Quiet s.quiet := by
    refine Run.inv_exec (I := fun s : Muting => s.account.Quiet s.quiet) quiet_step ?_ hG h
    exact ⟨Account.sound_empty, (fun id hid => by cases hid), fun m hm => by cases hm⟩
  intro m hm hq
  have hmuted := hI.muted m hm hq
  refine ⟨hmuted, fun ids hids => mem_mutedAmong hmuted ?_ hids⟩
  obtain ⟨q, hq, hid⟩ := hI.sound.carried m hm
  exact hid ▸ hI.sound.nonzero q hq

/-- Two conversations, one of which is muted before they are joined. -/
def mutedJoining (rowID : Nat) : List Action :=
  arrives 1 1 (naming "a" []) ++ arrives 2 5 (naming "b" []) ++ [.setMute rowID true] ++
    arrives 3 7 (naming "c" ["a", "b"])

theorem mute_follows_mutedJoining :
    ∃ s, Run.exec (Muting.step asciiTexts) .empty (mutedJoining 1) = some s ∧ s.quiet = [1] ∧
      ∀ m ∈ s.account.db.messages, m.id ∈ s.quiet → s.account.db.isThreadMuted m.threadID = true :=
  Run.exists_of_guarded (by decide +kernel) (by decide +kernel) fun s hG h _ m hm hmq =>
    (mute_follows asciiTexts (mutedJoining 1) s hG h m hm hmq).1

/-- The muted row is tombstoned by a merge, and a second message with the same Message-ID
takes it away: the conversation is not muted any more. -/
theorem mute_left_behind :
    (∃ s, Run.exec (Muting.step asciiTexts) .empty (mutedJoining 2) = some s ∧ s.quiet = [2] ∧
      s.account.db.messages.map Message.threadID = [1, 1, 1] ∧
      s.account.db.isThreadMuted 1 = false ∧ s.account.db.mutedAmong [1, 2] = []) ∧
    ∃ s, Run.exec (Muting.step asciiTexts) .empty
        (arrives 1 5 (naming "a" []) ++ [.setMute 1 true] ++ arrives 2 5 (naming "a" [])) = some s ∧
      s.quiet = [1] ∧ s.account.db.messages.map Message.threadID = [1, 2] ∧
      s.account.db.isThreadMuted 1 = false :=
  ⟨Run.exists_exec (by decide +kernel), Run.exists_exec (by decide +kernel)⟩

end Moov.Threads
