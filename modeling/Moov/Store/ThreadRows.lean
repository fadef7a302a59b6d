import Moov.Store.Batch

/-!
# One row for every thread

Every `thread_id` that a threaded message carries should have one live row of `threads`,
keyed by the oldest member, and no call of `AssignThreads` should fail.  Merging keeps
the smallest id and the key follows the oldest date, so that the row with the id and the
row with the key may be two.  `keyFree` says when they are not: `one_row_per_thread` is
then an invariant.  `rekey_refused` has a run in which an index refuses the re-key, and
one in which a second message with the same key takes the row away from the first.

`settled` is about limits only: the message is alone in its thread, or no query is cut
short and its thread is not too large for a merge.
-/

namespace Moov.Threads

open List Bool ThreadTable

namespace Db

section Call

variable (txt : Texts) (now : Int) (s : Db) (call : Call)

/-- The message is alone in its thread; or the graph queries are within their limit, and its
thread is the winner or one that can be merged. -/
def settled : Bool :=
  s.messages.all fun m => decide (m.id ≠ call.id) ||
    (decide (m.threadID = m.id) && s.messages.all fun q =>
      decide (q.threadID = m.id → q.id = m.id)) ||
    (s.withinLimit call.candidate &&
      (decide ((s.members m.threadID).length ≤ threadMergeMaxMembers) ||
        decide (m.threadID = s.winner txt now call)))

/-- The key of the conversation is on no row; or the row is live and is that of the winner,
or, when the winner has none, that of a thread it absorbs. -/
def keyFree : Bool :=
  match s.keyAfter txt now call with
  | none => true
  | some key =>
      s.threads.rows.all fun r => decide (r.rootMessageID ≠ key) ||
        (r.live && (decide (r.threadID = s.winner txt now call) ||
          (decide (r.threadID ∈ s.absorbed txt now call) &&
            (s.threads.byThread (s.winner txt now call)).isNone)))

def careful : Bool := s.settled txt now call && s.keyFree txt now call

end Call

variable {txt : Texts} {now : Int} {s s' : Db} {call : Call} {m q : Message} {t w id : Nat}

/-! ## The thread of the message itself -/

lemma length_members_joinThread_le (ht : t ≠ w) :
    ((s.joinThread id w).members t).length ≤ (s.members t).length := by
  obtain ⟨f, hms, -⟩ := exists_members_of_moves (@moves_joinThread s id w) t
  rw [hms, length_map]
  refine (monotone_filter_right _ fun x hx => ?_).length_le
  rw [beq_iff_eq] at hx ⊢
  split at hx
  · exact absurd hx.symm ht
  · exact hx

lemma members_joinThread_pos (hq : q ∈ s.messages) (ht : q.threadID = t)
    (hid : q.id ≠ id ∨ w = id) : 0 < ((s.joinThread id w).members t).length := by
  obtain ⟨f, hms, -⟩ := exists_members_of_moves (@moves_joinThread s id w) t
  rw [hms, length_map]
  refine length_pos_of_mem (mem_filter.2 ⟨hq, ?_⟩)
  have hno : ¬ (q.id = id ∧ w ≠ id) := fun h => hid.elim (fun hne => hne h.1) fun he => h.2 he
  rw [if_neg hno, ht]
  exact beq_self_eq_true t

lemma mem_absorbed (hr : t ∈ s.related txt now call) (ht : t ≠ s.winner txt now call)
    (hle : (s.members t).length ≤ threadMergeMaxMembers) (hq : q ∈ s.messages)
    (hqt : q.threadID = t) (hid : q.id ≠ call.id ∨ s.winner txt now call = call.id) :
    t ∈ s.absorbed txt now call := by
  refine mem_filter.2 ⟨hr, ?_⟩
  simp only [absorbs, and_eq_true, decide_eq_true_eq]
  exact ⟨⟨ht, members_joinThread_pos hq hqt hid⟩, Nat.le_trans
    (length_members_joinThread_le ht) hle⟩

end Db

namespace Account

variable {txt : Texts} {now : Int} {s : Account} {call : Call} {db : Db} {m : Message}

/-- The message is alone in its own thread, and no hint points there. -/
structure Alone (s : Account) (m : Message) : Prop where
  own : m.threadID = m.id
  only : ∀ q ∈ s.db.messages, q.threadID = m.id → q.id = m.id
  unhinted : ∀ h ∈ s.db.subjects, h.threadID ≠ m.id

/-- A message still to be threaded is alone, or it finds its own thread: it was moved along
with a message that has been threaded and that it finds. -/
def Linked (s : Account) : Prop :=
  ∀ m ∈ s.db.messages, m.id ∈ s.pending → s.Alone m ∨
    ∃ q ∈ s.db.messages, (q.id ∉ s.pending ∨ q.id = m.id) ∧ q.threadID = m.threadID ∧
      m.head.candidate.finds q.head = true

/-- The message that is threaded has the winner afterwards, and leaves no other message
behind in the thread it had. -/
lemma own_thread (hL : s.Linked) (hm : m ∈ s.db.messages) (hid : m.id = call.id)
    (hcand : m.head.candidate = call.candidate) (hpend : call.id ∈ s.pending)
    (hset : s.db.settled txt now call = true) :
    s.db.threadAfter txt now call m = s.db.winner txt now call ∧
      (m.threadID = s.db.winner txt now call ∨ m.threadID ∈ s.db.absorbed txt now call ∨
        ∀ q ∈ s.db.messages, q.threadID = m.threadID → q.id = m.id) := by
  have halone : s.Alone m ∨ (m.threadID = m.id ∧
      ∀ q ∈ s.db.messages, q.threadID = m.id → q.id = m.id) →
      s.db.threadAfter txt now call m = s.db.winner txt now call ∧
        ∀ q ∈ s.db.messages, q.threadID = m.threadID → q.id = m.id := by
    intro h
    have hown : m.threadID = m.id := h.elim (fun h => h.own) fun h => h.1
    have honly := h.elim (fun h => h.only) fun h => h.2
    refine ⟨?_, fun q hq ht => honly q hq (ht.trans hown)⟩
    by_cases hw : s.db.winner txt now call = call.id
    · rw [Db.threadAfter_own hw, hown, hid, ← hw]
      exact ite_self _
    · exact Db.threadAfter_joined hid hw
  simp only [Db.settled, all_eq_true] at hset
  have hset := hset m hm
  simp only [hid, ne_eq, not_true_eq_false, decide_false, Bool.false_or, Bool.or_eq_true,
    Bool.and_eq_true, decide_eq_true_eq, all_eq_true] at hset
  rcases hset with ⟨hown, honly⟩ | ⟨hlimit, hsize⟩
  · obtain ⟨hafter, hall⟩ := halone (.inr ⟨hown.trans hid.symm, by rw [hid]; exact honly⟩)
    exact ⟨hafter, .inr (.inr hall)⟩
  rcases hL m hm (hid ▸ hpend) with hA | ⟨q, hq, -, hqt, hfinds⟩
  · obtain ⟨hafter, hall⟩ := halone (.inl hA)
    exact ⟨hafter, .inr (.inr hall)⟩
  -- The message finds its own thread, and nothing is cut off by the limit.
  have hrel : m.threadID ∈ s.db.related txt now call :=
    hqt ▸ Db.mem_related hlimit hq (hcand ▸ hfinds)
  by_cases hwin : m.threadID = s.db.winner txt now call
  · refine ⟨?_, .inl hwin⟩
    rcases @Db.threadAfter_cases txt now s.db call m with he | ⟨he, -⟩
    · exact he
    · exact he.trans hwin
  have hsize := hsize.resolve_right hwin
  by_cases hw : s.db.winner txt now call = call.id
  · have habs := Db.mem_absorbed hrel hwin hsize hm rfl (.inr hw)
    refine ⟨?_, .inr (.inl habs)⟩
    rw [Db.threadAfter_own hw]
    exact if_pos habs
  · refine ⟨Db.threadAfter_joined hid hw, .inr ?_⟩
    by_cases hother : ∃ x ∈ s.db.messages, x.threadID = m.threadID ∧ x.id ≠ m.id
    · obtain ⟨x, hx, hxt, hne⟩ := hother
      exact .inl (Db.mem_absorbed hrel hwin hsize hx hxt (.inl (hid ▸ hne)))
    · refine .inr fun x hx hxt => ?_
      by_contra hne
      exact hother ⟨x, hx, hxt, hne⟩

/-- A message that is found is one the threaded message finds, or its thread has a hint. -/
lemma Linked.afterCall (hS : s.Sound) (hL : s.Linked) (hT : s.Takes call)
    (hset : s.db.settled txt now call = true)
    (hone : s.db.assignOne txt now call.limit call.id call.candidate = .ok db) :
    (s.threaded call db).Linked := by
  have ha := Db.assigned_of_ok hone
  obtain ⟨x, hx, hxid, hxcand⟩ := hT.stored
  obtain ⟨hxafter, -⟩ := own_thread hL hx hxid hxcand hT.pending hset
  obtain ⟨f, hms, hf⟩ := ha.moves
  have hmem : ∀ q ∈ s.db.messages, f q ∈ (s.threaded call db).db.messages :=
    fun q hq => (hms ▸ mem_map_of_mem hq : f q ∈ db.messages)
  intro m' hm' hpend'
  obtain ⟨m, hm, rfl⟩ := mem_map.1 (hms ▸ hm' : m' ∈ s.db.messages.map f)
  obtain ⟨hid, hhead, -, hthread⟩ := hf m
  obtain ⟨hpend, hne⟩ := mem_filter.1 hpend'
  rw [hid] at hpend hne
  have hne : m.id ≠ call.id := by simpa using hne
  have hafter := @Db.threadAfter_of_ne txt now s.db call m hne
  rcases hL m hm hpend with hA | ⟨q, hq, hqp, hqt, hfinds⟩
  · by_cases hrel : m.id = s.db.winner txt now call ∨ m.id ∈ s.db.absorbed txt now call
    · -- The thread of the message was found, and through nothing but the message itself.
      refine .inr ?_
      have hw : s.db.threadAfter txt now call m = s.db.winner txt now call := by
        rw [hafter, hA.own]
        exact hrel.elim (fun he => by rw [← he]; exact ite_self _) fun h => if_pos h
      have hfound : x.head.candidate.finds m.head = true := by
        have hmr : m.id ∈ s.db.related txt now call := by
          rcases hrel with he | hab
          · exact he ▸ (Db.winner_eq_or_mem.resolve_left fun hw => hne (he.trans hw))
          · exact Db.mem_related_of_mem_absorbed hab
        rcases Db.exists_of_mem_related hmr with ⟨q, hq, hfinds, ht⟩ | ⟨h, hh, ht⟩
        · rw [← hS.eq_of_id hq hm (hA.only q hq ht), hxcand]
          exact hfinds
        · exact absurd ht (hA.unhinted h hh)
      rcases finds_back hfound with hb | hb
      · refine ⟨f x, hmem x hx, .inl ?_, ?_, ?_⟩
        · rw [(hf x).1, hxid]
          exact fun h => by simpa using (mem_filter.1 h).2
        · rw [(hf x).2.2.2, hxafter, hthread, hw]
        · rw [hhead, (hf x).2.1]
          exact hb
      · refine ⟨f m, hm', .inr rfl, rfl, ?_⟩
        rw [hhead]
        exact hb
    · have hnw : m.id ≠ s.db.winner txt now call := fun he => hrel (.inl he)
      have hna : m.id ∉ s.db.absorbed txt now call := fun h => hrel (.inr h)
      refine .inl ⟨?_, fun q' hq' ht => ?_, fun h hh => ?_⟩
      · rw [hthread, hafter, hA.own, if_neg hna, hid]
      · obtain ⟨q, hq, rfl⟩ := mem_map.1 (hms ▸ hq' : q' ∈ s.db.messages.map f)
        rw [(hf q).2.2.2, hid] at ht
        rw [(hf q).1, hid]
        rcases @Db.threadAfter_cases txt now s.db call q with he | ⟨he, -⟩
        · exact absurd (ht.symm.trans he) hnw
        · exact hA.only q hq (he.symm.trans ht)
      · rw [hid]
        rcases ha.hints h hh with he | ⟨y, hy, he, -⟩
        · exact fun h => hnw (h.symm.trans he)
        · exact he ▸ hA.unhinted y hy
  · -- The other message moves along, or is this one.
    refine .inr ⟨f q, hmem q hq, ?_, ?_, ?_⟩
    · rw [(hf q).1, hid]
      rcases hqp with hqp | hqp
      · exact .inl fun h => hqp (mem_filter.1 h).1
      · exact .inr hqp
    · have hqne : q.id ≠ call.id := by
        rcases hqp with hqp | hqp
        · exact fun he => hqp (he ▸ hT.pending)
        · exact hqp ▸ hne
      rw [(hf q).2.2.2, hthread, hafter, Db.threadAfter_of_ne hqne, hqt]
    · rw [hhead, (hf q).2.1]
      exact hfinds

lemma Linked.afterInsert {batch : List Arrival} (hS : s.Sound) (hL : s.Linked)
    (hf : s.fresh batch = true) : (s.arrive now batch).Linked := by
  obtain ⟨hnd, hnew⟩ := fresh_iff.1 hf
  have hold : ∀ a ∈ batch, ∀ n, (∃ q ∈ s.db.messages, q.id = n) → n ≠ a.id :=
    fun a ha n ⟨q, hq, he⟩ hn => (hnew a ha).2 q hq (he.trans hn)
  intro m hm hpend
  rcases mem_append.1 hm with hm | hm
  · have hnb : m.id ∉ batch.map Arrival.id := by
      intro hmem
      obtain ⟨a, ha, he⟩ := mem_map.1 hmem
      exact (hnew a ha).2 m hm he.symm
    rcases hL m hm ((mem_append.1 hpend).resolve_right hnb) with hA | ⟨q, hq, hqp, hqt, hfinds⟩
    · refine .inl ⟨hA.own, fun q hq ht => ?_, hA.unhinted⟩
      rcases mem_append.1 hq with hq | hq
      · exact hA.only q hq ht
      · obtain ⟨a, ha, rfl⟩ := mem_map.1 hq
        exact ht
    · refine .inr ⟨q, mem_append_left _ hq, hqp.imp_left fun hq₁ hq₂ => ?_, hqt, hfinds⟩
      rcases mem_append.1 hq₂ with hq₂ | hq₂
      · exact hq₁ hq₂
      · obtain ⟨a, ha, he⟩ := mem_map.1 hq₂
        exact (hnew a ha).2 q hq he.symm
  · obtain ⟨a, ha, rfl⟩ := mem_map.1 hm
    refine .inl ⟨rfl, fun q hq ht => ?_, fun h hh => hold a ha _ (hS.hinted h hh)⟩
    rcases mem_append.1 hq with hq | hq
    · exact absurd ht (hold a ha _ (hS.carried q hq))
    · obtain ⟨b, hb, rfl⟩ := mem_map.1 hq
      exact ht

lemma Linked.afterMute (hL : s.Linked) (rowID : Nat) (muted : Bool) :
    Linked { s with db := s.db.setMute rowID muted } := by
  obtain ⟨mutes, he⟩ := s.db.exists_setMute_eq rowID muted
  rw [he]
  intro m hm hpend
  exact (hL m hm hpend).imp_left fun hA => { hA with }

end Account

/-! ## The rows -/

/-- The thread has a live row, and the key of this row is that of the oldest member. -/
def Db.Rowed (txt : Texts) (s : Db) (t : Nat) : Prop :=
  ∃ r ∈ s.threads.rows, r.live = true ∧ r.threadID = t ∧ s.threadRootKey txt t = .ok r.rootMessageID

namespace Db

variable {txt : Texts} {now : Int} {s s' : Db} {call : Call} {t : Nat} {key : String}
  {r : ThreadRow}

lemma of_keyFree (hfree : s.keyFree txt now call = true)
    (hkey : s.keyAfter txt now call = some key) (hr : r ∈ s.threads.rows)
    (hroot : r.rootMessageID = key) : r.live = true ∧ (r.threadID = s.winner txt now call ∨
      r.threadID ∈ s.absorbed txt now call ∧
        s.threads.byThread (s.winner txt now call) = none) := by
  rw [keyFree, hkey] at hfree
  have := all_eq_true.1 hfree r hr
  simpa [hroot] using this

lemma not_clashing (hfree : s.keyFree txt now call = true)
    (hkey : s.keyAfter txt now call = some key) :
    clashing s.threads key (s.winner txt now call) = false := by
  unfold clashing
  split
  · next e o hb hk =>
    obtain ⟨he, helive, hethread⟩ := byThread_eq_some.1 hb
    obtain ⟨ho, horoot⟩ := byKey_eq_some.1 hk
    obtain ⟨holive, hothread | ⟨-, hnone⟩⟩ := of_keyFree hfree hkey ho horoot
    · have heo : e = o :=
        eq_of_thread he ho helive holive (hethread.trans hothread.symm)
      simp [heo, horoot]
    · rw [hb] at hnone
      cases hnone
  · rfl

lemma threadRootKey_winner (ha : Assigned txt now call s s')
    (hkey : s.keyAfter txt now call = some key) :
    s'.threadRootKey txt (s.winner txt now call) = .ok key := by
  obtain ⟨m, hm, rfl⟩ := Option.map_eq_some_iff.1 hkey
  rw [threadRootKey_moves ha.moves]
  unfold rootAfter at hm
  rw [hm]

/-- The row that is written for the winner is live. -/
lemma Written.live_of_keyFree {tbl : ThreadTable} {row : ThreadRow}
    (h : Written s.threads tbl key (s.winner txt now call) row)
    (hfree : s.keyFree txt now call = true) (hkey : s.keyAfter txt now call = some key) :
    row.live = true := by
  by_cases hnew : ∀ r ∈ s.threads.rows, r.id ≠ row.id
  · exact h.created hnew
  · obtain ⟨r, hr, hid⟩ : ∃ r ∈ s.threads.rows, r.id = row.id := by
      by_contra hno
      exact hnew fun r hr he => hno ⟨r, hr, he⟩
    obtain ⟨hstake, hlive⟩ := h.replaced r hr hid
    rw [hlive]
    exact hstake.elim (fun hroot => (of_keyFree hfree hkey hr hroot).1) fun h => h.1

section

variable (hfree : s.keyFree txt now call = true)
include hfree

/-- The row of the winner. -/
lemma rowed_winner (ha : Assigned txt now call s s') : s'.Rowed txt (s.winner txt now call) := by
  obtain ⟨key, row, tbl, hkey, hrow, hwritten | htaken, hkept, -⟩ := ha.rows
  · refine ⟨row, hkept row hrow fun h => h.2.2 rfl, hwritten.live_of_keyFree hfree hkey,
      hwritten.thread, ?_⟩
    rw [threadRootKey_winner ha hkey, hwritten.root]
  · obtain ⟨o, ho, horoot, hdead⟩ := htaken.other
    rw [(of_keyFree hfree hkey ho horoot).1] at hdead
    cases hdead

/-- The row of a thread that the call does not touch stays. -/
lemma row_kept (ha : Assigned txt now call s s') (hr : r ∈ s.threads.rows)
    (hw : r.threadID ≠ s.winner txt now call) (hab : r.threadID ∉ s.absorbed txt now call) :
    r ∈ s'.threads.rows := by
  obtain ⟨key, row, tbl, hkey, hrow, hwritten | htaken, hkept, -⟩ := ha.rows
  · refine hkept r ((hwritten.mem r).2 (.inl ⟨hr, fun hid => ?_⟩)) fun h => hab h.2.1
    rcases (hwritten.replaced r hr hid).1 with hroot | ⟨-, hthread⟩
    · exact (of_keyFree hfree hkey hr hroot).2.elim hw fun h => hab h.1
    · exact hw hthread
  · obtain ⟨o, ho, horoot, hdead⟩ := htaken.other
    rw [(of_keyFree hfree hkey ho horoot).1] at hdead
    cases hdead

/-- A thread that the call does not touch keeps its members, and with them its key. -/
lemma Rowed.kept (ha : Assigned txt now call s s')
    (hw : t ≠ s.winner txt now call) (hab : t ∉ s.absorbed txt now call)
    (hmem : ∀ m ∈ s.messages, s.threadAfter txt now call m = t ↔ m.threadID = t)
    (h : s.Rowed txt t) : s'.Rowed txt t := by
  obtain ⟨r, hr, hlive, rfl, hkey⟩ := h
  refine ⟨r, row_kept hfree ha hr hw hab, hlive, rfl, ?_⟩
  have hfilter : (s.messages.filter fun m => s.threadAfter txt now call m == r.threadID) =
      s.members r.threadID := by
    refine filter_congr fun m hm => ?_
    rw [Bool.eq_iff_iff, beq_iff_eq, beq_iff_eq]
    exact hmem m hm
  rw [threadRootKey_moves ha.moves, hfilter]
  exact hkey

end

end Db

/-! ## Runs -/

lemma oldest_eq_none {ms : List Message} (h : oldest ms = none) : ms = [] := by
  cases ms with
  | nil => rfl
  | cons =>
    rw [oldest] at h
    split at h <;> cases h

/-- A message that has the winner gives its thread a key. -/
lemma Db.exists_keyAfter {txt : Texts} {now : Int} {s : Db} {call : Call} {x : Message}
    (hx : x ∈ s.messages) (hafter : s.threadAfter txt now call x = s.winner txt now call) :
    ∃ key, s.keyAfter txt now call = some key := by
  unfold Db.keyAfter Db.rootAfter
  cases ho : oldest _ with
  | some => exact ⟨_, rfl⟩
  | none =>
    have hmem : x ∈ s.messages.filter fun m =>
        s.threadAfter txt now call m == s.winner txt now call :=
      mem_filter.2 ⟨hx, by rw [hafter]; exact beq_self_eq_true _⟩
    rw [oldest_eq_none ho] at hmem
    cases hmem

/-- The oldest message is one of them, and none is before it. -/
lemma oldest_eq_some : ∀ {ms : List Message} {o : Message}, oldest ms = some o →
    o ∈ ms ∧ ∀ q ∈ ms, o.date < q.date ∨ o.date = q.date ∧ o.id ≤ q.id := by
  intro ms
  induction ms with
  | nil =>
    intro o h
    cases h
  | cons m ms ih =>
    intro o h
    rw [oldest] at h
    split at h
    · next hnone =>
      cases h
      rw [oldest_eq_none hnone]
      refine ⟨mem_cons_self, fun q hq => ?_⟩
      rw [mem_singleton.1 hq]
      exact .inr ⟨rfl, Nat.le_refl _⟩
    · next p hp =>
      obtain ⟨hpm, hple⟩ := ih hp
      split at h
      · next hle =>
        cases h
        simp only [Message.notAfter, or_eq_true, and_eq_true, decide_eq_true_eq] at hle
        refine ⟨mem_cons_self, fun q hq => ?_⟩
        rcases mem_cons.1 hq with rfl | hq
        · exact .inr ⟨rfl, Nat.le_refl _⟩
        · have := hple q hq
          omega
      · next hle =>
        cases h
        simp only [Message.notAfter, or_eq_true, and_eq_true, decide_eq_true_eq] at hle
        refine ⟨mem_cons_of_mem _ hpm, fun q hq => ?_⟩
        rcases mem_cons.1 hq with rfl | hq
        · omega
        · exact hple q hq

namespace Account

variable {txt : Texts} {now : Int} {s : Account} {call : Call} {db : Db} {m : Message}

/-- Every call that the action makes is careful. -/
def careful (txt : Texts) (s : Account) (a : Action) : Bool :=
  a.everyCall txt (fun now db call => db.careful txt now call) s.db

structure RowInv (txt : Texts) (s : Account) : Prop where
  sound : s.Sound
  linked : s.Linked
  rowed : ∀ m ∈ s.db.messages, m.id ∉ s.pending → s.db.Rowed txt m.threadID

lemma RowInv.afterCall (hI : RowInv txt s) (hT : s.Takes call)
    (hc : s.db.careful txt now call = true)
    (hone : s.db.assignOne txt now call.limit call.id call.candidate = .ok db) :
    RowInv txt (s.threaded call db) := by
  obtain ⟨hset, hfree⟩ := and_eq_true_iff.1 hc
  refine ⟨hI.sound.afterCall hT hone, hI.linked.afterCall hI.sound hT hset hone,
    fun m' hm' hp' => ?_⟩
  have ha := Db.assigned_of_ok hone
  obtain ⟨x, hx, hxid, hxcand⟩ := hT.stored
  obtain ⟨hxafter, hxleft⟩ := own_thread hI.linked hx hxid hxcand hT.pending hset
  obtain ⟨m, hm, hid, -, -, hthread⟩ := ha.moves.mem_iff hm'
  show db.Rowed txt m'.threadID
  by_cases hw : m'.threadID = s.db.winner txt now call
  · rw [hw]
    exact Db.rowed_winner hfree ha
  -- Another thread: the call has not touched it.
  have hne : m.id ≠ call.id := by
    intro he
    rw [hI.sound.eq_of_id hm hx (he.trans hxid.symm)] at hthread
    exact hw (hthread.trans hxafter)
  have hpend : m.id ∉ s.pending := by
    intro hp
    refine hp' (mem_filter.2 ⟨hid ▸ hp, ?_⟩)
    simpa [hid] using hne
  obtain ⟨hsame, hab⟩ := Db.threadAfter_cases.resolve_left fun he => hw (hthread.trans he)
  rw [hthread, hsame] at hw ⊢
  refine (hI.rowed m hm hpend).kept hfree ha hw hab fun y hy => ⟨fun ht => ?_, fun ht => ?_⟩
  · rcases @Db.threadAfter_cases txt now s.db call y with he | ⟨he, -⟩
    · exact absurd (ht.symm.trans he) hw
    · exact he.symm.trans ht
  · by_cases hy' : y.id = call.id
    · obtain rfl := hI.sound.eq_of_id hy hx (hy'.trans hxid.symm)
      rcases hxleft with he | hmem | honly
      · exact absurd (ht.symm.trans he) hw
      · exact absurd (ht ▸ hmem) hab
      · exact absurd ((honly m hm ht.symm).trans hxid) hne
    · rw [Db.threadAfter_of_ne hy', ht, if_neg hab]

lemma RowInv.afterInsert {batch : List Arrival} (hI : RowInv txt s) (hf : s.fresh batch = true) :
    RowInv txt (s.arrive now batch) := by
  obtain ⟨-, hnew⟩ := fresh_iff.1 hf
  refine ⟨hI.sound.afterInsert hf, hI.linked.afterInsert hI.sound hf, fun m hm hp => ?_⟩
  rcases mem_append.1 hm with hm | hm
  · obtain ⟨r, hr, hlive, hthread, hkey⟩ :=
      hI.rowed m hm fun h => hp (mem_append_left _ h)
    refine ⟨r, hr, hlive, hthread, ?_⟩
    -- The messages that arrive are in threads of their own.
    have hnone : (batch.map (row now)).filter (fun q => q.threadID == m.threadID) = [] := by
      refine filter_eq_nil_iff.2 fun q hq he => ?_
      obtain ⟨a, ha, rfl⟩ := mem_map.1 hq
      obtain ⟨y, hy, hyid⟩ := hI.sound.carried m hm
      exact (hnew a ha).2 y hy (hyid.trans (beq_iff_eq.1 he).symm)
    have hmem : (s.arrive now batch).db.members m.threadID = s.db.members m.threadID := by
      show (s.db.messages ++ batch.map (row now)).filter (fun q => q.threadID == m.threadID) = _
      rw [filter_append, hnone, append_nil]
      rfl
    unfold Db.threadRootKey at hkey ⊢
    rw [hmem]
    exact hkey
  · obtain ⟨a, ha, rfl⟩ := mem_map.1 hm
    exact absurd (mem_append_right _ (mem_map_of_mem ha)) hp

lemma RowInv.afterMute (hI : RowInv txt s) (rowID : Nat) (muted : Bool) :
    RowInv txt { s with db := s.db.setMute rowID muted } := by
  refine ⟨hI.sound.afterMute rowID muted, hI.linked.afterMute rowID muted, ?_⟩
  obtain ⟨mutes, he⟩ := s.db.exists_setMute_eq rowID muted
  rw [he]
  exact hI.rowed

lemma rowInv_step : ∀ s a s', s.careful txt a = true → RowInv txt s → s.step txt a = some s' →
    RowInv txt s' :=
  inv_step (fun _ hI => hI.sound.zero) (fun _ _ _ hc => hc) (fun _ _ _ _ hI hf => hI.afterInsert hf)
    (fun _ _ _ _ hI hT _ hc hone => hI.afterCall hT hc hone)
    fun _ rowID muted _ hI => hI.afterMute rowID muted

/-- A careful call returns. -/
lemma RowInv.assignOne_ok (hI : RowInv txt s) (hT : s.Takes call)
    (hc : s.db.careful txt now call = true) :
    ∃ db, s.db.assignOne txt now call.limit call.id call.candidate = .ok db := by
  obtain ⟨hset, hfree⟩ := and_eq_true_iff.1 hc
  obtain ⟨x, hx, hxid, hxcand⟩ := hT.stored
  obtain ⟨hxafter, -⟩ := own_thread hI.linked hx hxid hxcand hT.pending hset
  obtain ⟨key, hkey⟩ := Db.exists_keyAfter hx hxafter
  exact Db.assignOne_ok hI.sound.seq hkey (Db.not_clashing hfree hkey)

end Account

/-- **One row for every thread.**  After every careful run the next careful call of
`AssignThreads` succeeds, and the thread of every message that was threaded has one live
row, with the key of its oldest member. -/
theorem one_row_per_thread (txt : Texts) (as : List Action) (s : Account)
    (hG : Run.Guarded (Account.step txt) (fun s a => s.careful txt a = true) .empty as)
    (h : Run.exec (Account.step txt) .empty as = some s) :
    (∀ now calls, s.callable calls = true → s.careful txt (.assign now calls) = true →
      ∃ db, s.db.assignThreads txt now calls = .ok db) ∧
    ∀ m ∈ s.db.messages, m.id ∉ s.pending → ∃ r ∈ s.db.threads.rows,
      (r.live = true ∧ r.threadID = m.threadID) ∧
      (∀ q ∈ s.db.threads.rows, q.live = true → q.threadID = m.threadID → q = r) ∧
      ∃ o ∈ s.db.members m.threadID,
        (∀ q ∈ s.db.members m.threadID, o.date < q.date ∨ o.date = q.date ∧ o.id ≤ q.id) ∧
        r.rootMessageID = threadKey txt o.head.candidate := by
  have hI := Run.inv_exec Account.rowInv_step ⟨Account.sound_empty, nofun, nofun⟩ hG h
  refine ⟨fun now calls hc hcare => ?_, fun m hm hp => ?_⟩
  · exact Account.assignThreads_ok (fun _ _ _ hI hT _ hc hone => hI.afterCall hT hc hone)
      (fun _ _ hI hT hc => hI.assignOne_ok hT hc) hI (Account.batch_of_callable hc) hcare
  obtain ⟨r, hr, hlive, hthread, hkey⟩ := hI.rowed m hm hp
  refine ⟨r, hr, ⟨hlive, hthread⟩, fun q hq hql hqt => ?_, ?_⟩
  · exact eq_of_thread hq hr hql hlive (hqt.trans hthread.symm)
  · unfold Db.threadRootKey at hkey
    split at hkey
    · cases hkey
    · next o ho =>
      obtain ⟨hmem, hle⟩ := oldest_eq_some ho
      exact ⟨o, hmem, hle, (Except.ok.inj hkey).symm⟩

/-- ASCII letters and digits, and the text itself for its digest. -/
def asciiTexts : Texts := ⟨Char.toLower, Char.isDigit, id⟩

/-- A message without a subject that names these references. -/
def naming (messageID : String) (references : List String) : Headers :=
  ⟨messageID, "", references, ""⟩

/-- The message arrives and is threaded. -/
def arrives (id : Nat) (date : Int) (h : Headers) : List Action :=
  [.insert 0 [⟨id, h, date⟩], .assign 0 [⟨id, h.candidate, .first⟩]]

/-- Two conversations, which a third message then joins. -/
def joining (date₁ date₂ : Int) : List Action :=
  arrives 1 date₁ (naming "a" []) ++ arrives 2 date₂ (naming "b" []) ++
    arrives 3 7 (naming "c" ["a", "b"])

theorem one_row_per_thread_joining :
    ∃ s, Run.exec (Account.step asciiTexts) .empty (joining 1 5) = some s ∧ s.pending = [] ∧
      ∀ m ∈ s.db.messages, ∃ r ∈ s.db.threads.rows, r.live = true ∧ r.threadID = m.threadID := by
  refine Run.exists_of_guarded (G := fun s a => s.careful asciiTexts a = true) (by decide +kernel)
    (by decide +kernel) fun s hG h hp m hm => ?_
  obtain ⟨r, hr, hthread, -⟩ :=
    (one_row_per_thread asciiTexts (joining 1 5) s hG h).2 m hm (by rw [hp]; exact not_mem_nil)
  exact ⟨r, hr, hthread⟩

/-- The conversation that arrived second is the older one: its row has the key, the other
row has the thread, and the call fails.  And of two messages with one Message-ID the
second takes the row of the first, whose thread has none. -/
theorem rekey_refused :
    (∃ s, Run.exec (Account.step asciiTexts) .empty ((joining 5 1).take 5) = some s ∧
      s.callable [⟨3, (naming "c" ["a", "b"]).candidate, .first⟩] = true ∧
      (match s.db.assignThreads asciiTexts 0 [⟨3, (naming "c" ["a", "b"]).candidate, .first⟩] with
        | .error e => some e
        | .ok _ => none) = some .uniqueViolation) ∧
    ∃ s, Run.exec (Account.step asciiTexts) .empty
        (arrives 1 5 (naming "a" []) ++ arrives 2 5 (naming "a" [])) = some s ∧ s.pending = [] ∧
      s.db.messages.map Message.threadID = [1, 2] ∧
      s.db.threads.rows.all (fun r => r.threadID ≠ 1) = true :=
  ⟨Run.exists_exec (by decide +kernel), Run.exists_exec (by decide +kernel)⟩

/-! ## Conversations stay together -/

lemma Db.everyCall_true {txt : Texts} {now : Int} (calls : List Call) (s : Db) :
    s.everyCall txt now (fun _ _ => true) calls = true := by
  induction calls generalizing s with
  | nil => rfl
  | cons call calls ih =>
    simp only [everyCall, ih, Bool.true_and]
    split
    · rfl
    · split <;> rfl

namespace Account

/-- What has been threaded in `s₀` still is in `s`, and its thread is now the one that `g` makes
of the thread it had. -/
structure Carried (s₀ : Account) (g : Nat → Nat) (s : Account) : Prop where
  zero : 0 ∉ s.pending
  le : ∀ t, g t ≤ t
  kept : ∀ m ∈ s₀.db.messages, m.id ∉ s₀.pending →
    m.id ∉ s.pending ∧ ∃ m' ∈ s.db.messages, m'.id = m.id ∧ m'.threadID = g m.threadID

variable {txt : Texts} {now : Int} {s₀ s : Account} {g : Nat → Nat}

/-- A call is for another message, so that it moves a thread as a whole or leaves it. -/
lemma Carried.afterCall {call : Call} {db : Db} (h : s₀.Carried g s) (hT : s.Takes call)
    (hone : s.db.assignOne txt now call.limit call.id call.candidate = .ok db) :
    s₀.Carried (fun t => if g t ∈ s.db.absorbed txt now call then s.db.winner txt now call else g t)
      (s.threaded call db) := by
  obtain ⟨f, hms, hf⟩ := (Db.assigned_of_ok hone).moves
  refine ⟨fun hp => h.zero (mem_filter.1 hp).1, fun t => ?_, fun m hm hp => ?_⟩
  · split
    · next ha =>
        exact Nat.le_trans (Db.winnerOf_le.2 _ (Db.mem_related_of_mem_absorbed ha)) (h.le t)
    · exact h.le t
  · obtain ⟨hp', m', hm', hid, ht⟩ := h.kept m hm hp
    have hne : m'.id ≠ call.id := fun he => hp' (hid ▸ he ▸ hT.pending)
    refine ⟨fun hin => hp' (mem_filter.1 hin).1, f m', hms ▸ mem_map_of_mem hm',
      (hf m').1.trans hid, ?_⟩
    rw [(hf m').2.2.2, Db.threadAfter_of_ne hne, ht]

lemma Carried.afterInsert {batch : List Arrival} (h : s₀.Carried g s) (hf : s.fresh batch = true) :
    s₀.Carried g (s.arrive now batch) := by
  have hnew : ∀ n ∈ (s.arrive now batch).pending,
      n ∈ s.pending ∨ n ≠ 0 ∧ ∀ m ∈ s.db.messages, m.id ≠ n := by
    intro n hn
    refine (mem_append.1 hn).imp_right fun hn => ?_
    obtain ⟨a, ha, rfl⟩ := mem_map.1 hn
    exact (fresh_iff.1 hf).2 a ha
  refine ⟨fun h0 => (hnew 0 h0).elim h.zero fun hn => hn.1 rfl, h.le, fun m hm hp => ?_⟩
  obtain ⟨hp', m', hm', hid, ht⟩ := h.kept m hm hp
  exact ⟨fun hin => (hnew _ hin).elim hp' fun hn =>
    hn.2 m' hm' hid, m', mem_append_left _ hm', hid, ht⟩

lemma Carried.afterMute (h : s₀.Carried g s) (rowID : Nat) (muted : Bool) :
    s₀.Carried g { s with db := s.db.setMute rowID muted } := by
  obtain ⟨mutes, he⟩ := s.db.exists_setMute_eq rowID muted
  rw [he]
  exact { h with }

end Account

/-- **Conversations are never torn apart.**  Whatever a run does, it does to threads as a whole:
messages that have been threaded and share a thread share one ever after, and no thread id rises. -/
theorem threads_stay_whole (txt : Texts) (as : List Action) {s s' : Account} (h0 : 0 ∉ s.pending)
    (h : Run.exec (Account.step txt) s as = some s') : ∃ g, s.Carried g s' := by
  refine Run.inv_exec (I := fun s' => ∃ g, s.Carried g s') (G := fun _ _ => True)
    (Account.inv_step (G := fun _ _ _ => true) (fun _ ⟨_, hI⟩ => hI.zero)
      (fun s _ calls _ => s.db.everyCall_true calls)
      (fun _ _ _ _ ⟨g, hI⟩ hf => ⟨g, hI.afterInsert hf⟩)
      (fun _ _ _ _ ⟨_, hI⟩ hT _ _ hone => ⟨_, hI.afterCall hT hone⟩)
      fun _ rowID muted _ ⟨g, hI⟩ => ⟨g, hI.afterMute rowID muted⟩)
    ⟨id, h0, fun _ => Nat.le_refl _, fun m hm hp => ⟨hp, m, hm, rfl, rfl⟩⟩
    (Run.guarded_of_forall fun _ _ => trivial) h

/-- The last message of `joining` makes one thread of two. -/
theorem threads_stay_whole_joining :
    ∃ s s', s.db.messages.map Message.threadID = [1, 2] ∧ s.pending = [] ∧
      Run.exec (Account.step asciiTexts) s ((joining 1 5).drop 4) = some s' ∧ ∃ g,
      s.Carried g s' := by
  obtain ⟨s, -, hids, hp, hsome⟩ :=
    @Run.exists_exec _ _ (Account.step asciiTexts) .empty ((joining 1 5).take 4)
    (fun s => s.db.messages.map Message.threadID = [1, 2] ∧ s.pending = [] ∧
      (Run.exec (Account.step asciiTexts) s ((joining 1 5).drop 4)).isSome = true) _
      (by decide +kernel)
  obtain ⟨s', hs'⟩ := Option.isSome_iff_exists.1 hsome
  exact ⟨s, s', hids, hp, hs', threads_stay_whole asciiTexts _ (by simp [hp]) hs'⟩

end Moov.Threads
