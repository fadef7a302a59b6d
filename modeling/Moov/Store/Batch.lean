import Moov.Store.Assign

/-!
# Batches

`AssignThreads` threads a batch message by message, and each message of the batch was
inserted before the first of them is threaded.  What one call keeps, a batch keeps
(`inv_assignThreads`), and with it every step of an account (`inv_step`).  `Sound` is the
invariant that needs no condition at all: ids are unique, and threads are named after
messages.
-/

namespace Moov.Threads

open List

/-! ## Which messages a message finds -/

/-- The graph queries of a candidate find this message. -/
def ThreadCandidate.finds (c : ThreadCandidate) (h : Headers) : Bool :=
  decide (h.messageID ∈ c.referenceSet) || (decide (c.messageID ≠ "") && h.namesID c.messageID)

lemma namesID_iff {h : Headers} {id : String} (hid : id ≠ "") :
    h.namesID id = true ↔ id ∈ h.candidate.references := by
  simp only [Headers.namesID, Headers.candidate, Bool.or_eq_true, beq_iff_eq, contains_iff_mem]
  by_cases hr : h.inReplyTo = ""
  · rw [if_pos hr, hr]
    exact or_iff_right fun he => hid he.symm
  · rw [if_neg hr, mem_append, mem_singleton, or_comm, eq_comm]

/-- A message that is found finds the other one, or itself: it names its own Message-ID
when both have the same. -/
lemma finds_back {x y : Headers} (h : x.candidate.finds y = true) :
    y.candidate.finds x = true ∨ y.candidate.finds y = true := by
  simp only [ThreadCandidate.finds, Bool.or_eq_true, Bool.and_eq_true, decide_eq_true_eq,
    ThreadCandidate.mem_referenceSet] at h ⊢
  rcases h with ⟨hmem, hne, -⟩ | ⟨hne, hnames⟩
  · exact .inl (.inr ⟨hne, (namesID_iff hne).2 hmem⟩)
  · have hne' : x.messageID ≠ "" := hne
    by_cases he : x.messageID = y.messageID
    · have hy : y.messageID ≠ "" := fun hy => hne' (he.trans hy)
      refine .inr (.inr ⟨hy, ?_⟩)
      show y.namesID y.messageID = true
      rw [← he]
      exact hnames
    · exact .inl (.inl ⟨(namesID_iff hne').1 hnames, hne', he⟩)

namespace Db

variable {txt : Texts} {now : Int} {s s' : Db} {call : Call} {t : Nat} {p : Headers → Bool}
  {limit : Limit}

lemma mem_threadsWhere :
    t ∈ s.threadsWhere p ↔ ∃ m ∈ s.messages, p m.head = true ∧ m.threadID = t := by
  simp [threadsWhere, and_assoc]

/-- The graph queries are within their limit. -/
def withinLimit (s : Db) (c : ThreadCandidate) : Bool :=
  decide ((s.threadsOfMessageIDs c.referenceSet).length ≤ threadLookupLimit) &&
    decide ((s.threadsReferencing c.messageID).length ≤ threadLookupLimit)

lemma exists_of_mem_graphThreads {c : ThreadCandidate} (h : t ∈ s.graphThreads limit c) :
    ∃ m ∈ s.messages, c.finds m.head = true ∧ m.threadID = t := by
  simp only [graphThreads, mem_dedup, mem_append] at h
  rcases h with h | h
  · obtain ⟨m, hm, hp, ht⟩ := mem_threadsWhere.1 (limit.mem_of_mem _ _ h)
    exact ⟨m, hm, by simp only [ThreadCandidate.finds, hp, Bool.true_or], ht⟩
  · split at h
    · cases h
    · next hne =>
      obtain ⟨m, hm, hp, ht⟩ := mem_threadsWhere.1 (limit.mem_of_mem _ _ h)
      exact ⟨m, hm, by simp [ThreadCandidate.finds, hp, hne], ht⟩

lemma mem_graphThreads {c : ThreadCandidate} (hl : s.withinLimit c = true)
    {m : Message} (hm : m ∈ s.messages) (hf : c.finds m.head = true) :
    m.threadID ∈ s.graphThreads limit c := by
  simp only [withinLimit, Bool.and_eq_true, decide_eq_true_eq] at hl
  simp only [ThreadCandidate.finds, Bool.or_eq_true, Bool.and_eq_true, decide_eq_true_eq] at hf
  simp only [graphThreads, mem_dedup, mem_append]
  rcases hf with hf | ⟨hne, hf⟩
  · refine .inl (limit.all _ hl.1 _ (mem_threadsWhere.2 ⟨m, hm, ?_, rfl⟩))
    exact decide_eq_true hf
  · rw [if_neg hne]
    exact .inr (limit.all _ hl.2 _ (mem_threadsWhere.2 ⟨m, hm, hf, rfl⟩))

lemma mem_related {m : Message} (hl : s.withinLimit call.candidate = true)
    (hm : m ∈ s.messages) (hf : call.candidate.finds m.head = true) :
    m.threadID ∈ s.related txt now call := by
  have hmem := @mem_graphThreads s call.limit call.candidate hl m hm hf
  unfold related relatedThreads
  split
  · next hnil =>
    rw [hnil] at hmem
    cases hmem
  · exact hmem

/-- A related thread has a message that is found, or a hint. -/
lemma exists_of_mem_related (h : t ∈ s.related txt now call) :
    (∃ m ∈ s.messages, call.candidate.finds m.head = true ∧ m.threadID = t) ∨
      ∃ hint ∈ s.subjects, hint.threadID = t := by
  unfold related relatedThreads at h
  split at h
  · split at h
    split at h
    · obtain ⟨hint, hhint, rfl⟩ := Option.map_eq_some_iff.1 (Option.mem_toList.1 h)
      exact .inr ⟨hint, mem_of_find?_eq_some hhint, rfl⟩
    · cases h
  · exact .inl (exists_of_mem_graphThreads h)

/-- A mute touches one table only. -/
lemma exists_setMute_eq (s : Db) (rowID : Nat) (muted : Bool) :
    ∃ mutes, s.setMute rowID muted = { s with mutes := mutes } := by
  unfold setMute
  split
  · split
    · exact ⟨_, rfl⟩
    · exact ⟨s.mutes, rfl⟩
  · exact ⟨_, rfl⟩

lemma winner_eq_or_mem :
    s.winner txt now call = call.id ∨ s.winner txt now call ∈ s.related txt now call :=
  winnerOf_mem

/-- The thread of another message than the one that is threaded. -/
lemma threadAfter_of_ne {m : Message} (h : m.id ≠ call.id) : s.threadAfter txt now call m =
      if m.threadID ∈ s.absorbed txt now call then s.winner txt now call else m.threadID := by
  simp [threadAfter, h]

/-- The message that is threaded takes an id that is not its own. -/
lemma threadAfter_joined {m : Message} (h : m.id = call.id)
    (hw : s.winner txt now call ≠ call.id) :
    s.threadAfter txt now call m = s.winner txt now call := by
  simp [threadAfter, h, hw]

lemma threadAfter_own {m : Message} (hw : s.winner txt now call = call.id) :
    s.threadAfter txt now call m =
      if m.threadID ∈ s.absorbed txt now call then s.winner txt now call else m.threadID := by
  simp [threadAfter, hw]

lemma threadAfter_cases {m : Message} : s.threadAfter txt now call m = s.winner txt now call ∨
      s.threadAfter txt now call m = m.threadID ∧ m.threadID ∉ s.absorbed txt now call := by
  unfold threadAfter
  by_cases hm : m.id = call.id ∧ s.winner txt now call ≠ call.id
  · rw [if_pos hm]
    exact .inl (ite_self _)
  · rw [if_neg hm]
    by_cases ha : m.threadID ∈ s.absorbed txt now call
    · exact .inl (if_pos ha)
    · exact .inr ⟨if_neg ha, ha⟩

lemma mem_related_of_mem_absorbed (h : t ∈ s.absorbed txt now call) :
    t ∈ s.related txt now call :=
  (mem_filter.1 h).1

end Db

/-! ## A batch, call by call -/

open Db

/-- The condition holds at each call of the batch, in the tables it is made on. -/
def Db.everyCall (txt : Texts) (now : Int) (G : Db → Call → Bool) : Db → List Call → Bool
  | _, [] => true
  | s, call :: calls =>
      if call.id = 0 then everyCall txt now G s calls
      else
        G s call && match s.assignOne txt now call.limit call.id call.candidate with
          | .ok s' => everyCall txt now G s' calls
          | .error _ => true

/-- The condition holds at each call that an action makes. -/
def Action.everyCall (txt : Texts) (G : Int → Db → Call → Bool) (db : Db) : Action → Bool
  | .assign now calls => db.everyCall txt now (G now) calls
  | _ => true

namespace Account

variable {txt : Texts} {now : Int} {s s' : Account} {call : Call} {calls : List Call} {db : Db}
  {I : Account → Prop} {G : Db → Call → Bool} {batch : List Arrival}

/-- The call is for a message that is to be threaded, with its headers. -/
structure Takes (s : Account) (call : Call) : Prop where
  pending : call.id ∈ s.pending
  stored : ∃ m ∈ s.db.messages, m.id = call.id ∧ m.head.candidate = call.candidate

/-- The account after the call has returned. -/
def threaded (s : Account) (call : Call) (db : Db) : Account :=
  ⟨db, s.pending.filter fun id => id ≠ call.id⟩

lemma fresh_iff : s.fresh batch = true ↔ (batch.map Arrival.id).Nodup ∧
      ∀ a ∈ batch, a.id ≠ 0 ∧ ∀ m ∈ s.db.messages, m.id ≠ a.id := by
  simp [fresh]

/-- What `callable` says of a batch. -/
def Batch (s : Account) (calls : List Call) : Prop :=
  ((calls.map Call.id).filter fun id => id ≠ 0).Nodup ∧ ∀ call ∈ calls, call.id ≠ 0 → s.Takes call

lemma batch_of_callable (h : s.callable calls = true) : s.Batch calls := by
  simp only [callable, Bool.and_eq_true, decide_eq_true_eq, all_eq_true, Bool.or_eq_true,
    contains_iff_mem, any_eq_true] at h
  exact ⟨h.1, fun call hc h0 =>
    ⟨((h.2 call hc).resolve_left h0).1, ((h.2 call hc).resolve_left h0).2⟩⟩

lemma Batch.head (h : s.Batch (call :: calls)) (h0 : call.id ≠ 0) : s.Takes call :=
  h.2 call mem_cons_self h0

lemma Batch.tail (h : s.Batch (call :: calls)) : s.Batch calls := by
  refine ⟨?_, fun c hc => h.2 c (mem_cons_of_mem _ hc)⟩
  have := h.1
  rw [map_cons, filter_cons] at this
  split at this
  · exact (nodup_cons.1 this).2
  · exact this

/-- The rest of the batch can be made after its first call. -/
lemma Batch.rest (h : s.Batch (call :: calls)) (h0 : call.id ≠ 0) {thread : Message → Nat}
    (hmoves : Moves thread s.db.messages db.messages) : (s.threaded call db).Batch calls := by
  refine ⟨h.tail.1, fun c hc hc0 => ?_⟩
  obtain ⟨hpend, m, hm, hid, hcand⟩ := h.tail.2 c hc hc0
  have hne : c.id ≠ call.id := by
    have hnd := h.1
    rw [map_cons, filter_cons_of_pos (by simpa using h0)] at hnd
    intro he
    refine (nodup_cons.1 hnd).1 (mem_filter.2 ⟨?_, by simpa using h0⟩)
    exact he ▸ mem_map_of_mem hc
  obtain ⟨f, hms, hf⟩ := hmoves
  refine ⟨mem_filter.2 ⟨hpend, by simpa using hne⟩, f m, ?_, (hf m).1.trans hid, ?_⟩
  · show f m ∈ db.messages
    rw [hms]
    exact mem_map_of_mem hm
  · rw [(hf m).2.1]
    exact hcand

section
variable (hcall : ∀ s call db, I s → Takes s call → call.id ≠ 0 → G s.db call = true →
  s.db.assignOne txt now call.limit call.id call.candidate = .ok db → I (s.threaded call db))
include hcall

/-- **The batch rule.**  What each call keeps when it returns, where the condition holds,
the batch keeps when it returns. -/
theorem inv_assignThreads :
    ∀ {calls : List Call} {s : Account} {db : Db}, I s → 0 ∉ s.pending → s.Batch calls →
      s.db.everyCall txt now G calls = true → s.db.assignThreads txt now calls = .ok db →
      I ⟨db, s.pending.filter fun id => id ∉ calls.map Call.id⟩ := by
  intro calls
  induction calls with
  | nil =>
    intro s db hI _ _ _ h
    cases h
    simpa using hI
  | cons call calls ih =>
    intro s db hI hz hB hG h
    by_cases h0 : call.id = 0
    · rw [everyCall, if_pos h0] at hG
      rw [assignThreads, if_pos h0] at h
      have hpend : (s.pending.filter fun id => id ∉ (call :: calls).map Call.id) =
          s.pending.filter fun id => id ∉ calls.map Call.id := by
        refine filter_congr fun id hid => ?_
        have hne : id ≠ call.id := fun he => hz ((he.trans h0) ▸ hid)
        simp [hne]
      rw [hpend]
      exact ih hI hz hB.tail hG h
    · rw [everyCall, if_neg h0, Bool.and_eq_true] at hG
      rw [assignThreads, if_neg h0] at h
      obtain ⟨db₁, hone, h⟩ := bind_eq_ok.1 h
      rw [hone] at hG
      have hI₁ := hcall s call db₁ hI (hB.head h0) h0 hG.1 hone
      have hB₁ := hB.rest h0 (assigned_of_ok hone).moves
      have hz₁ : 0 ∉ (s.threaded call db₁).pending := fun hm => hz (mem_filter.1 hm).1
      have hrest := ih hI₁ hz₁ hB₁ hG.2 h
      have hpend : (s.pending.filter fun id => id ∉ (call :: calls).map Call.id) =
          (s.threaded call db₁).pending.filter fun id => id ∉ calls.map Call.id := by
        rw [threaded, filter_filter]
        refine filter_congr fun id _ => ?_
        by_cases he : id = call.id
        · simp [he]
        · simp [he]
      rw [hpend]
      exact hrest

/-- A batch returns when each of its calls does. -/
lemma assignThreads_ok (hok : ∀ s call, I s → Takes s call → G s.db call = true →
      ∃ db, s.db.assignOne txt now call.limit call.id call.candidate = .ok db) :
    ∀ {calls : List Call} {s : Account}, I s → s.Batch calls →
      s.db.everyCall txt now G calls = true → ∃ db, s.db.assignThreads txt now calls = .ok db := by
  intro calls
  induction calls with
  | nil => exact fun {s} _ _ _ => ⟨s.db, rfl⟩
  | cons call calls ih =>
    intro s hI hB hG
    by_cases h0 : call.id = 0
    · rw [everyCall, if_pos h0] at hG
      rw [assignThreads, if_pos h0]
      exact ih hI hB.tail hG
    · rw [everyCall, if_neg h0, Bool.and_eq_true] at hG
      obtain ⟨db, hone⟩ := hok s call hI (hB.head h0) hG.1
      rw [hone] at hG
      have hI' := hcall s call db hI (hB.head h0) h0 hG.1 hone
      obtain ⟨db', hrest⟩ := ih hI' (hB.rest h0 (assigned_of_ok hone).moves) hG.2
      rw [assignThreads, if_neg h0]
      exact ⟨db', bind_eq_ok.2 ⟨db, hone, hrest⟩⟩

end

/-- The account after an insert. -/
def arrive (s : Account) (now : Int) (batch : List Arrival) : Account where
  db := { s.db with messages := s.db.messages ++ batch.map (row now) }
  pending := s.pending ++ batch.map Arrival.id

/-- **The step rule.**  It is enough to look at an insert, at one call and at a mute. -/
theorem inv_step {P : Account → Action → Prop}
    {G : Int → Db → Call → Bool} (hz : ∀ s, I s → 0 ∉ s.pending)
    (hG : ∀ s now calls, P s (.assign now calls) → s.db.everyCall txt now (G now) calls = true)
    (hinsert : ∀ s now batch, P s (.insert now batch) → I s → s.fresh batch = true →
      I (s.arrive now batch))
    (hcall : ∀ now s call db, I s → Takes s call → call.id ≠ 0 → G now s.db call = true →
      s.db.assignOne txt now call.limit call.id call.candidate = .ok db → I (s.threaded call db))
    (hmute : ∀ s rowID muted, P s (.setMute rowID muted) → I s →
      I { s with db := s.db.setMute rowID muted }) :
    ∀ s a s', P s a → I s → s.step txt a = some s' → I s' := by
  intro s a s' hP hI h
  cases a with
  | insert now batch =>
    obtain ⟨hf, ⟨⟩⟩ := Option.ite_none_right_eq_some.1 h
    exact hinsert s now batch hP hI hf
  | assign now calls =>
    obtain ⟨hc, h⟩ := Option.ite_none_right_eq_some.1 h
    split at h
    · next db hdb =>
      cases h
      exact inv_assignThreads (hcall now) hI (hz s hI) (batch_of_callable hc)
        (hG s now calls hP) hdb
    · cases h
      exact hI
  | setMute rowID muted =>
    cases h
    exact hmute s rowID muted hP hI

/-! ## What always holds -/

/-- Ids are unique and not zero; `pending`, threads and hints name messages; and the
sequence of `threads` is past every row. -/
structure Sound (s : Account) : Prop where
  ids : (s.db.messages.map Message.id).Nodup
  nonzero : ∀ m ∈ s.db.messages, m.id ≠ 0
  pending : ∀ id ∈ s.pending, ∃ m ∈ s.db.messages, m.id = id
  carried : ∀ m ∈ s.db.messages, ∃ q ∈ s.db.messages, q.id = m.threadID
  hinted : ∀ h ∈ s.db.subjects, ∃ q ∈ s.db.messages, q.id = h.threadID
  seq : ∀ r ∈ s.db.threads.rows, r.id < s.db.rowSeq

lemma sound_empty : Sound .empty where
  ids := nodup_nil
  nonzero m hm := by cases hm
  pending id hid := by cases hid
  carried m hm := by cases hm
  hinted h hh := by cases hh
  seq r hr := by cases hr

namespace Sound

section

variable (h : Sound s)
include h

lemma zero : 0 ∉ s.pending := by
  intro h0
  obtain ⟨m, hm, hid⟩ := h.pending 0 h0
  exact h.nonzero m hm hid

lemma eq_of_id {m q : Message} (hm : m ∈ s.db.messages) (hq : q ∈ s.db.messages)
    (he : m.id = q.id) : m = q :=
  inj_on_of_nodup_map h.ids hm hq he

/-- The winner is the id of a message. -/
lemma winner (hT : Takes s call) : ∃ q ∈ s.db.messages, q.id = s.db.winner txt now call := by
  rcases @winner_eq_or_mem txt now s.db call with he | hm
  · obtain ⟨m, hm, hid, -⟩ := hT.stored
    exact ⟨m, hm, hid.trans he.symm⟩
  · rcases exists_of_mem_related hm with ⟨m, hm, -, ht⟩ | ⟨hint, hh, ht⟩
    · rw [← ht]
      exact h.carried m hm
    · rw [← ht]
      exact h.hinted hint hh

lemma afterCall (hT : Takes s call)
    (hone : s.db.assignOne txt now call.limit call.id call.candidate = .ok db) :
    Sound (s.threaded call db) := by
  have ha := assigned_of_ok hone
  obtain ⟨f, hms, hf⟩ := ha.moves
  have hthere : ∀ n, (∃ q ∈ s.db.messages, q.id = n) → ∃ q ∈ db.messages, q.id = n := by
    rintro n ⟨q, hq, rfl⟩
    exact ⟨f q, hms ▸ mem_map_of_mem hq, (hf q).1⟩
  refine ⟨?_, fun m' hm' => ?_, fun id hid => ?_, fun m' hm' => ?_, fun x hx => ?_, ha.seq h.seq⟩
  · show (db.messages.map Message.id).Nodup
    rw [hms, map_map, show Message.id ∘ f = Message.id from funext fun m => (hf m).1]
    exact h.ids
  · obtain ⟨m, hm, hid, -⟩ := ha.moves.mem_iff hm'
    rw [hid]
    exact h.nonzero m hm
  · exact hthere id (h.pending id (mem_filter.1 hid).1)
  · obtain ⟨m, hm, -, -, -, ht⟩ := ha.moves.mem_iff hm'
    refine hthere _ ?_
    rw [ht]
    rcases @threadAfter_cases txt now s.db call m with he | ⟨he, -⟩
    · rw [he]
      exact h.winner hT
    · rw [he]
      exact h.carried m hm
  · refine hthere _ ?_
    rcases ha.hints x hx with he | ⟨y, hy, he, -⟩
    · rw [he]
      exact h.winner hT
    · rw [← he]
      exact h.hinted y hy

lemma afterMute (rowID : Nat) (muted : Bool) :
    Sound { s with db := s.db.setMute rowID muted } := by
  obtain ⟨mutes, he⟩ := s.db.exists_setMute_eq rowID muted
  rw [he]
  exact { h with }

lemma afterInsert (hf : s.fresh batch = true) : Sound (s.arrive now batch) := by
  obtain ⟨hnd, hnew⟩ := fresh_iff.1 hf
  have hmem : ∀ n, (∃ q ∈ s.db.messages, q.id = n) →
    ∃ q ∈ (s.arrive now batch).db.messages, q.id = n :=
    fun n ⟨q, hq, he⟩ => ⟨q, mem_append_left _ hq, he⟩
  refine ⟨?_, fun m hm => ?_, fun id hid => ?_, fun m hm => ?_, fun x hx => hmem _ (h.hinted x hx),
    h.seq⟩
  · show ((s.db.messages ++ batch.map (row now)).map Message.id).Nodup
    rw [map_append, map_map, nodup_append']
    refine ⟨h.ids, hnd, fun id hid hid' => ?_⟩
    obtain ⟨m, hm, rfl⟩ := mem_map.1 hid
    obtain ⟨a, ha, he⟩ := mem_map.1 hid'
    exact (hnew a ha).2 m hm he.symm
  · rcases mem_append.1 hm with hm | hm
    · exact h.nonzero m hm
    · obtain ⟨a, ha, rfl⟩ := mem_map.1 hm
      exact (hnew a ha).1
  · rcases mem_append.1 hid with hid | hid
    · exact hmem id (h.pending id hid)
    · obtain ⟨a, ha, rfl⟩ := mem_map.1 hid
      exact ⟨row now a, mem_append_right _ (mem_map_of_mem ha), rfl⟩
  · rcases mem_append.1 hm with hm' | hm'
    · exact hmem _ (h.carried m hm')
    · obtain ⟨a, ha, rfl⟩ := mem_map.1 hm'
      exact ⟨row now a, hm, rfl⟩

end

end Sound

end Account

end Moov.Threads
