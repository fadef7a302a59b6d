import Mathlib.Data.List.Pairwise
import Moov.Store.Threads

/-!
# What threading one message does

`assignOne` in two halves.  The messages: the threads that the message belongs to are
absorbed by the smallest one, those that are too large for a merge apart
(`assignOne_eq`).  The rows of `threads`: what `ensureThreadForWinner` and the
tombstones leave of them (`ForWinner`, `tombstoneLosers_ok`).  Tables are described by the
rows they have, never by their order.
-/

namespace Moov.Threads

open ThreadTable List ThreadRow Except

/-! ## Rows of `threads` -/

/-- In a list with one such element at most, that is the one that is found. -/
lemma find?_eq_some_of_unique {α : Type*} {l : List α} {p : α → Bool} {a : α}
    (h : ∀ x ∈ l, ∀ y ∈ l, p x = true → p y = true → x = y) :
    l.find? p = some a ↔ a ∈ l ∧ p a = true := by
  constructor
  · intro hf
    exact ⟨mem_of_find?_eq_some hf, find?_some hf⟩
  · rintro ⟨ha, hp⟩
    cases hf : l.find? p with
    | none => exact absurd hp (by simpa using find?_eq_none.1 hf a ha)
    | some b => rw [h b (mem_of_find?_eq_some hf) a ha (find?_some hf) hp]

namespace ThreadTable

variable {t t' : ThreadTable} {r q : ThreadRow} {key : String} {n : Nat}

section

variable (hr : r ∈ t.rows)
include hr

lemma apart (hq : q ∈ t.rows) (hne : r ≠ q) : r.id ≠ q.id ∧ r.clashes q = false := by
  have : Std.Symm fun r q : ThreadRow => r.id ≠ q.id ∧ r.clashes q = false :=
    ⟨fun a b hab => ⟨hab.1.symm, (clashes_comm b a).trans hab.2⟩⟩
  exact t.unique.forall hr hq hne

lemma eq_of_id (hq : q ∈ t.rows) (h : r.id = q.id) : r = q := by
  by_contra hne
  exact (apart hr hq hne).1 h

lemma eq_of_clashes (hq : q ∈ t.rows) (h : r.clashes q = true) : r = q := by
  by_contra hne
  exact Bool.false_ne_true ((apart hr hq hne).2.symm.trans h)

lemma eq_of_key (hq : q ∈ t.rows) (h : r.rootMessageID = q.rootMessageID) : r = q :=
  eq_of_clashes hr hq (by simp [clashes, h])

lemma eq_of_thread (hq : q ∈ t.rows) (hlr : r.live = true)
    (hlq : q.live = true) (h : r.threadID = q.threadID) : r = q :=
  eq_of_clashes hr hq (by simp [clashes, hlr, hlq, h])

end

lemma byKey_eq_some : t.byKey key = some r ↔ r ∈ t.rows ∧ r.rootMessageID = key := by
  rw [byKey, find?_eq_some_of_unique, beq_iff_eq]
  intro x hx y hy hpx hpy
  exact eq_of_key hx hy ((beq_iff_eq.1 hpx).trans (beq_iff_eq.1 hpy).symm)

lemma byThread_eq_some : t.byThread n = some r ↔ r ∈ t.rows ∧ r.live = true ∧ r.threadID = n := by
  rw [byThread, find?_eq_some_of_unique, Bool.and_eq_true, beq_iff_eq]
  intro x hx y hy hpx hpy
  simp only [Bool.and_eq_true, beq_iff_eq] at hpx hpy
  exact eq_of_thread hx hy hpx.1 hpy.1 (hpx.2.trans hpy.2.symm)

lemma byID_eq_some : t.byID n = some r ↔ r ∈ t.rows ∧ r.id = n := by
  rw [byID, find?_eq_some_of_unique, beq_iff_eq]
  intro x hx y hy hpx hpy
  exact eq_of_id hx hy ((beq_iff_eq.1 hpx).trans (beq_iff_eq.1 hpy).symm)

lemma byKey_eq_none : t.byKey key = none ↔ ∀ r ∈ t.rows, r.rootMessageID ≠ key := by
  simp [byKey]

lemma byThread_eq_none : t.byThread n = none ↔ ∀ r ∈ t.rows, r.live = true → r.threadID ≠ n := by
  simp [byThread]

/-- The rows after an update of a row that is there. -/
lemma mem_map_update (hr : ∃ q ∈ t.rows, q.id = r.id) :
    q ∈ t.rows.map (fun q => if q.id = r.id then r else q) ↔
      (q ∈ t.rows ∧ q.id ≠ r.id) ∨ q = r := by
  rw [mem_map]
  constructor
  · rintro ⟨x, hx, rfl⟩
    by_cases he : x.id = r.id
    · exact .inr (if_pos he)
    · rw [if_neg he]
      exact .inl ⟨hx, he⟩
  · rintro (⟨hq, hne⟩ | rfl)
    · exact ⟨q, hq, if_neg hne⟩
    · obtain ⟨x, hx, he⟩ := hr
      exact ⟨x, hx, if_pos he⟩

lemma mem_of_insert (h : t.insert r = some t') :
    (∀ q, q ∈ t'.rows ↔ q ∈ t.rows ∨ q = r) ∧ ∀ q ∈ t.rows, q.id ≠ r.id := by
  unfold insert at h
  split at h
  · next hf =>
    cases h
    exact ⟨fun q => by simp, fun q hq => (hf q hq).1⟩
  · cases h

lemma update_ok (hr : ∃ q ∈ t.rows, q.id = r.id)
    (h : ∀ q ∈ t.rows, q.id ≠ r.id → q.clashes r = false) :
    ∃ t', t.update r = some t' ∧ ∀ q, q ∈ t'.rows ↔ (q ∈ t.rows ∧ q.id ≠ r.id) ∨ q = r := by
  rw [update, dif_pos h]
  exact ⟨_, rfl, fun q => mem_map_update hr⟩

lemma clashes_of_update (h : t.update r = some t') :
    ∀ q ∈ t.rows, q.id ≠ r.id → q.clashes r = false := by
  unfold update at h
  split at h
  · next hf => exact hf
  · cases h

lemma mem_of_update (h : t.update r = some t') (hr : ∃ q ∈ t.rows, q.id = r.id) :
    ∀ q, q ∈ t'.rows ↔ (q ∈ t.rows ∧ q.id ≠ r.id) ∨ q = r := by
  intro q
  unfold update at h
  split at h
  · cases h
    exact mem_map_update hr
  · cases h

end ThreadTable

/-! ## Moving messages -/

/-- The messages are the same, each with the thread that `thread` says. -/
def Moves (thread : Message → Nat) (ms ms' : List Message) : Prop :=
  ∃ f : Message → Message, ms' = ms.map f ∧ ∀ m, (f m).id = m.id ∧ (f m).head = m.head ∧
    (f m).date = m.date ∧ (f m).threadID = thread m

namespace Moves

variable {thread thread' : Message → Nat} {ms ms' ms'' : List Message}

lemma refl (h : ∀ m, thread m = m.threadID) : Moves thread ms ms :=
  ⟨id, (map_id ms).symm, fun m => ⟨rfl, rfl, rfl, (h m).symm⟩⟩

/-- The thread that a move gives a message depends on the thread it had, and on which
message it is. -/
lemma trans {g : Nat → Nat → Nat} (h : Moves thread ms ms')
    (h' : Moves (fun m => g m.id m.threadID) ms' ms'') :
    Moves (fun m => g m.id (thread m)) ms ms'' := by
  obtain ⟨f, rfl, hf⟩ := h
  obtain ⟨f', rfl, hf'⟩ := h'
  refine ⟨fun m => f' (f m), map_map, fun m => ?_⟩
  obtain ⟨hi, hh, hd, ht⟩ := hf m
  obtain ⟨hi', hh', hd', ht'⟩ := hf' (f m)
  refine ⟨hi'.trans hi, hh'.trans hh, hd'.trans hd, ht'.trans ?_⟩
  show g (f m).id (f m).threadID = g m.id (thread m)
  rw [hi, ht]

lemma congr (h : Moves thread ms ms') (he : ∀ m, thread m = thread' m) :
    Moves thread' ms ms' := by
  obtain ⟨f, rfl, hf⟩ := h
  exact ⟨f, rfl, fun m => ⟨(hf m).1, (hf m).2.1, (hf m).2.2.1, (hf m).2.2.2.trans (he m)⟩⟩

lemma mem_iff (h : Moves thread ms ms') {m' : Message} :
    m' ∈ ms' → ∃ m ∈ ms, m'.id = m.id ∧ m'.head = m.head ∧ m'.date = m.date ∧
      m'.threadID = thread m := by
  obtain ⟨f, rfl, hf⟩ := h
  intro hm'
  obtain ⟨m, hm, rfl⟩ := mem_map.1 hm'
  exact ⟨m, hm, hf m⟩

end Moves

namespace Db

variable {txt : Texts} {now : Int} {s s' s'' : Db} {id w t loser : Nat}
  {ts : List Nat} {m : Message}

/-- The thread is another one, and one that a merge moves. -/
def absorbs (s : Db) (w t : Nat) : Bool :=
  decide (t ≠ w) && decide (0 < (s.members t).length) &&
    decide ((s.members t).length ≤ threadMergeMaxMembers)

lemma absorbs_self (s : Db) (w : Nat) : s.absorbs w w = false := by simp [absorbs]

lemma moves_moveMembers (loser : Nat) :
    Moves (fun m => if m.threadID = loser then w else m.threadID) s.messages
      (s.moveMembers now loser w).messages := by
  refine ⟨_, rfl, fun m => ?_⟩
  by_cases hl : m.threadID = loser
  · simp [hl]
  · by_cases hw : m.threadID = w
    · simp [hw]
    · simp [hl, hw]

/-- A merge of another thread does not change how many messages a thread has. -/
lemma length_members_moveMembers (hl : t ≠ loser) (hw : t ≠ w) :
    ((s.moveMembers now loser w).members t).length = (s.members t).length := by
  unfold members moveMembers
  rw [filter_map, length_map]
  congr 1
  refine filter_congr fun m _ => ?_
  by_cases h : m.threadID = loser ∨ m.threadID = w
  · have hne : m.threadID ≠ t := by
      rcases h with h | h
      · exact fun he => hl (he ▸ h)
      · exact fun he => hw (he ▸ h)
    simp [h, hw.symm, hne]
  · simp [h]

lemma absorbs_moveMembers (hl : t ≠ loser) :
    (s.moveMembers now loser w).absorbs w t = s.absorbs w t := by
  by_cases hw : t = w
  · rw [hw, absorbs_self, absorbs_self]
  · rw [absorbs, absorbs, length_members_moveMembers hl hw]

/-- A hint is for the winner, or one that was there and whose thread was not absorbed. -/
def HintsTo (w : Nat) (mergedFrom : List Nat) (s s' : Db) : Prop :=
  ∀ h' ∈ s'.subjects, h'.threadID = w ∨
    ∃ h ∈ s.subjects, h.threadID = h'.threadID ∧ h.threadID ∉ mergedFrom

lemma hintsTo_moveMembers (loser : Nat) : HintsTo w [loser] s (s.moveMembers now loser w) := by
  intro h' hh'
  obtain ⟨h, hh, rfl⟩ := mem_map.1 hh'
  by_cases hl : h.threadID = loser
  · rw [if_pos hl]
    exact .inl rfl
  · rw [if_neg hl]
    exact .inr ⟨h, hh, rfl, by simpa using hl⟩

lemma HintsTo.trans {as bs : List Nat} (h : HintsTo w as s s')
    (h' : HintsTo w bs s' s'') : HintsTo w (as ++ bs) s s'' := by
  intro x hx
  rcases h' x hx with hw | ⟨y, hy, he, hb⟩
  · exact .inl hw
  · rcases h y hy with hw | ⟨z, hz, he', ha⟩
    · exact .inl (he ▸ hw)
    · refine .inr ⟨z, hz, he'.trans he, fun hm => ?_⟩
      rcases mem_append.1 hm with hm | hm
      · exact ha hm
      · exact hb (he' ▸ hm)

/-- Same rows of the tables that merging leaves alone. -/
def SameRows (s s' : Db) : Prop :=
  s'.threads = s.threads ∧ s'.rowSeq = s.rowSeq ∧ s'.mutes = s.mutes

lemma SameRows.trans (h : SameRows s s') (h' : SameRows s' s'') : SameRows s s'' :=
  ⟨h'.1.trans h.1, h'.2.1.trans h.2.1, h'.2.2.trans h.2.2⟩

lemma mergeThread_of_absorbs (hlt : w < t) (h : s.absorbs w t = true) :
    s.mergeThread now t w = .ok (s.moveMembers now t w, (s.members t).length) := by
  simp only [absorbs, Bool.and_eq_true, decide_eq_true_eq] at h
  rw [mergeThread, if_neg (Nat.not_le.2 hlt)]
  exact if_neg (by omega)

lemma mergeThread_of_not_absorbs (hlt : w < t) (h : s.absorbs w t = false) :
    s.mergeThread now t w = .ok (s, 0) := by
  have hne : t ≠ w := Nat.ne_of_gt hlt
  simp only [absorbs, ne_eq, hne, not_false_eq_true, decide_true, Bool.true_and,
    Bool.and_eq_false_iff, decide_eq_false_iff_not] at h
  rw [mergeThread, if_neg (Nat.not_le.2 hlt)]
  exact if_pos (by omega)

/-- The loop over the other threads absorbs those that a merge moves. -/
lemma mergeThreads_eq (hnd : ts.Nodup) (hw : ∀ t ∈ ts, w ≤ t) :
    ∃ s', mergeThreads now w s ts = .ok (s', ts.filter (s.absorbs w)) ∧ SameRows s s' ∧
      HintsTo w (ts.filter (s.absorbs w)) s s' ∧
      Moves (fun m => if m.threadID ∈ ts.filter (s.absorbs w) then w else m.threadID)
        s.messages s'.messages := by
  induction ts generalizing s with
  | nil =>
    exact ⟨s, rfl, ⟨rfl, rfl, rfl⟩, fun h hh => .inr ⟨h, hh, rfl, by simp⟩,
      Moves.refl fun m => by simp⟩
  | cons t ts ih =>
    obtain ⟨htts, hnd⟩ := nodup_cons.1 hnd
    have hw' : ∀ t' ∈ ts, w ≤ t' := fun t' ht' => hw t' (mem_cons_of_mem _ ht')
    by_cases htw : t = w
    · rw [mergeThreads, if_pos htw, htw, filter_cons_of_neg (by simp [absorbs_self])]
      exact ih hnd hw'
    have hlt : w < t := Nat.lt_of_le_of_ne (hw t mem_cons_self) (Ne.symm htw)
    cases habs : s.absorbs w t with
    | false =>
      obtain ⟨s', he, hrows, hhints, hmoves⟩ := @ih s hnd hw'
      rw [mergeThreads, if_neg htw, mergeThread_of_not_absorbs hlt habs,
        filter_cons_of_neg (by simp [habs])]
      refine ⟨s', ?_, hrows, hhints, hmoves⟩
      show (mergeThreads now w s ts >>= _) = _
      rw [he]
      rfl
    | true =>
      obtain ⟨s', he, hrows, hhints, hmoves⟩ := @ih (s.moveMembers now t w) hnd hw'
      have hfilter : ts.filter ((s.moveMembers now t w).absorbs w) = ts.filter (s.absorbs w) :=
        filter_congr fun t' ht' => absorbs_moveMembers fun he => htts (he ▸ ht')
      rw [hfilter] at he hhints hmoves
      have hpos : (s.members t).length ≠ 0 := by
        simp only [absorbs, Bool.and_eq_true, decide_eq_true_eq] at habs
        omega
      rw [mergeThreads, if_neg htw, mergeThread_of_absorbs hlt habs,
        filter_cons_of_pos (by simp [habs])]
      refine ⟨s', ?_, SameRows.trans ⟨rfl, rfl, rfl⟩ hrows,
        (hintsTo_moveMembers t).trans hhints, ?_⟩
      · show (mergeThreads now w (s.moveMembers now t w) ts >>= _) = _
        rw [he]
        show ok _ = ok _
        rw [if_neg hpos]
      · let g : Nat → Nat → Nat := fun _ n => if n ∈ ts.filter (s.absorbs w) then w else n
        refine Moves.congr (Moves.trans (g := g) (moves_moveMembers t) hmoves) fun m => ?_
        show (if _ ∈ ts.filter (s.absorbs w) then w else _) = _
        by_cases hmt : m.threadID = t
        · simp [hmt, absorbs_self]
        · simp [hmt]

/-! ## The messages -/

lemma winnerOf_le : winnerOf id ts ≤ id ∧ ∀ t ∈ ts, winnerOf id ts ≤ t := by
  induction ts generalizing id with
  | nil => exact ⟨Nat.le_refl id, nofun⟩
  | cons a ts ih =>
    obtain ⟨hid, hts⟩ := @ih (min id a)
    exact ⟨Nat.le_trans hid (Nat.min_le_left ..), forall_mem_cons.2
      ⟨Nat.le_trans hid (Nat.min_le_right ..), hts⟩⟩

lemma winnerOf_mem : winnerOf id ts = id ∨ winnerOf id ts ∈ ts := by
  induction ts generalizing id with
  | nil => exact .inl rfl
  | cons a ts ih =>
    rcases @ih (min id a) with h | h
    · rcases Nat.le_total id a with hle | hle
      · rw [Nat.min_eq_left hle] at h
        exact .inl (by rw [winnerOf, foldl_cons, Nat.min_eq_left hle]; exact h)
      · rw [Nat.min_eq_right hle] at h
        refine .inr (mem_cons.2 (.inl ?_))
        rw [winnerOf, foldl_cons, Nat.min_eq_right hle]
        exact h
    · exact .inr (mem_cons_of_mem _ h)

section Call

variable (txt : Texts) (now : Int) (s : Db) (call : Call)

/-- The threads that the message of a call belongs to. -/
def related : List Nat := s.relatedThreads txt now call.limit call.candidate

/-- The thread that it is given. -/
def winner : Nat := winnerOf call.id (s.related txt now call)

/-- The threads that this thread absorbs. -/
def absorbed : List Nat :=
  (s.related txt now call).filter
    ((s.joinThread call.id (s.winner txt now call)).absorbs (s.winner txt now call))

/-- The thread that a message has after the call. -/
def threadAfter (m : Message) : Nat :=
  let t := if m.id = call.id ∧ s.winner txt now call ≠ call.id then s.winner txt now call
    else m.threadID
  if t ∈ s.absorbed txt now call then s.winner txt now call else t

end Call

lemma nodup_related {call : Call} : (s.related txt now call).Nodup := by
  unfold related relatedThreads
  split
  · split
    split
    · cases s.threadBySubjectKey now _ with
      | none => exact nodup_nil
      | some t => exact nodup_singleton t
    · exact nodup_nil
  · exact nodup_dedup _

lemma moves_joinThread : Moves (fun m => if m.id = id ∧ w ≠ id then w else m.threadID) s.messages
      (s.joinThread id w).messages := by
  unfold joinThread
  by_cases hw : w = id
  · rw [if_pos hw]
    exact Moves.refl fun m => by simp [hw]
  · rw [if_neg hw]
    refine ⟨_, rfl, fun m => ?_⟩
    by_cases hm : m.id = id
    · simp [hm, hw]
    · simp [hm]

lemma sameRows_joinThread : SameRows s (s.joinThread id w) := by
  unfold joinThread
  split
  · exact ⟨rfl, rfl, rfl⟩
  · exact ⟨rfl, rfl, rfl⟩

lemma subjects_joinThread : (s.joinThread id w).subjects = s.subjects := by
  unfold joinThread
  split
  · rfl
  · rfl

lemma hintsTo_recordSubjectKey {key : String} :
    HintsTo w [] s (s.recordSubjectKey now key w) := by
  intro h' hh'
  unfold recordSubjectKey at hh'
  split at hh'
  · obtain ⟨h, hh, rfl⟩ := mem_map.1 hh'
    by_cases hk : h.key = key
    · rw [if_pos hk]
      rcases Nat.le_total h.threadID w with hle | hle
      · exact .inr ⟨h, hh, (Nat.min_eq_left hle).symm, not_mem_nil⟩
      · exact .inl (Nat.min_eq_right hle)
    · rw [if_neg hk]
      exact .inr ⟨h, hh, rfl, not_mem_nil⟩
  · rcases mem_append.1 hh' with hh | hh
    · exact .inr ⟨h', hh, rfl, not_mem_nil⟩
    · exact .inl (by rw [mem_singleton.1 hh])

/-- **The messages of a call.**  The message joins the winner, the other threads are
absorbed, and what is left to do is done with the thread rows. -/
theorem assignOne_eq (txt : Texts) (now : Int) (s : Db) (call : Call) :
    ∃ s', s.assignOne txt now call.limit call.id call.candidate =
        s'.ensureThreadRow txt now (s.winner txt now call) (s.absorbed txt now call) ∧
      SameRows s s' ∧ HintsTo (s.winner txt now call) (s.absorbed txt now call) s s' ∧
      Moves (s.threadAfter txt now call) s.messages s'.messages := by
  have hle : ∀ t ∈ s.related txt now call, s.winner txt now call ≤ t := winnerOf_le.2
  obtain ⟨s₁, he, hrows, hhints, hmoves⟩ := @mergeThreads_eq now
    (s.joinThread call.id (s.winner txt now call)) _ (s.related txt now call) nodup_related hle
  have hhints₁ : HintsTo (s.winner txt now call) (s.absorbed txt now call) s s₁ := by
    intro h hh
    have := hhints h hh
    rwa [subjects_joinThread] at this
  have hmoves₁ : Moves (s.threadAfter txt now call) s.messages s₁.messages :=
    Moves.trans (g := fun _ t => if t ∈ s.absorbed txt now call then s.winner txt now call else t)
      moves_joinThread hmoves
  have hall : s.assignOne txt now call.limit call.id call.candidate =
      (if (normalizeSubject txt call.candidate.subject).1 = "" then s₁
        else s₁.recordSubjectKey now (normalizeSubject txt call.candidate.subject).1
          (s.winner txt now call)).ensureThreadRow txt now (s.winner txt now call)
            (s.absorbed txt now call) := by
    show (mergeThreads now (s.winner txt now call) (s.joinThread call.id (s.winner txt now call))
      (s.related txt now call) >>= _) = _
    rw [he]
    dsimp only [bind, Except.bind]
    rfl
  refine ⟨_, hall, ?_⟩
  split
  · exact ⟨sameRows_joinThread.trans hrows, hhints₁, hmoves₁⟩
  · refine ⟨sameRows_joinThread.trans (hrows.trans ⟨rfl, rfl, rfl⟩), ?_, hmoves₁⟩
    have hrec : HintsTo (s.winner txt now call) [] s₁ (s₁.recordSubjectKey now
        (normalizeSubject txt call.candidate.subject).1 (s.winner txt now call)) :=
      hintsTo_recordSubjectKey
    have := hhints₁.trans hrec
    rwa [append_nil] at this

/-! ## The rows -/

lemma writeThreads_eq_ok {t : Option ThreadTable} :
    s.writeThreads t = .ok s' ↔ ∃ t', t = some t' ∧ s' = { s with threads := t' } := by
  cases t with
  | none => simp [writeThreads]
  | some => simp [writeThreads, eq_comm]

lemma bind_eq_ok {ε α β : Type} {x : Except ε α} {f : α → Except ε β} {b : β} :
    (x >>= f) = .ok b ↔ ∃ a, x = .ok a ∧ f a = .ok b := by
  cases x with
  | error | ok => simp [bind, Except.bind]

/-- One row is written: it has the thread and the key afterwards.  If it was there, it had
one of them, and it keeps its tombstone; if not, it is live. -/
structure Written (t t' : ThreadTable) (key : String) (w : Nat) (row : ThreadRow) : Prop where
  mem : ∀ q, q ∈ t'.rows ↔ (q ∈ t.rows ∧ q.id ≠ row.id) ∨ q = row
  thread : row.threadID = w
  root : row.rootMessageID = key
  replaced : ∀ r ∈ t.rows, r.id = row.id →
    (r.rootMessageID = key ∨ r.live = true ∧ r.threadID = w) ∧ row.live = r.live
  created : (∀ r ∈ t.rows, r.id ≠ row.id) → row.live = true

/-- The older row, a tombstoned one, is given the thread and the key of the live row. -/
structure Taken (t t' : ThreadTable) (key : String) (w : Nat) : Prop where
  other : ∃ o ∈ t.rows, o.rootMessageID = key ∧ o.live = false
  existing : ∃ e ∈ t.rows, e.live = true ∧ e.threadID = w
  kept : ∀ q ∈ t.rows, q.rootMessageID ≠ key → ¬ (q.live = true ∧ q.threadID = w) → q ∈ t'.rows
  old : ∀ q' ∈ t'.rows, ∃ q ∈ t.rows, q.id = q'.id

/-- What `ensureThreadForWinner` has done when it returns. -/
structure ForWinner (s s' : Db) (key : String) (w : Nat) (row : ThreadRow) : Prop where
  messages : s'.messages = s.messages
  subjects : s'.subjects = s.subjects
  mutes : s'.mutes = s.mutes
  seq : (∀ r ∈ s.threads.rows, r.id < s.rowSeq) → ∀ r ∈ s'.threads.rows, r.id < s'.rowSeq
  present : row ∈ s'.threads.rows
  rows : Written s.threads s'.threads key w row ∨ Taken s.threads s'.threads key w

variable {key : String} {row r : ThreadRow} {t t' : ThreadTable} {thread : Message → Nat}

section
variable (h : s.threads.update row = some t') (hr : r ∈ s.threads.rows) (hid : r.id = row.id)
  (hlive : row.live = r.live) (hthread : row.threadID = w) (hroot : row.rootMessageID = key)
  (hstake : r.rootMessageID = key ∨ r.live = true ∧ r.threadID = w)
include h hr hid hlive hthread hroot hstake

/-- An update of a row that has the key or the thread, to one that has both. -/
lemma Written.of_update : Written s.threads t' key w row where
  mem := mem_of_update h ⟨r, hr, hid⟩
  thread := hthread
  root := hroot
  replaced q hq he := by
    rw [eq_of_id hq hr (he.trans hid.symm)]
    exact ⟨hstake, hlive⟩
  created hnew := absurd hid (hnew r hr)

/-- Such an update of one row is all that is done. -/
lemma ForWinner.of_update : ForWinner s { s with threads := t' } key w row := by
  have hw := Written.of_update h hr hid hlive hthread hroot hstake
  refine ⟨rfl, rfl, rfl, fun hseq q hq => ?_, (hw.mem row).2 (.inr rfl), .inl hw⟩
  rcases (hw.mem q).1 hq with ⟨hq, -⟩ | rfl
  · exact hseq q hq
  · exact hid ▸ hseq r hr

end

lemma forWinner_ensureThread (h : s.ensureThread now key w = .ok (s', row)) :
    ForWinner s s' key w row := by
  unfold ensureThread at h
  split at h
  · next hkey =>
    obtain ⟨s₁, hwrite, hret⟩ := bind_eq_ok.1 h
    obtain ⟨t', hins, rfl⟩ := writeThreads_eq_ok.1 hwrite
    cases hret
    obtain ⟨hmem, hnew⟩ := mem_of_insert hins
    refine ⟨rfl, rfl, rfl, fun hseq q hq => ?_, (hmem _).2 (.inr rfl), .inl ?_⟩
    · rcases (hmem q).1 hq with hq | rfl
      · exact Nat.lt_succ_of_lt (hseq q hq)
      · exact Nat.lt_succ_self _
    · refine ⟨fun q => ?_, rfl, rfl, fun r hr he => absurd he (hnew r hr), fun _ => rfl⟩
      rw [hmem]
      constructor
      · rintro (hq | rfl)
        · exact .inl ⟨hq, hnew q hq⟩
        · exact .inr rfl
      · rintro (⟨hq, -⟩ | rfl)
        · exact .inl hq
        · exact .inr rfl
  · next r hkey =>
    obtain ⟨hr, hroot⟩ := byKey_eq_some.1 hkey
    split at h
    · next hthread =>
      cases h
      refine ⟨rfl, rfl, rfl, fun hseq => hseq, hr, .inl ?_⟩
      refine ⟨fun q => ?_, hthread, hroot, fun q hq he => ?_, fun hnew => absurd rfl (hnew row hr)⟩
      · constructor
        · intro hq
          by_cases he : q.id = row.id
          · exact .inr (eq_of_id hq hr he)
          · exact .inl ⟨hq, he⟩
        · rintro (⟨hq, -⟩ | rfl)
          · exact hq
          · exact hr
      · rw [eq_of_id hq hr he]
        exact ⟨.inl hroot, rfl⟩
    · obtain ⟨s₁, hwrite, hret⟩ := bind_eq_ok.1 h
      obtain ⟨t', hup, rfl⟩ := writeThreads_eq_ok.1 hwrite
      cases hret
      exact .of_update hup hr rfl rfl rfl hroot (.inl hroot)

/-- The rows with `p` are tombstoned; nothing else is done. -/
structure Buried (p : ThreadRow → Prop) (s s' : Db) : Prop where
  messages : s'.messages = s.messages
  subjects : s'.subjects = s.subjects
  mutes : s'.mutes = s.mutes
  seq : s'.rowSeq = s.rowSeq
  kept : ∀ q ∈ s.threads.rows, ¬ p q → q ∈ s'.threads.rows
  old : ∀ q' ∈ s'.threads.rows, q' ∈ s.threads.rows ∧ ¬ p q' ∨
    q'.live = false ∧ ∃ q ∈ s.threads.rows, p q ∧ q.id = q'.id

lemma Buried.congr {p p' : ThreadRow → Prop} (h : Buried p s s')
    (he : ∀ q ∈ s.threads.rows, p q ↔ p' q) : Buried p' s s' where
  messages := h.messages
  subjects := h.subjects
  mutes := h.mutes
  seq := h.seq
  kept q hq hp := h.kept q hq fun hpq => hp ((he q hq).1 hpq)
  old q' hq' := by
    rcases h.old q' hq' with ⟨hq, hp⟩ | ⟨hdead, q, hq, hp, hid⟩
    · exact .inl ⟨hq, fun hpq => hp ((he q' hq).2 hpq)⟩
    · exact .inr ⟨hdead, q, hq, (he q hq).1 hp, hid⟩

lemma Buried.refl {p : ThreadRow → Prop} (h : ∀ q ∈ s.threads.rows, ¬ p q) : Buried p s s :=
  ⟨rfl, rfl, rfl, rfl, fun _ hq _ => hq, fun q' hq' => .inl ⟨hq', h q' hq'⟩⟩

lemma Buried.trans {p p' : ThreadRow → Prop} (h : Buried p s s')
    (h' : Buried p' s' s'') (hlive : ∀ q, p' q → q.live = true) :
    Buried (fun q => p q ∨ p' q) s s'' where
  messages := h'.messages.trans h.messages
  subjects := h'.subjects.trans h.subjects
  mutes := h'.mutes.trans h.mutes
  seq := h'.seq.trans h.seq
  kept q hq hp :=
    h'.kept q (h.kept q hq fun hpq => hp (.inl hpq)) fun hpq => hp (.inr hpq)
  old q'' hq'' := by
    rcases h'.old q'' hq'' with ⟨hq', hp'⟩ | ⟨hdead, q', hq', hp', hid'⟩
    · rcases h.old q'' hq' with ⟨hq, hp⟩ | ⟨hdead, q, hq, hp, hid⟩
      · exact .inl ⟨hq, fun hor => hor.elim hp hp'⟩
      · exact .inr ⟨hdead, q, hq, .inl hp, hid⟩
    · rcases h.old q' hq' with ⟨hq, -⟩ | ⟨hdead', -⟩
      · exact .inr ⟨hdead, q', hq, .inr hp', hid'⟩
      · rw [hlive q' hp'] at hdead'
        cases hdead'

/-- A row that is given a tombstone, or another one, clashes with none. -/
lemma buried_update {n : Nat × Int} (hr : r ∈ s.threads.rows) :
    ∃ s', s.writeThreads (s.threads.update { r with tombstone := some n, updatedAt := now }) =
        .ok s' ∧ Buried (fun q => q.id = r.id) s s' := by
  have hclash : ∀ q ∈ s.threads.rows, q.id ≠ r.id →
      q.clashes { r with tombstone := some n, updatedAt := now } = false := by
    intro q hq hne
    have := (apart hq hr fun he => hne (congrArg _ he)).2
    simp only [clashes, Bool.or_eq_false_iff] at this ⊢
    exact ⟨this.1, by simp [live]⟩
  have hthere : ∃ q ∈ s.threads.rows,
      q.id = ({ r with tombstone := some n, updatedAt := now } : ThreadRow).id := ⟨r, hr, rfl⟩
  obtain ⟨t', hup, hmem⟩ := update_ok hthere hclash
  refine ⟨{ s with threads := t' }, writeThreads_eq_ok.2 ⟨t', hup, rfl⟩, rfl, rfl, rfl, rfl,
    fun q hq hne => (hmem q).2 (.inl ⟨hq, hne⟩), fun q' hq' => ?_⟩
  rcases (hmem q').1 hq' with ⟨hq, hne⟩ | rfl
  · exact .inl ⟨hq, hne⟩
  · exact .inr ⟨rfl, r, hr, rfl, rfl⟩

lemma tombstoneThread_ok {loserID winnerID : Nat} (hne : loserID ≠ winnerID) :
    ∃ s', s.tombstoneThread now loserID winnerID = .ok s' ∧
      Buried (fun q => q.id = loserID) s s' := by
  unfold tombstoneThread
  rw [if_neg hne]
  cases hb : s.threads.byID loserID with
  | none =>
    refine ⟨s, rfl, Buried.refl fun q hq he => ?_⟩
    rw [byID_eq_some.2 ⟨hq, he⟩] at hb
    cases hb
  | some r =>
    obtain ⟨hr, rfl⟩ := byID_eq_some.1 hb
    dsimp only
    cases htomb : r.tombstone with
    | none => exact buried_update hr
    | some =>
      dsimp only
      split
      · refine ⟨s, rfl, rfl, rfl, rfl, rfl, fun q hq _ => hq, fun q' hq' => ?_⟩
        by_cases he : q'.id = r.id
        · rw [eq_of_id hq' hr he]
          exact .inr ⟨by simp [live, htomb], r, hr, rfl, rfl⟩
        · exact .inl ⟨hq', he⟩
      · exact buried_update hr

/-- The re-key meets another row that has the key, and one of the two indexes refuses the
update: the index on the key when that row is the younger one, and the index on live
threads when it is live. -/
def clashing (t : ThreadTable) (key : String) (w : Nat) : Bool :=
  match t.byThread w, t.byKey key with
  | some e, some o => decide (e.rootMessageID ≠ key) && (o.live || decide (e.id < o.id))
  | _, _ => false

/-- An update passes when no other row has the key, and no other live row the thread. -/
lemma update_passes (hr : r ∈ s.threads.rows) (hid : r.id = row.id)
    (hkey : ∀ q ∈ s.threads.rows, q.id ≠ row.id → q.rootMessageID ≠ row.rootMessageID)
    (hlive : ∀ q ∈ s.threads.rows, q.id ≠ row.id → q.live = true → row.live = true →
      q.threadID ≠ row.threadID) :
    ∃ s', s.writeThreads (s.threads.update row) = .ok s' := by
  have hclash : ∀ q ∈ s.threads.rows, q.id ≠ row.id → q.clashes row = false := by
    intro q hq hne
    have hk := hkey q hq hne
    have hl := hlive q hq hne
    simp only [clashes, Bool.or_eq_false_iff, beq_eq_false_iff_ne, ne_eq, hk,
      not_false_eq_true, true_and, Bool.and_eq_false_iff]
    cases hql : q.live with
    | false => exact .inl (.inl rfl)
    | true =>
      cases hrl : row.live with
      | false => exact .inl (.inr rfl)
      | true => exact .inr (hl hql hrl)
  obtain ⟨t', hup, -⟩ := update_ok ⟨r, hr, hid⟩ hclash
  exact ⟨_, writeThreads_eq_ok.2 ⟨t', hup, rfl⟩⟩

lemma ensureThread_ok (hseq : ∀ r ∈ s.threads.rows, r.id < s.rowSeq)
    (hnone : s.threads.byThread w = none) :
    ∃ s' row, s.ensureThread now key w = .ok (s', row) := by
  have hfree := byThread_eq_none.1 hnone
  unfold ensureThread
  cases hkey : s.threads.byKey key with
  | none =>
    have hno := byKey_eq_none.1 hkey
    let row : ThreadRow := ⟨s.rowSeq, key, w, none, now, now⟩
    have hins : ∀ q ∈ s.threads.rows, q.id ≠ row.id ∧ q.clashes row = false := by
      intro q hq
      refine ⟨Nat.ne_of_lt (hseq q hq), ?_⟩
      have hl := hfree q hq
      simp only [row, clashes, Bool.or_eq_false_iff, beq_eq_false_iff_ne, ne_eq,
        hno q hq, not_false_eq_true, true_and, Bool.and_eq_false_iff]
      cases hql : q.live with
      | false => exact .inl (.inl rfl)
      | true => exact .inr (hl hql)
    obtain ⟨t', hup⟩ : ∃ t', s.threads.insert row = some t' := ⟨_, dif_pos hins⟩
    exact ⟨_, _, bind_eq_ok.2 ⟨_, writeThreads_eq_ok.2 ⟨t', hup, rfl⟩, rfl⟩⟩
  | some r =>
    obtain ⟨hr, hroot⟩ := byKey_eq_some.1 hkey
    dsimp only
    split
    · exact ⟨_, _, rfl⟩
    · obtain ⟨s₁, hwrite⟩ : ∃ s₁, s.writeThreads (s.threads.update
          { r with threadID := w, updatedAt := now }) = .ok s₁ := by
        refine update_passes hr rfl (fun q hq hne he => ?_) fun q hq _ hl _ => hfree q hq hl
        have hqr : q = r := eq_of_key hq hr he
        have hid : q.id = r.id := congrArg ThreadRow.id hqr
        exact hne hid
      exact ⟨_, _, bind_eq_ok.2 ⟨s₁, hwrite, rfl⟩⟩

/-- It returns whenever the re-key does not clash. -/
lemma ensureThreadForWinner_ok (hseq : ∀ r ∈ s.threads.rows, r.id < s.rowSeq)
    (hclear : clashing s.threads key w = false) :
    ∃ s' row, s.ensureThreadForWinner now key w = .ok (s', row) := by
  unfold ensureThreadForWinner
  cases hb : s.threads.byThread w with
  | none => exact ensureThread_ok hseq hb
  | some e =>
    obtain ⟨he, hlive, hthread⟩ := byThread_eq_some.1 hb
    have hother : ∀ q ∈ s.threads.rows, q.id ≠ e.id → q.live = true → q.threadID ≠ w :=
      fun q hq hne hl ht =>
        hne (congrArg _ (eq_of_thread hq he hl hlive (ht.trans hthread.symm)))
    dsimp only
    split
    · next hroot =>
      obtain ⟨s₁, hwrite⟩ : ∃ s₁, s.writeThreads (s.threads.update { e with updatedAt := now }) =
          .ok s₁ := by
        refine update_passes he rfl (fun q hq hne hk => ?_) fun q hq hne hl _ ht => ?_
        · have hqe : q = e := eq_of_key hq he hk
          have hid : q.id = e.id := congrArg ThreadRow.id hqe
          exact hne hid
        · exact hother q hq hne hl (ht.trans hthread)
      exact ⟨_, _, bind_eq_ok.2 ⟨s₁, hwrite, rfl⟩⟩
    next hroot =>
    cases hkey : s.threads.byKey key with
    | none =>
      have hno := byKey_eq_none.1 hkey
      obtain ⟨s₁, hwrite⟩ : ∃ s₁, s.writeThreads (s.threads.update
          { e with rootMessageID := key, updatedAt := now }) = .ok s₁ := by
        refine update_passes he rfl (fun q hq _ => hno q hq) fun q hq hne hl _ ht => ?_
        exact hother q hq hne hl (ht.trans hthread)
      exact ⟨_, _, bind_eq_ok.2 ⟨s₁, hwrite, rfl⟩⟩
    | some o =>
      obtain ⟨ho, hoKey⟩ := byKey_eq_some.1 hkey
      simp only [clashing, hb, hkey, ne_eq, hroot, not_false_eq_true, decide_true, Bool.true_and,
        Bool.or_eq_false_iff, decide_eq_false_iff_not] at hclear
      have hids : e.id ≠ o.id :=
        (apart he ho fun heo => hroot (heo ▸ hoKey)).1
      obtain ⟨s₁, hwrite⟩ : ∃ s₁, s.writeThreads (s.threads.update
          { o with threadID := w, rootMessageID := key, updatedAt := now }) = .ok s₁ := by
        refine update_passes ho rfl (fun q hq hne hk => ?_) fun q hq hne hl hdead ht => ?_
        · have hqo : q = o := eq_of_key hq ho (Eq.trans hk hoKey.symm)
          have hid : q.id = o.id := congrArg ThreadRow.id hqo
          exact hne hid
        · have hoLive : o.live = true := hdead
          rw [hclear.1] at hoLive
          cases hoLive
      obtain ⟨s₂, htomb, -⟩ := @tombstoneThread_ok now s₁ e.id o.id hids
      dsimp only
      rw [if_neg hclear.2]
      exact ⟨_, _, bind_eq_ok.2 ⟨s₁, hwrite, bind_eq_ok.2 ⟨s₂, htomb, rfl⟩⟩⟩

/-- The rows that the loop over the absorbed threads tombstones. -/
def losing (row : ThreadRow) (losers : List Nat) (q : ThreadRow) : Prop :=
  q.live = true ∧ q.threadID ∈ losers ∧ q.id ≠ row.id

/-- Every way for `ensureThreadForWinner` to return. -/
lemma forWinner_of_ok (h : s.ensureThreadForWinner now key w = .ok (s', row)) :
    ForWinner s s' key w row := by
  unfold ensureThreadForWinner at h
  split at h
  · exact forWinner_ensureThread h
  next e hb =>
  obtain ⟨he, hlive, hthread⟩ := byThread_eq_some.1 hb
  split at h
  · next hroot =>
    obtain ⟨s₁, hwrite, hret⟩ := bind_eq_ok.1 h
    obtain ⟨t', hup, rfl⟩ := writeThreads_eq_ok.1 hwrite
    cases hret
    exact .of_update hup he rfl rfl hthread hroot (.inl hroot)
  next hroot =>
  split at h
  · obtain ⟨s₁, hwrite, hret⟩ := bind_eq_ok.1 h
    obtain ⟨t', hup, rfl⟩ := writeThreads_eq_ok.1 hwrite
    cases hret
    exact .of_update hup he rfl rfl hthread rfl (.inr ⟨hlive, hthread⟩)
  next o hkey =>
  obtain ⟨ho, hoKey⟩ := byKey_eq_some.1 hkey
  have hne : e ≠ o := fun heo => hroot (heo ▸ hoKey)
  have hids : e.id ≠ o.id := (apart he ho hne).1
  by_cases hlt : e.id < o.id
  · -- The other row still has the key: the update of the older one is refused.
    rw [if_pos hlt] at h
    obtain ⟨s₁, hwrite, -⟩ := bind_eq_ok.1 h
    obtain ⟨t', hup, rfl⟩ := writeThreads_eq_ok.1 hwrite
    have := clashes_of_update hup o ho hids.symm
    simp [clashes, hoKey] at this
  · -- The live row still has the thread: the update passes only for a tombstoned one.
    rw [if_neg hlt] at h
    obtain ⟨s₁, hwrite, h⟩ := bind_eq_ok.1 h
    obtain ⟨t', hup, rfl⟩ := writeThreads_eq_ok.1 hwrite
    obtain ⟨s₂, htomb, hret⟩ := bind_eq_ok.1 h
    cases hret
    have hclash := clashes_of_update hup e he hids
    have hdead : o.live = false := by
      simp only [clashes, hlive, hthread, Bool.or_eq_false_iff] at hclash
      simpa [live] using hclash.2
    have hmem := mem_of_update hup ⟨o, ho, rfl⟩
    obtain ⟨s₃, htomb', hbur⟩ := @tombstoneThread_ok now { s with threads := t' } e.id o.id hids
    obtain rfl : s₃ = s' := by
      rw [htomb] at htomb'
      exact (ok.inj htomb').symm
    have hold₁ : ∀ q' ∈ t'.rows, ∃ q ∈ s.threads.rows, q.id = q'.id := by
      intro q' hq'
      rcases (hmem q').1 hq' with ⟨hq, -⟩ | rfl
      · exact ⟨q', hq, rfl⟩
      · exact ⟨o, ho, rfl⟩
    have hold : ∀ q' ∈ s₃.threads.rows, ∃ q ∈ s.threads.rows, q.id = q'.id := by
      intro q' hq'
      rcases hbur.old q' hq' with ⟨hq, -⟩ | ⟨-, q₁, hq₁, -, hid⟩
      · exact hold₁ q' hq
      · obtain ⟨q, hq, he⟩ := hold₁ q₁ hq₁
        exact ⟨q, hq, he.trans hid⟩
    refine ⟨hbur.messages, hbur.subjects, hbur.mutes, fun hseq q' hq' => ?_, ?_, .inr ?_⟩
    · obtain ⟨q, hq, he⟩ := hold q' hq'
      rw [hbur.seq]
      exact he ▸ hseq q hq
    · exact hbur.kept _ ((hmem _).2 (.inr rfl)) fun heo => hids heo.symm
    · refine ⟨⟨o, ho, hoKey, hdead⟩, ⟨e, he, hlive, hthread⟩, fun q hq hk hl => ?_, hold⟩
      have hqo : q.id ≠ o.id := fun hid => hk (eq_of_id hq ho hid ▸ hoKey)
      refine hbur.kept q ((hmem q).2 (.inl ⟨hq, hqo⟩)) fun hid => hl ?_
      rw [eq_of_id hq he hid]
      exact ⟨hlive, hthread⟩

/-- The loop always returns, with the rows of the absorbed threads tombstoned. -/
theorem tombstoneLosers_ok {losers : List Nat} :
    ∃ s', tombstoneLosers now row s losers = .ok s' ∧ Buried (losing row losers) s s' := by
  induction losers generalizing s with
  | nil => exact ⟨s, rfl, Buried.refl fun q _ hp => by cases hp.2.1⟩
  | cons loser losers ih =>
    unfold tombstoneLosers
    cases hb : s.threads.byThread loser with
    | none =>
      obtain ⟨s', he, hbur⟩ := @ih s
      refine ⟨s', he, hbur.congr fun q hq => ?_⟩
      have hno := byThread_eq_none.1 hb q hq
      constructor
      · rintro ⟨hl, hm, hid⟩
        exact ⟨hl, mem_cons_of_mem _ hm, hid⟩
      · rintro ⟨hl, hm, hid⟩
        exact ⟨hl, (mem_cons.1 hm).resolve_left (hno hl), hid⟩
    | some r =>
      obtain ⟨hr, hrl, hrt⟩ := byThread_eq_some.1 hb
      have hone : ∀ q ∈ s.threads.rows, q.live = true → q.threadID = loser → q = r :=
        fun q hq hl ht => eq_of_thread hq hr hl hrl (ht.trans hrt.symm)
      dsimp only
      split
      · next hid =>
        obtain ⟨s', he, hbur⟩ := @ih s
        refine ⟨s', he, hbur.congr fun q hq => ?_⟩
        constructor
        · rintro ⟨hl, hm, hne⟩
          exact ⟨hl, mem_cons_of_mem _ hm, hne⟩
        · rintro ⟨hl, hm, hne⟩
          refine ⟨hl, (mem_cons.1 hm).resolve_left fun ht => hne ?_, hne⟩
          rw [hone q hq hl ht, hid]
      · next hid =>
        obtain ⟨s₁, he₁, hbur₁⟩ := @tombstoneThread_ok now s r.id row.id hid
        obtain ⟨s', he, hbur⟩ := @ih s₁
        refine ⟨s', bind_eq_ok.2 ⟨s₁, he₁, he⟩, (hbur₁.trans hbur fun q hp => hp.1).congr ?_⟩
        intro q hq
        constructor
        · rintro (he | ⟨hl, hm, hne⟩)
          · rw [eq_of_id hq hr he]
            exact ⟨hrl, mem_cons.2 (.inl hrt), hid⟩
          · exact ⟨hl, mem_cons_of_mem _ hm, hne⟩
        · rintro ⟨hl, hm, hne⟩
          rcases mem_cons.1 hm with ht | hm
          · exact .inl (congrArg _ (hone q hq hl ht))
          · exact .inr ⟨hl, hm, hne⟩

/-! ## One call -/

lemma oldest_map {f : Message → Message} (hf : ∀ m, (f m).id = m.id ∧ (f m).date = m.date) :
    ∀ ms : List Message, oldest (ms.map f) = (oldest ms).map f
  | [] => rfl
  | m :: ms => by
    rw [map_cons, oldest, oldest, oldest_map hf ms]
    cases oldest ms with
    | none => rfl
    | some q =>
      have hle : (f m).notAfter (f q) = m.notAfter q := by
        rw [Message.notAfter, Message.notAfter, (hf m).1, (hf m).2, (hf q).1, (hf q).2]
      simp only [Option.map_some, hle]
      split <;> rfl

section Call

variable (txt : Texts) (now : Int) (s : Db) (call : Call)

/-- The oldest of the messages that a call brings together. -/
def rootAfter : Option Message :=
  oldest (s.messages.filter fun m => s.threadAfter txt now call m == s.winner txt now call)

/-- The key of their conversation. -/
def keyAfter : Option String :=
  (s.rootAfter txt now call).map fun m => threadKey txt m.head.candidate

end Call

variable {call : Call}

/-- The messages of a thread after a move, in the terms of before. -/
lemma exists_members_of_moves (h : Moves thread s.messages s'.messages)
    (n : Nat) : ∃ f : Message → Message,
      s'.members n = (s.messages.filter fun m => thread m == n).map f ∧
        ∀ m, (f m).id = m.id ∧ (f m).head = m.head ∧ (f m).date = m.date := by
  obtain ⟨f, hms, hf⟩ := h
  refine ⟨f, ?_, fun m => ⟨(hf m).1, (hf m).2.1, (hf m).2.2.1⟩⟩
  rw [members, hms, filter_map]
  congr 1
  refine filter_congr fun m _ => ?_
  show ((f m).threadID == n) = _
  rw [(hf m).2.2.2]

lemma threadRootKey_moves (h : Moves thread s.messages s'.messages)
    (n : Nat) : s'.threadRootKey txt n =
      match oldest (s.messages.filter fun m => thread m == n) with
      | none => .error .notFound
      | some m => .ok (threadKey txt m.head.candidate) := by
  obtain ⟨f, hms, hf⟩ := exists_members_of_moves h n
  rw [threadRootKey, hms, oldest_map fun m => ⟨(hf m).1, (hf m).2.2⟩]
  cases oldest (s.messages.filter fun m => thread m == n) with
  | none => rfl
  | some m =>
    show ok (threadKey txt (f m).head.candidate) = _
    rw [(hf m).2.1]

/-- What a call has done when it returns: the messages are moved, the row of the winner is
written, and then the rows of the absorbed threads are tombstoned. -/
structure Assigned (txt : Texts) (now : Int) (call : Call) (s s' : Db) : Prop where
  moves : Moves (s.threadAfter txt now call) s.messages s'.messages
  hints : HintsTo (s.winner txt now call) (s.absorbed txt now call) s s'
  mutes : s'.mutes = s.mutes
  seq : (∀ r ∈ s.threads.rows, r.id < s.rowSeq) → ∀ r ∈ s'.threads.rows, r.id < s'.rowSeq
  rows : ∃ key row t, s.keyAfter txt now call = some key ∧ row ∈ t.rows ∧
    (Written s.threads t key (s.winner txt now call) row ∨
      Taken s.threads t key (s.winner txt now call)) ∧
    (∀ q ∈ t.rows, ¬ losing row (s.absorbed txt now call) q → q ∈ s'.threads.rows) ∧
    ∀ q' ∈ s'.threads.rows, q' ∈ t.rows ∧ ¬ losing row (s.absorbed txt now call) q' ∨
      q'.live = false ∧ ∃ q ∈ t.rows, losing row (s.absorbed txt now call) q ∧ q.id = q'.id

lemma assigned_of_ok (h : s.assignOne txt now call.limit call.id call.candidate = .ok s') :
    Assigned txt now call s s' := by
  obtain ⟨s₁, he, ⟨hthreads, hseq, hmutes⟩, hhints, hmoves⟩ := assignOne_eq txt now s call
  rw [he] at h
  obtain ⟨key, hkey, h⟩ := bind_eq_ok.1 h
  obtain ⟨⟨s₂, row⟩, hwin, h⟩ := bind_eq_ok.1 h
  have hfor := forWinner_of_ok hwin
  obtain ⟨s₃, he₃, hbur⟩ := @tombstoneLosers_ok now s₂ row (s.absorbed txt now call)
  obtain rfl : s₃ = s' := by
    rw [show tombstoneLosers now row s₂ _ = .ok s' from h] at he₃
    exact (ok.inj he₃).symm
  refine ⟨?_, ?_, ?_, fun hs q' hq' => ?_, key, row, s₂.threads, ?_, hfor.present, ?_, hbur.kept,
    hbur.old⟩
  · rw [hbur.messages, hfor.messages]
    exact hmoves
  · intro x hx
    rw [hbur.subjects, hfor.subjects] at hx
    exact hhints x hx
  · rw [hbur.mutes, hfor.mutes, hmutes]
  · have hs₂ := hfor.seq (by rw [hthreads, hseq]; exact hs)
    rw [hbur.seq]
    rcases hbur.old q' hq' with ⟨hq, -⟩ | ⟨-, q, hq, -, hid⟩
    · exact hs₂ q' hq
    · exact hid ▸ hs₂ q hq
  · rw [threadRootKey_moves hmoves] at hkey
    unfold keyAfter rootAfter
    split at hkey
    · cases hkey
    · next m hm =>
      rw [hm]
      exact congrArg some (ok.inj hkey)
  · have := hfor.rows
    rwa [hthreads] at this

/-- A call returns when some message carries the winner and the re-key does not clash. -/
lemma assignOne_ok {key : String} (hseq : ∀ r ∈ s.threads.rows, r.id < s.rowSeq)
    (hkey : s.keyAfter txt now call = some key)
    (hclear : clashing s.threads key (s.winner txt now call) = false) :
    ∃ s', s.assignOne txt now call.limit call.id call.candidate = .ok s' := by
  obtain ⟨s₁, he, ⟨hthreads, hrowSeq, -⟩, -, hmoves⟩ := assignOne_eq txt now s call
  have hroot : s₁.threadRootKey txt (s.winner txt now call) = .ok key := by
    obtain ⟨m, hm, rfl⟩ := Option.map_eq_some_iff.1 hkey
    rw [threadRootKey_moves hmoves]
    unfold rootAfter at hm
    rw [hm]
  obtain ⟨s₂, row, hwin⟩ : ∃ s₂ row,
      s₁.ensureThreadForWinner now key (s.winner txt now call) = .ok (s₂, row) :=
    ensureThreadForWinner_ok (by rw [hthreads, hrowSeq]; exact hseq)
      (by rw [hthreads]; exact hclear)
  obtain ⟨s₃, he₃, -⟩ := @tombstoneLosers_ok now s₂ row (s.absorbed txt now call)
  exact ⟨s₃, he.trans (bind_eq_ok.2 ⟨key, hroot, bind_eq_ok.2 ⟨(s₂, row), hwin, he₃⟩⟩)⟩

end Db

end Moov.Threads
