import Mathlib.Data.List.Perm.Subperm
import Moov.Lib.Labels
import Moov.Store.ThreadRows

/-!
# Threads are the components of the reference graph

Two messages are linked when one names the Message-ID of the other.  Threading is an
incremental union-find over the links: a message that is threaded is joined with every
message it finds, and a thread is named after its smallest message.  `Names.join` is the
step, and `threads_are_components` says what follows for every order and every batching.

`clear` has the limits within which that is so, and two conditions on top of them.  A call
must not fail (`noClash`, see `one_row_per_thread`), and a message that names its own
Message-ID must not share it with another one, which it would not find (`noEcho`).
`components_split` has a run for each.
-/

namespace Moov.Threads

open Relation Labels List ThreadCandidate Bool

/-- One of the two names the Message-ID of the other. -/
def Headers.linked (x y : Headers) : Bool :=
  (decide (x.messageID ≠ "") && y.namesID x.messageID) ||
    (decide (y.messageID ≠ "") && x.namesID y.messageID)

/-- The ids of two messages that are linked. -/
def Edge (heads : List (Nat × Headers)) (i j : Nat) : Prop :=
  ∃ x y, (i, x) ∈ heads ∧ (j, y) ∈ heads ∧ x.linked y = true

/-- The messages are in one component of the reference graph. -/
def Connected (heads : List (Nat × Headers)) : Nat → Nat → Prop := EqvGen (Edge heads)

/-- No component has more messages than a merge may move. -/
def Small (heads : List (Nat × Headers)) : Prop :=
  ∀ i, ∀ ids : List Nat, ids.Nodup → (∀ j ∈ ids, Connected heads i j) →
    ids.length ≤ threadMergeMaxMembers

lemma linked_comm (x y : Headers) : x.linked y = y.linked x := or_comm _ _

lemma linked_of_finds {x y : Headers} (h : x.candidate.finds y = true) : x.linked y = true := by
  simp only [finds, or_eq_true, and_eq_true, decide_eq_true_eq,
    mem_referenceSet] at h
  simp only [Headers.linked, or_eq_true, and_eq_true, decide_eq_true_eq]
  rcases h with ⟨hmem, hne, -⟩ | hnames
  · exact .inr ⟨hne, (namesID_iff hne).2 hmem⟩
  · exact .inl hnames

/-- Only a message with the same Message-ID is linked and not found. -/
lemma finds_of_linked {x y : Headers} (h : x.linked y = true)
    (hecho : x.messageID ≠ "" → x.namesID x.messageID = true → y.messageID = x.messageID →
      x.candidate.finds y = true) : x.candidate.finds y = true := by
  simp only [Headers.linked, or_eq_true, and_eq_true, decide_eq_true_eq] at h
  rcases h with ⟨hne, hnames⟩ | ⟨hne, hnames⟩
  · simp only [finds, or_eq_true, and_eq_true, decide_eq_true_eq]
    exact .inr ⟨hne, hnames⟩
  · by_cases he : y.messageID = x.messageID
    · exact hecho (he ▸ hne) (he ▸ hnames) he
    · simp only [finds, or_eq_true, decide_eq_true_eq,
        mem_referenceSet]
      exact .inl ⟨(namesID_iff hne).1 hnames, hne, he⟩

namespace Db

section Call

variable (txt : Texts) (now : Int) (s : Db) (call : Call)

def heads : List (Nat × Headers) := s.messages.map fun m => (m.id, m.head)

/-- The call writes the row of the winner. -/
def noClash : Bool :=
  match s.keyAfter txt now call with
  | none => true
  | some key => !clashing s.threads key (s.winner txt now call)

/-- A message that names its own Message-ID is the only one that has it. -/
def noEcho : Bool :=
  !(decide (call.candidate.messageID ∈ call.candidate.references)) ||
    decide (call.candidate.messageID = "") ||
    s.messages.all fun m =>
      decide (m.id = call.id) || decide (m.head.messageID ≠ call.candidate.messageID)

def clear : Bool :=
  s.withinLimit call.candidate && (s.noEcho call && s.noClash txt now call)

/-- The thread that the message with this id has. -/
def threadOf (i : Nat) : Nat :=
  ((s.messages.find? fun m => m.id == i).map Message.threadID).getD 0

end Call

variable {txt : Texts} {now : Int} {s s' : Db} {call : Call} {t : Nat} {m : Message}

lemma mem_heads {i : Nat} {x : Headers} :
    (i, x) ∈ s.heads ↔ ∃ m ∈ s.messages, m.id = i ∧ m.head = x := by
  simp [heads]

lemma heads_of_moves {thread : Message → Nat} (h : Moves thread s.messages s'.messages) :
    s'.heads = s.heads := by
  obtain ⟨f, hms, hf⟩ := h
  rw [heads, heads, hms, List.map_map]
  refine List.map_congr_left fun m _ => ?_
  show ((f m).id, (f m).head) = (m.id, m.head)
  rw [(hf m).1, (hf m).2.1]

/-- Without a mark of a reply the related threads are those of the messages it finds. -/
lemma mem_related_iff (hplain : (normalizeSubject txt call.candidate.subject).2 = false)
    (hl : s.withinLimit call.candidate = true) : t ∈ s.related txt now call ↔
      ∃ m ∈ s.messages, call.candidate.finds m.head = true ∧ m.threadID = t := by
  constructor
  · intro h
    unfold related relatedThreads at h
    split at h
    · simp [hplain] at h
    · exact exists_of_mem_graphThreads h
  · rintro ⟨m, hm, hfinds, rfl⟩
    exact mem_related hl hm hfinds

end Db

/-- The two messages of a link. -/
lemma Edge.exists_messages {s : Db} {i j : Nat} (h : Edge s.heads i j) :
    ∃ a b, a ∈ s.messages ∧ b ∈ s.messages ∧ a.id = i ∧ b.id = j ∧ a.head.linked b.head = true := by
  obtain ⟨x, y, hx, hy, hlink⟩ := h
  obtain ⟨a, ha, hid, rfl⟩ := Db.mem_heads.1 hx
  obtain ⟨b, hb, hid', rfl⟩ := Db.mem_heads.1 hy
  exact ⟨a, b, ha, hb, hid, hid', hlink⟩

namespace Account

variable {txt : Texts} {now : Int} {s : Account} {call : Call} {db : Db} {m x : Message}

lemma Sound.threadOf_eq (h : s.Sound) (hm : m ∈ s.db.messages) :
    s.db.threadOf m.id = m.threadID := by
  have hfind : (s.db.messages.find? fun q => q.id == m.id) = some m := by
    refine (find?_eq_some_of_unique fun q hq q' hq' he he' => ?_).2 ⟨hm, beq_self_eq_true _⟩
    exact h.eq_of_id hq hq' ((beq_iff_eq.1 he).trans (beq_iff_eq.1 he').symm)
  rw [Db.threadOf, hfind]
  rfl

/-- The ids of the messages. -/
def idSet (s : Account) : Set Nat := {i | ∃ m ∈ s.db.messages, m.id = i}

/-- The threads name the components of the links that were followed: links only, and all
those between messages that were threaded. -/
structure CompInv (txt : Texts) (s : Account) : Prop where
  sound : s.Sound
  plain : ∀ m ∈ s.db.messages, (normalizeSubject txt m.head.subject).2 = false
  named : ∃ r : Nat → Nat → Prop, (∀ i j, r i j → Edge s.db.heads i j) ∧
    (∀ a ∈ s.db.messages, ∀ b ∈ s.db.messages, a.id ∉ s.pending → b.id ∉ s.pending →
      a.head.linked b.head = true → r a.id b.id ∨ r b.id a.id) ∧
    Names s.idSet r id s.db.threadOf

lemma compInv_empty : CompInv txt .empty where
  sound := sound_empty
  plain m hm := by cases hm
  named := by
    refine ⟨fun _ _ => False, fun i j h => h.elim, nofun, fun i j h => h.elim,
      ?_, ?_, ?_⟩
    · rintro x ⟨m, hm, -⟩
      cases hm
    · rintro x ⟨m, hm, -⟩
      cases hm
    · rintro x ⟨m, hm, -⟩
      cases hm

/-- The messages that the threaded message finds. -/
def found (s : Account) (call : Call) : Set Nat :=
  {i | ∃ m ∈ s.db.messages, m.id = i ∧ call.candidate.finds m.head = true}

/-- The labels of the messages that are found are the related threads. -/
lemma mem_image_found (hS : s.Sound)
    (hplain : (normalizeSubject txt call.candidate.subject).2 = false)
    (hl : s.db.withinLimit call.candidate = true) {t : Nat} :
    t ∈ s.db.threadOf '' s.found call ↔ t ∈ s.db.related txt now call := by
  rw [Db.mem_related_iff hplain hl]
  constructor
  · rintro ⟨i, ⟨m, hm, rfl, hfinds⟩, rfl⟩
    exact ⟨m, hm, hfinds, (hS.threadOf_eq hm).symm⟩
  · rintro ⟨m, hm, hfinds, rfl⟩
    exact ⟨m.id, ⟨m, hm, rfl, hfinds⟩, hS.threadOf_eq hm⟩

variable {F : List (Nat × Headers)} {r : Nat → Nat → Prop}

/-- A thread is part of a component, so that it can be merged. -/
lemma length_members_le (hS : s.Sound)
    (hF : Small F) (hsub : ∀ p ∈ s.db.heads, p ∈ F) (hr : ∀ i j, r i j → Edge s.db.heads i j)
    (hN : Names s.idSet r id s.db.threadOf) (t : Nat) :
    (s.db.members t).length ≤ threadMergeMaxMembers := by
  have hmem : ∀ q ∈ s.db.members t, q ∈ s.db.messages ∧ q.threadID = t := by
    intro q hq
    obtain ⟨hq, ht⟩ := mem_filter.1 hq
    exact ⟨hq, beq_iff_eq.1 ht⟩
  cases hms : s.db.members t with
  | nil => exact Nat.zero_le _
  | cons a =>
    rw [hms] at hmem
    obtain ⟨ha, hat⟩ := hmem a mem_cons_self
    have hnd : ((s.db.members t).map Message.id).Nodup :=
      (filter_sublist.map Message.id).nodup hS.ids
    rw [hms] at hnd
    have := hF a.id _ hnd fun j hj => by
      obtain ⟨q, hq, rfl⟩ := mem_map.1 hj
      obtain ⟨hq, hqt⟩ := hmem q hq
      have hlabel : s.db.threadOf a.id = s.db.threadOf q.id := by
        rw [hS.threadOf_eq ha, hS.threadOf_eq hq, hat, hqt]
      refine ((hN.same a.id ⟨a, ha, rfl⟩ q.id ⟨q, hq, rfl⟩).1 hlabel).mono fun i j hij => ?_
      obtain ⟨x, y, hx, hy, hlink⟩ := hr i j hij
      exact ⟨x, y, hsub _ hx, hsub _ hy, hlink⟩
    rwa [length_map] at this

section
variable (hx : x ∈ s.db.messages) (hxid : x.id = call.id)
  (hxcand : x.head.candidate = call.candidate) (hS : s.Sound) (hecho : s.db.noEcho call = true)
include hx hxid hxcand hS hecho

/-- A link of the threaded message is one that it finds. -/
lemma found_of_linked (hm : m ∈ s.db.messages)
    (hlink : x.head.linked m.head = true) : call.candidate.finds m.head = true := by
  rw [← hxcand]
  refine finds_of_linked hlink fun hne hnames he => ?_
  have hid : call.candidate.messageID = x.head.messageID := by
    rw [← hxcand]
    rfl
  have hrefs : x.head.messageID ∈ call.candidate.references := by
    rw [← hxcand]
    exact (namesID_iff hne).1 hnames
  simp only [Db.noEcho, hrefs, hid, hne, decide_true, Bool.not_true, decide_false, Bool.false_or,
    all_eq_true, Bool.or_eq_true, decide_eq_true_eq] at hecho
  obtain rfl := hS.eq_of_id hm hx (((hecho m hm).resolve_right fun h => h he).trans hxid.symm)
  simp only [finds, Bool.or_eq_true, Bool.and_eq_true, decide_eq_true_eq]
  exact .inr ⟨hne, hnames⟩

/-- So are the links of it that were followed. -/
lemma found_of_followed (hr : ∀ i j, r i j → Edge s.db.heads i j) :
    ∀ j, r x.id j ∨ r j x.id → j ∈ s.found call := by
  intro j hj
  obtain ⟨y, hy, rfl, hlink⟩ : ∃ y ∈ s.db.messages, y.id = j ∧ x.head.linked y.head = true := by
    rcases hj with hj | hj
    · obtain ⟨y, z, hy, hz, hid, hid', hlink⟩ := (hr _ _ hj).exists_messages
      rw [hS.eq_of_id hy hx hid] at hlink
      exact ⟨z, hz, hid', hlink⟩
    · obtain ⟨y, z, hy, hz, hid, hid', hlink⟩ := (hr _ _ hj).exists_messages
      rw [hS.eq_of_id hz hx hid', linked_comm] at hlink
      exact ⟨y, hy, hid, hlink⟩
  exact ⟨y, hy, rfl, found_of_linked hx hxid hxcand hS hecho hy hlink⟩

end

/-- The threads after a call: the message and the related threads have the winner, and
the others keep theirs. -/
lemma threadAfter_joined_iff (hS : s.Sound)
    (hN : Names s.idSet r id s.db.threadOf) (hx : x ∈ s.db.messages) (hxid : x.id = call.id)
    (hbound : ∀ t, (s.db.members t).length ≤ threadMergeMaxMembers)
    (hplain : (normalizeSubject txt call.candidate.subject).2 = false)
    (hl : s.db.withinLimit call.candidate = true)
    (hfound : ∀ j, r x.id j ∨ r j x.id → j ∈ s.found call) (hm : m ∈ s.db.messages) :
    (Names.Joined s.db.threadOf x.id (s.found call) m.id →
      s.db.threadAfter txt now call m = s.db.winner txt now call) ∧
    (¬ Names.Joined s.db.threadOf x.id (s.found call) m.id →
      s.db.threadAfter txt now call m = m.threadID) := by
  have himage : ∀ t, t ∈ s.db.threadOf '' s.found call ↔ t ∈ s.db.related txt now call :=
    fun t => mem_image_found hS hplain hl
  have hrelated : m.threadID ∈ s.db.related txt now call → m.id ≠ call.id ∨
      s.db.winner txt now call = call.id →
      s.db.threadAfter txt now call m = s.db.winner txt now call := by
    intro hrel hid
    rcases @Db.threadAfter_cases txt now s.db call m with he | ⟨he, hna⟩
    · exact he
    · by_contra hne
      refine hna (Db.mem_absorbed hrel (fun hw => hne (he.trans hw)) (hbound _) hm rfl hid)
  refine ⟨fun hj => ?_, fun hj => ?_⟩
  · rcases hj with hid | hmem
    · have hmid : m.id = call.id := hid.trans hxid
      by_cases hw : s.db.winner txt now call = call.id
      · by_cases hrel : m.threadID ∈ s.db.related txt now call
        · exact hrelated hrel (.inr hw)
        · -- No message shares its thread, which then is its own.
          obtain ⟨j, ⟨y, hy, rfl⟩, hrank, hlabel⟩ := hN.attained m.id ⟨m, hm, rfl⟩
          rw [hid] at hlabel hrank
          have hyx : y.id = x.id := by
            refine (hN.shared ⟨x, hx, rfl⟩ hfound ⟨y, hy, rfl⟩ hlabel).resolve_right fun hmem => ?_
            rw [← hid, hS.threadOf_eq hm, himage] at hmem
            exact hrel hmem
          have hown : m.threadID = s.db.winner txt now call := by
            rw [← hid, hS.threadOf_eq hm] at hrank
            exact hrank.symm.trans (hyx.trans (hxid.trans hw.symm))
          rcases @Db.threadAfter_cases txt now s.db call m with he | ⟨he, -⟩
          · exact he
          · exact he.trans hown
      · exact Db.threadAfter_joined hmid hw
    · rw [hS.threadOf_eq hm, himage] at hmem
      by_cases hid : m.id = call.id
      · by_cases hw : s.db.winner txt now call = call.id
        · exact hrelated hmem (.inr hw)
        · exact Db.threadAfter_joined hid hw
      · exact hrelated hmem (.inl hid)
  · have hid : m.id ≠ call.id := fun he => hj (.inl (he.trans hxid.symm))
    rw [Db.threadAfter_of_ne hid]
    refine if_neg fun hab => hj (.inr ?_)
    rw [hS.threadOf_eq hm, himage]
    exact Db.mem_related_of_mem_absorbed hab

section
variable (hF : Small F) (hI : CompInv txt s) (hsub : ∀ p ∈ s.db.heads, p ∈ F)
  (hT : s.Takes call) (hc : s.db.clear txt now call = true)
include hF hI hsub hT hc

lemma CompInv.afterCall (hone : s.db.assignOne txt now call.limit call.id call.candidate = .ok db) :
    CompInv txt (s.threaded call db) := by
  have ha := Db.assigned_of_ok hone
  have hS' := hI.sound.afterCall hT hone
  have hheads : db.heads = s.db.heads := Db.heads_of_moves ha.moves
  obtain ⟨x, hx, hxid, hxcand⟩ := hT.stored
  simp only [Db.clear, and_eq_true] at hc
  obtain ⟨hl, hecho, -⟩ := hc
  have hplain : (normalizeSubject txt call.candidate.subject).2 = false := by
    rw [← hxcand]
    exact hI.plain x hx
  refine ⟨hS', fun m' hm' => ?_, ?_⟩
  · obtain ⟨m, hm, -, hhead, -⟩ := ha.moves.mem_iff hm'
    rw [hhead]
    exact hI.plain m hm
  obtain ⟨r, hr, hthreaded, hN⟩ := hI.named
  have hfind : ∀ m ∈ s.db.messages, x.head.linked m.head = true →
      call.candidate.finds m.head = true :=
    fun m hm => found_of_linked hx hxid hxcand hI.sound hecho hm
  have hfound := found_of_followed hx hxid hxcand hI.sound hecho hr
  have hbound := length_members_le hI.sound hF hsub hr hN
  have hids : (s.threaded call db).idSet = s.idSet := by
    obtain ⟨f, hms, hf⟩ := ha.moves
    refine Set.ext fun i => ⟨?_, ?_⟩
    · rintro ⟨m', hm', rfl⟩
      obtain ⟨m, hm, hid, -⟩ := ha.moves.mem_iff hm'
      exact ⟨m, hm, hid.symm⟩
    · rintro ⟨m, hm, rfl⟩
      exact ⟨f m, (hms ▸ mem_map_of_mem hm : f m ∈ db.messages), (hf m).1⟩
  have hlabel : ∀ m ∈ s.db.messages, db.threadOf m.id = s.db.threadAfter txt now call m := by
    obtain ⟨f, hms, hf⟩ := ha.moves
    intro m hm
    have := hS'.threadOf_eq (hms ▸ mem_map_of_mem hm : f m ∈ db.messages)
    rw [(hf m).1, (hf m).2.2.2] at this
    exact this
  refine ⟨fun i j => r i j ∨ i = x.id ∧ j ∈ s.found call, fun i j hij => ?_, ?_, ?_⟩
  · show Edge db.heads i j
    rw [hheads]
    rcases hij with hij | ⟨rfl, m, hm, rfl, hfinds⟩
    · exact hr i j hij
    · refine ⟨x.head, m.head, Db.mem_heads.2 ⟨x, hx, rfl, rfl⟩, Db.mem_heads.2
        ⟨m, hm, rfl, rfl⟩, ?_⟩
      rw [← hxcand] at hfinds
      exact linked_of_finds hfinds
  · intro a' ha' b' hb' hap hbp hlink
    obtain ⟨a, ham, hid, hhead, -⟩ := ha.moves.mem_iff ha'
    obtain ⟨b, hbm, hid', hhead', -⟩ := ha.moves.mem_iff hb'
    rw [hid] at hap ⊢
    rw [hid'] at hbp ⊢
    rw [hhead, hhead'] at hlink
    by_cases hax : a.id = call.id
    · obtain rfl := hI.sound.eq_of_id ham hx (hax.trans hxid.symm)
      exact .inl (.inr ⟨rfl, b, hbm, rfl, hfind b hbm hlink⟩)
    by_cases hbx : b.id = call.id
    · obtain rfl := hI.sound.eq_of_id hbm hx (hbx.trans hxid.symm)
      rw [linked_comm] at hlink
      exact .inr (.inr ⟨rfl, a, ham, rfl, hfind a ham hlink⟩)
    have hpend : ∀ n, n ≠ call.id → n ∉ (s.threaded call db).pending → n ∉ s.pending :=
      fun n hn hp hmem => hp (mem_filter.2 ⟨hmem, by simpa using hn⟩)
    exact (hthreaded a ham b hbm (hpend _ hax hap) (hpend _ hbx hbp) hlink).imp .inl .inl
  · rw [hids]
    have hjoin :=
      fun m hm => @threadAfter_joined_iff txt now s call m x r hI.sound hN hx hxid hbound
      hplain hl hfound hm
    refine hN.join (w := s.db.winner txt now call) (fun _ _ _ _ he => he)
      ⟨x, hx, rfl⟩ ?_ hfound ?_ ?_ ?_ ?_ ?_
    · rintro i ⟨m, hm, rfl, -⟩
      exact ⟨m, hm, rfl⟩
    · show s.db.winner txt now call ≤ x.id
      rw [hxid]
      exact Db.winnerOf_le.1
    · intro i hi
      have hmem : s.db.threadOf i ∈ s.db.related txt now call :=
        (mem_image_found hI.sound hplain hl).1 ⟨i, hi, rfl⟩
      exact Db.winnerOf_le.2 _ hmem
    · rcases @Db.winner_eq_or_mem txt now s.db call with he | hmem
      · exact .inl (he.trans hxid.symm)
      · exact .inr ((mem_image_found hI.sound hplain hl).2 hmem)
    · rintro i ⟨m, hm, rfl⟩ hj
      exact (hlabel m hm).trans ((hjoin m hm).1 hj)
    · rintro i ⟨m, hm, rfl⟩ hj
      exact (hlabel m hm).trans (((hjoin m hm).2 hj).trans (hI.sound.threadOf_eq hm).symm)

/-- A clear call returns. -/
lemma CompInv.assignOne_ok :
    ∃ db, s.db.assignOne txt now call.limit call.id call.candidate = .ok db := by
  obtain ⟨x, hx, hxid, hxcand⟩ := hT.stored
  simp only [Db.clear, and_eq_true] at hc
  obtain ⟨hl, hecho, hclash⟩ := hc
  have hplain : (normalizeSubject txt call.candidate.subject).2 = false := by
    rw [← hxcand]
    exact hI.plain x hx
  obtain ⟨r, hr, -, hN⟩ := hI.named
  have hfound := found_of_followed hx hxid hxcand hI.sound hecho hr
  have hbound := length_members_le hI.sound hF hsub hr hN
  have hafter : s.db.threadAfter txt now call x = s.db.winner txt now call :=
    (threadAfter_joined_iff hI.sound hN hx hxid hbound hplain hl hfound hx).1 (.inl rfl)
  obtain ⟨key, hkey⟩ := Db.exists_keyAfter hx hafter
  rw [Db.noClash, hkey, not_eq_true'] at hclash
  exact Db.assignOne_ok hI.sound.seq hkey hclash

end

lemma CompInv.afterInsert {batch : List Arrival} (hI : CompInv txt s)
    (hplain : ∀ a ∈ batch, (normalizeSubject txt a.head.subject).2 = false)
    (hf : s.fresh batch = true) : CompInv txt (s.arrive now batch) := by
  obtain ⟨-, hnew⟩ := fresh_iff.1 hf
  have hS' : (s.arrive now batch).Sound := hI.sound.afterInsert hf
  have hleft : ∀ m ∈ s.db.messages, m ∈ (s.arrive now batch).db.messages :=
    fun m hm => mem_append_left _ hm
  have hright : ∀ a ∈ batch, row now a ∈ (s.arrive now batch).db.messages :=
    fun a ha => mem_append_right _ (mem_map_of_mem ha)
  obtain ⟨r, hr, hthreaded, hN⟩ := hI.named
  refine ⟨hS', fun m hm => ?_, r, fun i j hij => ?_, fun a ha b hb hap hbp hlink => ?_, ?_⟩
  · rcases mem_append.1 hm with hm | hm
    · exact hI.plain m hm
    · obtain ⟨a, ha, rfl⟩ := mem_map.1 hm
      exact hplain a ha
  · obtain ⟨a, b, ha, hb, hid, hid', hlink⟩ := (hr i j hij).exists_messages
    exact ⟨a.head, b.head, Db.mem_heads.2 ⟨a, hleft a ha, hid, rfl⟩,
      Db.mem_heads.2 ⟨b, hleft b hb, hid', rfl⟩, hlink⟩
  · have hold : ∀ q ∈ (s.arrive now batch).db.messages, q.id ∉ (s.arrive now batch).pending →
        q ∈ s.db.messages ∧ q.id ∉ s.pending := by
      intro q hq hp
      refine ⟨(mem_append.1 hq).resolve_right fun hq => hp ?_, fun h => hp (mem_append_left _ h)⟩
      obtain ⟨c, hc, rfl⟩ := mem_map.1 hq
      exact mem_append_right _ (mem_map_of_mem hc)
    obtain ⟨ha, hap⟩ := hold a ha hap
    obtain ⟨hb, hbp⟩ := hold b hb hbp
    exact hthreaded a ha b hb hap hbp hlink
  · -- The messages that arrive are components of their own.
    have hids : (s.arrive now batch).idSet = s.idSet ∪ {i | ∃ a ∈ batch, a.id = i} := by
      refine Set.ext fun i => ⟨?_, ?_⟩
      · rintro ⟨m, hm, rfl⟩
        rcases mem_append.1 hm with hm | hm
        · exact .inl ⟨m, hm, rfl⟩
        · obtain ⟨a, ha, rfl⟩ := mem_map.1 hm
          exact .inr ⟨a, ha, rfl⟩
      · rintro (⟨m, hm, rfl⟩ | ⟨a, ha, rfl⟩)
        · exact ⟨m, hleft m hm, rfl⟩
        · exact ⟨row now a, hright a ha, rfl⟩
    rw [hids]
    refine hN.grow (fun _ _ _ _ he => he) ?_ ?_ ?_
    · rintro i ⟨a, ha, rfl⟩ ⟨m, hm, he⟩
      exact (hnew a ha).2 m hm he
    · rintro i ⟨m, hm, rfl⟩
      exact (hS'.threadOf_eq (hleft m hm)).trans (hI.sound.threadOf_eq hm).symm
    · rintro i ⟨a, ha, rfl⟩
      exact hS'.threadOf_eq (hright a ha)

lemma CompInv.afterMute (hI : CompInv txt s) (rowID : Nat) (muted : Bool) :
    CompInv txt { s with db := s.db.setMute rowID muted } := by
  have hS' := hI.sound.afterMute rowID muted
  obtain ⟨mutes, he⟩ := s.db.exists_setMute_eq rowID muted
  rw [he] at hS' ⊢
  exact ⟨hS', hI.plain, hI.named⟩

/-- No subject marks a reply, and every call is clear. -/
def clear (txt : Texts) (s : Account) : Action → Bool
  | .insert _ batch => batch.all fun a => !(normalizeSubject txt a.head.subject).2
  | .assign now calls => s.db.everyCall txt now (fun db call => db.clear txt now call) calls
  | .setMute _ _ => true

/-- The step lemma.  `F` has the messages that there will be at the end of the run. -/
lemma compInv_step (hF : Small F) : ∀ s a s', s.clear txt a = true →
      (s.Sound ∧ ((∀ p ∈ s.db.heads, p ∈ F) → CompInv txt s)) → s.step txt a = some s' →
      (s'.Sound ∧ ((∀ p ∈ s'.db.heads, p ∈ F) → CompInv txt s')) := by
  refine inv_step (fun _ hI => hI.1.zero) (fun _ _ _ hc => hc) ?_ ?_ ?_
  · intro s now batch hc hI hf
    refine ⟨hI.1.afterInsert hf, fun hsub => (hI.2 fun p hp => hsub p ?_).afterInsert ?_ hf⟩
    · show p ∈ (s.db.messages ++ batch.map (row now)).map _
      rw [map_append]
      exact mem_append_left _ hp
    · simpa [clear] using hc
  · intro now s call db hI hT _ hc hone
    refine ⟨hI.1.afterCall hT hone, fun hsub => ?_⟩
    have hsub' : ∀ p ∈ s.db.heads, p ∈ F := by
      intro p hp
      rw [← Db.heads_of_moves (Db.assigned_of_ok hone).moves] at hp
      exact hsub p hp
    exact (hI.2 hsub').afterCall hF hsub' hT hc hone
  · intro s rowID muted _ hI
    refine ⟨hI.1.afterMute rowID muted, fun hsub =>
      (hI.2 fun p hp => hsub p ?_).afterMute rowID muted⟩
    obtain ⟨mutes, he⟩ := s.db.exists_setMute_eq rowID muted
    rw [he]
    exact hp

end Account

/-- **Threads are components.**  Within the limits, after every clear run the next clear
call succeeds; and once every message is threaded, two messages have the same thread
exactly when they are in one component of the reference graph, and the thread is the
smallest id in it. -/
theorem threads_are_components (txt : Texts) (as : List Action) (s : Account)
    (hG : Run.Guarded (Account.step txt) (fun s a => s.clear txt a = true) .empty as)
    (h : Run.exec (Account.step txt) .empty as = some s) (hsmall : Small s.db.heads) :
    (∀ now calls, s.callable calls = true → s.clear txt (.assign now calls) = true →
      ∃ db, s.db.assignThreads txt now calls = .ok db) ∧
    (s.pending = [] → ∀ x ∈ s.db.messages,
      (∀ y ∈ s.db.messages, x.threadID = y.threadID ↔ Connected s.db.heads x.id y.id) ∧
      IsLeast {n | ∃ y ∈ s.db.messages, Connected s.db.heads x.id y.id ∧ y.id = n} x.threadID) := by
  have hI : Account.CompInv txt s :=
    (Run.inv_exec (Account.compInv_step hsmall)
      ⟨Account.sound_empty, fun _ => Account.compInv_empty⟩ hG h).2 fun p hp => hp
  refine ⟨fun now calls hc hclear => ?_, fun hdone x hx => ?_⟩
  · refine Account.assignThreads_ok
      (I := fun t => Account.CompInv txt t ∧ t.db.heads = s.db.heads) ?_ ?_ ⟨hI, rfl⟩
      (Account.batch_of_callable hc) hclear
    · intro t call db hIt hT _ hc hone
      refine ⟨hIt.1.afterCall hsmall (fun p hp => hIt.2 ▸ hp) hT hc hone, ?_⟩
      exact (Db.heads_of_moves (Db.assigned_of_ok hone).moves).trans hIt.2
    · exact fun t call hIt hT hc => hIt.1.assignOne_ok hsmall (fun p hp => hIt.2 ▸ hp) hT hc
  · obtain ⟨r, hr, hthreaded, hN⟩ := hI.named
    -- Everything is threaded: every link was followed.
    have hconn : ∀ i j, Relation.EqvGen r i j ↔ Connected s.db.heads i j := by
      refine fun i j => ⟨fun hij => hij.mono hr, fun hij => ?_⟩
      induction hij with
      | rel i j hij =>
        obtain ⟨a, b, ha, hb, rfl, rfl, hlink⟩ := hij.exists_messages
        have hno : ∀ n, n ∉ s.pending := fun n => hdone ▸ not_mem_nil
        rcases hthreaded a ha b hb (hno _) (hno _) hlink with hab | hba
        · exact .rel _ _ hab
        · exact (Relation.EqvGen.rel _ _ hba).symm _ _
      | refl i => exact .refl i
      | symm i j _ ih => exact ih.symm _ _
      | trans i j k _ _ ih₁ ih₂ => exact ih₁.trans _ _ _ ih₂
    refine ⟨fun y hy => ?_, ?_⟩
    · rw [← hconn, ← hI.sound.threadOf_eq hx, ← hI.sound.threadOf_eq hy]
      exact hN.same x.id ⟨x, hx, rfl⟩ y.id ⟨y, hy, rfl⟩
    · have hleast := hN.isLeast ⟨x, hx, rfl⟩
      rw [hI.sound.threadOf_eq hx] at hleast
      refine ⟨?_, ?_⟩
      · obtain ⟨i, ⟨y, hy, rfl⟩, hxy, he⟩ := hleast.1
        exact ⟨y, hy, (hconn _ _).1 hxy, he⟩
      · rintro n ⟨y, hy, hxy, rfl⟩
        exact hleast.2 ⟨y.id, ⟨y, hy, rfl⟩, (hconn _ _).2 hxy, rfl⟩

/-- A reference graph with fewer messages than a merge may move. -/
lemma small_of_length {heads : List (Nat × Headers)} (h : heads.length < threadMergeMaxMembers) :
    Small heads := by
  intro i ids hnd hconn
  have hsub : ids ⊆ i :: heads.map Prod.fst := by
    intro j hj
    rcases eq_or_exists_of_eqvGen (hconn j hj) with rfl | ⟨-, k, hjk⟩
    · exact mem_cons_self
    · refine mem_cons_of_mem _ ?_
      rcases hjk with ⟨x, y, hx, -⟩ | ⟨x, y, -, hy, -⟩
      · exact mem_map_of_mem hx
      · exact mem_map_of_mem hy
  have hle := (hnd.subperm hsub).length_le
  rw [length_cons, length_map] at hle
  omega

theorem threads_are_components_joining :
    ∃ s, Run.exec (Account.step asciiTexts) .empty (joining 1 5) = some s ∧ s.pending = [] ∧
      Small s.db.heads ∧ ∀ x ∈ s.db.messages, ∀ y ∈ s.db.messages,
        x.threadID = y.threadID ↔ Connected s.db.heads x.id y.id := by
  obtain ⟨s, h, hp, hlen⟩ : ∃ s : Account, Run.exec (Account.step asciiTexts) .empty (joining 1 5) =
      some s ∧ s.pending = [] ∧ s.db.heads.length = 3 := Run.exists_exec (by decide +kernel)
  have hG : Run.Guarded (Account.step asciiTexts) (fun s a => s.clear asciiTexts a = true) .empty
      (joining 1 5) := by decide +kernel
  have hsmall : Small s.db.heads := small_of_length (by rw [hlen]; decide)
  refine ⟨s, h, hp, hsmall, fun x hx => ?_⟩
  exact ((threads_are_components asciiTexts (joining 1 5) s hG h hsmall).2 hp x hx).1

/-- Messages that are linked stay apart: the call that joins them fails; or the message that
arrives second names a Message-ID that is also its own. -/
theorem components_split : (∃ s, Run.exec (Account.step asciiTexts) .empty (joining 5 1) = some s ∧
      s.db.messages.map Message.threadID = [1, 2, 3] ∧ Connected s.db.heads 1 3) ∧
    ∃ s, Run.exec (Account.step asciiTexts) .empty
        (arrives 1 5 (naming "a" []) ++ arrives 2 6 (naming "a" ["a"])) = some s ∧
      s.pending = [] ∧ s.db.messages.map Message.threadID = [1, 2] ∧ Connected s.db.heads 1 2 := by
  constructor
  · exact (Run.exists_exec (p := fun s : Account => s.db.messages.map Message.threadID = [1, 2, 3] ∧
      (1, naming "a" []) ∈ s.db.heads ∧ (3, naming "c" ["a", "b"]) ∈ s.db.heads)
      (by decide +kernel)).imp
      fun s ⟨h, hthreads, ha, hc⟩ => ⟨h, hthreads, .rel _ _ ⟨_, _, ha, hc, by decide⟩⟩
  · exact (Run.exists_exec
      (p := fun s : Account => s.pending = [] ∧ s.db.messages.map Message.threadID = [1, 2] ∧
      (1, naming "a" []) ∈ s.db.heads ∧ (2, naming "a" ["a"]) ∈ s.db.heads) (by decide +kernel)).imp
      fun s ⟨h, hp, hthreads, ha, ha'⟩ => ⟨h, hp, hthreads, .rel _ _ ⟨_, _, ha, ha', by decide⟩⟩

end Moov.Threads
