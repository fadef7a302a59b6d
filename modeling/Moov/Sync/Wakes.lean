import Moov.Sync.Snooze

/-!
# Wakes that do not overlap

What the snoozing and waking of `Moov.Sync.Snooze` keeps when no two operations on one
Message-ID are under way at once (`careful`).  Then every Message-ID is a small machine
of its own: its copies, whether a row is scheduled for it, and the one operation that is
under way on it.  `call_frame` says that a call is not seen by the other Message-IDs, and
`locally_step` is the rule for invariants of each of them.
-/

namespace Moov.Snooze

open Account List

/-! ## The conditions -/

/-- The operation is under way.  A claimed row whose message has not been looked up yet
is not. -/
def Stage.active : Stage → Bool
  | .resolve | .done => false
  | _ => true

/-- Some operation on the Message-ID is under way. -/
def Account.busy (s : Account) (x : Option Nat) : Bool :=
  s.ops.any fun op => op.stage.active && decide (op.rfcID = x)

/-- Two operations on one Message-ID are not under way at once, no second message with
it is snoozed or woken while one sleeps, and a MOVE is answered with a COPYUID and finds
the message where its row says. -/
def Account.careful (s : Account) : Action → Bool
  | .snooze c _ =>
      (s.copies[c]?).all fun k => !s.busy k.rfcID &&
        (List.range s.copies.length).all fun d => !s.sleeper k.rfcID d
  | .unsnooze c =>
      (s.copies[c]?).all fun k => !s.busy k.rfcID &&
        (List.range s.copies.length).all fun d => !s.sleeper k.rfcID d || decide (d = c)
  | .advance i reply =>
      (s.ops[i]?).all fun op =>
        match op.stage, reply with
        | .resolve, _ => !s.busy op.rfcID
        | .move c f _ _, .moved mapped => s.holds c f && mapped
        | _, _ => true
  | _ => true

/-- No call fails after the MOVE or the APPEND has been carried out. -/
def Stage.smooth : Stage → Reply → Bool
  | _, .lost => false
  | .follow _ _ _, .refused | .reflect _ _ _, .refused
  | .expunge _ _ _, .refused | .tombstone _ _ _, .refused => false
  | _, _ => true

/-- Careful, nothing crashes, and no call fails after the MOVE or the APPEND. -/
def Account.undisturbed (s : Account) (a : Action) : Bool :=
  s.careful a && match a with
    | .crash _ => false
    | .advance i reply => (s.ops[i]?).all fun op => op.stage.smooth reply
    | _ => true

/-! ## One Message-ID -/

/-- The copies with one Message-ID, by position. -/
def Account.copiesOf (s : Account) (y : Option Nat) (j : Nat) : Option Copy :=
  (s.copies[j]?).filter fun k => decide (k.rfcID = y)

/-- A row is pending or failed for the Message-ID. -/
def Account.Scheduled (s : Account) (y : Option Nat) : Prop :=
  ∃ (i : Nat) (r : SnoozeRow), s.snoozes[i]? = some r ∧ some r.rfcID = y ∧
    (r.state = .pending ∨ r.state = .failed)

/-- A change of one copy. -/
def onAt (V : Nat → Option Copy) (c : Nat) (f : Copy → Copy) (j : Nat) : Option Copy :=
  if c = j then (V j).map f else V j

/-- One more copy. -/
def addAt (V : Nat → Option Copy) (n : Nat) (k : Copy) (j : Nat) : Option Copy :=
  if j = n then some k else V j

variable {c j i z : Nat} {g : SnoozeRow → SnoozeRow} {r : SnoozeRow}

section Views

variable {s s' : Account} {x y : Option Nat} {n : Nat} {k k' : Copy} {f : Copy → Copy}
  {V : Nat → Option Copy}

lemma onAt_of_none (h : V c = none) : onAt V c f = V := by
  funext j
  unfold onAt
  split
  · rename_i hj
    rw [← hj, h]
    rfl
  · rfl

lemma onAt_eq_some (h : onAt V c f j = some k') :
    (c = j ∧ ∃ k, V j = some k ∧ f k = k') ∨ (c ≠ j ∧ V j = some k') := by
  unfold onAt at h
  split at h
  · obtain ⟨k, hk, he⟩ := Option.map_eq_some_iff.1 h
    exact .inl ⟨‹_›, k, hk, he⟩
  · exact .inr ⟨‹_›, h⟩

lemma onAt_self (h : V c = some k) : onAt V c f c = some (f k) := by
  rw [onAt, if_pos rfl, h]
  rfl

lemma onAt_ne (h : c ≠ j) : onAt V c f j = V j := if_neg h

lemma addAt_self : addAt V n k n = some k := if_pos rfl

lemma addAt_ne (h : j ≠ n) : addAt V n k j = V j := if_neg h

lemma of_addAt (h : addAt V n k j = some k') : (j = n ∧ k' = k) ∨ (j ≠ n ∧ V j = some k') := by
  unfold addAt at h
  split at h
  · exact .inl ⟨‹_›, (Option.some.inj h).symm⟩
  · exact .inr ⟨‹_›, h⟩

lemma copiesOf_eq_some : s.copiesOf y c = some k ↔ s.copies[c]? = some k ∧ k.rfcID = y := by
  rw [copiesOf, Option.filter_eq_some_iff, decide_eq_true_eq]

/-- A copy has one Message-ID. -/
lemma copiesOf_eq_none (hx : s.copiesOf x c ≠ none) (hy : y ≠ x) : s.copiesOf y c = none := by
  obtain ⟨k, hk⟩ := Option.ne_none_iff_exists'.1 hx
  cases hc : s.copiesOf y c with
  | none => rfl
  | some =>
    have h₁ := copiesOf_eq_some.1 hk
    have h₂ := copiesOf_eq_some.1 hc
    obtain rfl := Option.mem_unique h₁.1 h₂.1
    exact absurd (h₂.2.symm.trans h₁.2) hy

lemma copiesOf_length : s.copiesOf y s.copies.length = none := by
  rw [copiesOf, getElem?_eq_none le_rfl]
  rfl

lemma copiesOf_onCopy (hf : ∀ k, (f k).rfcID = k.rfcID) :
    (s.onCopy c f).copiesOf y = onAt (s.copiesOf y) c f := by
  funext j
  simp only [copiesOf, onCopy, getElem?_modify_ite, onAt]
  split
  · cases s.copies[j]? with
    | none => rfl
    | some => simp only [Option.map_some, Option.filter_some, hf]; split <;> rfl
  · rfl

lemma copiesOf_serverMove (g : Folder) (h : s.holds c g = true) :
    (s.serverMove c g).copiesOf y = onAt (s.copiesOf y) c fun k =>
      { k with folder := .snoozed } := by
  rw [serverMove, if_pos h]
  exact copiesOf_onCopy fun _ => rfl

lemma copiesOf_serverExpunge (g : Folder) (h : s.holds c g = true) :
    (s.serverExpunge c g).copiesOf y = onAt (s.copiesOf y) c fun k =>
      { k with present := false } := by
  rw [serverExpunge, if_pos h]
  exact copiesOf_onCopy fun _ => rfl

lemma copiesOf_markDeleted (g : Folder) :
    (s.markDeleted c g).copiesOf y = onAt (s.copiesOf y) c fun k =>
      { k with row := k.row.map fun r => if r.folder = g then { r with deleted := true } else r } :=
  copiesOf_onCopy fun _ => rfl

lemma copiesOf_moveMessages : (s.moveMessages c).copiesOf y = onAt (s.copiesOf y) c fun k =>
      { k with row := k.row.map fun r => { r with folder := .snoozed } } :=
  copiesOf_onCopy fun _ => rfl

lemma copiesOf_insertMessage : (s.insertMessage n).copiesOf y = onAt (s.copiesOf y) n fun k =>
      { k with row := some ⟨s.nextID, k.folder, false⟩ } :=
  copiesOf_onCopy (s := s) fun _ => rfl

lemma copiesOf_setAsleep (b : Bool) : (s.onCopy c fun k => { k with asleep := b }).copiesOf y =
      onAt (s.copiesOf y) c fun k => { k with asleep := b } :=
  copiesOf_onCopy fun _ => rfl

/-- A copy is added at the end. -/
lemma copiesOf_concat {k : Copy} (h : s'.copies = s.copies ++ [k]) : s'.copiesOf y =
      if k.rfcID = y then addAt (s.copiesOf y) s.copies.length k else s.copiesOf y := by
  funext j
  by_cases hj : j = s.copies.length
  · subst hj
    rw [copiesOf, h, getElem?_concat_length, Option.filter_some]
    by_cases hk : k.rfcID = y
    · simp [hk, addAt_self]
    · simp [hk, copiesOf_length]
  · have hsame : s'.copiesOf y j = s.copiesOf y j := by
      rw [copiesOf, copiesOf, h]
      rcases Nat.lt_or_gt_of_ne hj with hlt | hgt
      · rw [getElem?_append_left hlt]
      · rw [getElem?_eq_none hgt.le, getElem?_eq_none]
        rw [length_append, length_singleton]
        omega
    split
    · rw [hsame, addAt_ne hj]
    · exact hsame

lemma copiesOf_congr (h : s'.copies = s.copies) : s'.copiesOf y = s.copiesOf y := by
  funext j
  rw [copiesOf, h, copiesOf]

lemma scheduled_congr (h : s'.snoozes = s.snoozes) : s'.Scheduled y ↔ s.Scheduled y := by
  rw [Account.Scheduled, h, Account.Scheduled]

lemma copies_putSnooze (z t : Nat) (o : Place) : (s.putSnooze z t o).copies = s.copies := by
  unfold putSnooze
  split <;> rfl

/-- An update of one row says nothing about the other Message-IDs. -/
lemma scheduled_modify (h : s'.snoozes = s.snoozes.modify i g) (hg : ∀ r, (g r).rfcID = r.rfcID)
    (hr : s.snoozes[i]? = some r) (hy : some r.rfcID ≠ y) : s'.Scheduled y ↔ s.Scheduled y := by
  have hlook : ∀ j : Nat, s'.snoozes[j]? =
      if i = j then (s.snoozes[j]?).map g else s.snoozes[j]? := by
    intro j
    rw [h, getElem?_modify_ite]
  constructor
  · rintro ⟨j, r', hj, hr', hst⟩
    rw [hlook] at hj
    split at hj
    · obtain ⟨r₀, hr₀, rfl⟩ := Option.map_eq_some_iff.1 hj
      have hij : i = j := ‹_›
      subst hij
      obtain rfl := Option.mem_unique hr hr₀
      exact absurd (hg r ▸ hr') hy
    · exact ⟨j, r', hj, hr', hst⟩
  · rintro ⟨j, r', hj, hr', hst⟩
    refine ⟨j, r', ?_, hr', hst⟩
    rw [hlook, if_neg]
    · exact hj
    · rintro rfl
      obtain rfl := Option.mem_unique hr hj
      exact hy hr'

/-- An update that keeps pending and failed rows so keeps what is scheduled. -/
lemma scheduled_of_modify
    (h : s'.snoozes = s.snoozes.modify i g) (hg : ∀ r, (g r).rfcID = r.rfcID)
    (hst : ∀ r, r.state = .pending ∨ r.state = .failed →
      (g r).state = .pending ∨ (g r).state = .failed) (hs : s.Scheduled y) : s'.Scheduled y := by
  obtain ⟨j, r, hj, hr, hp⟩ := hs
  by_cases hij : i = j
  · refine ⟨j, g r, ?_, hg r ▸ hr, hst r hp⟩
    rw [h, getElem?_modify_ite, if_pos hij, hj]
    rfl
  · refine ⟨j, r, ?_, hr, hp⟩
    rw [h, getElem?_modify_ite, if_neg hij]
    exact hj

lemma pendingSnooze_eq_some (h : s.pendingSnooze z = some i) :
    ∃ r, s.snoozes[i]? = some r ∧ r.rfcID = z ∧ r.state = .pending := by
  obtain ⟨hi, hp, -⟩ := findIdx?_eq_some_iff_getElem.1 h
  exact ⟨s.snoozes[i], getElem?_eq_getElem hi, of_decide_eq_true hp⟩

lemma scheduled_putSnooze (z t : Nat) (o : Place) : (s.putSnooze z t o).Scheduled (some z) := by
  cases hp : s.pendingSnooze z with
  | none =>
    refine ⟨s.snoozes.length, ⟨z, t, o, .pending, 0⟩, ?_, rfl, .inl rfl⟩
    simp only [putSnooze, hp]
    exact getElem?_concat_length
  | some i =>
    obtain ⟨r, hr, hz, hst⟩ := pendingSnooze_eq_some hp
    refine ⟨i, { r with wakeAt := t, origin := o, attempts := 0 }, ?_, congrArg some hz, .inl hst⟩
    simp only [putSnooze, hp]
    rw [getElem?_modify_ite, if_pos rfl, hr]
    rfl

lemma scheduled_putSnooze_ne (t : Nat) (o : Place) (hy : some z ≠ y) :
    (s.putSnooze z t o).Scheduled y ↔ s.Scheduled y := by
  cases hp : s.pendingSnooze z with
  | none =>
    simp only [putSnooze, hp, Account.Scheduled]
    constructor
    · rintro ⟨i, r, hi, hr, hst⟩
      rw [getElem?_append] at hi
      split at hi
      · exact ⟨i, r, hi, hr, hst⟩
      · have hmem := mem_singleton.1 (mem_of_getElem? hi)
        rw [hmem] at hr
        exact absurd hr hy
    · rintro ⟨i, r, hi, hr, hst⟩
      refine ⟨i, r, ?_, hr, hst⟩
      obtain ⟨hlt, -⟩ := List.getElem?_eq_some_iff.1 hi
      rw [List.getElem?_append_left hlt, hi]
  | some i =>
    obtain ⟨r, hr, rfl, -⟩ := pendingSnooze_eq_some hp
    have hmod : (s.putSnooze r.rfcID t o).snoozes = s.snoozes.modify i fun r =>
        { r with wakeAt := t, origin := o, attempts := 0 } := by
      simp only [putSnooze, hp]
    exact scheduled_modify hmod (fun _ => rfl) hr hy

lemma scheduled_cancelSnooze_ne (hy : y ≠ x) :
    (s.cancelSnooze x).Scheduled y ↔ s.Scheduled y := by
  simp only [Account.Scheduled, cancelSnooze, getElem?_map]
  constructor
  · rintro ⟨i, r, hi, hr, hst⟩
    obtain ⟨r₀, hr₀, rfl⟩ := Option.map_eq_some_iff.1 hi
    split at hr
    · exact absurd (hr.symm.trans (by tauto)) hy
    · rename_i hno
      rw [if_neg hno] at hst
      exact ⟨i, r₀, hr₀, hr, hst⟩
  · rintro ⟨i, r, hi, hr, hst⟩
    refine ⟨i, r, ?_, hr, hst⟩
    rw [hi, Option.map_some, if_neg]
    rintro ⟨hx, -⟩
    exact hy (hr.symm.trans hx)

end Views

/-! ## A call and the other Message-IDs -/

/-- The copies the call may change. -/
def Stage.touched : Stage → List Nat
  | .move c _ _ _ | .unmapped c _ _ _ | .follow c _ _ | .put c _ _ | .append c _ _
  | .expunge c _ _ | .tombstone c _ _ => [c]
  | .reflect c _ n => [c, n]
  | _ => []

/-- The row a waker has claimed is one of its Message-ID. -/
def Account.Claimed (s : Account) (x : Option Nat) (caller : Caller) : Prop :=
  ∀ i o a, caller = .waker i o a → ∃ r, s.snoozes[i]? = some r ∧ some r.rfcID = x

section Frame

variable {s s' : Account} {x y : Option Nat} {caller : Caller} {st st' : Stage} {reply : Reply}

section

variable (hc : s.copiesOf x c ≠ none)
include hc

lemma copiesOf_serverMove_ne {f : Folder} (hy : y ≠ x) :
    (s.serverMove c f).copiesOf y = s.copiesOf y := by
  by_cases hh : s.holds c f = true
  · rw [copiesOf_serverMove f hh, onAt_of_none (copiesOf_eq_none hc hy)]
  · rw [serverMove, if_neg hh]

lemma copiesOf_serverExpunge_ne {f : Folder}
    (hy : y ≠ x) : (s.serverExpunge c f).copiesOf y = s.copiesOf y := by
  by_cases hh : s.holds c f = true
  · rw [copiesOf_serverExpunge f hh, onAt_of_none (copiesOf_eq_none hc hy)]
  · rw [serverExpunge, if_neg hh]

/-- The appended copy has the Message-ID of the one it was made from. -/
lemma serverAppend_copies {p : Place} :
    ∃ k, s.copiesOf x c = some k ∧ (s.serverAppend c p).copies =
      s.copies ++ [⟨k.message, x, true, .place p, none, false⟩] := by
  obtain ⟨k, hk⟩ := Option.ne_none_iff_exists'.1 hc
  obtain ⟨hget, rfl⟩ := copiesOf_eq_some.1 hk
  exact ⟨k, hk, by simp only [serverAppend, hget]⟩

end

lemma snoozes_serverMove (c : Nat) (f : Folder) : (s.serverMove c f).snoozes = s.snoozes := by
  unfold serverMove
  split <;> rfl

lemma snoozes_serverExpunge (c : Nat) (f : Folder) :
    (s.serverExpunge c f).snoozes = s.snoozes := by
  unfold serverExpunge
  split <;> rfl

lemma snoozes_serverAppend (c : Nat) (p : Place) : (s.serverAppend c p).snoozes = s.snoozes := by
  unfold serverAppend
  split <;> rfl

lemma scheduled_updatePending_ne
    (hg : ∀ r, (g r).rfcID = r.rfcID) (hr : s.snoozes[i]? = some r) (hy : some r.rfcID ≠ y) :
    (s.updatePending i g).Scheduled y ↔ s.Scheduled y := by
  have hmod : (s.updatePending i g).snoozes =
      s.snoozes.modify i fun r => if r.state = .pending then g r else r := rfl
  refine scheduled_modify hmod (fun r => ?_) hr hy
  split
  · exact hg r
  · rfl

/-- **A call keeps to its Message-ID.** -/
theorem call_frame (h : Call s x caller st reply s' st')
    (ht : ∀ c ∈ st.touched, s.copiesOf x c ≠ none) (hcl : s.Claimed x caller) (hy : y ≠ x) :
    s'.copiesOf y = s.copiesOf y ∧ (s'.Scheduled y ↔ s.Scheduled y) := by
  cases h with
  | moved c f | astray c f | moveLost c f =>
    exact ⟨copiesOf_serverMove_ne (ht c (mem_singleton_self c)) hy,
      scheduled_congr (snoozes_serverMove c f)⟩
  | unmapped c | followed c | tombstoned c =>
    have hc := copiesOf_eq_none (ht c (mem_singleton_self c)) hy
    exact ⟨(copiesOf_onCopy (by exact fun _ => rfl)).trans (onAt_of_none hc), Iff.rfl⟩
  | put c o t z hx =>
    subst hx
    have hc := copiesOf_eq_none (ht c (mem_singleton_self c)) hy
    refine ⟨?_, (scheduled_congr rfl).trans (scheduled_putSnooze_ne t o (Ne.symm hy))⟩
    rw [copiesOf_setAsleep, copiesOf_congr (copies_putSnooze z t o), onAt_of_none hc]
  | appended c f p | appendLost c f p =>
    obtain ⟨k, -, he⟩ := serverAppend_copies (p := p) (ht c (mem_singleton_self c))
    exact ⟨by rw [copiesOf_concat he, if_neg (Ne.symm hy)], scheduled_congr
      (snoozes_serverAppend c p)⟩
  | reflected c f n =>
    have hn : s.copiesOf y n = none := copiesOf_eq_none (ht n (by simp [Stage.touched])) hy
    have hc : s.copiesOf y c = none := copiesOf_eq_none (ht c (by simp [Stage.touched])) hy
    refine ⟨?_, Iff.rfl⟩
    rw [copiesOf_setAsleep, copiesOf_insertMessage, onAt_of_none hn, onAt_of_none hc]
  | expunged c f | expungeLost c f =>
    exact ⟨copiesOf_serverExpunge_ne (ht c (mem_singleton_self c)) hy,
      scheduled_congr (snoozes_serverExpunge c f)⟩
  | closed =>
    cases caller with
    | user => exact ⟨rfl, scheduled_cancelSnooze_ne hy⟩
    | waker i o a =>
      obtain ⟨r, hr, rfl⟩ := hcl i o a rfl
      exact ⟨rfl, scheduled_updatePending_ne (fun _ => rfl) hr (Ne.symm hy)⟩
  | failed i o a t hc =>
    obtain ⟨r, hr, rfl⟩ := hcl i o a hc
    refine ⟨rfl, scheduled_updatePending_ne (fun r => ?_) hr (Ne.symm hy)⟩
    split <;> rfl
  | _ => exact ⟨rfl, Iff.rfl⟩

end Frame

/-! ## The operation under way on a Message-ID -/

/-- Only the operation at position `i` is under way on the Message-ID. -/
def OnlyAt (ops : List Op) (y : Option Nat) (i : Nat) : Prop :=
  ∀ (j : Nat) (op : Op), ops[j]? = some op → op.rfcID = y → op.stage.active = true → j = i

/-- No operation is under way on the Message-ID. -/
def Idle (ops : List Op) (y : Option Nat) : Prop :=
  ∀ (j : Nat) (op : Op), ops[j]? = some op → op.rfcID = y → op.stage.active = false

/-- The next call of the operation under way on the Message-ID, `done` without one. -/
inductive Stands (ops : List Op) (y : Option Nat) : Stage → Prop
  | idle (h : Idle ops y) : Stands ops y .done
  | one (i : Nat) (op : Op) (h : ops[i]? = some op) (hy : op.rfcID = y)
      (ha : op.stage.active = true) (hi : OnlyAt ops y i) : Stands ops y op.stage

section Ops

variable {s : Account} {ops : List Op} {y : Option Nat} {st st' : Stage} {op op' : Op} {i : Nat}

lemma idle_of_busy (h : s.busy y = false) : Idle s.ops y := by
  intro j op hj hy
  have := any_eq_false.1 h op (mem_of_getElem? hj)
  simpa [hy] using this

lemma stands_of_idle (h : Idle ops y) (hs : Stands ops y st) : st = .done := by
  cases hs with
  | idle => rfl
  | one i op hi hy ha =>
    rw [h i op hi hy] at ha
    cases ha

lemma stands_of_active (h : ops[i]? = some op) (ha : op.stage.active = true)
    (hs : Stands ops op.rfcID st) : st = op.stage ∧ OnlyAt ops op.rfcID i := by
  cases hs with
  | idle hid =>
    rw [hid i op h rfl] at ha
    cases ha
  | one j op' hj hy ha' hu =>
    obtain rfl := hu i op h rfl ha
    obtain rfl := Option.mem_unique h hj
    exact ⟨rfl, hu⟩

lemma getElem?_startOp (h : (ops ++ [op])[j]? = some op') :
    ops[j]? = some op' ∨ j = ops.length ∧ op' = op := by
  rw [getElem?_append] at h
  split at h
  · exact .inl h
  · refine .inr ⟨?_, List.mem_singleton.1 (List.mem_of_getElem? h)⟩
    have := (List.getElem?_eq_some_iff.1 h).1
    rw [length_singleton] at this
    omega

/-- Another operation starts, on another Message-ID or only with a claim. -/
lemma Stands.startOp_ne (hs : Stands ops y st)
    (hne : op.rfcID ≠ y ∨ op.stage.active = false) : Stands (ops ++ [op]) y st := by
  have hnew : ∀ op', op' = op → op'.rfcID = y → op'.stage.active = false := by
    rintro op' rfl hy
    exact hne.resolve_left (not_not_intro hy)
  cases hs with
  | idle h =>
    refine .idle fun j op' hj hy => ?_
    rcases getElem?_startOp hj with hj | ⟨-, he⟩
    · exact h j op' hj hy
    · exact hnew op' he hy
  | one i op₀ hi hy ha hu =>
    have hlt := (List.getElem?_eq_some_iff.1 hi).1
    refine .one i op₀ (by rw [getElem?_append_left hlt, hi]) hy ha fun j op' hj hy' ha' => ?_
    rcases getElem?_startOp hj with hj | ⟨-, he⟩
    · exact hu j op' hj hy' ha'
    · rw [hnew op' he hy'] at ha'
      cases ha'

/-- An operation starts where none was under way. -/
lemma stands_startOp (h : Idle ops op.rfcID) (ha : op.stage.active = true) :
    Stands (ops ++ [op]) op.rfcID op.stage := by
  refine .one ops.length op getElem?_concat_length rfl ha fun j op' hj hy ha' => ?_
  rcases getElem?_startOp hj with hj | ⟨hj, -⟩
  · rw [h j op' hj hy] at ha'
    cases ha'
  · exact hj

lemma getElem?_setStage (h : (ops.modify i fun op => { op with stage := st' })[j]? = some op') :
    (i ≠ j ∧ ops[j]? = some op') ∨
      (i = j ∧ ∃ op, ops[j]? = some op ∧ op' = { op with stage := st' }) := by
  rw [getElem?_modify_ite] at h
  split at h
  · obtain ⟨op, hop, rfl⟩ := Option.map_eq_some_iff.1 h
    exact .inr ⟨‹_›, op, hop, rfl⟩
  · exact .inl ⟨‹_›, h⟩

/-- The operation goes on, and those on other Message-IDs stand where they stood. -/
lemma Stands.setStage_ne (hop : ops[i]? = some op)
    (hne : op.rfcID ≠ y ∨ op.stage.active = false ∧ st'.active = false) (hs : Stands ops y st) :
    Stands (ops.modify i fun op => { op with stage := st' }) y st := by
  cases hs with
  | idle h =>
    refine .idle fun j op' hj hy => ?_
    rcases getElem?_setStage hj with ⟨-, hj⟩ | ⟨rfl, op₀, hj₀, rfl⟩
    · exact h j op' hj hy
    · obtain rfl := Option.mem_unique hop hj₀
      exact (hne.resolve_left (not_not_intro hy)).2
  | one k opₖ hk hy ha hu =>
    have hik : i ≠ k := by
      rintro rfl
      obtain rfl := Option.mem_unique hop hk
      rcases hne with hne | ⟨hne, -⟩
      · exact hne hy
      · rw [hne] at ha
        cases ha
    refine .one k opₖ (by rw [getElem?_modify_ite, if_neg hik, hk]) hy ha fun j op' hj hy' ha' => ?_
    rcases getElem?_setStage hj with ⟨-, hj⟩ | ⟨rfl, op₀, hj₀, rfl⟩
    · exact hu j op' hj hy' ha'
    · obtain rfl := Option.mem_unique hop hj₀
      rcases hne with hne | ⟨-, hne⟩
      · exact absurd hy' hne
      · rw [hne] at ha'
        cases ha'

/-- The operation that is alone on its Message-ID goes on. -/
lemma stands_setStage (hop : ops[i]? = some op) (hu : OnlyAt ops op.rfcID i)
    (hst : st' ≠ .resolve) :
    Stands (ops.modify i fun op => { op with stage := st' }) op.rfcID st' := by
  have hat : (ops.modify i fun op => { op with stage := st' })[i]? =
      some { op with stage := st' } := by
    rw [getElem?_modify_ite, if_pos rfl, hop]
    rfl
  have honly : OnlyAt (ops.modify i fun op => { op with stage := st' }) op.rfcID i := by
    intro j op' hj hy ha
    rcases getElem?_setStage hj with ⟨-, hj⟩ | ⟨rfl, -⟩
    · exact hu j op' hj hy ha
    · rfl
  cases hact : st'.active with
  | true => exact .one i { op with stage := st' } hat rfl hact honly
  | false =>
    obtain rfl : st' = .done := by
      cases st' with
      | resolve => exact absurd rfl hst
      | done => rfl
      | _ => cases hact
    refine .idle fun j op' hj hy => ?_
    cases ha : op'.stage.active with
    | false => rfl
    | true =>
      obtain rfl := honly j op' hj hy ha
      obtain rfl : { op with stage := .done } = op' := Option.some.inj (hat.symm.trans hj)
      cases ha

end Ops

/-! ## Invariants of one Message-ID -/

/-- A property of the copies with one Message-ID, of whether a row is scheduled for it and
of the operation under way on it, that every step allowed by `G` keeps. -/
structure Keeps (G : Account → Action → Bool)
    (Good : (Nat → Option Copy) → Prop → Stage → Prop) : Prop where
  careful : ∀ {s a}, G s a = true → s.careful a = true
  touched : ∀ {V P st}, Good V P st → ∀ c ∈ st.touched, V c ≠ none
  empty : ∀ {P}, Good (fun _ => none) P .done
  call : ∀ {s s' : Account} {i : Nat} {op : Op} {reply : Reply} {st' : Stage},
    s.ops[i]? = some op → op.stage.active = true → G s (.advance i reply) = true →
    Call s op.rfcID op.caller op.stage reply s' st' →
    Good (s.copiesOf op.rfcID) (s.Scheduled op.rfcID) op.stage →
    Good (s'.copiesOf op.rfcID) (s'.Scheduled op.rfcID) st'
  begins : ∀ {s s' : Account} {x caller reply st'}, Call s x caller .resolve reply s' st' →
    Good (s.copiesOf x) (s.Scheduled x) .done → Good (s'.copiesOf x) (s'.Scheduled x) st'
  snooze : ∀ {s : Account} {c k r p t}, s.copies[c]? = some k → s.liveRow c = some r →
    r.folder = .place p → (∀ d, s.sleeper k.rfcID d = false) →
    Good (s.copiesOf k.rfcID) (s.Scheduled k.rfcID) .done →
    Good (s.copiesOf k.rfcID) (s.Scheduled k.rfcID) (.locate c p t)
  unsnooze : ∀ {s : Account} {c k}, s.copies[c]? = some k →
    (∀ d, s.sleeper k.rfcID d = true → d = c) →
    Good (s.copiesOf k.rfcID) (s.Scheduled k.rfcID) .done →
    Good (s.copiesOf k.rfcID) (s.Scheduled k.rfcID) (.readSnooze c)
  deliver : ∀ {V P st n y p id}, V n = none → (∀ j k, V j = some k → k.message < n) → Good V P st →
    Good (addAt V n ⟨n, y, true, .place p, some ⟨id, .place p, false⟩, false⟩) P st
  crash : ∀ {s i V P st}, G s (.crash i) = true → Good V P st → Good V P .done

/-- The property holds for each Message-ID. -/
structure Locally (Good : (Nat → Option Copy) → Prop → Stage → Prop) (s : Account) : Prop where
  claimed : ∀ op ∈ s.ops, s.Claimed op.rfcID op.caller
  good : ∀ y, ∃ st, Stands s.ops y st ∧ Good (s.copiesOf y) (s.Scheduled y) st

section Rule

variable {G : Account → Action → Bool} {Good : (Nat → Option Copy) → Prop → Stage → Prop}
  {s s' : Account} {x y : Option Nat} {caller : Caller} {st st' : Stage} {reply : Reply} {i : Nat}

lemma locally_new (hK : Keeps G Good) : Locally Good .new := by
  refine ⟨?_, fun y => ⟨.done, .idle ?_, ?_⟩⟩
  · intro op hop
    cases hop
  · intro j op hj
    cases hj
  · have hnone : new.copiesOf y = fun _ => none := rfl
    exact hK.empty

section

variable (h : Call s x caller st reply s' st')
include h

/-- The rows keep their ids and their Message-IDs. -/
lemma snoozes_call
    (hr : s.snoozes[i]? = some r) : ∃ r', s'.snoozes[i]? = some r' ∧ r'.rfcID = r.rfcID := by
  have hmod : ∀ (j : Nat) (g : SnoozeRow → SnoozeRow), (∀ r, (g r).rfcID = r.rfcID) →
      ∃ r', (s.snoozes.modify j g)[i]? = some r' ∧ r'.rfcID = r.rfcID := by
    intro j g hg
    rw [getElem?_modify_ite, hr]
    split
    · exact ⟨g r, rfl, hg r⟩
    · exact ⟨r, rfl, rfl⟩
  have hupd : ∀ (j : Nat) (g : SnoozeRow → SnoozeRow), (∀ r, (g r).rfcID = r.rfcID) →
      ∃ r', (s.updatePending j g).snoozes[i]? = some r' ∧ r'.rfcID = r.rfcID := by
    intro j g hg
    refine hmod j _ fun r => ?_
    split
    · exact hg r
    · rfl
  cases h with
  | moved | astray | moveLost => exact ⟨r, by rw [snoozes_serverMove, hr], rfl⟩
  | put c o t z =>
    show ∃ r', (s.putSnooze z t o).snoozes[i]? = some r' ∧ r'.rfcID = r.rfcID
    unfold putSnooze
    split
    · obtain ⟨hlt, -⟩ := List.getElem?_eq_some_iff.1 hr
      exact ⟨r, by rw [List.getElem?_append_left hlt, hr], rfl⟩
    · exact hmod _ _ fun _ => rfl
  | appended | appendLost => exact ⟨r, by rw [snoozes_serverAppend, hr], rfl⟩
  | expunged | expungeLost => exact ⟨r, by rw [snoozes_serverExpunge, hr], rfl⟩
  | closed =>
    cases caller with
    | user =>
      refine ⟨if some r.rfcID = x ∧ r.state = .pending then { r with state := .deleted } else r,
        ?_, ?_⟩
      · show (s.cancelSnooze x).snoozes[i]? = _
        rw [cancelSnooze, getElem?_map, hr]
        rfl
      · split <;> rfl
    | waker j => exact hupd j _ fun _ => rfl
  | failed j =>
    refine hupd j _ fun r => ?_
    split <;> rfl
  | _ => exact ⟨r, hr, rfl⟩

lemma claimed_call {z : Option Nat} {other : Caller}
    (hcl : s.Claimed z other) : s'.Claimed z other := by
  intro j o a hc
  obtain ⟨r, hr, hz⟩ := hcl j o a hc
  obtain ⟨r', hr', he⟩ := snoozes_call h hr
  exact ⟨r', hr', by rw [he, hz]⟩

lemma resolve_not_next : st' ≠ .resolve := by
  cases h with
  | stop st reply next hl hn => rcases hn with rfl | rfl <;> exact nofun
  | _ => exact nofun

end

/-- A copy's message is not a later one. -/
lemma message_lt (hI : KeptInv s) {k : Copy} (hk : s.copiesOf y j = some k) :
    k.message < s.copies.length := by
  have hmem : k.entry ∈ s.mail :=
    mem_map_of_mem (mem_of_getElem? (copiesOf_eq_some.1 hk).1)
  simpa [mail, Copy.entry] using hI.numbered.lt _ hmem

lemma locally_startOp {op : Op} (hL : Locally Good s) (hcl : s.Claimed op.rfcID op.caller)
    (hidle : op.stage.active = true → Idle s.ops op.rfcID ∧
      (Good (s.copiesOf op.rfcID) (s.Scheduled op.rfcID) .done →
        Good (s.copiesOf op.rfcID) (s.Scheduled op.rfcID) op.stage)) :
    Locally Good (s.startOp op) := by
  refine ⟨Run.forall_mem_concat hL.claimed hcl, fun y => ?_⟩
  · obtain ⟨st, hst, hgood⟩ := hL.good y
    by_cases hne : op.rfcID ≠ y ∨ op.stage.active = false
    · exact ⟨st, hst.startOp_ne hne, hgood⟩
    · rw [not_or, not_not, Bool.not_eq_false] at hne
      obtain ⟨rfl, ha⟩ := hne
      obtain ⟨hid, hg⟩ := hidle ha
      obtain rfl := stands_of_idle hid hst
      exact ⟨op.stage, stands_startOp hid ha, hg hgood⟩

/-- The operation at position `i` goes on: it was alone on its Message-ID, and the other
Message-IDs do not see the call. -/
lemma locally_setStage {s₁ : Account} {op : Op} (hL : Locally Good s)
    (hop : s.ops[i]? = some op) (hu : OnlyAt s.ops op.rfcID i)
    (hcall : Call s op.rfcID op.caller op.stage reply s₁ st')
    (ht : ∀ c ∈ op.stage.touched, s.copiesOf op.rfcID c ≠ none)
    (hgood : Good (s₁.copiesOf op.rfcID) (s₁.Scheduled op.rfcID) st') :
    Locally Good (s₁.setStage i st') := by
  have hcl := hL.claimed op (mem_of_getElem? hop)
  have hops : (s₁.setStage i st').ops = s.ops.modify i fun op => { op with stage := st' } := by
    rw [setStage, hcall.ops]
  refine ⟨fun op' hop' => ?_, fun y => ?_⟩
  · rw [hops] at hop'
    obtain ⟨j, hj⟩ := mem_iff_getElem?.1 hop'
    rcases getElem?_setStage hj with ⟨-, hj⟩ | ⟨-, op₀, hj₀, rfl⟩
    · exact claimed_call hcall (hL.claimed op' (mem_of_getElem? hj))
    · exact claimed_call hcall (hL.claimed op₀ (mem_of_getElem? hj₀))
  · rw [hops]
    by_cases hy : y = op.rfcID
    · subst hy
      exact ⟨st', stands_setStage hop hu (resolve_not_next hcall), hgood⟩
    · obtain ⟨st, hst, hg⟩ := hL.good y
      obtain ⟨hcopies, hsched⟩ := call_frame hcall ht hcl hy
      refine ⟨st, hst.setStage_ne hop (.inl (Ne.symm hy)), ?_⟩
      show Good (s₁.copiesOf y) (s₁.Scheduled y) st
      rw [hcopies, propext hsched]
      exact hg

lemma locally_advance (hK : Keeps G Good) (hG : G s (.advance i reply) = true)
    (hL : Locally Good s) (h : s.step (.advance i reply) = some s') : Locally Good s' := by
  simp only [step] at h
  split at h
  · cases h
  · rename_i op hop
    obtain ⟨⟨s₁, st'⟩, hadv, rfl⟩ := Option.map_eq_some_iff.1 h
    have hcall := call_of_advance hadv
    obtain ⟨st, hst, hgood⟩ := hL.good op.rfcID
    cases ha : op.stage.active with
    | true =>
      obtain ⟨rfl, hu⟩ := stands_of_active hop ha hst
      exact locally_setStage hL hop hu hcall (hK.touched hgood) (hK.call hop ha hG hcall hgood)
    | false =>
      -- the waker looks its message up, with nothing else under way
      have hres : op.stage = .resolve := by
        cases hs : op.stage with
        | resolve => rfl
        | done => rw [hs] at hadv; cases hadv
        | _ => rw [hs] at ha; cases ha
      have hidle : Idle s.ops op.rfcID := by
        refine idle_of_busy ?_
        have hc := hK.careful hG
        simpa [careful, hop, hres] using hc
      have hu : OnlyAt s.ops op.rfcID i := by
        intro j op' hj hy ha'
        rw [hidle j op' hj hy] at ha'
        cases ha'
      obtain rfl := stands_of_idle hidle hst
      rw [hres] at hcall
      refine locally_setStage hL hop hu (hres ▸ hcall) ?_ (hK.begins hcall hgood)
      rw [hres]
      rintro _ ⟨⟩

lemma sleeper_lt {d : Nat} (h : s.sleeper x d = true) : d < s.copies.length := by
  obtain ⟨k, hk, -⟩ := (Option.any_eq_true _ _).1 h
  exact (List.getElem?_eq_some_iff.1 hk).1

/-- **The rule.**  A property of each Message-ID that careful steps keep holds after them. -/
theorem locally_step (hK : Keeps G Good) {a : Action} (hG : G s a = true) (hI : KeptInv s)
    (hL : Locally Good s) (h : s.step a = some s') : Locally Good s' := by
  cases a with
  | deliver =>
    cases h
    refine ⟨hL.claimed, fun y => ?_⟩
    obtain ⟨st, hst, hgood⟩ := hL.good y
    refine ⟨st, hst, ?_⟩
    rw [copiesOf_concat (s := s) rfl]
    split
    · exact hK.deliver copiesOf_length (fun j k hk => message_lt hI hk) hgood
    · exact hgood
  | snooze =>
    simp only [step] at h
    split at h
    · rename_i k r hk hr
      split at h <;> cases h
      · rename_i x p hx hp
        have hc := hK.careful hG
        simp only [careful, hk, Option.all_some, Bool.and_eq_true, Bool.not_eq_true',
          all_eq_true, mem_range] at hc
        rw [hx] at hc
        refine locally_startOp hL (by rintro _ _ _ ⟨⟩) fun _ => ⟨idle_of_busy hc.1, ?_⟩
        show Good (s.copiesOf (some x)) _ _ → Good (s.copiesOf (some x)) _ _
        rw [← hx]
        refine hK.snooze hk hr hp fun d => ?_
        rw [hx]
        by_contra hd
        rw [Bool.not_eq_false] at hd
        exact absurd hd (by rw [hc.2 d (sleeper_lt hd)]; exact Bool.false_ne_true)
      · exact hL
    · cases h
      exact hL
  | unsnooze =>
    simp only [step] at h
    split at h
    · cases h
      exact hL
    · rename_i k hk
      split at h <;> cases h
      · have hc := hK.careful hG
        simp only [careful, hk, Option.all_some, Bool.and_eq_true, Bool.not_eq_true',
          all_eq_true, mem_range, Bool.or_eq_true, decide_eq_true_eq] at hc
        refine locally_startOp hL (by rintro _ _ _ ⟨⟩) fun _ => ⟨idle_of_busy hc.1, ?_⟩
        refine hK.unsnooze hk fun d hd => ?_
        rcases hc.2 d (sleeper_lt hd) with hno | rfl
        · rw [hno] at hd
          cases hd
        · rfl
      · exact hL
  | claim =>
    simp only [step] at h
    split at h
    · cases h
    · rename_i r hr
      split at h <;> cases h
      refine locally_startOp hL ?_ (by rintro ⟨⟩)
      intro j o a ho
      cases ho
      exact ⟨r, hr, rfl⟩
  | advance => exact locally_advance hK hG hL h
  | crash i =>
    cases h
    refine ⟨fun op hop => ?_, fun y => ?_⟩
    · obtain ⟨j, hj⟩ := mem_iff_getElem?.1 hop
      rcases getElem?_setStage hj with ⟨-, hj⟩ | ⟨-, op₀, hj₀, rfl⟩
      · exact hL.claimed op (mem_of_getElem? hj)
      · exact hL.claimed op₀ (mem_of_getElem? hj₀)
    · obtain ⟨st, hst, hgood⟩ := hL.good y
      cases hop : s.ops[i]? with
      | none =>
        refine ⟨st, ?_, hgood⟩
        rw [setStage, modify_eq_self (getElem?_eq_none_iff.1 hop)]
        exact hst
      | some op =>
        by_cases hne : op.rfcID ≠ y ∨ op.stage.active = false
        · exact ⟨st, hst.setStage_ne hop (hne.imp_right fun ha => ⟨ha, rfl⟩), hgood⟩
        · rw [not_or, not_not, Bool.not_eq_false] at hne
          obtain ⟨rfl, ha⟩ := hne
          obtain ⟨rfl, hu⟩ := stands_of_active hop ha hst
          exact ⟨.done, stands_setStage hop hu (by simp), hK.crash hG hgood⟩

end Rule

end Moov.Snooze
