import Mathlib.Data.List.Nodup

/-!
# A versioned source and facts about copies of it

A `Source` holds items under keys that are given out in ascending order and never
twice.  Every change draws the next version, so a reader that remembers a version
can ask for what changed since.  An item has a part that is fixed when it is added
and a value that changes.

A reader works while the source moves on.  `Later s s'` says everything about that
which a reader can rely on: an item that carries an old version is unchanged, and
an item under an old key was there before.  Three kinds of fact about a source
survive its moving on:

* `UpToDate R s h k c`: the copy `c` of the item `k` is as the source has it,
  unless the item changed after version `h`;
* `Covers s lo hi P`: every item between the keys `lo` and `hi` satisfies `P`;
* `Gone s k`: the item under `k` was removed.

Nothing in this file knows what the items are.
-/

namespace Moov.Versioned

open List

variable {α β : Type*}

/-- Looking up by a key that is unique finds the one element that has it. -/
lemma find?_key_eq_some {κ : Type*} [DecidableEq κ] {key : α → κ} {l : List α} {k : κ} {a : α}
    (hnd : (l.map key).Nodup) :
    (l.find? fun x => decide (key x = k)) = some a ↔ a ∈ l ∧ key a = k := by
  constructor
  · intro h
    exact ⟨mem_of_find?_eq_some h, by simpa using find?_some h⟩
  · rintro ⟨ha, rfl⟩
    cases hf : l.find? fun x => decide (key x = key a) with
    | none =>
      have := find?_eq_none.1 hf a ha
      simp at this
    | some b =>
      have hb : key b = key a := by simpa using find?_some hf
      rw [inj_on_of_nodup_map hnd (mem_of_find?_eq_some hf) ha hb]

/-- One item: its key, the version of its last change, and its two parts. -/
structure Item (α β : Type*) where
  key : Nat
  version : Nat
  fixed : α
  value : β
  deriving DecidableEq

/-- A source: `next` is a bound on the keys given out so far, `version` the
version of the last change, and `removed` the keys of the removed items with the
versions of their removals. -/
structure Source (α β : Type*) where
  next : Nat
  version : Nat
  items : List (Item α β)
  removed : List (Nat × Nat)
  next_pos : 0 < next
  version_pos : 0 < version
  ascending : items.Pairwise fun i j => i.key < j.key
  key_pos : ∀ i ∈ items, 0 < i.key
  key_lt : ∀ i ∈ items, i.key < next
  version_le : ∀ i ∈ items, i.version ≤ version
  removed_lt : ∀ e ∈ removed, e.1 < next
  gone : ∀ e ∈ removed, ∀ i ∈ items, i.key ≠ e.1

namespace Source

/-- The source nothing was added to. -/
def empty : Source α β where
  next := 1
  version := 1
  items := []
  removed := []
  next_pos := Nat.one_pos
  version_pos := Nat.one_pos
  ascending := List.Pairwise.nil
  key_pos := by simp
  key_lt := by simp
  version_le := by simp
  removed_lt := by simp
  gone := by simp

variable (s : Source α β)

/-- The item under a key. -/
def find (k : Nat) : Option (Item α β) := s.items.find? fun i => decide (i.key = k)

/-- There is an item under this key. -/
def mem (k : Nat) : Bool := s.items.any fun i => decide (i.key = k)

/-- Add an item; keys may be left out. -/
def add (gap : Nat) (a : α) (b : β) : Source α β where
  next := s.next + gap + 1
  version := s.version + 1
  items := s.items ++ [⟨s.next + gap, s.version + 1, a, b⟩]
  removed := s.removed
  next_pos := by omega
  version_pos := by omega
  ascending := by
    refine List.pairwise_append.2 ⟨s.ascending, List.pairwise_singleton _ _, ?_⟩
    intro i hi j hj
    rw [List.mem_singleton.1 hj]
    have := s.key_lt i hi
    show i.key < s.next + gap
    omega
  key_pos := by
    intro i hi
    rcases List.mem_append.1 hi with hi | hi
    · exact s.key_pos i hi
    · rw [List.mem_singleton.1 hi]
      have := s.next_pos
      show 0 < s.next + gap
      omega
  key_lt := by
    intro i hi
    rcases List.mem_append.1 hi with hi | hi
    · have := s.key_lt i hi
      omega
    · rw [List.mem_singleton.1 hi]
      show s.next + gap < s.next + gap + 1
      omega
  version_le := by
    intro i hi
    rcases List.mem_append.1 hi with hi | hi
    · have := s.version_le i hi
      omega
    · obtain rfl := List.mem_singleton.1 hi
      exact Nat.le_refl _
  removed_lt := by
    intro e he
    have := s.removed_lt e he
    omega
  gone := by
    intro e he i hi
    rcases List.mem_append.1 hi with hi | hi
    · exact s.gone e he i hi
    · rw [List.mem_singleton.1 hi]
      have := s.removed_lt e he
      show s.next + gap ≠ e.1
      omega

/-- What a change of the item under `k` makes of an item. -/
def changeItem (k v : Nat) (b : β) (i : Item α β) : Item α β :=
  if i.key = k then { i with version := v, value := b } else i

@[simp] lemma changeItem_key (k v : Nat) (b : β) (i : Item α β) :
    (changeItem k v b i).key = i.key := by
  unfold changeItem
  split <;> rfl

@[simp] lemma changeItem_fixed (k v : Nat) (b : β) (i : Item α β) :
    (changeItem k v b i).fixed = i.fixed := by
  unfold changeItem
  split <;> rfl

/-- Change the value of an item. -/
def change (k : Nat) (b : β) : Source α β where
  next := s.next
  version := s.version + 1
  items := s.items.map (changeItem k (s.version + 1) b)
  removed := s.removed
  next_pos := s.next_pos
  version_pos := by omega
  ascending := by
    rw [List.pairwise_map]
    simpa using s.ascending
  key_pos := by
    intro i hi
    obtain ⟨j, hj, rfl⟩ := List.mem_map.1 hi
    simpa using s.key_pos j hj
  key_lt := by
    intro i hi
    obtain ⟨j, hj, rfl⟩ := List.mem_map.1 hi
    simpa using s.key_lt j hj
  version_le := by
    intro i hi
    obtain ⟨j, hj, rfl⟩ := List.mem_map.1 hi
    have := s.version_le j hj
    unfold changeItem
    split
    · exact Nat.le_refl _
    · omega
  removed_lt := s.removed_lt
  gone := by
    intro e he i hi
    obtain ⟨j, hj, rfl⟩ := List.mem_map.1 hi
    simpa using s.gone e he j hj

/-- Remove the item under a key, if there is one. -/
def remove (k : Nat) : Source α β :=
  if h : ∃ i ∈ s.items, i.key = k then
    { next := s.next
      version := s.version + 1
      items := s.items.filter fun i => decide (i.key ≠ k)
      removed := (k, s.version + 1) :: s.removed
      next_pos := s.next_pos
      version_pos := by omega
      ascending := s.ascending.filter _
      key_pos := fun i hi => s.key_pos i (List.mem_of_mem_filter hi)
      key_lt := fun i hi => s.key_lt i (List.mem_of_mem_filter hi)
      version_le := by
        intro i hi
        have := s.version_le i (List.mem_of_mem_filter hi)
        omega
      removed_lt := by
        intro e he
        rcases List.mem_cons.1 he with rfl | he
        · obtain ⟨i, hi, rfl⟩ := h
          exact s.key_lt i hi
        · exact s.removed_lt e he
      gone := by
        intro e he i hi
        rcases List.mem_cons.1 he with rfl | he
        · simpa using List.of_mem_filter hi
        · exact s.gone e he i (List.mem_of_mem_filter hi) }
  else s

/-- The items that changed after a version. -/
def changedSince (v : Nat) : List (Item α β) := s.items.filter fun i => decide (v < i.version)

variable {s} {k v : Nat} {i j : Item α β}

lemma mem_eq_true : s.mem k = true ↔ ∃ i ∈ s.items, i.key = k := by simp [mem]

lemma key_nodup : (s.items.map Item.key).Nodup := by
  rw [List.Nodup, pairwise_map]
  exact s.ascending.imp fun h => Nat.ne_of_lt h

/-- A key names one item. -/
lemma eq_of_key (hi : i ∈ s.items) (hj : j ∈ s.items) (h : i.key = j.key) : i = j :=
  inj_on_of_nodup_map key_nodup hi hj h

lemma find_eq_some : s.find k = some i ↔ i ∈ s.items ∧ i.key = k :=
  find?_key_eq_some key_nodup

lemma find_eq_none : s.find k = none ↔ ∀ i ∈ s.items, i.key ≠ k := by
  simp [find, find?_eq_none]

lemma mem_changedSince : i ∈ s.changedSince v ↔ i ∈ s.items ∧ v < i.version := by
  simp [changedSince]

/-! ## A source moves on -/

/-- What is certain about a source at a later time. -/
structure Later (s s' : Source α β) : Prop where
  next_le : s.next ≤ s'.next
  version_le : s.version ≤ s'.version
  unchanged : ∀ i ∈ s'.items, i.version ≤ s.version → i ∈ s.items
  old : ∀ i ∈ s'.items, i.key < s.next → ∃ j ∈ s.items, j.key = i.key ∧ j.fixed = i.fixed
  kept : ∀ j ∈ s.items, (∃ i ∈ s'.items, i.key = j.key) ∨
    ∃ v, (j.key, v) ∈ s'.removed ∧ s.version < v
  removed : ∀ e ∈ s.removed, e ∈ s'.removed

variable {s' s'' : Source α β}

lemma Later.refl (s : Source α β) : Later s s where
  next_le := Nat.le_refl _
  version_le := Nat.le_refl _
  unchanged := fun _ hi _ => hi
  old := fun i hi _ => ⟨i, hi, rfl, rfl⟩
  kept := fun j hj => .inl ⟨j, hj, rfl⟩
  removed := fun _ he => he

lemma later_add (gap : Nat) (a : α) (b : β) : Later s (s.add gap a b) where
  next_le := by
    show s.next ≤ s.next + gap + 1
    omega
  version_le := Nat.le_succ _
  unchanged := by
    intro i hi hv
    rcases mem_append.1 hi with hi | hi
    · exact hi
    · rw [mem_singleton.1 hi] at hv
      exact absurd hv (Nat.not_succ_le_self _)
  old := by
    intro i hi hk
    rcases mem_append.1 hi with hi | hi
    · exact ⟨i, hi, rfl, rfl⟩
    · rw [mem_singleton.1 hi] at hk
      have hk' : s.next + gap < s.next := hk
      omega
  kept := fun j hj => .inl ⟨j, mem_append.2 (.inl hj), rfl⟩
  removed := fun _ he => he

lemma later_change (k : Nat) (b : β) : Later s (s.change k b) where
  next_le := Nat.le_refl _
  version_le := Nat.le_succ _
  unchanged := by
    intro i hi hv
    obtain ⟨j, hj, rfl⟩ := mem_map.1 hi
    unfold changeItem at hv ⊢
    split at hv
    · exact absurd hv (Nat.not_succ_le_self _)
    · next hk => rwa [if_neg hk]
  old := by
    intro i hi _
    obtain ⟨j, hj, rfl⟩ := mem_map.1 hi
    exact ⟨j, hj, by simp, by simp⟩
  kept := by
    intro j hj
    exact .inl ⟨changeItem k (s.version + 1) b j, mem_map.2 ⟨j, hj, rfl⟩, by simp⟩
  removed := fun _ he => he

lemma later_remove (k : Nat) : Later s (s.remove k) := by
  unfold remove
  split
  · exact
      { next_le := Nat.le_refl _
        version_le := Nat.le_succ _
        unchanged := fun i hi _ => mem_of_mem_filter hi
        old := fun i hi _ => ⟨i, mem_of_mem_filter hi, rfl, rfl⟩
        kept := by
          intro j hj
          by_cases hk : j.key = k
          · exact .inr ⟨s.version + 1, mem_cons.2 (.inl (by rw [hk])), Nat.lt_succ_self _⟩
          · exact .inl ⟨j, mem_filter.2 ⟨hj, by simpa using hk⟩, rfl⟩
        removed := fun _ he => mem_cons_of_mem _ he }
  · exact Later.refl s

/-! ## Facts about copies -/

/-- The copy `c` of the item under `k` is as the source has it, unless the item
changed after version `h`; `R` says when a copy is as a value. -/
def UpToDate {γ : Type*} (R : γ → β → Prop) (s : Source α β) (h k : Nat) (c : γ) : Prop :=
  ∀ i ∈ s.items, i.key = k → i.version ≤ h → R c i.value

/-- Every item from the key `lo` on and below `hi` satisfies `P`. -/
def Covers (s : Source α β) (lo hi : Nat) (P : Nat → Prop) : Prop :=
  ∀ i ∈ s.items, lo ≤ i.key → i.key < hi → P i.key

instance {γ : Type*} (R : γ → β → Prop) [∀ c b, Decidable (R c b)] (h k : Nat) (c : γ) :
    Decidable (UpToDate R s h k c) :=
  inferInstanceAs (Decidable (∀ i ∈ s.items, i.key = k → i.version ≤ h → R c i.value))

instance (lo hi : Nat) (P : Nat → Prop) [DecidablePred P] : Decidable (Covers s lo hi P) :=
  inferInstanceAs (Decidable (∀ i ∈ s.items, lo ≤ i.key → i.key < hi → P i.key))

/-- The key was given out, and its item is not there: it never will be. -/
def Gone (s : Source α β) (k : Nat) : Prop := k < s.next ∧ ∀ i ∈ s.items, i.key ≠ k

lemma Gone.later (hg : Gone s k) (hl : Later s s') : Gone s' k := by
  refine ⟨Nat.lt_of_lt_of_le hg.1 hl.next_le, ?_⟩
  rintro i hi rfl
  obtain ⟨j, hj, hjk, -⟩ := hl.old i hi hg.1
  exact hg.2 j hj hjk

variable {γ : Type*} {R : γ → β → Prop} {c : γ} {h h' lo lo' hi hi' : Nat} {P Q : Nat → Prop}

/-- A copy that is up to date stays so: what has an old version did not change. -/
lemma UpToDate.later (hc : UpToDate R s h k c) (hl : Later s s') (hv : h ≤ s.version) :
    UpToDate R s' h k c := by
  intro i hi hk hiv
  exact hc i (hl.unchanged i hi (Nat.le_trans hiv hv)) hk hiv

lemma UpToDate.mono (hc : UpToDate R s h k c) (hh : h' ≤ h) : UpToDate R s h' k c :=
  fun i hi hk hiv => hc i hi hk (Nat.le_trans hiv hh)

/-- What was just read is up to date. -/
lemma UpToDate.of_read (hi : i ∈ s.items) (hc : R c i.value) : UpToDate R s h i.key c := by
  intro j hj hk _
  rwa [eq_of_key hj hi hk]

/-- What covers the old keys of a source covers them later. -/
lemma Covers.later (hc : Covers s lo hi P) (hl : Later s s') (hn : hi ≤ s.next) :
    Covers s' lo hi P := by
  intro i hi' hlo hlt
  obtain ⟨j, hj, hjk, -⟩ := hl.old i hi' (Nat.lt_of_lt_of_le hlt hn)
  exact hjk ▸ hc j hj (hjk ▸ hlo) (hjk ▸ hlt)

lemma Covers.imp (hc : Covers s lo hi P) (hPQ : ∀ k, P k → Q k) : Covers s lo hi Q :=
  fun i hi hlo hlt => hPQ _ (hc i hi hlo hlt)

/-- Two ranges that meet cover what is between their ends. -/
lemma Covers.append {mid : Nat} (hc : Covers s lo mid P) (hc' : Covers s mid hi P) :
    Covers s lo hi P := by
  intro i hi hlo hlt
  by_cases hm : i.key < mid
  · exact hc i hi hlo hm
  · exact hc' i hi (Nat.le_of_not_lt hm) hlt

/-- A key whose item was removed is gone. -/
lemma gone_remove (hi : i ∈ s.items) : Gone (s.remove i.key) i.key := by
  unfold remove
  rw [dif_pos ⟨i, hi, rfl⟩]
  exact ⟨s.key_lt i hi, fun j hj => by simpa using of_mem_filter hj⟩

/-! ## Removals -/

/-- The item under `k` was removed after the version `h`. -/
def RemovedAfter (s : Source α β) (h k : Nat) : Prop := ∃ v, (k, v) ∈ s.removed ∧ h < v

lemma RemovedAfter.later (hr : RemovedAfter s h k) (hl : Later s s') : RemovedAfter s' h k := by
  obtain ⟨v, hv, hlt⟩ := hr
  exact ⟨v, hl.removed _ hv, hlt⟩

lemma RemovedAfter.mono (hr : RemovedAfter s h k) (hh : h' ≤ h) : RemovedAfter s h' k := by
  obtain ⟨v, hv, hlt⟩ := hr
  exact ⟨v, hv, Nat.lt_of_le_of_lt hh hlt⟩

/-- An item that is there at the version `h` is there later, or was removed after it. -/
lemma Later.kept_or_removedAfter (hl : Later s s') (hv : h ≤ s.version) (hi : i ∈ s.items) :
    (∃ j ∈ s'.items, j.key = i.key) ∨ RemovedAfter s' h i.key := by
  rcases hl.kept i hi with hk | ⟨v, hr, hlt⟩
  · exact .inl hk
  · exact .inr ⟨v, hr, Nat.lt_of_le_of_lt hv hlt⟩

/-- No removal is recorded under a version that is still to come. -/
def RemovedLe (s : Source α β) : Prop := ∀ e ∈ s.removed, e.2 ≤ s.version

lemma RemovedLe.add (hs : RemovedLe s) (gap : Nat) (a : α) (b : β) : RemovedLe (s.add gap a b) :=
  fun e he => Nat.le_succ_of_le (hs e he)

lemma RemovedLe.change (hs : RemovedLe s) (k : Nat) (b : β) : RemovedLe (s.change k b) :=
  fun e he => Nat.le_succ_of_le (hs e he)

lemma RemovedLe.remove (hs : RemovedLe s) (k : Nat) : RemovedLe (s.remove k) := by
  unfold Source.remove
  split
  · exact forall_mem_cons.2 ⟨Nat.le_refl _, fun e he => Nat.le_succ_of_le (hs e he)⟩
  · exact hs

end Source

end Moov.Versioned
