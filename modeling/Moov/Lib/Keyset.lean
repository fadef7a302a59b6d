import Mathlib.Data.List.Pairwise
import Mathlib.Data.List.Sort

/-!
# Keyset paging

A list in strict order is read in pages: each page is asked for by the last element of
the one before, as the elements behind it, and cut at a limit.

* `filter_behind` — what is behind the element at a place is the rest of the list;
* `filter_ahead` — and what is not behind it is the list up to it;
* `walk` — pages collected until there are enough or one comes back short;
* `walk_eq_take` — whatever the size of the pages, the walk collects the front of the list;
* `pairwise_take_of_prefixes` — pages that are sorted after they were cut show one list only
  when the list they were cut from was sorted.

Nothing in this file knows what is paged.
-/

namespace Moov.Keyset

open List

variable {α : Type*} {r : α → α → Prop} [DecidableRel r] {l : List α}

/-- A place in the list that is not its beginning, by the element before it. -/
lemma eq_take_getLast {n : Nat} (hne : l.take n ≠ []) :
    l = (l.take n).dropLast ++ (l.take n).getLast hne :: l.drop n :=
  calc l = l.take n ++ l.drop n := (take_append_drop n l).symm
    _ = (l.take n).dropLast ++ [(l.take n).getLast hne] ++ l.drop n := by
        rw [dropLast_append_getLast hne]
    _ = (l.take n).dropLast ++ (l.take n).getLast hne :: l.drop n := by
        rw [append_assoc, singleton_append]

/-- The elements behind a cursor. -/
def behind (r : α → α → Prop) [DecidableRel r] (l : List α) : Option α → List α
  | none => l
  | some x => l.filter fun a => r x a

/-- Pages of at most `cap` elements, collected until `reach` of them are there. -/
def walk (r : α → α → Prop) [DecidableRel r] (l : List α) (cap reach : Nat) :
    (fuel : Nat) → (hits : List α) → (cursor : Option α) → List α
  | 0, hits, _ => hits
  | fuel + 1, hits, cursor =>
      if hits.length < reach then
        let want := min (reach - hits.length) cap
        let page := (behind r l cursor).take want
        if page = [] then hits
        else if page.length < want then hits ++ page
        else walk r l cap reach fuel (hits ++ page) page.getLast?
      else hits

section Strict

variable (hl : l.Pairwise r) (hasymm : ∀ a b, r a b → ¬ r b a)

include hl hasymm

omit [DecidableRel r] in
/-- An element parts a list in strict order: what comes after it is behind it. -/
lemma behind_of_split {front rest : List α} {x : α} (h : l = front ++ x :: rest) :
    l = (front ++ [x]) ++ rest ∧ (∀ a ∈ front ++ [x], ¬ r x a) ∧ ∀ a ∈ rest, r x a := by
  subst h
  obtain ⟨-, hrest, hfront⟩ := pairwise_append.1 hl
  refine ⟨by simp, fun a ha => ?_, (pairwise_cons.1 hrest).1⟩
  rcases mem_append.1 ha with ha | ha
  · exact hasymm a x (hfront a ha x mem_cons_self)
  · rw [mem_singleton.1 ha]
    exact fun h => hasymm x x h h

/-- In a list in strict order, what is behind an element is what comes after it. -/
theorem filter_behind {front rest : List α} {x : α} (h : l = front ++ x :: rest) :
    l.filter (fun a => r x a) = rest := by
  obtain ⟨rfl, hnot, hbehind⟩ := behind_of_split hl hasymm h
  rw [filter_append, filter_eq_nil_iff.2 (by simpa using hnot),
    filter_eq_self.2 (by simpa using hbehind), nil_append]

/-- What is not behind an element is what comes before it, and the element itself. -/
theorem filter_ahead {front rest : List α} {x : α} (h : l = front ++ x :: rest) :
    l.filter (fun a => ¬ r x a) = front ++ [x] := by
  obtain ⟨rfl, hnot, hbehind⟩ := behind_of_split hl hasymm h
  rw [filter_append, filter_eq_self.2 (by simpa using hnot),
    filter_eq_nil_iff.2 (by simpa using hbehind), append_nil]

/-- A place in the list, as the cursor that leads there. -/
lemma behind_take (n : Nat) : behind r l (l.take n).getLast? = l.drop n := by
  rcases eq_or_ne (l.take n) [] with hnil | hne
  · rw [hnil, getLast?_nil]
    rcases take_eq_nil_iff.1 hnil with rfl | rfl
    · rw [drop_zero]
      rfl
    · rw [drop_nil]
      rfl
  · rw [getLast?_eq_some_getLast hne]
    exact filter_behind hl hasymm (eq_take_getLast hne)

lemma walk_take {cap reach : Nat} (hcap : 0 < cap) (fuel n : Nat) (hn : n ≤ l.length)
    (hreach : n ≤ reach)
    (hfuel : reach ≤ n + fuel) :
    walk r l cap reach fuel (l.take n) (l.take n).getLast? = l.take reach := by
  induction fuel generalizing n with
  | zero => rw [walk, show n = reach by omega]
  | succ fuel ih =>
    have hlen : (l.take n).length = n := by rw [length_take, Nat.min_eq_left hn]
    rw [walk, hlen, behind_take hl hasymm]
    by_cases hlt : n < reach
    · rw [if_pos hlt]
      -- the next page is the next stretch of the list
      have happend : ∀ m, l.take n ++ (l.drop n).take m = l.take (n + m) := fun m =>
        (take_add (l := l)).symm
      have hpage : ∀ m, ((l.drop n).take m).length = min m (l.length - n) := fun m => by
        rw [length_take, length_drop]
      simp only [happend]
      split
      · rename_i hnil
        have := congrArg length hnil
        rw [hpage, length_nil] at this
        rw [take_of_length_le (by omega), take_of_length_le (by omega)]
      · rename_i hne
        have hpos := length_pos_iff.2 hne
        rw [hpage] at hpos ⊢
        split
        · rw [take_of_length_le (by omega), take_of_length_le (by omega)]
        · have hlast : ((l.drop n).take (min (reach - n) cap)).getLast? =
              (l.take (n + min (reach - n) cap)).getLast? := by
            rw [← happend, getLast?_append_of_ne_nil _ hne]
          rw [hlast]
          exact ih _ (by omega) (by omega) (by omega)
    · rw [if_neg hlt, show n = reach by omega]

/-- **The walk.**  It collects the front of the list, up to its reach. -/
theorem walk_eq_take {cap reach : Nat} (hcap : 0 < cap) :
    walk r l cap reach reach [] none = l.take reach := by
  have h : walk r l cap reach reach (l.take 0) (l.take 0).getLast? = l.take reach :=
    walk_take hl hasymm hcap reach 0 (Nat.zero_le _) (Nat.zero_le _) (by omega)
  rwa [take_zero, getLast?_nil] at h

end Strict

/-- A list whose prefixes all sort into the beginning of one list without repetitions is
sorted as far as the prefixes go. -/
theorem pairwise_take_of_prefixes {β : Type*} [Std.Total r] [IsTrans α r] {f : α → β}
    {shown : List β} (hshown : shown.Nodup) :
    ∀ N, (∀ k < N, (((l.take (k + 1)).insertionSort r).map f)[k]? = shown[k]?) →
      (l.take N).Pairwise r := by
  intro N
  induction N with
  | zero => exact fun _ => by simp
  | succ N ih =>
    intro h
    have hpre := ih fun k hk => h k (Nat.lt_succ_of_lt hk)
    by_cases hN : N < l.length
    · -- the places before the last one hold what the list has there
      have heads : ∀ k (hk : k < l.length), k < N → shown[k]? = some (f l[k]) := by
        intro k hk hkN
        have hsorted := hpre.sublist (take_sublist_take_left (Nat.succ_le_of_lt hkN))
        rw [← h k (Nat.lt_succ_of_lt hkN), List.Pairwise.insertionSort_eq hsorted]
        simp [hk]
      have hsort := pairwise_insertionSort r (l.take (N + 1))
      have hperm := perm_insertionSort r (l.take (N + 1))
      have hlast := h N (Nat.lt_succ_self N)
      generalize (l.take (N + 1)).insertionSort r = sorted at hsort hperm hlast
      have hlen : sorted.length = N + 1 := by
        rw [hperm.length_eq, length_take]
        omega
      obtain ⟨front, last, rfl⟩ : ∃ front last, sorted = front ++ [last] :=
        ⟨sorted.dropLast, sorted.getLast (by rintro rfl; cases hlen),
          (dropLast_append_getLast _).symm⟩
      have hfront : front.length = N := by simpa using hlen
      have hshow : shown[N]? = some (f last) := by rw [← hlast]; simp [← hfront]
      rw [take_succ_eq_append_getElem hN] at hperm ⊢
      -- so the greatest element is the new one: the others are shown elsewhere
      have hnew : last = l[N] := by
        rcases mem_append.1 (hperm.mem_iff.1 (mem_append_right front
          mem_cons_self)) with hold | hnew
        · obtain ⟨k, hk, rfl⟩ := mem_take_iff_getElem.1 hold
          have hkN : k < N := by omega
          have hkl : k < l.length := by omega
          have hsame : shown[k]? = shown[N]? := by rw [hshow, heads k hkl hkN]
          have hin : k < shown.length := (List.getElem?_eq_some_iff.1 (heads k hkl hkN)).1
          exact absurd ((getElem?_inj hin hshown).1 hsame) (Nat.ne_of_lt hkN)
        · exact mem_singleton.1 hnew
      refine pairwise_append.2 ⟨hpre, pairwise_singleton _ _, fun a ha b hb => ?_⟩
      rw [mem_singleton.1 hb, ← hnew]
      rcases mem_append.1 (hperm.mem_iff.2 (mem_append_left _ ha)) with hin | hlast'
      · exact (pairwise_append.1 hsort).2.2 a hin last mem_cons_self
      · rw [mem_singleton.1 hlast']
        exact (Std.Total.total last last).elim id id
    · rw [take_of_length_le (by omega)] at hpre ⊢
      exact hpre

end Moov.Keyset
