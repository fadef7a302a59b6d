import Mathlib.Data.List.Infix

/-!
# Searching in a text

`strings.Index` and `strings.LastIndex`, as the text before and after what is found, and what they
find in a text that is put together from pieces: some are fixed, and some are written by others.

* `cut`, `cutLast` — the first and the last occurrence;
* `Inert` — no occurrence begins in a text, whatever follows it;
* `Piece.Apart` — a piece in which a marker is found only where someone has written it;
* `cut_flat` — the first occurrence in pieces is that in the first written text that has one.
-/

namespace Moov.Search

open List

variable {α : Type} [DecidableEq α] {c b : α}

/-- The text before the first occurrence of a marker, and after it. -/
def cut (m : List α) : List α → Option (List α × List α)
  | [] => if m.isEmpty then some ([], []) else none
  | c :: t =>
      if m.isPrefixOf (c :: t) then some ([], (c :: t).drop m.length)
      else (cut m t).map fun r => (c :: r.1, r.2)

/-- The text before the last occurrence of a marker, and after it. -/
def cutLast (m : List α) : List α → Option (List α × List α)
  | [] => if m.isEmpty then some ([], []) else none
  | c :: t =>
      match cutLast m t with
      | some r => some (c :: r.1, r.2)
      | none => if m.isPrefixOf (c :: t) then some ([], (c :: t).drop m.length) else none

variable {m t r a : List α}

lemma eq_of_cut {b : List α} (h : cut m t = some (a, b)) : t = a ++ m ++ b := by
  induction t generalizing a with
  | nil =>
    rw [cut] at h
    split at h
    · rename_i hm
      cases h
      simpa using hm
    · cases h
  | cons c t ih =>
    rw [cut] at h
    split at h
    · rename_i hstarts
      cases h
      have heq := prefix_iff_eq_append.1 (List.isPrefixOf_iff_prefix.1 hstarts)
      simpa using heq.symm
    · rw [Option.map_eq_some_iff] at h
      obtain ⟨⟨a', b'⟩, hcut, heq⟩ := h
      cases heq
      rw [ih hcut]
      simp

lemma cut_eq_none_iff : cut m t = none ↔ ¬ m <:+: t := by
  induction t with
  | nil =>
    rw [cut, infix_nil]
    cases m with
    | nil | cons => simp
  | cons c t ih =>
    rw [cut, infix_cons_iff, not_or, ← isPrefixOf_iff_prefix]
    split
    · rename_i hstarts
      simp [hstarts]
    · rename_i hstarts
      rw [Option.map_eq_none_iff, ih]
      simp [hstarts]

lemma cutLast_eq_none_iff : cutLast m t = none ↔ ¬ m <:+: t := by
  induction t with
  | nil =>
    rw [cutLast, infix_nil]
    cases m with
    | nil | cons => simp
  | cons c t ih =>
    rw [cutLast, infix_cons_iff, not_or, ← isPrefixOf_iff_prefix]
    cases hlast : cutLast m t with
    | none =>
      have hnone := ih.1 hlast
      simp [hnone]
    | some =>
      have hsome : m <:+: t := by
        by_contra hnot
        rw [ih.2 hnot] at hlast
        cases hlast
      simp [hsome]

/-- The last occurrence, if there is none after it. -/
lemma cutLast_append (hm : m ≠ []) {b : List α} (h : ¬ m <:+: (m ++ b).drop 1) :
    cutLast m (a ++ m ++ b) = some (a, b) := by
  induction a with
  | nil =>
    cases m with
    | nil => exact absurd rfl hm
    | cons =>
      have hnone := cutLast_eq_none_iff.2 h
      simp only [cons_append, drop_succ_cons, drop_zero] at hnone
      simp [cutLast, hnone]
  | cons c a ih =>
    rw [cons_append, cons_append, cutLast, ih]

/-- The last occurrence is at the start of the text. -/
lemma cutLast_start_iff (hm : m ≠ []) :
    (cutLast m t).map Prod.fst = some [] ↔ m <+: t ∧ ¬ m <:+: t.drop 1 := by
  cases t with
  | nil =>
    have hempty : m.isEmpty = false := by simpa using hm
    simp [cutLast, hempty, hm]
  | cons c t =>
    rw [drop_succ_cons, drop_zero, cutLast, ← cutLast_eq_none_iff, ← isPrefixOf_iff_prefix]
    cases cutLast m t with
    | some => simp
    | none =>
      by_cases hstarts : m.isPrefixOf (c :: t) = true
      · simp [hstarts]
      · simp [hstarts]

/-! ## Where no occurrence begins -/

/-- No occurrence of the marker begins in the text, whatever follows it. -/
def Inert (m t : List α) : Prop := ∀ q, q ≠ [] → q <:+ t → ¬ q <+: m ∧ ¬ m <+: q

/-- The same, as a check. -/
def inert (m t : List α) : Bool :=
  t.tails.all fun q => q.isEmpty || (!q.isPrefixOf m && !m.isPrefixOf q)

lemma inert_iff : inert m t = true ↔ Inert m t := by
  simp only [inert, List.all_eq_true, List.mem_tails, Bool.or_eq_true, List.isEmpty_iff,
    Bool.and_eq_true, Bool.not_eq_true', Inert]
  constructor
  · intro h q hq hsuffix
    rcases h q hsuffix with hnil | ⟨h1, h2⟩
    · exact absurd hnil hq
    · exact ⟨fun hp => Bool.eq_false_iff.1 h1 (List.isPrefixOf_iff_prefix.2 hp),
        fun hp => Bool.eq_false_iff.1 h2 (List.isPrefixOf_iff_prefix.2 hp)⟩
  · intro h q hsuffix
    by_cases hq : q = []
    · exact .inl hq
    · obtain ⟨h1, h2⟩ := h q hq hsuffix
      refine .inr ⟨?_, ?_⟩
      · exact Bool.eq_false_iff.2 fun hp => h1 (List.isPrefixOf_iff_prefix.1 hp)
      · exact Bool.eq_false_iff.2 fun hp => h2 (List.isPrefixOf_iff_prefix.1 hp)

section
omit [DecidableEq α]

lemma Inert.tail (h : Inert m (c :: t)) : Inert m t :=
  fun q hq hsuffix => h q hq (hsuffix.trans (suffix_cons c t))

/-- No occurrence begins at the head of an inert text. -/
lemma Inert.not_prefix (h : Inert m (c :: t)) : ¬ m <+: c :: t ++ r := by
  intro hstarts
  obtain ⟨h1, h2⟩ := h (c :: t) (cons_ne_nil _ _) suffix_rfl
  rcases prefix_or_prefix_of_prefix hstarts (prefix_append (c :: t) r) with hp | hp
  · exact h2 hp
  · exact h1 hp

/-- No occurrence begins in a text that does not have the first element. -/
lemma inert_of_notMem (h : c ∉ t) : Inert (c :: m) t := by
  intro q hq hsuffix
  obtain ⟨d, q, rfl⟩ := exists_cons_of_ne_nil hq
  have hd : d ≠ c := fun heq => h (heq ▸ hsuffix.subset mem_cons_self)
  exact ⟨fun hp => hd (cons_prefix_cons.1 hp).1, fun hp => hd (cons_prefix_cons.1 hp).1.symm⟩

/-- Where the start of a marker does not begin, the marker does not. -/
lemma Inert.of_begins {m' : List α} (h : Inert m' t) (hm : m' <+: m) : Inert m t := by
  intro q hq hsuffix
  obtain ⟨h1, h2⟩ := h q hq hsuffix
  refine ⟨fun hp => ?_, fun hp => h2 (hm.trans hp)⟩
  rcases prefix_or_prefix_of_prefix hp hm with hq' | hq'
  · exact h1 hq'
  · exact h2 hq'

end

lemma cut_inert_append (h : Inert m t) : cut m (t ++ r) = (cut m r).map fun x =>
    (t ++ x.1, x.2) := by
  induction t with
  | nil => simp
  | cons c t ih =>
    have hnot : ¬ m.isPrefixOf (c :: (t ++ r)) = true :=
      fun hp => h.not_prefix (List.isPrefixOf_iff_prefix.1 hp)
    rw [cons_append, cut, if_neg hnot, ih h.tail, Option.map_map]
    rfl

lemma infix_inert_append (h : Inert m t) : m <:+: t ++ r ↔ m <:+: r := by
  rw [← not_iff_not, ← cut_eq_none_iff, ← cut_eq_none_iff, cut_inert_append h,
    Option.map_eq_none_iff]

/-! ## Barriers -/

omit [DecidableEq α] in
/-- An occurrence does not reach across an element that the marker does not have. -/
lemma not_prefix_of_barrier (hb : b ∉ m) (h : m <+: a ++ b :: r) : m <+: a := by
  rcases prefix_or_prefix_of_prefix h (prefix_append a (b :: r)) with hp | hp
  · exact hp
  · -- the marker would begin with `a` and go on with the barrier
    obtain ⟨q, rfl⟩ := hp
    rw [prefix_append_right_inj] at h
    cases q with
    | nil => simp
    | cons =>
      obtain ⟨rfl, -⟩ := cons_prefix_cons.1 h
      exact absurd (by simp) hb

lemma cut_barrier (hm : m ≠ []) (hb : b ∉ m) : cut m (a ++ b :: r) = match cut m a with
      | some (x, y) => some (x, y ++ b :: r)
      | none => (cut m r).map fun z => (a ++ b :: z.1, z.2) := by
  induction a with
  | nil =>
    have hempty : m.isEmpty = false := by simpa using hm
    have hnot : ¬ m.isPrefixOf (b :: r) = true := fun hp => by
      have := not_prefix_of_barrier (a := []) hb (List.isPrefixOf_iff_prefix.1 hp)
      exact hm (prefix_nil.1 this)
    have hcons : cut m (b :: r) = (cut m r).map fun z => (b :: z.1, z.2) := by rw [cut, if_neg hnot]
    rw [nil_append, hcons, cut, hempty]
    rfl
  | cons c a ih =>
    rw [cons_append, cut, cut]
    by_cases hstarts : m <+: c :: a
    · have hlong : m.isPrefixOf (c :: (a ++ b :: r)) = true :=
        isPrefixOf_iff_prefix.2 (hstarts.trans (prefix_append (c :: a) (b :: r)))
      rw [if_pos hlong, if_pos (List.isPrefixOf_iff_prefix.2 hstarts), ← cons_append,
        drop_append_of_le_length hstarts.length_le]
    · have hshort : ¬ m.isPrefixOf (c :: a) = true :=
        fun hp => hstarts (List.isPrefixOf_iff_prefix.1 hp)
      have hlong : ¬ m.isPrefixOf (c :: (a ++ b :: r)) = true := fun hp =>
        hstarts (not_prefix_of_barrier hb (List.isPrefixOf_iff_prefix.1 hp))
      rw [if_neg hlong, if_neg hshort, ih]
      cases cut m a with
      | none => simp [Function.comp_def]
      | some => simp

lemma infix_barrier (hm : m ≠ []) (hb : b ∉ m) : m <:+: a ++ b :: r ↔ m <:+: a ∨ m <:+: r := by
  rw [← not_iff_not, not_or, ← cut_eq_none_iff, ← cut_eq_none_iff, ← cut_eq_none_iff,
    cut_barrier hm hb]
  cases cut m a with
  | none | some => simp

/-! ## Pieces -/

/-- A piece of a text: what the program writes, or what someone has written, with what the program
writes right after it. -/
inductive Piece (α : Type)
  | fixed (t : List α)
  | written (t close : List α)
deriving DecidableEq

namespace Piece

def text : Piece α → List α
  | .fixed t => t
  | .written t close => t ++ close

/-- An occurrence of the marker does not begin in what the program writes, and does not reach into
it. -/
def Apart (m : List α) : Piece α → Prop
  | .fixed t => Inert m t
  | .written _ close => ∃ b rest, close = b :: rest ∧ b ∉ m ∧ Inert m rest

end Piece

/-- The text of the pieces. -/
def flat (ps : List (Piece α)) : List α := ps.flatMap Piece.text

/-- What others have written in it. -/
def written : List (Piece α) → List (List α)
  | [] => []
  | .fixed _ :: ps => written ps
  | .written t _ :: ps => t :: written ps

/-- What follows the first occurrence in what others have written. -/
def afterFirst (m : List α) : List (Piece α) → Option (List α)
  | [] => none
  | .fixed _ :: ps => afterFirst m ps
  | .written t close :: ps =>
      match cut m t with
      | some (_, rest) => some (rest ++ close ++ flat ps)
      | none => afterFirst m ps

variable {ps qs : List (Piece α)}

section
omit [DecidableEq α]

lemma flat_fixed (t : List α) : flat (.fixed t :: ps) = t ++ flat ps := flatMap_cons

lemma flat_written (t close : List α) :
    flat (.written t close :: ps) = t ++ (close ++ flat ps) := by
  rw [flat, flatMap_cons, Piece.text, append_assoc]
  rfl

lemma flat_append : flat (ps ++ qs) = flat ps ++ flat qs := flatMap_append

lemma written_append : written (ps ++ qs) = written ps ++ written qs := by
  induction ps with
  | nil => rfl
  | cons p ps ih =>
    cases p with
    | fixed => exact ih
    | written t => exact congrArg (t :: ·) ih

end

/-- The first occurrence is that in what others have written, or after it all. -/
lemma cut_flat_append (hm : m ≠ []) (h : ∀ p ∈ ps, p.Apart m) (r : List α) :
    (cut m (flat ps ++ r)).map Prod.snd =
      (afterFirst m ps).elim ((cut m r).map Prod.snd) fun rest => some (rest ++ r) := by
  induction ps with
  | nil => rfl
  | cons p ps ih =>
    have hps := ih fun q hq => h q (mem_cons_of_mem _ hq)
    have hp := h p mem_cons_self
    cases p with
    | fixed =>
      rw [flat_fixed, append_assoc, cut_inert_append hp, afterFirst, ← hps, Option.map_map]
      rfl
    | written t =>
      obtain ⟨b, rest, rfl, hb, hinert⟩ := hp
      rw [flat_written, append_assoc, append_assoc, cons_append, cut_barrier hm hb, afterFirst]
      cases cut m t with
      | none =>
        simp only [cut_inert_append hinert, Option.map_map, ← hps]
        rfl
      | some => simp

/-- The first occurrence is that in what others have written. -/
theorem cut_flat (hm : m ≠ []) (h : ∀ p ∈ ps, p.Apart m) :
    (cut m (flat ps)).map Prod.snd = afterFirst m ps := by
  have hnil : cut m [] = none := cut_eq_none_iff.2 fun hinfix => hm (infix_nil.1 hinfix)
  have happend := cut_flat_append hm h []
  rw [append_nil, hnil] at happend
  rw [happend]
  cases afterFirst m ps with
  | none => rfl
  | some => simp

lemma infix_flat_iff (hm : m ≠ []) (h : ∀ p ∈ ps, p.Apart m) :
    m <:+: flat ps ↔ ∃ w ∈ written ps, m <:+: w := by
  induction ps with
  | nil => simp [flat, written, infix_nil, hm]
  | cons p ps ih =>
    have hps := ih fun q hq => h q (mem_cons_of_mem _ hq)
    have hp := h p mem_cons_self
    cases p with
    | fixed =>
      rw [flat_fixed, infix_inert_append hp, hps, written]
    | written =>
      obtain ⟨b, rest, rfl, hb, hinert⟩ := hp
      rw [flat_written, cons_append, infix_barrier hm hb, infix_inert_append hinert, hps, written]
      simp

end Moov.Search
