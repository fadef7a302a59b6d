import Mathlib.Data.List.AList
import Mathlib.Data.List.Sort
import Moov.Lib.Run

/-!
# One pass for a burst of events

The watcher's `debouncer` keeps, for each mailbox with events not yet acted on, when the burst
began and when it last grew, and one timer for the soonest of their deadlines.  What it is for
is said by `State.waiting`: the touches of a mailbox that no `take` has answered and no `reset`
has dropped.  `touched_until_taken` has what the two have to do with each other.
-/

namespace Moov.Debounce

open List

variable {Name : Type}

/-! ## The debouncer -/

/-- One mailbox waiting for its burst to settle.  Times are nanoseconds since Go's zero time. -/
structure PendingMailbox where
  first : Nat
  last : Nat

/-- When the mailbox becomes due. -/
def PendingMailbox.deadline (p : PendingMailbox) (quiet maxWait : Nat) : Nat :=
  let settle := p.last + quiet
  let limit := p.first + maxWait
  if limit < settle then limit else settle

/-- The timer is the time it fires at. -/
structure Debouncer (Name : Type) where
  quiet : Nat
  maxWait : Nat
  pending : AList fun _ : Name => PendingMailbox
  timer : Option Nat

namespace Debouncer

def new (quiet maxWait : Nat) : Debouncer Name := ⟨quiet, maxWait, ∅, none⟩

/-- The deadlines in the order the map is walked in. -/
def deadlines (d : Debouncer Name) : List Nat :=
  d.pending.entries.map (·.2.deadline d.quiet d.maxWait)

/-- The loop of `arm`: the zero time stands for "none yet". -/
def sooner (earliest dl : Nat) : Nat := if earliest = 0 ∨ dl < earliest then dl else earliest

/-- `arm`, with `now` its own reading of the clock; a wait below zero is zero. -/
def arm (d : Debouncer Name) (now : Nat) : Debouncer Name :=
  { d with timer :=
      if d.deadlines = [] then none else some (now + (d.deadlines.foldl sooner 0 - now)) }

/-- From a real time on, the zero time plays no part. -/
lemma foldl_sooner {dls : List Nat} {e : Nat} (he : 0 < e) (hpos : ∀ dl ∈ dls, 0 < dl) :
    dls.foldl sooner e = dls.foldl min e := by
  induction dls generalizing e with
  | nil => rfl
  | cons dl dls ih =>
    obtain ⟨hdl, hpos⟩ := forall_mem_cons.1 hpos
    have hnext : sooner e dl = min e dl := by
      unfold sooner
      split <;> omega
    rw [foldl_cons, hnext, ih (by omega) hpos, foldl_cons]

/-- The timer is set for the soonest deadline or, when that has passed, for now. -/
lemma arm_timer {d : Debouncer Name} {now : Nat} (hpos : ∀ dl ∈ d.deadlines, 0 < dl) :
    (d.arm now).timer = d.deadlines.min?.map (max now) := by
  cases hdls : d.deadlines with
  | nil => simp [arm, hdls]
  | cons dl dls =>
    rw [hdls] at hpos
    obtain ⟨hdl, hpos⟩ := forall_mem_cons.1 hpos
    simp only [arm, hdls, reduceCtorEq, if_false, foldl_cons, sooner, true_or, if_true, min?_cons',
      foldl_sooner hdl hpos, Option.map_some, Option.some.injEq]
    omega

end Debouncer

variable [LinearOrder Name]

namespace Debouncer

/-- `touch` reads the clock at `now`, and `arm` reads it again at `armed`. -/
def touch (d : Debouncer Name) (mailbox : Name) (now armed : Nat) : Debouncer Name :=
  let p := (d.pending.lookup mailbox).getD ⟨now, now⟩
  { d with pending := d.pending.insert mailbox { p with last := now } }.arm armed

/-- The mailboxes `take` finds due, in the order of the map. -/
def due (d : Debouncer Name) (now : Nat) : List Name :=
  (d.pending.entries.filter (·.2.deadline d.quiet d.maxWait ≤ now)).map (·.1)

def take (d : Debouncer Name) (now armed : Nat) : List Name × Debouncer Name :=
  let pending := (d.due now).foldl (fun pending name => pending.erase name) d.pending
  ((d.due now).insertionSort (· ≤ ·), { d with pending, timer := none }.arm armed)

def reset (d : Debouncer Name) : Debouncer Name := { d with pending := ∅, timer := none }

end Debouncer

/-! ## Sequences of calls -/

inductive Op (Name : Type)
  | touch (mailbox : Name)
  | take
  | reset
  | wait
  deriving DecidableEq

/-- A call and the time it takes, which is between the two readings of the clock if it has two. -/
abbrev Call (Name : Type) := Op Name × Nat

/-- A debouncer with the times of the touches that wait. -/
structure State (Name : Type) where
  debouncer : Debouncer Name
  clock : Nat
  waiting : Name → List Nat

namespace State

def start (quiet maxWait clock : Nat) : State Name := ⟨.new quiet maxWait, clock, fun _ => []⟩

/-- What a call returns. -/
def returns (s : State Name) : Op Name → List Name
  | .take => (s.debouncer.take s.clock s.clock).1
  | _ => []

/-- A `reset` drops all touches, and a `take` answers those of the mailboxes it returns. -/
def waitingAfter (s : State Name) (op : Op Name) (m : Name) : List Nat :=
  if op = .reset ∨ m ∈ s.returns op then []
  else if op = .touch m then s.waiting m ++ [s.clock] else s.waiting m

def after (s : State Name) (c : Call Name) : State Name where
  debouncer := match c.1 with
    | .touch m => s.debouncer.touch m s.clock (s.clock + c.2)
    | .take => (s.debouncer.take s.clock (s.clock + c.2)).2
    | .reset => s.debouncer.reset
    | .wait => s.debouncer
  clock := s.clock + c.2
  waiting := s.waitingAfter c.1

def run (s : State Name) (calls : List (Call Name)) : State Name := calls.foldl after s

/-- Somewhere in the calls a `take` returns the mailbox or a `reset` drops it. -/
def Ends (m : Name) : State Name → List (Call Name) → Prop
  | _, [] => False
  | s, c :: later => (c.1 = .reset ∨ m ∈ s.returns c.1) ∨ (s.after c).Ends m later

end State

/-! ## What is waiting is what is pending -/

open State Debouncer

/-- The entry a burst of touches leaves. -/
def burst : List Nat → Option PendingMailbox
  | [] => none
  | first :: rest => some ⟨first, rest.getLastD first⟩

/-- When a burst has settled: `quiet` after its last touch, or `maxWait` after its first. -/
def settles (quiet maxWait : Nat) (touches : List Nat) : Option Nat :=
  (burst touches).map fun p => min (p.last + quiet) (p.first + maxWait)

lemma PendingMailbox.deadline_eq (p : PendingMailbox) (quiet maxWait : Nat) :
    p.deadline quiet maxWait = min (p.last + quiet) (p.first + maxWait) := by
  simp only [deadline]
  split <;> omega

lemma burst_concat (touches : List Nat) (now : Nat) :
    burst (touches ++ [now]) = some { (burst touches).getD ⟨now, now⟩ with last := now } := by
  cases touches <;> simp [burst]

lemma lookup_foldl_erase (m : Name) (names : List Name)
    (pending : AList fun _ : Name => PendingMailbox) :
    (names.foldl (fun pending name => pending.erase name) pending).lookup m =
      if m ∈ names then none else pending.lookup m := by
  induction names generalizing pending with
  | nil => rfl
  | cons name names ih =>
    rw [foldl_cons, ih]
    by_cases h : m = name
    · subst h
      simp
    · simp [h, AList.lookup_erase_ne h]

variable {quiet maxWait clock : Nat} {s : State Name} {m : Name}

/-- What holds between calls of a debouncer made with `quiet` and `maxWait`. -/
structure Inv (quiet maxWait : Nat) (s : State Name) : Prop where
  quiet : s.debouncer.quiet = quiet
  maxWait : s.debouncer.maxWait = maxWait
  clock : 0 < s.clock
  touched : ∀ m, ∀ t ∈ s.waiting m, 0 < t ∧ t ≤ s.clock
  pending : ∀ m, s.debouncer.pending.lookup m = burst (s.waiting m)
  armed : ∃ now ≤ s.clock, s.debouncer.timer = (s.debouncer.arm now).timer

namespace Inv

lemma start (hclock : 0 < clock) : Inv quiet maxWait (.start quiet maxWait clock : State Name) :=
  ⟨rfl, rfl, hclock, fun _ _ ht => (not_mem_nil ht).elim, fun _ => rfl, 0, Nat.zero_le _, rfl⟩

variable (h : Inv quiet maxWait s)
include h

lemma after (c : Call Name) : Inv quiet maxWait (s.after c) := by
  obtain ⟨op, e⟩ := c
  have hclock : 0 < s.clock + e := Nat.add_pos_left h.clock e
  have htouched : ∀ m, ∀ t ∈ s.waitingAfter op m, 0 < t ∧ t ≤ s.clock + e := by
    intro m t ht
    have hold : ∀ t ∈ s.waiting m, 0 < t ∧ t ≤ s.clock + e := fun t ht =>
      ⟨(h.touched m t ht).1, Nat.le_add_right_of_le (h.touched m t ht).2⟩
    unfold waitingAfter at ht
    split at ht
    · cases ht
    split at ht
    · exact Run.forall_mem_concat hold ⟨h.clock, Nat.le_add_right ..⟩ t ht
    · exact hold t ht
  cases op with
  | touch mailbox =>
    refine ⟨h.quiet, h.maxWait, hclock, htouched, fun m => ?_, _, le_rfl, rfl⟩
    rcases eq_or_ne m mailbox with rfl | hm
    · simp [State.after, touch, arm, waitingAfter, returns, burst_concat, h.pending]
    · simp [State.after, touch, arm, waitingAfter, returns, hm, hm.symm, h.pending]
  | take =>
    refine ⟨h.quiet, h.maxWait, hclock, htouched, fun m => ?_, _, le_rfl, rfl⟩
    simp only [State.after, waitingAfter, returns, Debouncer.take, arm,
      lookup_foldl_erase, h.pending, mem_insertionSort, reduceCtorEq, false_or, if_false]
    split <;> rfl
  | reset => exact ⟨h.quiet, h.maxWait, hclock, htouched, fun _ => rfl, 0, Nat.zero_le _, rfl⟩
  | wait =>
    obtain ⟨now, hnow, htimer⟩ := h.armed
    refine ⟨h.quiet, h.maxWait, hclock, htouched, fun m => ?_, now,
      Nat.le_add_right_of_le hnow, htimer⟩
    simpa [State.after, waitingAfter, returns] using h.pending m

lemma run (calls : List (Call Name)) : Inv quiet maxWait (s.run calls) :=
  foldlRecOn calls _ h fun _ hs c _ => hs.after c

lemma mem_returns : m ∈ s.returns .take ↔
    ∃ dl, settles quiet maxWait (s.waiting m) = some dl ∧ dl ≤ s.clock := by
  simp [returns, Debouncer.take, due, Sigma.exists, ← AList.mem_lookup_iff,
    PendingMailbox.deadline_eq, settles, h.pending, h.quiet, h.maxWait]

lemma mem_deadlines {dl : Nat} :
    dl ∈ s.debouncer.deadlines ↔ ∃ m, settles quiet maxWait (s.waiting m) = some dl := by
  simp [deadlines, Sigma.exists, ← AList.mem_lookup_iff,
    PendingMailbox.deadline_eq, settles, h.pending, h.quiet, h.maxWait]

/-- The timer, as the last `arm` left it. -/
lemma timer : ∃ now ≤ s.clock, s.debouncer.timer = s.debouncer.deadlines.min?.map (max now) := by
  obtain ⟨now, hnow, htimer⟩ := h.armed
  refine ⟨now, hnow, htimer.trans (arm_timer fun dl hdl => ?_)⟩
  obtain ⟨m, hm⟩ := h.mem_deadlines.1 hdl
  cases hw : s.waiting m with
  | nil => simp [hw, settles, burst] at hm
  | cons first rest =>
    have hpos := fun t ht => (h.touched m t ht).1
    rw [hw] at hm hpos
    cases hm
    have := hpos _ (getLastD_mem_cons (l := rest))
    have := hpos first mem_cons_self
    show 0 < min (rest.getLastD first + quiet) (first + maxWait)
    omega

end Inv

/-! ## Every touch is answered once -/

/-- Until then the burst keeps its first touch, so a `take` past the limit returns it. -/
lemma ends_of_limit {e first : Nat} (later : List (Call Name)) (h : Inv quiet maxWait s)
    (hfirst : (s.waiting m).head? = some first)
    (hlimit : first + maxWait ≤ (s.run later).clock) :
    s.Ends m (later ++ [(.take, e)]) := by
  induction later generalizing s with
  | nil =>
    obtain ⟨rest, hw⟩ := head?_eq_some_iff.1 hfirst
    refine .inl (.inr (h.mem_returns.2 ⟨_, by rw [hw]; rfl, ?_⟩))
    exact (Nat.min_le_right ..).trans hlimit
  | cons c later ih =>
    by_cases hend : c.1 = .reset ∨ m ∈ s.returns c.1
    · exact .inl hend
    refine .inr (ih (h.after c) ?_ hlimit)
    simp only [State.after, waitingAfter, if_neg hend]
    split <;> simp [hfirst]

lemma waiting_eq_nil {later : List (Call Name)} (hs : s.waiting m = [])
    (hlater : ∀ c ∈ later, c.1 ≠ .touch m) : (s.run later).waiting m = [] := by
  refine foldlRecOn (motive := fun s : State Name => s.waiting m = []) later _ hs
    fun t ht c hc => ?_
  simp [State.after, waitingAfter, hlater c hc, ht]

/-- After any calls: the timer is set exactly when a touch waits, for the soonest settling or at
once; a `take` returns the mailboxes that have settled, each once and in order; a touch is
returned by a `take` at its limit or later unless one did so before, or a `reset` dropped it;
and a mailbox is not returned again before it is touched again. -/
theorem touched_until_taken {calls : List (Call Name)} (hclock : 0 < clock)
    (hs : State.run (.start quiet maxWait clock) calls = s) :
    (s.debouncer.timer = none ↔ ∀ m, s.waiting m = []) ∧ (∀ fire, s.debouncer.timer = some fire →
        ∃ m soonest, settles quiet maxWait (s.waiting m) = some soonest ∧
          (∀ m' dl, settles quiet maxWait (s.waiting m') = some dl → soonest ≤ dl) ∧
          soonest ≤ fire ∧ fire ≤ max soonest s.clock) ∧
      ((s.returns .take).Pairwise (· < ·) ∧ ∀ m, m ∈ s.returns .take ↔
        ∃ dl, settles quiet maxWait (s.waiting m) = some dl ∧ dl ≤ s.clock) ∧
      (∀ m e, ∃ first ≤ s.clock, ((s.after (.touch m, e)).waiting m).head? = some first ∧
        ∀ later, first + maxWait ≤ ((s.after (.touch m, e)).run later).clock →
          ∀ e', (s.after (.touch m, e)).Ends m (later ++ [(.take, e')])) ∧
      ∀ m ∈ s.returns .take, ∀ e later, (∀ c ∈ later, c.1 ≠ .touch m) →
        m ∉ ((s.after (.take, e)).run later).returns .take := by
  have hinv : Inv quiet maxWait s := by
    rw [← hs]
    exact (Inv.start hclock).run calls
  obtain ⟨now, hnow, htimer⟩ := hinv.timer
  refine ⟨?_, fun fire hfire => ?_, ⟨?_, fun m => hinv.mem_returns⟩, fun m e => ?_,
    fun m hm e later hlater hm' => ?_⟩
  · rw [htimer, Option.map_eq_none_iff, min?_eq_none_iff, eq_nil_iff_forall_not_mem]
    simp only [hinv.mem_deadlines, not_exists]
    refine ⟨fun hempty m => ?_, fun hempty dl m hdl => ?_⟩
    · cases hw : s.waiting m with
      | nil => rfl
      | cons => exact (hempty _ m (by rw [hw]; rfl)).elim
    · rw [hempty m] at hdl
      cases hdl
  · rw [htimer] at hfire
    obtain ⟨soonest, hmin, rfl⟩ := Option.map_eq_some_iff.1 hfire
    obtain ⟨hmem, hleast⟩ := min?_eq_some_iff.1 hmin
    obtain ⟨m, hm⟩ := hinv.mem_deadlines.1 hmem
    exact ⟨m, soonest, hm, fun m' dl hdl => hleast dl (hinv.mem_deadlines.2 ⟨m', hdl⟩), by omega⟩
  · have hnodup : (s.debouncer.due s.clock).Nodup :=
      s.debouncer.pending.keys_nodup.sublist (filter_sublist.map _)
    have hperm := perm_insertionSort (· ≤ ·) (s.debouncer.due s.clock)
    exact (pairwise_insertionSort (· ≤ ·) _).imp₂ (fun _ _ => lt_of_le_of_ne)
      (hperm.nodup_iff.2 hnodup)
  · have hfirst : ((s.after (.touch m, e)).waiting m).head? =
        some ((s.waiting m).head?.getD s.clock) := by
      simp [State.after, waitingAfter, returns]
    refine ⟨_, ?_, hfirst, fun later hlimit e' =>
      ends_of_limit later (hinv.after _) hfirst hlimit⟩
    cases hw : s.waiting m with
    | nil => exact le_rfl
    | cons first => exact (hinv.touched m first (by simp [hw])).2
  · have hempty : (s.after (.take, e)).waiting m = [] := if_pos (.inr hm)
    obtain ⟨dl, hdl, -⟩ := ((hinv.after _).run later).mem_returns.1 hm'
    rw [waiting_eq_nil hempty hlater] at hdl
    cases hdl

theorem touched_until_taken_settled :
    (0 : Nat) ∈ (State.run (.start 1 2 1) [(.touch 0, 1)]).returns .take :=
  ((touched_until_taken (by decide) rfl).2.2.1.2 0).2 ⟨2, by decide +kernel⟩

/-- A `reset` between the touch and the only `take`, which then has nothing to return. -/
theorem touch_dropped_by_reset :
    (State.run (.start 1 2 1) [(.touch (0 : Nat), 0), (.reset, 5)]).returns .take = [] := by
  decide +kernel

end Moov.Debounce
