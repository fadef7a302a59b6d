import Moov.Lib.Run

/-!
# The push broker

`sync/broker.go`.  `Notify` copies the subscriptions of the account under one lock, reads the
clock, and puts the change into the slot of each under the lock of that subscription; anything
may happen in between.  A receive in the middle of a delivery finds what was pending before it,
or nothing, so that it counts as one before the delivery.

The changes of two calls may arrive in the other order than their times
(`newer_change_overwritten`), and a subscription that has ended gets nothing more.  What holds in
every run is `delivered_is_pending`.
-/

namespace Moov.Broker

open List Option

open Run (exec)

/-- A `StateChange`, with the call of `Notify` it is from. -/
structure StateChange where
  accountID : Nat
  time : Int
  call : Nat
deriving DecidableEq

/-- A subscription: its channel of one slot, and what was sent and received so far. -/
structure Subscription where
  slot : Option StateChange
  chClosed : Bool
  closed : Bool
  cancelled : Bool
  panicked : Bool
  sent : List StateChange
  got : List StateChange
deriving DecidableEq

namespace Subscription

def new : Subscription := ⟨none, false, false, false, false, [], []⟩

/-- `select` with a send and a `default`, and whether the send was made. -/
def trySend (s : Subscription) (change : StateChange) : Subscription × Bool :=
  if s.chClosed then ({ s with panicked := true }, true)
  else if s.slot = none then ({ s with slot := some change, sent := s.sent ++ [change] }, true)
  else (s, false)

/-- `deliver`. -/
def deliver (s : Subscription) (change : StateChange) : Subscription :=
  if s.closed then s
  else if (s.trySend change).2 then (s.trySend change).1
  else (trySend { s with slot := none } change).1

/-- `finish`. -/
def finish (s : Subscription) : Subscription :=
  if s.closed then s
  else { s with closed := true, chClosed := true, panicked := s.panicked || s.chClosed }

/-- The subscriber takes what is pending. -/
def receive (s : Subscription) : Subscription :=
  { s with slot := none, got := s.got ++ s.slot.toList }

end Subscription

/-- A call under way: `Notify` past the copy of the set, `Notify` with its next subscription, and
`cancel` or `Close` with the subscriptions it has still to finish. -/
inductive Proc
  | notifying (accountID : Nat) (subs : List Nat)
  | delivering (change : StateChange) (subs : List Nat) (next : Nat)
  | finishing (subs : List Nat)
deriving DecidableEq

/-- The broker: the registered subscriptions with their accounts, and all there are or will be. -/
structure State where
  clock : Int
  closed : Bool
  registered : List (Nat × Nat)
  taken : Nat
  subs : Nat → Subscription
  procs : List Proc

def State.start : State := ⟨0, false, [], 0, fun _ => .new, []⟩

/-- What can happen.  The sets are gone through in any order. -/
inductive Action
  | subscribe (accountID : Nat)
  | cancel (i : Nat)
  | notify (accountID : Nat) (subs : List Nat)
  | close (subs : List Nat)
  | go (p : Nat)
  | receive (i : Nat)
  | tick (now : Int)
deriving DecidableEq

def State.change (s : State) (i : Nat) (f : Subscription → Subscription) : State :=
  { s with subs := Function.update s.subs i (f (s.subs i)) }

/-- The next step of a call, up to where it gives a lock back. -/
def advance (s : State) (p : Nat) : Proc → Option (State × Proc)
  | .notifying accountID subs =>
      if subs = [] then none else some (s, .delivering ⟨accountID, s.clock, p⟩ subs 0)
  | .delivering change subs next =>
      subs[next]?.map fun i => (s.change i (·.deliver change), .delivering change subs (next + 1))
  | .finishing [] => none
  | .finishing (i :: subs) => some (s.change i .finish, .finishing subs)

def step (s : State) : Action → Option State
  | .subscribe accountID =>
      if s.closed then
        some { s.change s.taken fun sub => { sub.finish with cancelled := true } with
          taken := s.taken + 1 }
      else some { s with registered := (accountID, s.taken) :: s.registered, taken := s.taken + 1 }
  | .cancel i =>
      if s.taken ≤ i then none
      else if (s.subs i).cancelled then some s
      else some { s.change i fun sub => { sub with cancelled := true } with
        registered := s.registered.filter fun e => e.2 ≠ i
        procs := s.procs ++ [.finishing [i]] }
  | .notify accountID subs =>
      if s.closed then some s
      else if subs.isPerm ((s.registered.filter fun e => e.1 = accountID).map (·.2)) then
        some { s with procs := s.procs ++ [.notifying accountID subs] }
      else none
  | .close subs =>
      if s.closed then some s
      else if subs.isPerm (s.registered.map (·.2)) then
        some { s with closed := true, registered := [], procs := s.procs ++ [.finishing subs] }
      else none
  | .go p =>
      match s.procs[p]? with
      | none => none
      | some q => (advance s p q).map fun r => { r.1 with procs := r.1.procs.set p r.2 }
  | .receive i => if (s.subs i).slot = none then none else some (s.change i .receive)
  | .tick now => if s.clock ≤ now then some { s with clock := now } else none

/-! ## One subscription -/

/-- No send or close was on a closed channel, and what was sent last is pending or received. -/
structure Subscription.Ok (s : Subscription) : Prop where
  calm : s.panicked = false
  shut : s.chClosed = s.closed
  last : s.sent.getLast? = s.slot ∨ s.slot = none ∧ ∀ c ∈ s.sent.getLast?, c ∈ s.got

/-- A later state of a subscription: in order, not opened again, and nothing is forgotten. -/
structure Later (s s' : Subscription) : Prop where
  ok : s'.Ok
  closed : s.closed = true → s'.closed = true
  sent : ∀ c ∈ s.sent, c ∈ s'.sent

variable {c : StateChange} {s s' : State} {sub : Subscription} {i : Nat}
  {f : Subscription → Subscription}

lemma Subscription.Ok.later_refl (h : sub.Ok) : Later sub sub := ⟨h, id, fun _ => id⟩

/-- A delivery to a subscription that is open fills the slot. -/
lemma Subscription.Ok.deliver_eq (h : sub.Ok) (hopen : sub.closed = false) :
    sub.deliver c = { sub with slot := some c, sent := sub.sent ++ [c] } := by
  have hch : sub.chClosed = false := h.shut.trans hopen
  cases hslot : sub.slot <;> simp [deliver, trySend, hopen, hch, hslot]

lemma Subscription.Ok.deliver (h : sub.Ok) (c : StateChange) :
    Later sub (sub.deliver c) ∧ ((sub.deliver c).closed = true ∨ c ∈ (sub.deliver c).sent) := by
  cases hopen : sub.closed with
  | true =>
    rw [Subscription.deliver, if_pos hopen]
    exact ⟨h.later_refl, .inl hopen⟩
  | false =>
    rw [h.deliver_eq hopen]
    refine ⟨⟨⟨h.calm, h.shut, .inl ?_⟩, id, fun _ => mem_append_left _⟩, .inr ?_⟩
    · exact getLast?_concat
    · exact mem_append_right _ mem_cons_self

lemma Subscription.Ok.finish (h : sub.Ok) : Later sub sub.finish := by
  unfold Subscription.finish
  split
  · exact h.later_refl
  · next hopen =>
    have hch : sub.chClosed = false := h.shut.trans (eq_false_of_ne_true hopen)
    exact ⟨⟨by simp [h.calm, hch], rfl, h.last⟩, fun _ => rfl, fun _ => id⟩

lemma Subscription.Ok.receive (h : sub.Ok) : Later sub sub.receive := by
  refine ⟨⟨h.calm, h.shut, .inr ⟨rfl, fun c hc => ?_⟩⟩, id, fun _ => id⟩
  rcases h.last with hlast | ⟨-, hgot⟩
  · have hc : c ∈ sub.slot := hlast ▸ hc
    exact mem_append_right _ (mem_toList.2 hc)
  · exact mem_append_left _ (hgot c hc)

/-! ## Runs -/

/-- The subscriptions a call has gone past have ended or were sent its change. -/
def Proc.Told (subs : Nat → Subscription) : Proc → Prop
  | .delivering c is next => ∀ i ∈ is.take next, (subs i).closed = true ∨ c ∈ (subs i).sent
  | _ => True

structure Inv (s : State) : Prop where
  subs : ∀ i, (s.subs i).Ok
  told : ∀ q ∈ s.procs, q.Told s.subs

lemma Proc.Told.later {q : Proc} (h : q.Told s.subs)
    (hl : ∀ i, Later (s.subs i) (s'.subs i)) : q.Told s'.subs := by
  cases q with
  | delivering c is next => exact fun i hi => (h i hi).imp (hl i).closed ((hl i).sent c)
  | _ => trivial

lemma later_change (h : Inv s) (hf : Later (s.subs i) (f (s.subs i))) (j : Nat) :
    Later (s.subs j) ((s.change i f).subs j) := by
  by_cases hj : j = i
  · subst hj
    simpa [State.change] using hf
  · simpa [State.change, hj] using (h.subs j).later_refl

/-- What a step has to show: the subscriptions are later ones, and so is what calls have told. -/
lemma Inv.of_later (h : Inv s) (hl : ∀ i, Later (s.subs i) (s'.subs i))
    (hp : ∀ q ∈ s'.procs, q ∈ s.procs ∨ q.Told s'.subs) : Inv s' :=
  ⟨fun i => (hl i).ok, fun q hq => (hp q hq).elim (fun hold => (h.told q hold).later hl) id⟩

/-- The next step of a call. -/
lemma Inv.advance (h : Inv s) {p : Nat} {q q' : Proc} (hq : q.Told s.subs)
    (hadv : Broker.advance s p q = some (s', q')) :
    (∀ i, Later (s.subs i) (s'.subs i)) ∧ s'.procs = s.procs ∧ q'.Told s'.subs := by
  have hsame := fun i => (h.subs i).later_refl
  cases q with
  | notifying accountID subs =>
    obtain ⟨-, ⟨⟩⟩ := ite_none_left_eq_some.1 hadv
    exact ⟨hsame, rfl, fun i hi => absurd hi (by simp)⟩
  | delivering c is next =>
    obtain ⟨i, hi, ⟨⟩⟩ := map_eq_some_iff.1 hadv
    obtain ⟨hlater, htold⟩ := (h.subs i).deliver c
    have hl := later_change h (f := (·.deliver c)) hlater
    refine ⟨hl, rfl, fun j hj => ?_⟩
    rw [take_add_one, hi] at hj
    rcases mem_append.1 hj with hj | hj
    · exact hq.later hl j hj
    · rw [mem_singleton.1 hj]
      simpa [State.change] using htold
  | finishing is =>
    cases is with
    | nil => cases hadv
    | cons i is =>
      cases hadv
      exact ⟨later_change h (h.subs i).finish, rfl, trivial⟩

lemma Inv.step {a : Action} (h : Inv s) (hs : Broker.step s a = some s') : Inv s' := by
  have hsame := fun i => (h.subs i).later_refl
  cases a with
  | subscribe accountID =>
    simp only [Broker.step] at hs
    split at hs <;> cases hs
    · have hfinish := (h.subs s.taken).finish
      refine h.of_later
        (later_change h (f := fun sub => { sub.finish with cancelled := true }) ?_) fun _ => .inl
      exact { hfinish with ok := { hfinish.ok with } }
    · exact h.of_later hsame fun _ => .inl
  | cancel i =>
    obtain ⟨-, hs⟩ := ite_none_left_eq_some.1 hs
    split at hs <;> cases hs
    · exact h
    · have hi := h.subs i
      refine h.of_later (later_change h (f := fun sub => { sub with cancelled := true }) ?_)
        (Run.forall_mem_concat (fun _ => .inl) (.inr trivial))
      exact ⟨{ hi with }, id, fun _ => id⟩
  | notify | close =>
    simp only [Broker.step] at hs
    split at hs
    · cases hs
      exact h
    · obtain ⟨-, ⟨⟩⟩ := ite_none_right_eq_some.1 hs
      exact h.of_later hsame (Run.forall_mem_concat (fun _ => .inl) (.inr trivial))
  | go p =>
    simp only [Broker.step] at hs
    split at hs
    · cases hs
    · next q hq =>
      obtain ⟨⟨s₁, q'⟩, hadv, rfl⟩ := map_eq_some_iff.1 hs
      obtain ⟨hl, hprocs, htold⟩ := h.advance (h.told q (mem_of_getElem? hq)) hadv
      refine h.of_later hl (Run.forall_mem_set (fun x hx => .inl (hprocs ▸ hx)) (.inr htold))
  | receive i =>
    obtain ⟨-, ⟨⟩⟩ := ite_none_left_eq_some.1 hs
    exact h.of_later (later_change h (h.subs i).receive) fun _ => .inl
  | tick now =>
    obtain ⟨-, ⟨⟩⟩ := ite_none_right_eq_some.1 hs
    exact h.of_later hsame fun _ => .inl

/-- **Deliveries.**  In every run no send is on a closed channel; of what was sent to a
subscription, a change is received or pending, or one that was sent after it is; and a
subscription that `Notify` found has ended or was sent its change once the call is past it. -/
theorem delivered_is_pending {as : List Action} (hrun : exec step .start as = some s) :
    (∀ i, (s.subs i).panicked = false) ∧
    (∀ i before c after, (s.subs i).sent = before ++ c :: after →
      ∃ w ∈ c :: after, (s.subs i).slot = some w ∨ w ∈ (s.subs i).got) ∧
    ∀ c is next, .delivering c is next ∈ s.procs → ∀ i ∈ is.take next,
      (s.subs i).closed = true ∨ c ∈ (s.subs i).sent := by
  have hinv : Inv s := Run.inv_exec (G := fun _ _ => True) (fun _ _ _ _ h hs => h.step hs)
    ⟨fun _ => ⟨rfl, rfl, .inl rfl⟩, forall_mem_nil _⟩
    (Run.guarded_of_forall fun _ _ => trivial) hrun
  refine ⟨fun i => (hinv.subs i).calm, fun i before c after hsent => ?_,
    fun c is next hp => hinv.told _ hp⟩
  have hlast : (s.subs i).sent.getLast? = (c :: after).getLast? := by
    rw [hsent, getLast?_append_cons]
  rw [getLast?_eq_some_getLast (cons_ne_nil c after)] at hlast
  refine ⟨_, getLast_mem (cons_ne_nil c after), ?_⟩
  rcases (hinv.subs i).last with hslot | ⟨-, hgot⟩
  · exact .inl (hslot.symm.trans hlast)
  · exact .inr (hgot _ hlast)

/-- Two calls read the clock at `1` and at `2`; the second delivers first, and the subscriber then
receives the change of the first. -/
def crossing : List Action :=
  [.subscribe 7, .notify 7 [0], .notify 7 [0], .tick 1, .go 0, .tick 2, .go 1, .go 1, .go 0,
    .receive 0]

theorem delivered_is_pending_crossing :
    ∃ s, exec step .start crossing = some s ∧ (s.subs 0).sent = [⟨7, 2, 1⟩, ⟨7, 1, 0⟩] ∧
      (s.subs 0).panicked = false := by
  obtain ⟨s, hs, hsent⟩ := Run.exists_exec (p := fun s => (s.subs 0).sent = [⟨7, 2, 1⟩, ⟨7, 1, 0⟩])
    (show (exec step .start crossing).any _ = true by decide +kernel)
  exact ⟨s, hs, hsent, (delivered_is_pending hs).1 0⟩

/-- Both calls are through and nothing is pending, and the change of time `2` was never received. -/
theorem newer_change_overwritten : ∃ s, exec step .start crossing = some s ∧
      s.procs = [.delivering ⟨7, 1, 0⟩ [0] 1, .delivering ⟨7, 2, 1⟩ [0] 1] ∧
      (s.subs 0).closed = false ∧ (s.subs 0).slot = none ∧ (s.subs 0).got = [⟨7, 1, 0⟩] :=
  Run.exists_exec (by decide +kernel)

end Moov.Broker
