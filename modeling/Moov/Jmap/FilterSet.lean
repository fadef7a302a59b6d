import Mathlib.Data.List.Perm.Basic
import Moov.Lib.Run
import Moov.Sieve.Model

/-!
# Two `FilterRule/set` requests

`handleFilterRuleSet` (`jmap/mail/filters.go`) over `FiltersState`, `GetFilters` and `PutFilters`
(`jmap/mail/sieve_adapter.go`), cut at these calls.  A request reads the state, then the rules, and
then puts the list that it has computed from what it read.

* `careful` — when a request puts, the filters are still those that it read;
* `serial_of_careful` — then two requests with one `ifInState` do not both change the rules, and
  what they put is what one after the other would have;
* `create_is_lost` — two requests that overlap.
-/

namespace Moov.FilterSet

open Moov.Sieve (Rule ForwardAll)
open Run (exec Guarded)

/-- What `FiltersState` is the digest of. -/
structure Filters where
  rules : List Rule
  forwardAll : Option ForwardAll
  active : Bool
deriving DecidableEq

/-- The arguments of a request, with what `decodeFilterRule` makes of an object or of a patch, or
`none` where it refuses it; a rule to create has the id that it is given. -/
structure SetRequest (State : Type) where
  ifInState : Option State
  create : List (Option Rule)
  update : List (List Char × (Rule → Option Rule))
  destroy : List (List Char)

/-- What the loops of a request leave. -/
structure Outcome where
  rules : List Rule
  dirty : Bool

def ruleIndex (rules : List Rule) (id : List Char) : Option Nat := rules.findIdx? fun r => r.id = id

def Outcome.create (o : Outcome) : Option Rule → Outcome
  | none => o
  | some r => ⟨o.rules ++ [r], true⟩

def Outcome.update (o : Outcome) (x : List Char × (Rule → Option Rule)) : Outcome :=
  match ruleIndex o.rules x.1 with
  | none => o
  | some i =>
      match o.rules[i]?.bind x.2 with
      | none => o
      | some r => ⟨o.rules.set i { r with id := x.1 }, true⟩

def Outcome.destroy (o : Outcome) (id : List Char) : Outcome :=
  match ruleIndex o.rules id with
  | none => o
  | some i => ⟨o.rules.eraseIdx i, true⟩

/-! ## The calls -/

inductive Phase
  | waiting
  | checked
  | read (rules : List Rule) (forwardAll : Option ForwardAll)
  | refused
  /-- Accepted, with nothing to put. -/
  | clean
  /-- Its list was put, and `changed` the rules; `accepted` unless a later call failed. -/
  | stored (accepted changed : Bool)
deriving DecidableEq

/-- How `PutFilters` ends, and the request: the script is refused, or it is stored and a later call
fails, or all is well. -/
inductive Put
  | refused
  | stored (activated : Bool)
  | done
deriving DecidableEq

structure Requests where
  filters : Filters
  phase : Bool → Phase

inductive Action
  | state (b : Bool)
  | rules (b : Bool)
  | put (b : Bool) (r : Put)
  | fail (b : Bool)

variable {State : Type} [DecidableEq State] (digest : Filters → State) (q : Bool → SetRequest State)

def SetRequest.run (q : SetRequest State) (rules : List Rule) : Outcome :=
  q.destroy.foldl .destroy (q.update.foldl .update (q.create.foldl .create ⟨rules, false⟩))

def Requests.go (w : Requests) (b : Bool) (p : Phase) : Requests :=
  { w with phase := Function.update w.phase b p }

def Requests.store (w : Requests) (b : Bool) (rules : List Rule) (forwardAll : Option ForwardAll)
    (active accepted : Bool) : Requests :=
  { w.go b (.stored accepted (rules ≠ w.filters.rules)) with
    filters := ⟨rules, forwardAll.filter fun f => f.enabled || !f.address.isEmpty, active⟩ }

def step (w : Requests) : Action → Option Requests
  | .state b =>
      match w.phase b with
      | .waiting =>
          some (w.go b (if (q b).ifInState.all (· = digest w.filters) then .checked else .refused))
      | _ => none
  | .rules b =>
      match w.phase b with
      | .checked => some (w.go b (.read w.filters.rules w.filters.forwardAll))
      | _ => none
  | .put b r =>
      match w.phase b with
      | .read rules forwardAll =>
          let o := (q b).run rules
          if o.dirty then
            match r with
            | .refused => some (w.go b .refused)
            | .stored activated =>
                some (w.store b o.rules forwardAll (w.filters.active || activated) false)
            | .done => some (w.store b o.rules forwardAll true true)
          else some (w.go b (if r = .done then .clean else .refused))
      | _ => none
  | .fail b =>
      match w.phase b with
      | .waiting | .checked | .read _ _ => some (w.go b .refused)
      | _ => none

/-- When a request puts, the rules are the ones it has read, and the state the one it was asked
for. -/
def careful (w : Requests) : Action → Bool
  | .put b _ =>
      match w.phase b with
      | .read rules _ => rules = w.filters.rules && (q b).ifInState.all (· = digest w.filters)
      | _ => true
  | _ => true

/-! ## One request after the other -/

def Phase.put : Phase → Bool
  | .stored _ _ => true
  | _ => false

/-- It is accepted with changes. -/
def Phase.changes : Phase → Bool
  | .stored accepted changed => accepted && changed
  | _ => false

/-- The rules are those that the requests with a put make, one after the other. -/
def Serial (start : List Rule) (w : Requests) : Prop :=
  ∃ order : List Bool, order.Nodup ∧ (∀ b, b ∈ order ↔ (w.phase b).put = true) ∧
    w.filters.rules = order.foldl (fun rules b => ((q b).run rules).rules) start

structure Inv (start : List Rule) (w : Requests) : Prop where
  serial : Serial q start w
  once : ∀ s, (∀ b, (q b).ifInState = some s) → ∀ b, (w.phase b).changes = true →
    digest w.filters ≠ s ∧ (w.phase !b).changes = false

variable {digest q} {start : List Rule} {w w' : Requests} {b : Bool} {p : Phase}

lemma phase_go (w : Requests) (b c : Bool) (p : Phase) :
    (w.go b p).phase c = if c = b then p else w.phase c := by
  simp [Requests.go, Function.update_apply]

omit [DecidableEq State] in
/-- A request goes on without a put. -/
lemma Inv.stay (h : Inv digest q start w) (hb : (w.phase b).put = false) (hp : p.put = false) :
    Inv digest q start (w.go b p) := by
  have hc : ∀ {p : Phase}, p.put = false → p.changes = false := by
    rintro (_ | _ | _ | _ | _ | _) h <;> first | rfl | cases h
  have hsame : ∀ {g : Phase → Bool}, g p = g (w.phase b) → ∀ c, g ((w.go b p).phase c) =
    g (w.phase c) := by
    intro g hg c
    rw [phase_go]
    split
    · next he => rw [he, hg]
    · rfl
  obtain ⟨order, hnd, hmem, hrules⟩ := h.serial
  refine ⟨⟨order, hnd, fun c => ?_, hrules⟩, fun s hs c => ?_⟩
  · rw [hsame (hp.trans hb.symm), hmem]
  · rw [hsame ((hc hp).trans (hc hb).symm), hsame ((hc hp).trans (hc hb).symm)]
    exact h.once s hs c

/-- A request puts the rules that it has made of the stored ones. -/
lemma Inv.store (hd : Function.Injective digest) (h : Inv digest q start w)
    (hb : (w.phase b).put = false) (hfit : (q b).ifInState.all (· = digest w.filters) = true)
    (forwardAll : Option ForwardAll) (active accepted : Bool) :
    Inv digest q start
      (w.store b ((q b).run w.filters.rules).rules forwardAll active accepted) := by
  obtain ⟨order, hnd, hmem, hrules⟩ := h.serial
  have hout : b ∉ order := fun hin => by
    rw [(hmem b).1 hin] at hb
    cases hb
  have hbne : (!b) ≠ b := by cases b <;> decide
  refine ⟨⟨order ++ [b], hnd.append (List.nodup_singleton b) (by simpa using hout),
    fun c => ?_, ?_⟩,
    fun s hs c hc => ?_⟩
  · show _ ↔ ((w.go b _).phase c).put = true
    rw [phase_go, List.mem_append, List.mem_singleton, hmem]
    split
    · next he => simp [he, Phase.put]
    · next hne => simp [hne]
  · rw [List.foldl_append, ← hrules]
    rfl
  · have hdigest : digest w.filters = s := by simpa [hs b, eq_comm] using hfit
    have hno : ∀ c, (w.phase c).changes = false := fun c => by
      by_contra hne
      exact (h.once s hs c (by simpa using hne)).1 hdigest
    change ((w.go b _).phase c).changes = true at hc
    show _ ∧ ((w.go b _).phase !c).changes = false
    rw [phase_go] at hc ⊢
    split at hc
    · next he =>
      rw [he, if_neg hbne]
      refine ⟨fun heq => ?_, hno _⟩
      have hsame := congrArg Filters.rules (hd (heq.trans hdigest.symm))
      simp only [Phase.changes, Bool.and_eq_true, decide_eq_true_eq] at hc
      exact hc.2 hsame
    · rw [hno c] at hc
      cases hc

/-- **One step.** -/
theorem Inv.step {a : Action} (hd : Function.Injective digest) (hc : careful digest q w a = true)
    (h : Inv digest q start w) (hs : step digest q w a = some w') : Inv digest q start w' := by
  cases a with
  | state =>
    simp only [FilterSet.step] at hs
    split at hs <;> cases hs
    next hp => exact h.stay (by rw [hp]; rfl) (by split <;> rfl)
  | rules =>
    simp only [FilterSet.step] at hs
    split at hs <;> cases hs
    next hp => exact h.stay (by rw [hp]; rfl) rfl
  | put b r =>
    simp only [FilterSet.step] at hs
    split at hs
    · next rules forwardAll hp =>
      have hb : (w.phase b).put = false := by rw [hp]; rfl
      simp only [careful, hp, Bool.and_eq_true, decide_eq_true_eq] at hc
      obtain ⟨rfl, hfit⟩ := hc
      split at hs
      · cases r <;> cases hs
        · exact h.stay hb rfl
        · exact h.store hd hb hfit _ _ _
        · exact h.store hd hb hfit _ _ _
      · cases hs
        exact h.stay hb (by split <;> rfl)
    · cases hs
  | fail =>
    simp only [FilterSet.step] at hs
    split at hs <;> cases hs
    all_goals next hp => exact h.stay (by rw [hp]; rfl) rfl

def Requests.waiting (f : Filters) : Requests := ⟨f, fun _ => .waiting⟩

/-- **Two requests.**  In every run in which no request puts over filters other than those it read,
two with one `ifInState` are not both accepted with changes, and the rules are those that the
requests with a put make one after the other. -/
theorem serial_of_careful (hd : Function.Injective digest) {f : Filters} {as : List Action}
    (hG : Guarded (step digest q) (fun w a => careful digest q w a = true) (.waiting f) as)
    (h : exec (step digest q) (.waiting f) as = some w) :
    (∀ s, (∀ b, (q b).ifInState = some s) →
      ¬ ((w.phase true).changes = true ∧ (w.phase false).changes = true)) ∧
    Serial q f.rules w := by
  have hinv : Inv digest q f.rules w := Run.inv_exec (fun _ _ _ hc hI hs => Inv.step hd hc hI hs)
    ⟨⟨[], List.nodup_nil, fun b => by simp [Requests.waiting, Phase.put], rfl⟩, fun _ _ _ hc => by
      cases hc⟩
    hG h
  refine ⟨fun s hs hboth => ?_, hinv.serial⟩
  have hno : (w.phase false).changes = false := (hinv.once s hs true hboth.1).2
  rw [hboth.2] at hno
  cases hno

/-- Two requests on an empty list, each to create a rule. -/
def twoCreates (b : Bool) : SetRequest Filters :=
  ⟨some ⟨[], none, true⟩, [some { Rule.zero with id := if b then ['a'] else ['b'] }], [], []⟩

/-- The same without `ifInState`, one after the other: both put. -/
theorem serial_of_careful_inTurn :
    let q := fun b => { twoCreates b with ifInState := none }
    ∃ w, exec (step id q) (.waiting ⟨[], none, true⟩)
        [.state true, .rules true, .put true .done, .state false, .rules false, .put false .done] =
          some w ∧
      ((w.phase true).changes = true ∧ (w.phase false).changes = true) ∧ Serial q [] w :=
  Run.exists_of_guarded (by decide +kernel) (by decide +kernel) fun _ hG h _ =>
    (@serial_of_careful _ _ id _ _ Function.injective_id ⟨[], none, true⟩ _ hG h).2

/-- Both read before either puts: both are accepted with changes, and a rule is lost. -/
theorem create_is_lost : ∃ w, exec (step id twoCreates) (.waiting ⟨[], none, true⟩)
        [.state true, .state false, .rules true, .rules false, .put true .done, .put false .done] =
          some w ∧
      (w.phase true).changes = true ∧ (w.phase false).changes = true ∧
      w.filters.rules = [{ Rule.zero with id := ['b'] }] :=
  Run.exists_exec (by decide +kernel)

end Moov.FilterSet
