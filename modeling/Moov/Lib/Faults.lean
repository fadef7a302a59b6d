import Mathlib.Logic.Basic

/-!
# Programs with faults

A program that calls other systems: a call can be refused, its answer can be lost, and the
program can die before a call or after it.

* `Prog` — a program over a world, with `call`, `attempt` and `onError`;
* `Triple` — pre- and postconditions, where the postcondition sees how the program ended, with a
  rule for each way to build one.
-/

namespace Moov.Faults

/-- What becomes of a call. -/
inductive Outcome
  | done
  /-- It fails, and has done nothing. -/
  | refused
  /-- It has been done, and fails. -/
  | lost
  /-- The program dies before it. -/
  | died
  /-- The program dies after it. -/
  | diedAfter
deriving DecidableEq

/-- How a program ends. -/
inductive Fate (α : Type)
  | ok (a : α)
  | error
  | dead
deriving DecidableEq

/-- A program over a world. -/
def Prog (σ α : Type) : Type := σ → σ × Fate α

variable {σ α β : Type} {o : Outcome}

namespace Prog

def ret (a : α) : Prog σ α := fun w => (w, .ok a)

def fail : Prog σ α := fun w => (w, .error)

def bind (p : Prog σ α) (k : α → Prog σ β) : Prog σ β := fun w =>
  match p w with
  | (w', .ok a) => k a w'
  | (w', .error) => (w', .error)
  | (w', .dead) => (w', .dead)

instance : Monad (Prog σ) where
  pure := ret
  bind := bind

/-- A call to another system, which may answer with an error of its own. -/
def call (o : Outcome) (effect : σ → σ × Option α) : Prog σ α := fun w =>
  match o with
  | .done => ((effect w).1, match (effect w).2 with | some a => .ok a | none => .error)
  | .refused => (w, .error)
  | .lost => ((effect w).1, .error)
  | .died => (w, .dead)
  | .diedAfter => ((effect w).1, .dead)

/-- A deletion that succeeds if it is attempted. -/
def undo (o : Outcome) (effect : σ → σ) : Prog σ Unit := fun w =>
  match o with
  | .died => (w, .dead)
  | .diedAfter => (effect w, .dead)
  | _ => (effect w, .ok ())

/-- A program whose errors do not matter. -/
def attempt (p : Prog σ α) : Prog σ (Option α) := fun w =>
  match p w with
  | (w', .ok a) => (w', .ok (some a))
  | (w', .error) => (w', .ok none)
  | (w', .dead) => (w', .dead)

/-- A program with a cleanup after an error. -/
def onError (p : Prog σ α) (cleanup : Prog σ Unit) : Prog σ α := fun w =>
  match p w with
  | (w', .ok a) => (w', .ok a)
  | (w', .dead) => (w', .dead)
  | (w', .error) => bind cleanup (fun _ => fail) w'

end Prog

open Prog

/-! ## Triples -/

/-- From a world in `P`, the program ends in a world and in a way that `Q` allows. -/
def Triple (P : σ → Prop) (p : Prog σ α) (Q : σ → Fate α → Prop) : Prop :=
  ∀ w, P w → Q (p w).1 (p w).2

variable {P P' : σ → Prop} {Q Q' : σ → Fate α → Prop} {R : σ → Fate β → Prop} {p : Prog σ α}

lemma Triple.ret {a : α} (h : ∀ w, P w → Q w (.ok a)) : Triple P (Prog.ret a) Q := h

lemma Triple.fail (h : ∀ w, P w → Q w .error) : Triple P Prog.fail Q := h

/-- One program after another: what the first leaves is the precondition of the second, and the
other ends are those of both. -/
lemma Triple.bind {k : α → Prog σ β} (hp : Triple P p Q)
    (hk : ∀ a, Triple (fun w => Q w (.ok a)) (k a) R) (herr : ∀ w, Q w .error → R w .error)
    (hdead : ∀ w, Q w .dead → R w .dead) : Triple P (Prog.bind p k) R := by
  intro w hw
  have h := hp w hw
  unfold Prog.bind
  generalize p w = r at h ⊢
  obtain ⟨w', fate⟩ := r
  cases fate with
  | ok a => exact hk a w' h
  | error => exact herr w' h
  | dead => exact hdead w' h

lemma Triple.weaken (hp : Triple P p Q) (hpre : ∀ w, P' w → P w)
    (hpost : ∀ w fate, Q w fate → Q' w fate) :
    Triple P' p Q' := fun w hw => hpost _ _ (hp w (hpre w hw))

theorem Triple.call {effect : σ → σ × Option α}
    (hdone : o = .done → ∀ w, P w → ∀ a, (effect w).2 = some a → Q (effect w).1 (.ok a))
    (hanswer : o = .done → ∀ w, P w → (effect w).2 = none → Q (effect w).1 .error)
    (hrefused : o = .refused → ∀ w, P w → Q w .error)
    (hlost : o = .lost → ∀ w, P w → Q (effect w).1 .error)
    (hdied : o = .died → ∀ w, P w → Q w .dead)
    (hafter : o = .diedAfter → ∀ w, P w → Q (effect w).1 .dead) :
    Triple P (Prog.call o effect) Q := by
  intro w hw
  cases o with
  | done =>
    cases ha : (effect w).2 with
    | none =>
      have h := hanswer rfl w hw ha
      simpa [Prog.call, ha] using h
    | some a =>
      have h := hdone rfl w hw a ha
      simpa [Prog.call, ha] using h
  | refused => exact hrefused rfl w hw
  | lost => exact hlost rfl w hw
  | died => exact hdied rfl w hw
  | diedAfter => exact hafter rfl w hw

theorem Triple.attempt {Q : σ → Fate α → Prop} {R : σ → Fate (Option α) → Prop} (hp : Triple P p Q)
    (hok : ∀ w a, Q w (.ok a) → R w (.ok (some a))) (herr : ∀ w, Q w .error → R w (.ok none))
    (hdead : ∀ w, Q w .dead → R w .dead) : Triple P (Prog.attempt p) R := by
  intro w hw
  have h := hp w hw
  unfold Prog.attempt
  generalize p w = r at h ⊢
  obtain ⟨w', fate⟩ := r
  cases fate with
  | ok a => exact hok w' a h
  | error => exact herr w' h
  | dead => exact hdead w' h

theorem Triple.onError {cleanup : Prog σ Unit} (hp : Triple P p Q)
    (hok : ∀ w a, Q w (.ok a) → Q' w (.ok a)) (hdead : ∀ w, Q w .dead → Q' w .dead)
    (hcleanup : Triple (fun w => Q w .error) cleanup
      fun w fate => (fate = .dead → Q' w .dead) ∧ (fate ≠ .dead → Q' w .error)) :
    Triple P (Prog.onError p cleanup) Q' := by
  intro w hw
  have h := hp w hw
  unfold Prog.onError
  generalize p w = r at h ⊢
  obtain ⟨w', fate⟩ := r
  cases fate with
  | ok a => exact hok w' a h
  | dead => exact hdead w' h
  | error =>
    have hall : Triple (fun w => Q w .error) (Prog.bind cleanup fun _ => Prog.fail) Q' :=
      hcleanup.bind (fun _ => Triple.fail fun w h => h.2 (by simp)) (fun w h => h.2 (by simp))
        fun w h => h.1 rfl
    exact hall w' h

lemma Triple.undo {effect : σ → σ} {R : σ → Fate Unit → Prop}
    (hok : o ≠ .died → o ≠ .diedAfter → ∀ w, P w → R (effect w) (.ok ()))
    (hdied : o = .died → ∀ w, P w → R w .dead)
    (hafter : o = .diedAfter → ∀ w, P w → R (effect w) .dead) :
    Triple P (Prog.undo o effect) R := by
  intro w hw
  cases o with
  | died => exact hdied rfl w hw
  | diedAfter => exact hafter rfl w hw
  | done | refused | lost => exact hok (by decide) (by decide) w hw

end Moov.Faults
