import Mathlib.Data.List.Basic

/-!
# Runs of a partial transition function

A component is described by a function `step : σ → α → Option σ`: what an
action does to a state, or `none` when the action is not enabled there.  This
file is the small theory every development on top of it needs:

* `exec` runs a list of actions, and fails as soon as one is not enabled;
* `Guarded G` says of a run that every one of its steps was taken from a state
  in which the guard `G` allowed it, which is how a condition *on the inputs*
  of a run is written down;
* `inv_exec` is the induction: what holds at the start and is kept by every
  guarded step holds at the end of every guarded run, and `inv_of_mem_states`
  says the same of every state on the way.

Nothing in this file knows what the states or the actions are.
-/

namespace Moov.Run

open List

variable {σ α : Type*}

/-- Run the actions from left to right. -/
def exec (step : σ → α → Option σ) : σ → List α → Option σ
  | s, [] => some s
  | s, a :: as =>
      match step s a with
      | none => none
      | some s' => exec step s' as

/-- The states a run goes through after its first one, as far as it gets. -/
def states (step : σ → α → Option σ) : σ → List α → List σ
  | _, [] => []
  | s, a :: as =>
      match step s a with
      | none => []
      | some s' => s' :: states step s' as

/-- Every step of the run is taken where the guard allows it. -/
def Guarded (step : σ → α → Option σ) (G : σ → α → Prop) : σ → List α → Prop
  | _, [] => True
  | s, a :: as => G s a ∧ ∀ s', step s a = some s' → Guarded step G s' as

variable {step : σ → α → Option σ} {G : σ → α → Prop} {s s' : σ} {a : α} {as bs : List α}

/-- A condition that can be checked at one step can be checked along a run. -/
instance Guarded.decidable [∀ s a, Decidable (G s a)] :
    ∀ (as : List α) (s : σ), Decidable (Guarded step G s as)
  | [], _ => .isTrue trivial
  | a :: as, s =>
      match h : step s a with
      | none => decidable_of_iff (G s a) (by simp [Guarded, h])
      | some s' =>
          have := Guarded.decidable as s'
          decidable_of_iff (G s a ∧ Guarded step G s' as) (by simp [Guarded, h])

/-- A guard that allows every step allows every run. -/
lemma guarded_of_forall (h : ∀ s a, G s a) : Guarded step G s as := by
  induction as generalizing s with
  | nil => trivial
  | cons a as ih => exact ⟨h s a, fun s' _ => ih⟩

@[simp] lemma exec_nil (s : σ) : exec step s [] = some s := rfl

/-- A run splits at its first action. -/
lemma exec_cons_eq_some {t : σ} :
    exec step s (a :: as) = some t ↔ ∃ s', step s a = some s' ∧ exec step s' as = some t := by
  cases h : step s a with
  | none => simp [exec, h]
  | some => simp [exec, h]

/-- A closed run that ends in a state with a decidable property is found by
running it. -/
lemma exists_exec {p : σ → Prop} [DecidablePred p]
    (h : (exec step s as).any (fun t => decide (p t)) = true) :
    ∃ t, exec step s as = some t ∧ p t := by
  cases ht : exec step s as with
  | none => simp [ht] at h
  | some t => exact ⟨t, rfl, by simpa [ht] using h⟩

/-- A closed run that its guard allows, found by running it, with what a result says of its
end. -/
lemma exists_of_guarded {p q : σ → Prop} [DecidablePred p] (hg : Guarded step G s as)
    (h : (exec step s as).any (fun t => decide (p t)) = true)
    (hq : ∀ t, Guarded step G s as → exec step s as = some t → p t → q t) :
    ∃ t, exec step s as = some t ∧ p t ∧ q t := by
  obtain ⟨t, ht, hp⟩ := exists_exec h
  exact ⟨t, ht, hp, hq t hg ht hp⟩

lemma exists_end {q : σ → Prop} (hg : Guarded step G s as) (h : (exec step s as).isSome = true)
    (hq : ∀ t, Guarded step G s as → exec step s as = some t → q t) :
    ∃ t, exec step s as = some t ∧ q t := by
  obtain ⟨t, ht⟩ := Option.isSome_iff_exists.1 h
  exact ⟨t, ht, hq t hg ht⟩

variable {I : σ → Prop}

/-- **The invariant rule.**  What holds at the start of a guarded run and is
kept by every guarded step holds at its end. -/
theorem inv_exec (hstep : ∀ s a s', G s a → I s → step s a = some s' → I s') :
    ∀ {as : List α} {s t : σ}, I s → Guarded step G s as → exec step s as = some t → I t := by
  intro as
  induction as with
  | nil =>
    intro s t hs _ h
    exact Option.some.inj h ▸ hs
  | cons a as ih =>
    intro s t hs hg h
    obtain ⟨s', ha, h'⟩ := exec_cons_eq_some.1 h
    exact ih (hstep s a s' hg.1 hs ha) (hg.2 s' ha) h'

/-- The invariant rule for the states on the way: it holds in each of them. -/
theorem inv_of_mem_states
    (hstep : ∀ s a s', G s a → I s → step s a = some s' → I s') :
    ∀ {as : List α} {s : σ}, I s → Guarded step G s as → ∀ t ∈ states step s as, I t := by
  intro as
  induction as with
  | nil =>
    intro s _ _ t ht
    simp [states] at ht
  | cons a as ih =>
    intro s hs hg t ht
    cases ha : step s a with
    | none => simp [states, ha] at ht
    | some s' =>
      have hs' : I s' := hstep s a s' hg.1 hs ha
      simp only [states, ha, mem_cons] at ht
      rcases ht with rfl | ht
      · exact hs'
      · exact ih hs' (hg.2 s' ha) t ht

/-- A guard under which an invariant is kept, and which with the invariant gives what is to hold
of each step. -/
lemma guarded_of_inv {H : σ → α → Prop}
    (hstep : ∀ s a, G s a → I s → H s a ∧ ∀ s', step s a = some s' → I s') :
    ∀ {as : List α} {s : σ}, I s → Guarded step G s as → Guarded step H s as := by
  intro as
  induction as with
  | nil => exact fun _ _ => trivial
  | cons a as ih =>
    intro s hs hg
    obtain ⟨ha, hnext⟩ := hstep s a hg.1 hs
    exact ⟨ha, fun s' hs' => ih (hnext s' hs') (hg.2 s' hs')⟩

/-! ## Processes side by side

A state often holds a list of processes of which one moves at a time. -/

section Procs

variable {l : List α} {i j : ℕ} {p q : α} {R : α → α → Prop} {P : α → Prop}

lemma getElem?_set_cases (h : (l.set i p)[j]? = some q) :
    (i = j ∧ q = p) ∨ (i ≠ j ∧ l[j]? = some q) := by
  rw [getElem?_set] at h
  split at h
  · next hij =>
    split at h <;> cases h
    exact .inl ⟨hij, rfl⟩
  · next hij => exact .inr ⟨hij, h⟩

lemma getElem?_append_cases (h : (l ++ [p])[j]? = some q) :
    l[j]? = some q ∨ (j = l.length ∧ q = p) := by
  rcases Nat.lt_trichotomy j l.length with hj | rfl | hj
  · rw [getElem?_append_left hj] at h
    exact .inl h
  · rw [getElem?_concat_length] at h
    exact .inr ⟨rfl, (Option.some.inj h).symm⟩
  · rw [getElem?_eq_none (by simpa using Nat.succ_le_of_lt hj)] at h
    cases h

lemma forall_mem_set (h : ∀ a ∈ l, P a) (hp : P p) : ∀ a ∈ l.set i p, P a := fun a ha =>
  (mem_or_eq_of_mem_set ha).elim (h a) fun he => he ▸ hp

lemma forall_mem_concat (h : ∀ a ∈ l, P a) (hp : P p) : ∀ a ∈ l ++ [p], P a :=
  forall_mem_append.2 ⟨h, forall_mem_singleton.2 hp⟩

lemma mem_set_of_ne (hj : l[j]? = some q) (hij : i ≠ j) : q ∈ l.set i p :=
  mem_of_getElem? (i := j) (by rw [getElem?_set_ne hij]; exact hj)

lemma exists_mem_set (hi : l[i]? = some q) (hp : P q → P p) (h : ∃ a ∈ l, P a) :
    ∃ a ∈ l.set i p, P a := by
  obtain ⟨a, ha, hPa⟩ := h
  obtain ⟨j, hj⟩ := mem_iff_getElem?.1 ha
  by_cases hij : i = j
  · subst hij
    cases hi.symm.trans hj
    exact ⟨p, List.mem_set (List.getElem?_eq_some_iff.1 hi).1 _, hp hPa⟩
  · exact ⟨a, mem_set_of_ne hj hij, hPa⟩

variable (hsymm : ∀ a b, R a b → R b a)
  (h : ∀ (j k : ℕ) a b, l[j]? = some a → l[k]? = some b → j ≠ k → R a b)
include hsymm h

/-- Processes stay apart when the one that moves is apart from the others. -/
lemma apart_set (hp : ∀ (k : ℕ) b, i ≠ k → l[k]? = some b → R p b) :
    ∀ (j k : ℕ) a b, (l.set i p)[j]? = some a → (l.set i p)[k]? = some b → j ≠ k → R a b := by
  intro j k a b ha hb hjk
  rcases getElem?_set_cases ha with ⟨rfl, rfl⟩ | ⟨hij, ha'⟩
  · rcases getElem?_set_cases hb with ⟨rfl, -⟩ | ⟨hik, hb'⟩
    · exact absurd rfl hjk
    · exact hp k b hik hb'
  · rcases getElem?_set_cases hb with ⟨rfl, rfl⟩ | ⟨-, hb'⟩
    · exact hsymm _ _ (hp j a hij ha')
    · exact h j k a b ha' hb' hjk

/-- A process that is apart from everything joins. -/
lemma apart_append (hp : ∀ b, R p b) :
    ∀ (j k : ℕ) a b, (l ++ [p])[j]? = some a → (l ++ [p])[k]? = some b → j ≠ k → R a b := by
  intro j k a b ha hb hjk
  rcases getElem?_append_cases ha with ha | ⟨-, rfl⟩
  · rcases getElem?_append_cases hb with hb | ⟨-, rfl⟩
    · exact h j k a b ha hb hjk
    · exact hsymm _ _ (hp a)
  · exact hp b

end Procs

end Moov.Run
