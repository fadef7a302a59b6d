import Moov.Http.LockoutBudget

/-!
# The locks of failed logins

The rejected LOGINs of one key, of a client address and an account: each is at least a lock after
the one before, if requests of the key do not overlap.

* `Spaced` — what is promised of the times of a streak of failures;
* `Locked` — the entry of the key holds that promise for the next request;
* `Owing` — a LOGIN of the key is rejected, and not recorded;
* `failuresOf_le` — no more failures than rejected LOGINs, if none is shared.
-/

namespace Moov.Lockout

open Bucket List
open Run (exec Guarded)

/-! ## The lock -/

lemma min_le_doubled (max : ℚ) :
    ∀ (n : ℕ) (lock : ℚ), min (lock * 2 ^ n) max ≤ doubled max n lock := by
  intro n
  induction n with
  | zero =>
    intro lock
    simp [doubled]
  | succ n ih =>
    intro lock
    rw [doubled]
    split_ifs with hmax
    · exact min_le_right _ _
    · rw [pow_succ', ← mul_assoc]
      exact ih (lock * 2)

/-- The lock after `n + 1` failures or more, if thirty doublings reach the greatest lock. -/
lemma min_le_lockAfter (cfg : Config) (hmax : cfg.max ≤ cfg.base * 2 ^ 30) {n failures : ℕ}
    (h : n < failures) :
    min (cfg.base * 2 ^ n) cfg.max ≤ lockAfter cfg failures := by
  have hdoubled : min (cfg.base * 2 ^ n) cfg.max ≤
    doubled cfg.max (min (failures - 1) 30) cfg.base := by
    refine le_trans ?_ (min_le_doubled cfg.max _ cfg.base)
    rcases le_or_gt n (min (failures - 1) 30) with hn | hn
    · exact min_le_min_right _
        (mul_le_mul_of_nonneg_left (pow_le_pow_right₀ one_le_two hn) cfg.base_pos.le)
    · -- the doublings are at their end
      have hthirty : min (failures - 1) 30 = 30 := by omega
      rw [hthirty, min_eq_right hmax]
      exact min_le_right _ _
  unfold lockAfter
  dsimp only
  split_ifs with hover
  · exact min_le_right _ _
  · exact hdoubled

/-! ## The table -/

lemma lookup_filter_ne {entries : List (ℕ × Entry)} {key key' : ℕ} (h : key ≠ key') :
    (entries.filter fun e => e.1 ≠ key').lookup key = entries.lookup key := by
  induction entries with
  | nil => rfl
  | cons e entries ih =>
    obtain ⟨k, e⟩ := e
    simp only [ne_eq, decide_not] at ih ⊢
    by_cases hk : k = key'
    · subst hk
      have hne : (key == k) = false := by simpa using h
      simp [lookup_cons, hne, ih]
    · simp [hk, lookup_cons, ih]

variable {cfg : Config} {s s' : State} {key key' i credential : ℕ} {p : Phase} {r : Request}

/-- The table as it is, as long as it is small. -/
lemma maybePrune_eq (h : s.entries.length < pruneThreshold) : maybePrune s = s.entries := if_pos h

lemma entry_recordFailure_ne (hsmall : s.entries.length < pruneThreshold) (h : key ≠ key') :
    (recordFailure cfg s key').entry key = s.entry key := by
  have hne : (key == key') = false := by simpa using h
  rw [State.entry, recordFailure, maybePrune_eq hsmall, lookup_cons, hne]
  exact lookup_filter_ne h

/-- The failures that are recorded of a key. -/
def failuresOf (s : State) (key : ℕ) : ℕ := (s.entry key).elim 0 (·.failures)

lemma entry_recordFailure (cfg : Config) (key : ℕ) (hsmall : s.entries.length < pruneThreshold) :
    (recordFailure cfg s key).entry key =
      some ⟨failuresOf s key + 1, s.now + lockAfter cfg (failuresOf s key + 1), s.now⟩ := by
  rw [State.entry, recordFailure, maybePrune_eq hsmall, lookup_cons, beq_self_eq_true]
  rfl

/-! ## Streaks -/

/-- The times of the rejected LOGINs of a key since its last success, the latest first. -/
def streak (key : ℕ) : List Event → List ℚ
  | [] => []
  | .rejected k t :: log => if k = key then t :: streak key log else streak key log
  | .success k :: log => if k = key then [] else streak key log

/-- Each LOGIN of a streak is at least a lock after the one before it: `base` after the first,
doubled after each. -/
def Spaced (cfg : Config) : List ℚ → Prop
  | [] => True
  | [_] => True
  | t :: t' :: rest => min (cfg.base * 2 ^ rest.length) cfg.max ≤ t - t' ∧ Spaced cfg (t' :: rest)

/-- The entry of the key counts the streak, and locks the key for its last failure. -/
structure Locked (cfg : Config) (key : ℕ) (s : State) : Prop where
  counted : (streak key s.log).length ≤ failuresOf s key
  lock : ∀ t rest, streak key s.log = t :: rest →
    ∃ e, s.entry key = some e ∧ t + min (cfg.base * 2 ^ rest.length) cfg.max ≤ e.lockedUntil

/-- The lock has run out. -/
structure Clear (cfg : Config) (key : ℕ) (s : State) : Prop extends Locked cfg key s where
  past : ∀ t rest, streak key s.log = t :: rest →
    t + min (cfg.base * 2 ^ rest.length) cfg.max ≤ s.now

/-- The last failure of the streak is not recorded. -/
structure Owing (key : ℕ) (s : State) : Prop where
  last : ∃ t rest, streak key s.log = t :: rest ∧ t ≤ s.now ∧ rest.length ≤ failuresOf s key

/-- What holds of the key while a request of it is in a phase. -/
def Holds (cfg : Config) (key : ℕ) (s : State) : Phase → Prop
  | .rejected => Owing key s
  | .settled .invalid | .answered .invalid => Clear cfg key s ∨ Owing key s
  | .done _ => True
  | _ => Clear cfg key s

def Phase.isDone : Phase → Bool
  | .done _ => true
  | _ => false

/-- The invariant of one key. -/
structure KeyInv (cfg : Config) (key : ℕ) (s : State) : Prop where
  spaced : Spaced cfg (streak key s.log)
  alone : ∀ (i j : ℕ) (r q : Request), s.requests[i]? = some r → s.requests[j]? = some q → r.key =
    key → q.key = key →
    r.phase.isDone = false → q.phase.isDone = false → i = j
  idle : (∀ (i : ℕ) (r : Request), s.requests[i]? = some r → r.key = key → r.phase.isDone = true) →
    Locked cfg key s
  active : ∀ (i : ℕ) (r : Request), s.requests[i]? = some r → r.key = key → Holds cfg key s r.phase

/-! ## Recording -/

lemma Clear.locked_recordFailure (h : Clear cfg key s) (hmax : cfg.max ≤ cfg.base * 2 ^ 30)
    (hsmall : s.entries.length < pruneThreshold) : Locked cfg key (recordFailure cfg s key) := by
  have hentry := entry_recordFailure cfg key hsmall
  have hcounted := h.counted
  refine ⟨?_, fun t rest hstreak => ⟨_, hentry, ?_⟩⟩
  · rw [failuresOf, hentry]
    exact le_trans hcounted (Nat.le_succ _)
  · have hover := h.past t rest hstreak
    have hlock := min_le_lockAfter cfg hmax (n := 0) (Nat.succ_pos (failuresOf s key))
    have hnonneg : 0 ≤ min (cfg.base * 2 ^ 0) cfg.max := by
      simpa using ⟨cfg.base_pos.le, cfg.max_pos.le⟩
    linarith

lemma Owing.locked_recordFailure (h : Owing key s) (hmax : cfg.max ≤ cfg.base * 2 ^ 30)
    (hsmall : s.entries.length < pruneThreshold) : Locked cfg key (recordFailure cfg s key) := by
  have hentry := entry_recordFailure cfg key hsmall
  obtain ⟨t, rest, hstreak, hpast, hcounted⟩ := h.last
  refine ⟨?_, fun t' rest' hstreak' => ⟨_, hentry, ?_⟩⟩
  · have hlog : streak key (recordFailure cfg s key).log = t :: rest := hstreak
    rw [failuresOf, hentry, hlog]
    exact Nat.succ_le_succ hcounted
  · have heq : t :: rest = t' :: rest' := hstreak.symm.trans hstreak'
    cases heq
    have hlock := min_le_lockAfter cfg hmax (Nat.lt_succ_of_le hcounted)
    linarith

lemma locked_recordSuccess (cfg : Config) (key : ℕ) (s : State) :
    Locked cfg key (recordSuccess s key) := by
  have hstreak : streak key (recordSuccess s key).log = [] := if_pos rfl
  refine ⟨by rw [hstreak]; exact Nat.zero_le _, fun t rest h => ?_⟩
  rw [hstreak] at h
  cases h

/-! ## Steps -/

/-- What is said of a key depends on its entry, its streak and the clock. -/
structure Unmoved (key : ℕ) (s s' : State) : Prop where
  entry : s'.entry key = s.entry key
  streak : streak key s'.log = streak key s.log
  now : s.now ≤ s'.now

lemma Locked.congr (h : Locked cfg key s) (hsame : Unmoved key s s') : Locked cfg key s' := by
  refine ⟨?_, fun t rest hstreak => ?_⟩
  · rw [hsame.streak, failuresOf, hsame.entry]
    exact h.counted
  · rw [hsame.streak] at hstreak
    rw [hsame.entry]
    exact h.lock t rest hstreak

lemma Clear.congr (h : Clear cfg key s) (hsame : Unmoved key s s') : Clear cfg key s' := by
  refine ⟨h.toLocked.congr hsame, fun t rest hstreak => ?_⟩
  rw [hsame.streak] at hstreak
  exact le_trans (h.past t rest hstreak) hsame.now

lemma Owing.congr (h : Owing key s) (hsame : Unmoved key s s') : Owing key s' := by
  obtain ⟨t, rest, hstreak, hpast, hcounted⟩ := h.last
  refine ⟨t, rest, hsame.streak.trans hstreak, le_trans hpast hsame.now, ?_⟩
  rw [failuresOf, hsame.entry]
  exact hcounted

lemma Holds.congr (h : Holds cfg key s p) (hsame : Unmoved key s s') : Holds cfg key s' p := by
  have hclear : Clear cfg key s → Clear cfg key s' := fun h => h.congr hsame
  have howing : Owing key s → Owing key s' := fun h => h.congr hsame
  cases p with
  | rejected => exact howing h
  | settled res | answered res =>
    cases res with
    | invalid => exact h.imp hclear howing
    | _ => exact hclear h
  | done => trivial
  | _ => exact hclear h

/-- A clear lock is all that is asked of a phase before the rejection, or without one. -/
lemma Clear.holds (h : Clear cfg key s) (hp : p ≠ .rejected) : Holds cfg key s p := by
  cases p with
  | rejected => exact absurd rfl hp
  | settled res | answered res =>
    cases res with
    | invalid => exact .inl h
    | _ => exact h
  | done => trivial
  | _ => exact h

/-- The requests of the key, its lock and its log are as they were. -/
lemma KeyInv.same (h : KeyInv cfg key s) (hkey : Unmoved key s s')
    (hsame : ∀ (j : ℕ) (q : Request), q.key = key →
      (s'.requests[j]? = some q ↔ s.requests[j]? = some q)) :
    KeyInv cfg key s' where
  spaced := hkey.streak ▸ h.spaced
  alone a b q q' hq hq' hkq hkq' :=
    h.alone a b q q' ((hsame a q hkq).1 hq) ((hsame b q' hkq').1 hq') hkq hkq'
  idle hall := (h.idle fun j q hq hkq => hall j q ((hsame j q hkq).2 hq) hkq).congr hkey
  active j q hq hkq := (h.active j q ((hsame j q hkq).1 hq) hkq).congr hkey

/-- A step of a request of another key. -/
lemma KeyInv.other (h : KeyInv cfg key s) (hr : s.requests[i]? = some r)
    (hkey : r.key ≠ key) (hsame : Unmoved key s s')
    (hrequests : s'.requests = s.requests.set i { r with phase := p }) : KeyInv cfg key s' := by
  refine h.same hsame fun j q hq => ?_
  rw [hrequests]
  refine ⟨fun hj => ?_, fun hj => ?_⟩
  · rcases Run.getElem?_set_cases hj with ⟨-, rfl⟩ | ⟨-, hj⟩
    · exact absurd hq hkey
    · exact hj
  · rw [getElem?_set_ne, hj]
    rintro rfl
    cases hr.symm.trans hj
    exact hkey hq

/-- A step of the request of the key that is under way. -/
lemma KeyInv.own (h : KeyInv cfg key s) (hr : s.requests[i]? = some r)
    (hkey : r.key = key) (hactive : r.phase.isDone = false)
    (hspaced : Spaced cfg (streak key s'.log))
    (hrequests : s'.requests = s.requests.set i { r with phase := p })
    (hdone : p.isDone = true → Locked cfg key s')
    (hholds : Holds cfg key s' p) : KeyInv cfg key s' := by
  -- another request of the key is done
  have hothers : ∀ (j : ℕ) (q : Request), i ≠ j → s.requests[j]? = some q → q.key = key →
    q.phase.isDone = true := by
    intro j q hij hq hkq
    by_contra hnot
    exact hij (h.alone i j r q hr hq hkey hkq hactive (by simpa using hnot))
  refine ⟨hspaced, ?_, ?_, ?_⟩
  · intro a b q q' hq hq' hkq hkq' hnot hnot'
    rw [hrequests] at hq hq'
    rcases Run.getElem?_set_cases hq with ⟨rfl, -⟩ | ⟨hia, hq⟩
    · rcases Run.getElem?_set_cases hq' with ⟨rfl, -⟩ | ⟨hib, hq'⟩
      · rfl
      · rw [hothers b q' hib hq' hkq'] at hnot'
        cases hnot'
    · rw [hothers a q hia hq hkq] at hnot
      cases hnot
  · intro hall
    have hnew : s'.requests[i]? = some { r with phase := p } := by
      rw [hrequests, List.getElem?_set_self (List.getElem?_eq_some_iff.1 hr).1]
    exact hdone (hall i _ hnew hkey)
  · intro j q hq hkq
    rw [hrequests] at hq
    rcases Run.getElem?_set_cases hq with ⟨-, rfl⟩ | ⟨hij, hq⟩
    · exact hholds
    · have hqdone := hothers j q hij hq hkq
      cases hphase : q.phase with
      | done => trivial
      | _ => simp [hphase, Phase.isDone] at hqdone

/-- The condition on a step, for a key: a request of it comes when none is under way, no rejection
of it is lost, and a failure is recorded in a table that is not pruned. -/
def apart (key : ℕ) (s : State) : Action → Bool
  | .arrive key' _ => key' ≠ key || s.requests.all fun r => r.key ≠ key || r.phase.isDone
  | .advance i => (s.requests[i]?.all fun r => r.phase ≠ .answered .invalid) ||
    s.entries.length < pruneThreshold
  | .answer i .lost => s.requests[i]?.all fun r => r.key ≠ key
  | _ => true

section

variable (h : KeyInv cfg key s)
include h

lemma KeyInv.tick {d : ℚ} (hd : 0 ≤ d) : KeyInv cfg key { s with now := s.now + d } where
  spaced := h.spaced
  alone := h.alone
  idle hall := (h.idle hall).congr ⟨rfl, rfl, by simpa using hd⟩
  active i r hr hkey := (h.active i r hr hkey).congr ⟨rfl, rfl, by simpa using hd⟩

lemma KeyInv.arrive_ne (hkey : key' ≠ key) :
    KeyInv cfg key { s with requests := s.requests ++ [⟨key', credential, .checked⟩] } := by
  refine h.same ⟨rfl, rfl, le_rfl⟩ fun j q hq => ⟨fun hj => ?_, fun hj => ?_⟩
  · rcases Run.getElem?_append_cases hj with hj | ⟨-, rfl⟩
    · exact hj
    · exact absurd hq hkey
  · rw [List.getElem?_append_left (List.getElem?_eq_some_iff.1 hj).1, hj]

/-- A request of the key passes the lock. -/
lemma KeyInv.arrive_eq
    (hidle : ∀ (i : ℕ) (r : Request), s.requests[i]? = some r → r.key = key → r.phase.isDone = true)
    (hlock : isLocked s key = false) :
    KeyInv cfg key { s with requests := s.requests ++ [⟨key, credential, .checked⟩] } := by
  have hlocked := h.idle hidle
  have hclear : Clear cfg key { s with requests :=
    s.requests ++ [⟨key, credential, .checked⟩] } := by
    refine ⟨hlocked.congr ⟨rfl, rfl, le_rfl⟩, fun t rest hstreak => ?_⟩
    obtain ⟨e, he, huntil⟩ := hlocked.lock t rest hstreak
    rw [isLocked, he] at hlock
    exact le_trans huntil (by simpa using hlock)
  refine ⟨h.spaced, ?_, fun _ => hclear.toLocked, ?_⟩
  · intro a b q q' hq hq' hkq hkq' hnot hnot'
    rcases Run.getElem?_append_cases hq with hq | ⟨rfl, -⟩
    · rw [hidle a q hq hkq] at hnot
      cases hnot
    · rcases Run.getElem?_append_cases hq' with hq' | ⟨rfl, -⟩
      · rw [hidle b q' hq' hkq'] at hnot'
        cases hnot'
      · rfl
  · intro j q hq hkq
    rcases Run.getElem?_append_cases hq with hq | ⟨rfl, rfl⟩
    · exact (h.active j q hq hkq).congr ⟨rfl, rfl, le_rfl⟩
    · exact hclear

/-- A request of the key moves on, and nothing is said of the key but by its phase. -/
lemma KeyInv.onward (hr : s.requests[i]? = some r)
    (hkey : r.key = key) (hactive : r.phase.isDone = false) (hsame : Unmoved key s s')
    (hrequests : s'.requests = s.requests.set i { r with phase := p }) (hp : p.isDone = false)
    (hholds : Holds cfg key s r.phase → Holds cfg key s p) : KeyInv cfg key s' := by
  refine h.own hr hkey hactive (hsame.streak ▸ h.spaced) hrequests (fun hdone => ?_) ?_
  · rw [hp] at hdone
    cases hdone
  · exact (hholds (h.active i r hr hkey)).congr hsame

end

@[simp] lemma requests_record (res : Result) : (record cfg s key res).requests = s.requests := by
  cases res <;> rfl

@[simp] lemma now_record (res : Result) : (record cfg s key res).now = s.now := by
  cases res <;> rfl

/-- What is recorded of one key says nothing of another. -/
lemma record_ne {res : Result} (hsmall : res = .invalid → s.entries.length < pruneThreshold)
    (h : key ≠ key') : (record cfg s key' res).entry key = s.entry key ∧
      streak key (record cfg s key' res).log = streak key s.log := by
  cases res with
  | valid => exact ⟨lookup_filter_ne h, if_neg (Ne.symm h)⟩
  | invalid => exact ⟨entry_recordFailure_ne (hsmall rfl) h, rfl⟩
  | unavailable | exhausted => exact ⟨rfl, rfl⟩

variable {i : ℕ} {r : Request}

section Next

variable {s₁ : State} {q p : Phase}

/-- A step of a request touches no key but its own. -/
lemma Next.frame (key : ℕ) (h : Next cfg s key' q s₁ p)
    (hsmall : q = .answered .invalid → s.entries.length < pruneThreshold) :
    s₁.now = s.now ∧ s₁.requests = s.requests ∧
      (key ≠ key' → s₁.entry key = s.entry key ∧ streak key s₁.log = streak key s.log) := by
  cases h with
  | ask | exhaust => simp [State.entry]
  | charge => simp [consumeBudget, State.entry]
  | record res =>
    exact ⟨now_record res, requests_record res, record_ne fun hres => hsmall (by rw [hres])⟩
  | _ => exact ⟨rfl, rfl, fun _ => ⟨rfl, rfl⟩⟩

/-- A step before the result is recorded leaves the table and the log. -/
lemma Next.leaves (h : Next cfg s key q s₁ p) (hp : p.isDone = false) : Unmoved key s s₁ := by
  cases h with
  | ask | exhaust => constructor <;> simp [State.entry]
  | charge => constructor <;> simp [consumeBudget, State.entry]
  | record => cases hp
  | _ => exact ⟨rfl, rfl, le_rfl⟩

/-- What is said of the key in the next phase. -/
lemma Next.holds (h : Next cfg s key q s₁ p) (hp : p.isDone = false) (hq : Holds cfg key s q) :
    Holds cfg key s p := by
  cases h with
  | joined => exact Clear.holds hq (by simp)
  | charge => exact Or.inr hq
  | settle res => cases res <;> exact hq
  | record => cases hp
  | _ => exact hq

end Next

/-- A step of the request of the key. -/
lemma KeyInv.advance_own (h : KeyInv cfg key s) (hmax : cfg.max ≤ cfg.base * 2 ^ 30)
    (hr : s.requests[i]? = some r)
    (hkey : r.key = key) (hsmall : r.phase = .answered .invalid → s.entries.length < pruneThreshold)
    (hs : advance cfg s i r = some s') : KeyInv cfg key s' := by
  subst hkey
  have hholds := h.active i r hr rfl
  obtain ⟨s₁, p, hnext, rfl⟩ := next_of_advance hs
  have hactive : r.phase.isDone = false := by
    cases hphase : r.phase with
    | done =>
      rw [hphase] at hnext
      cases hnext
    | _ => rfl
  obtain ⟨hnow, hrequests, -⟩ := hnext.frame r.key hsmall
  have hset : (s₁.move i r p).requests = s.requests.set i { r with phase := p } := by
    rw [State.move, hrequests]
  cases hp : p.isDone with
  | false =>
    have hsame := hnext.leaves hp
    exact h.onward hr rfl hactive { hsame with } hset hp (hnext.holds hp)
  | true =>
    generalize hphase : r.phase = q at hnext hholds
    cases hnext with
    | record res =>
      cases res with
      | valid =>
        have hstreak : streak r.key (recordSuccess s r.key).log = [] := if_pos rfl
        refine h.own hr rfl hactive ?_ hset
          (fun _ => (locked_recordSuccess cfg r.key s).congr ⟨rfl, rfl, le_rfl⟩) trivial
        exact (congrArg (Spaced cfg) hstreak).mpr trivial
      | invalid =>
        have hlocked : Locked cfg r.key (recordFailure cfg s r.key) := by
          rcases hholds with hclear | howing
          · exact hclear.locked_recordFailure hmax (hsmall hphase)
          · exact howing.locked_recordFailure hmax (hsmall hphase)
        exact h.own hr rfl hactive h.spaced hset (fun _ => hlocked.congr ⟨rfl, rfl, le_rfl⟩) trivial
      | unavailable | exhausted =>
        exact h.own hr rfl hactive h.spaced hset
          (fun _ => hholds.toLocked.congr ⟨rfl, rfl, le_rfl⟩) trivial
    | _ => cases hp

/-- The LOGIN of the key is rejected: the lock of the one before has run out. -/
lemma KeyInv.reject (h : KeyInv cfg key s) (hr : s.requests[i]? = some r) (hkey : r.key = key)
    (hasked : r.phase = .asked) :
    KeyInv cfg key { s.move i r .rejected with log := .rejected r.key s.now :: s.log } := by
  have hclear : Clear cfg key s := by
    have hholds := h.active i r hr hkey
    rw [hasked] at hholds
    exact hholds
  have hstreak : streak key (Event.rejected r.key s.now :: s.log) = s.now :: streak key s.log :=
    if_pos hkey
  refine h.own hr hkey (by simp [hasked, Phase.isDone]) ?_ rfl (fun hdone => ?_)
    ⟨s.now, _, hstreak, le_rfl, hclear.counted⟩
  · have hspaced := h.spaced
    rw [hstreak]
    cases hold : streak key s.log with
    | nil => trivial
    | cons t rest =>
      rw [hold] at hspaced
      exact ⟨by linarith [hclear.past t rest hold], hspaced⟩
  · simp [Phase.isDone] at hdone

lemma KeyInv.step {a : Action} (h : KeyInv cfg key s) (hmax : cfg.max ≤ cfg.base * 2 ^ 30)
    (hguard : apart key s a = true) (hs : step cfg s a = some s') : KeyInv cfg key s' := by
  cases a with
  | tick =>
    obtain ⟨hd, ⟨⟩⟩ := Option.ite_none_right_eq_some.1 hs
    exact h.tick hd
  | arrive key' =>
    simp only [Lockout.step] at hs
    split at hs
    · cases hs
      exact h
    · rename_i hlock
      cases hs
      by_cases hkey : key' = key
      · subst hkey
        refine h.arrive_eq (fun i r hr hrkey => ?_) (by simpa using hlock)
        simp only [apart, ne_eq, not_true_eq_false, decide_false, Bool.false_or,
          all_eq_true] at hguard
        simpa [hrkey] using hguard r (mem_of_getElem? hr)
      · exact h.arrive_ne hkey
  | advance =>
    obtain ⟨r, hr, hs⟩ := Option.bind_eq_some_iff.1 hs
    have hsmall : r.phase = .answered .invalid → s.entries.length < pruneThreshold := fun hp => by
      simpa [apart, hr, hp] using hguard
    by_cases hkey : r.key = key
    · exact h.advance_own hmax hr hkey hsmall hs
    · obtain ⟨s₁, p, hnext, rfl⟩ := next_of_advance hs
      obtain ⟨hnow, hrequests, hframe⟩ := hnext.frame key hsmall
      obtain ⟨hentry, hlog⟩ := hframe (Ne.symm hkey)
      exact h.other hr hkey ⟨hentry, hlog, hnow.ge⟩ (by rw [State.move, hrequests])
  | answer i a =>
    obtain ⟨r, hr, hs⟩ := Option.bind_eq_some_iff.1 hs
    obtain ⟨hasked, ⟨⟩⟩ := Option.ite_none_right_eq_some.1 hs
    by_cases hkey : r.key = key
    · have hactive : r.phase.isDone = false := by simp [hasked, Phase.isDone]
      have hholds : Holds cfg key s r.phase → Clear cfg key s := fun hh => by rwa [hasked] at hh
      cases a with
      | valid | unavailable => exact h.onward hr hkey hactive ⟨rfl, rfl, le_rfl⟩ rfl rfl hholds
      | rejected => exact h.reject hr hkey hasked
      | lost => simp [apart, hr, hkey] at hguard
    · have hlog : streak key (Event.rejected r.key s.now :: s.log) = streak key s.log := if_neg hkey
      cases a with
      | valid | unavailable => exact h.other hr hkey ⟨rfl, rfl, le_rfl⟩ rfl
      | rejected | lost => exact h.other hr hkey ⟨rfl, hlog, le_rfl⟩ rfl
  | cancel =>
    obtain ⟨r, hr, hs⟩ := Option.bind_eq_some_iff.1 hs
    split at hs
    · rename_i leader hwaiting
      cases hs
      by_cases hkey : r.key = key
      · refine h.onward hr hkey (by simp [hwaiting, Phase.isDone])
          ⟨rfl, rfl, le_rfl⟩ rfl rfl fun hh => ?_
        rw [hwaiting] at hh
        exact hh
      · exact h.other hr hkey ⟨rfl, rfl, le_rfl⟩ rfl
    · cases hs

/-! ## Both limits -/

/-- In every run: with at most `k + 1` LOGINs out at once, and no rejection lost, the rejected
LOGINs of a window of length `T` are at most `k + 1` times what the budget allows and `k` more,
which is the budget if they do not overlap; and those of a key, whose requests do not overlap, are
spaced by its locks, as long as the table is not pruned. -/
theorem limits_of_run {cfg : Config} {t : ℚ} {as : List Action} {s : State}
    (h : exec (step cfg) (start cfg t) as = some s) :
    (∀ k, Guarded (step cfg) (fun s a => fewOut k s a = true) (start cfg t) as → ∀ u T, 0 ≤ T →
        (countIn u T (rejections s) : ℚ) ≤ (k + 1) *
        (cfg.budget + cfg.budget * T / cfg.window) + k) ∧
      (∀ key, cfg.max ≤ cfg.base * 2 ^ 30 →
        Guarded (step cfg) (fun s a => apart key s a = true) (start cfg t) as →
        Spaced cfg (streak key s.log)) := by
  refine ⟨fun k hguard u T hT => rejections_le h hguard u T hT, fun key hmax hguard => ?_⟩
  have hstart : KeyInv cfg key (start cfg t) := ⟨trivial, by simp [start], fun _ =>
    ⟨Nat.zero_le _, by simp [start, streak]⟩, by simp [start]⟩
  have hinv := Run.inv_exec (fun _ _ _ hg hi hs => KeyInv.step hi hmax hg hs) hstart hguard h
  exact hinv.spaced

/-! ## Two runs -/

/-- The defaults, with a budget. -/
def usual (budget : ℕ) (h : 0 < budget) : Config :=
  ⟨5, 1800, budget, 600, by norm_num, by norm_num, h, by norm_num⟩

/-- A request passes the lock and sends its LOGIN. -/
def asking (i key credential : ℕ) : List Action := [.arrive key credential, .advance i, .advance i]

/-- The LOGIN is rejected, charged and recorded. -/
def rejecting (i : ℕ) : List Action := [.answer i .rejected, .advance i, .advance i, .advance i]

/-- A second password of an account, five seconds after the first. -/
def oneByOne : List Action :=
  asking 0 1 10 ++ rejecting 0 ++ [.tick 5] ++ asking 1 1 11 ++ rejecting 1

theorem limits_of_run_oneByOne :
    ∃ s, exec (step (usual 2 two_pos)) (start (usual 2 two_pos) 0) oneByOne = some s ∧
    streak 1 s.log = [5, 0] ∧ (countIn 0 5 (rejections s) : ℚ) ≤ (0 + 1) * (2 + 2 * 5 / 600) + 0 ∧
      Spaced (usual 2 two_pos) (streak 1 s.log) := by
  have hrun : (exec (step (usual 2 two_pos)) (start (usual 2 two_pos) 0) oneByOne).any
      (fun s => decide (streak 1 s.log = [5, 0])) = true := by decide +kernel
  obtain ⟨s, hs, hstreak⟩ := Run.exists_exec hrun
  have hfew : Guarded (step (usual 2 two_pos)) (fun s a => fewOut 0 s a = true)
    (start (usual 2 two_pos) 0) oneByOne := by
    decide +kernel
  have hapart : Guarded (step (usual 2 two_pos)) (fun s a => apart 1 s a = true)
    (start (usual 2 two_pos) 0) oneByOne := by
    decide +kernel
  obtain ⟨hbudget, hlock⟩ := limits_of_run hs
  refine ⟨s, hs, hstreak, ?_, hlock 1 (by norm_num [usual]) hapart⟩
  have := hbudget 0 hfew 0 5 (by norm_num)
  simpa [usual] using this

/-- Two passwords of an account at once. -/
def atOnce : List Action := asking 0 1 10 ++ asking 1 1 11 ++ rejecting 0 ++ rejecting 1

/-- Both LOGINs are rejected at one moment, with a budget of one. -/
theorem overlap_exceeds_limits :
    ∃ s, exec (step (usual 1 one_pos)) (start (usual 1 one_pos) 0) atOnce = some s ∧
    ¬ (countIn 0 0 (rejections s) : ℚ) ≤ 1 + 1 * 0 / 600 ∧ ¬ Spaced (usual 1 one_pos)
      (streak 1 s.log) := by
  have hrun : (exec (step (usual 1 one_pos)) (start (usual 1 one_pos) 0) atOnce).any
      (fun s => decide (countIn 0 0 (rejections s) = 2 ∧ streak 1 s.log = [0, 0])) = true := by
        decide +kernel
  obtain ⟨s, hs, hcount, hstreak⟩ := Run.exists_exec hrun
  refine ⟨s, hs, ?_, ?_⟩
  · rw [hcount]
    norm_num
  · rw [hstreak]
    norm_num [Spaced, usual]

/-! ## The failures of a key -/

variable {s₁ : State}

/-- A failure may be recorded without one more LOGIN. -/
def Phase.owes : Phase → Bool
  | .waiting _ | .rejected => true
  | .settled res | .answered res => res = .invalid
  | _ => false

def Request.owes (key : ℕ) (r : Request) : Bool := r.key = key && r.phase.owes

/-- The condition on a step, for a key: no request of it joins a validation, and a success of it is
recorded when no failure is yet to be. -/
def unshared (key : ℕ) (s : State) : Action → Bool
  | .advance i => s.requests[i]?.all fun r => r.key ≠ key ||
      match r.phase with
      | .checked => s.requests.all fun q => !(q.credential = r.credential && q.phase.inflight)
      | .answered .valid => s.requests.all fun q => !q.owes key
      | _ => true
  | _ => true

/-- The table counts `n` failures of the key. -/
def Tally (s : State) (key n : ℕ) : Prop := n = 0 ∨ ∃ e, (key, e) ∈ s.entries ∧ e.failures = n

/-- What is counted of the key, with what is yet to be, is at most its streak. -/
def Tallied (key : ℕ) (s : State) : Prop :=
  ∀ n, Tally s key n → n + s.requests.countP (·.owes key) ≤ (streak key s.log).length

lemma tally_lookup {entries : List (ℕ × Entry)} (hsub : entries ⊆ s.entries) :
    Tally s key ((entries.lookup key).elim 0 (·.failures)) := by
  cases he : entries.lookup key with
  | none => exact .inl rfl
  | some e =>
    obtain ⟨l₁, l₂, rfl, -⟩ := lookup_eq_some_iff.1 he
    exact .inr ⟨e, hsub (by simp), rfl⟩

lemma tally_recordFailure {k n : ℕ} (h : Tally (recordFailure cfg s k) key n) :
    (k = key ∧ ∃ m, Tally s key m ∧ n = m + 1) ∨ Tally s key n := by
  have hsub : maybePrune s ⊆ s.entries := by
    unfold maybePrune
    split
    · exact Subset.refl _
    · exact filter_subset_self _
  rcases h with rfl | ⟨e, he, rfl⟩
  · exact .inr (.inl rfl)
  · rcases mem_cons.1 he with heq | hin
    · cases heq
      exact .inl ⟨rfl, _, tally_lookup hsub, rfl⟩
    · exact .inr (.inr ⟨e, hsub (mem_filter.1 hin).1, rfl⟩)

section

variable (h : Tallied key s) (hr : s.requests[i]? = some r)
include h hr

/-- A request moves on, and what is counted does not outgrow the streak. -/
lemma Tallied.move (hrequests : s'.requests = s.requests.set i { r with phase := p })
    (hcount : ∀ n, Tally s' key n → ∃ m, Tally s key m ∧
      n + (Request.owes key { r with phase := p }).toNat + (streak key s.log).length ≤
        m + (r.owes key).toNat + (streak key s'.log).length) : Tallied key s' := by
  have hset : (s.requests.set i { r with phase := p }).countP (·.owes key) + (r.owes key).toNat =
      s.requests.countP (·.owes key) + (Request.owes key { r with phase := p }).toNat := by
    obtain ⟨hlt, rfl⟩ := List.getElem?_eq_some_iff.1 hr
    have hnew := (set_perm_cons_eraseIdx hlt { s.requests[i] with phase := p }).countP_eq
      (·.owes key)
    have hold := (getElem_cons_eraseIdx_perm hlt).countP_eq (·.owes key)
    rw [hnew, ← hold, countP_cons, countP_cons]
    grind
  intro n hn
  obtain ⟨m, hm, hle⟩ := hcount n hn
  have hold := h m hm
  rw [hrequests]
  omega

lemma Tallied.still (hsame : s₁.requests = s.requests ∧ s₁.entries = s.entries ∧ s₁.log = s.log)
    (howes : Request.owes key { r with phase := p } = true → r.owes key = true) :
    Tallied key (s₁.move i r p) := by
  obtain ⟨hrequests, hentries, hlog⟩ := hsame
  refine h.move hr (by rw [State.move, hrequests]) fun n hn => ⟨n, by rwa [Tally, ← hentries], ?_⟩
  have := Bool.toNat_le_toNat howes
  rw [State.move, hlog]
  omega

/-- The result of a request is recorded. -/
lemma Tallied.recorded {res : Result} (hphase : r.phase = .answered res)
    (hnone : r.key = key → res = .valid → ∀ q ∈ s.requests, q.owes key = false) :
    Tallied key ((record cfg s r.key res).move i r (.done res)) := by
  have howes : Request.owes key { r with phase := .done res } = false := by
    simp [Request.owes, Phase.owes]
  cases res with
  | valid =>
    by_cases hkey : r.key = key
    · rintro n (rfl | ⟨e, he, -⟩)
      · have hzero := Run.forall_mem_set (i := i) (hnone hkey rfl) howes
        have hcount : (s.requests.set i { r with phase := .done .valid }).countP (·.owes key) = 0 :=
          countP_eq_zero.2 fun q hq => by simp [hzero q hq]
        exact ((Nat.zero_add _).trans hcount).trans_le (Nat.zero_le _)
      · exact absurd hkey.symm (by simpa using (mem_filter.1 he).2)
    · have hlog : streak key (.success r.key :: s.log) = streak key s.log := if_neg hkey
      refine h.move hr rfl fun n hn => ⟨n, ?_, ?_⟩
      · exact hn.imp_right fun ⟨e, he, hn⟩ => ⟨e, (mem_filter.1 he).1, hn⟩
      · simp [howes, record, recordSuccess, State.move, hlog]
  | invalid =>
    refine h.move hr rfl fun n hn => ?_
    rw [howes]
    rcases tally_recordFailure hn with ⟨hkey, m, hm, rfl⟩ | hn
    · refine ⟨m, hm, ?_⟩
      simp [Request.owes, Phase.owes, hkey, hphase, State.move, record, recordFailure]
    · exact ⟨n, hn, by simp [State.move, record, recordFailure]⟩
  | unavailable | exhausted => exact h.still hr ⟨rfl, rfl, rfl⟩ (by simp [howes])

lemma Tallied.advanced (hguard : unshared key s (.advance i) = true)
    (hs : advance cfg s i r = some s') : Tallied key s' := by
  cases hphase : r.phase with
  | checked =>
    simp only [advance, hphase] at hs
    split at hs <;> cases hs
    · rename_i leader hfind
      obtain ⟨hlt, hq, -⟩ := findIdx?_eq_some_iff_getElem.1 hfind
      refine h.still hr ⟨rfl, rfl, rfl⟩ fun howes => ?_
      simp_all [Request.owes, unshared]
      exact absurd hq.2 (by simpa [hq.1] using hguard _ (getElem_mem hlt))
    · exact h.still hr ⟨rfl, rfl, rfl⟩ (by simp [Request.owes, Phase.owes])
  | answered res =>
    simp only [advance, hphase] at hs
    cases hs
    refine h.recorded hr hphase fun hkey hres => ?_
    simpa [unshared, hr, hkey, hphase, hres] using hguard
  | _ =>
    obtain ⟨s₁, p, hnext, rfl⟩ := next_of_advance hs
    rw [hphase] at hnext
    cases hnext
    all_goals
      refine h.still hr (by simp [consumeBudget]) ?_
      simp +contextual [Request.owes, Phase.owes, hphase]

end

lemma Tallied.step {a : Action} (h : Tallied key s) (hguard : unshared key s a = true)
    (hs : step cfg s a = some s') : Tallied key s' := by
  cases a with
  | tick =>
    obtain ⟨-, ⟨⟩⟩ := Option.ite_none_right_eq_some.1 hs
    exact h
  | arrive =>
    simp only [Lockout.step] at hs
    split at hs <;> cases hs
    · exact h
    · intro n hn
      simpa [Request.owes, Phase.owes] using h n hn
  | advance =>
    obtain ⟨r, hr, hs⟩ := Option.bind_eq_some_iff.1 hs
    exact h.advanced hr hguard hs
  | answer i a =>
    obtain ⟨r, hr, hs⟩ := Option.bind_eq_some_iff.1 hs
    obtain ⟨hasked, ⟨⟩⟩ := Option.ite_none_right_eq_some.1 hs
    cases a with
    | valid | unavailable => exact h.still hr ⟨rfl, rfl, rfl⟩ (by simp [Request.owes, Phase.owes])
    | rejected | lost =>
      refine h.move hr rfl fun n hn => ⟨n, hn, ?_⟩
      by_cases hkey : r.key = key <;>
        simp [Request.owes, Phase.owes, hasked, hkey, answer, State.move, streak] <;> omega
  | cancel =>
    obtain ⟨r, hr, hs⟩ := Option.bind_eq_some_iff.1 hs
    split at hs <;> cases hs
    exact h.still hr ⟨rfl, rfl, rfl⟩ (by simp [Request.owes, Phase.owes])

/-- **The failures of a key.**  In every run in which its requests share no validation, and no
success is recorded between a rejection and its failure, they are at most the LOGINs rejected since
the last success. -/
theorem failuresOf_le {t : ℚ} {as : List Action} (h : exec (step cfg) (start cfg t) as = some s)
    (hguard : Guarded (step cfg) (fun s a => unshared key s a = true) (start cfg t) as) :
    failuresOf s key ≤ (streak key s.log).length := by
  have hstart : Tallied key (start cfg t) := by
    rintro n (rfl | ⟨e, he, -⟩)
    · exact Nat.zero_le _
    · cases he
  have hinv := Run.inv_exec (fun _ _ _ hg hi hs => Tallied.step hi hg hs) hstart hguard h
  exact le_trans (Nat.le_add_right _ _) (hinv _ (tally_lookup (Subset.refl s.entries)))

/-- A run with the defaults, and a budget of two. -/
def tried (as : List Action) : Option State :=
  exec (step (usual 2 two_pos)) (start (usual 2 two_pos) 0) as

theorem failuresOf_le_oneByOne : ∃ s, tried oneByOne = some s ∧
    failuresOf s 1 = 2 ∧ failuresOf s 1 ≤ (streak 1 s.log).length := by
  have hrun : (tried oneByOne).any (fun s => failuresOf s 1 = 2) = true := by decide +kernel
  obtain ⟨s, hs, htwo⟩ := Run.exists_exec hrun
  exact ⟨s, hs, htwo, failuresOf_le hs (by decide +kernel)⟩

/-- Two requests with one password, the second while the LOGIN of the first is out: one LOGIN is
rejected, and two failures are counted. -/
theorem shared_counts_twice : ∃ s, tried (asking 0 1 10 ++ [.arrive 1 10, .advance 1] ++
      rejecting 0 ++ [.advance 1, .advance 1]) = some s ∧
    failuresOf s 1 = 2 ∧ (streak 1 s.log).length = 1 :=
  Run.exists_exec (by decide +kernel)

end Moov.Lockout
