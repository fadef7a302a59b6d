import Moov.Http.Lockout

/-!
# The budget of failed logins

The LOGINs that are with Dovecot, or rejected and not charged yet, are the attempts of a
`Bucket.Meter`: a step of a request is a step of the meter, so what the bucket bounds is known from
how many of them are out at once.
-/

namespace Moov.Lockout

open Bucket Finset
open Run (exec Guarded)

/-! ## Requests by their phase -/

/-- The requests in a phase. -/
def withPhase (p : Phase) (requests : List Request) : Finset ℕ :=
  (Finset.range requests.length).filter fun i => requests[i]?.any fun r => r.phase = p

variable {requests : List Request} {r : Request} {i : ℕ} {p : Phase}

lemma mem_withPhase : i ∈ withPhase p requests ↔ ∃ r, requests[i]? = some r ∧ r.phase = p := by
  simp only [withPhase, mem_filter, mem_range]
  cases hr : requests[i]? with
  | none => simp
  | some =>
    have hi : i < requests.length := (List.getElem?_eq_some_iff.1 hr).1
    simp [hi]

section

variable (hr : requests[i]? = some r)
include hr

lemma mem_withPhase_of_eq : i ∈ withPhase p requests ↔ r.phase = p := by
  rw [mem_withPhase, hr]
  simp

end

section

variable {s : State} (hr : s.requests[i]? = some r)
include hr

lemma mem_withPhase_move {j : ℕ} {p' : Phase} : j ∈ withPhase p (s.move i r p').requests ↔
    if j = i then p' = p else j ∈ withPhase p s.requests := by
  have hi : i < s.requests.length := (List.getElem?_eq_some_iff.1 hr).1
  rw [mem_withPhase, mem_withPhase, State.move]
  split
  · simp [*]
  · simp [*, Ne.symm]

/-- A request enters a phase. -/
lemma withPhase_enter :
    withPhase p (s.move i r p).requests = insert i (withPhase p s.requests) := by
  ext j
  rw [mem_insert, mem_withPhase_move hr]
  by_cases hji : j = i <;> simp [hji]

/-- A request leaves a phase. -/
lemma withPhase_leave {p' : Phase} (hp : p' ≠ p) :
    withPhase p (s.move i r p').requests = (withPhase p s.requests).erase i := by
  ext j
  rw [mem_erase, mem_withPhase_move hr]
  by_cases hji : j = i <;> simp [hji, hp]

/-- A request is in neither. -/
lemma withPhase_of_ne {p' : Phase} (hold : r.phase ≠ p) (hp : p' ≠ p) :
    withPhase p (s.move i r p').requests = withPhase p s.requests := by
  rw [withPhase_leave hr hp, erase_eq_of_notMem]
  rwa [mem_withPhase_of_eq hr]

end

/-- A request that is new. -/
lemma withPhase_append (hp : r.phase ≠ p) :
    withPhase p (requests ++ [r]) = withPhase p requests := by
  ext j
  rw [mem_withPhase, mem_withPhase]
  rcases lt_trichotomy j requests.length with hj | rfl | hj
  · rw [List.getElem?_append_left hj]
  · simp [hp]
  · rw [List.getElem?_eq_none (by simpa using Nat.succ_le_of_lt hj), List.getElem?_eq_none hj.le]

/-! ## The bucket -/

variable {cfg : Config} {s s' : State}

lemma Config.rate_pos (cfg : Config) : 0 < cfg.rate :=
  div_pos (Nat.cast_pos.2 cfg.budget_pos) cfg.window_pos

/-- The bucket is as it was filled last. -/
structure Sane (cfg : Config) (s : State) : Prop where
  past : s.lastRefill ≤ s.now
  nonneg : 0 ≤ s.tokens
  le : s.tokens ≤ cfg.budget

lemma level_eq (h : Sane cfg s) :
    level cfg s = min (cfg.budget : ℚ) (s.tokens + (s.now - s.lastRefill) * cfg.rate) := by
  unfold level
  by_cases hnow : s.now - s.lastRefill ≤ 0
  · have : s.now - s.lastRefill = 0 := le_antisymm hnow (sub_nonneg.2 h.past)
    rw [if_pos hnow, this, zero_mul, add_zero, min_eq_right h.le]
  · rw [if_neg hnow]
    by_cases hfull : (cfg.budget : ℚ) < s.tokens + (s.now - s.lastRefill) * cfg.rate
    · rw [if_pos hfull, min_eq_left hfull.le]
    · rw [if_neg hfull, min_eq_right (not_lt.1 hfull)]

lemma tokens_refill : (refill cfg s).tokens = level cfg s := by
  unfold refill
  by_cases hnow : s.now - s.lastRefill ≤ 0
  · rw [if_pos hnow, level, if_pos hnow]
  · rw [if_neg hnow]

/-- A refill does not change the level. -/
lemma level_refill : level cfg (refill cfg s) = level cfg s := by
  unfold refill
  by_cases hnow : s.now - s.lastRefill ≤ 0
  · rw [if_pos hnow]
  · rw [if_neg hnow]
    simp [level]

@[simp] lemma now_refill : (refill cfg s).now = s.now := by
  unfold refill
  split <;> rfl

@[simp] lemma requests_refill : (refill cfg s).requests = s.requests := by
  unfold refill
  split <;> rfl

@[simp] lemma log_refill : (refill cfg s).log = s.log := by
  unfold refill
  split <;> rfl

@[simp] lemma entries_refill : (refill cfg s).entries = s.entries := by
  unfold refill
  split <;> rfl

section

variable (h : Sane cfg s)
include h

lemma lastRefill_refill : (refill cfg s).lastRefill = s.now := by
  unfold refill
  by_cases hnow : s.now - s.lastRefill ≤ 0
  · rw [if_pos hnow]
    exact le_antisymm h.past (by linarith)
  · rw [if_neg hnow]

lemma level_nonneg : 0 ≤ level cfg s := by
  rw [level_eq h]
  have hfilled : 0 ≤ (s.now - s.lastRefill) * cfg.rate :=
    mul_nonneg (sub_nonneg.2 h.past) cfg.rate_pos.le
  exact le_min (Nat.cast_nonneg _) (by linarith [h.nonneg])

lemma level_le : level cfg s ≤ cfg.budget := by
  rw [level_eq h]
  exact min_le_left _ _

lemma Sane.refill : Sane cfg (refill cfg s) where
  past := by rw [lastRefill_refill h, now_refill]
  nonneg := by rw [tokens_refill]; exact level_nonneg h
  le := by rw [tokens_refill]; exact level_le h

lemma Sane.tick {d : ℚ} (hd : 0 ≤ d) : Sane cfg { s with now := s.now + d } :=
  ⟨le_trans h.past (by simpa using hd), h.nonneg, h.le⟩

/-- While time passes, the level rises, by what the rate allows. -/
lemma level_tick {d : ℚ} (hd : 0 ≤ d) : level cfg s ≤ level cfg { s with now := s.now + d } ∧
      level cfg { s with now := s.now + d } ≤ level cfg s + cfg.rate * d := by
  rw [level_eq h, level_eq (h.tick hd)]
  have hfill : 0 ≤ cfg.rate * d := mul_nonneg cfg.rate_pos.le hd
  have hmore : s.tokens + (s.now + d - s.lastRefill) * cfg.rate =
      s.tokens + (s.now - s.lastRefill) * cfg.rate + cfg.rate * d := by ring
  rw [hmore]
  constructor
  · exact min_le_min_left _ (by linarith)
  · rw [← min_add_add_right]
    exact min_le_min_right _ (by linarith)

lemma Sane.consumeBudget : Sane cfg (consumeBudget cfg s) := by
  have hle := level_le h
  refine ⟨h.refill.past, ?_, ?_⟩
  · simp only [Lockout.consumeBudget, tokens_refill]
    split_ifs with h1
    · linarith
    · exact le_rfl
  · simp only [Lockout.consumeBudget, tokens_refill]
    split_ifs with h1
    · linarith
    · exact Nat.cast_nonneg _

end

/-! ## The meter -/

def Event.failedAt : Event → Option ℚ
  | .rejected _ t => some t
  | .success _ => none

/-- The times of the LOGINs that Dovecot has rejected. -/
def rejections (s : State) : List ℚ := s.log.filterMap Event.failedAt

/-- The LOGINs that are with Dovecot, or not charged yet. -/
def out (s : State) : Finset ℕ := withPhase .asked s.requests ∪ withPhase .rejected s.requests

/-- The bucket and the LOGINs, as a meter. -/
def meter (cfg : Config) (s : State) (spoilt : Finset ℕ) (charges : List ℚ) : Meter where
  now := s.now
  level := level cfg s
  admitted := withPhase .asked s.requests
  failed := withPhase .rejected s.requests
  spoilt := spoilt
  failures := rejections s
  charges := charges

variable {k : ℕ}

structure Metered (cfg : Config) (k : ℕ) (s : State) : Prop where
  sane : Sane cfg s
  inv : ∃ spoilt charges, (meter cfg s spoilt charges).Inv cfg.budget cfg.rate k

/-- The condition on a step: fewer than `k + 1` LOGINs are out when another goes out, and no answer
of a LOGIN that Dovecot rejects is lost. -/
def fewOut (k : ℕ) (s : State) : Action → Bool
  | .advance i => (s.requests[i]?.all fun r => r.phase ≠ .leading) || (out s).card ≤ k
  | .answer _ .lost => false
  | _ => true

section Steps

variable (h : Metered cfg k s)
include h

/-- What is no step of the meter. -/
lemma Metered.same (hsane : Sane cfg s') (hnow : s'.now = s.now)
    (hlevel : level cfg s' = level cfg s)
    (hasked : withPhase .asked s'.requests = withPhase .asked s.requests)
    (hrejected : withPhase .rejected s'.requests = withPhase .rejected s.requests)
    (hlog : rejections s' = rejections s) : Metered cfg k s' := by
  obtain ⟨spoilt, charges, hinv⟩ := h.inv
  refine ⟨hsane, spoilt, charges, ?_⟩
  rw [meter, hnow, hlevel, hasked, hrejected, hlog]
  exact hinv

lemma Metered.refill : Metered cfg k (refill cfg s) :=
  h.same h.sane.refill now_refill level_refill (by rw [requests_refill]) (by rw [requests_refill])
    (by rw [rejections, log_refill, rejections])

lemma Metered.record (key : ℕ) (res : Result) : Metered cfg k (record cfg s key res) := by
  cases res with
  | valid | invalid => exact h.same { h.sane with } rfl rfl rfl rfl rfl
  | unavailable | exhausted => exact h

variable (hr : s.requests[i]? = some r)
include hr

/-- A request goes from one phase to another, and neither is that of a LOGIN. -/
lemma Metered.move
    (hold : r.phase ≠ .asked ∧ r.phase ≠ .rejected) (hp : p ≠ .asked ∧ p ≠ .rejected) :
    Metered cfg k (s.move i r p) :=
  h.same { h.sane with } rfl rfl (withPhase_of_ne hr hold.1 hp.1)
    (withPhase_of_ne hr hold.2 hp.2) rfl

/-- A LOGIN goes out. -/
lemma Metered.ask (hold : r.phase = .leading)
    (htoken : 1 ≤ level cfg s) (hfew : (out s).card ≤ k) : Metered cfg k (s.move i r .asked) := by
  obtain ⟨spoilt, charges, hinv⟩ := h.inv
  have hin : i ∉ withPhase .asked s.requests ∪ withPhase .rejected s.requests := by
    rw [mem_union, mem_withPhase_of_eq hr, mem_withPhase_of_eq hr, hold]
    simp
  refine ⟨{ h.sane with }, spoilt, charges, hinv.of_core ?_ rfl⟩
  have hcore := hinv.toCore.admit hin htoken hfew
  rw [meter, withPhase_enter hr, withPhase_of_ne hr (by simp [hold]) (by simp)]
  exact hcore

/-- A LOGIN is over, and is not rejected. -/
lemma Metered.passed (hold : r.phase = .asked) (res : Result) :
    Metered cfg k (s.move i r (.settled res)) := by
  obtain ⟨spoilt, charges, hinv⟩ := h.inv
  refine ⟨{ h.sane with }, spoilt.erase i, charges, hinv.of_core ?_ rfl⟩
  have hcore := hinv.toCore.leave ((mem_withPhase_of_eq hr).2 hold)
  rw [meter, withPhase_leave hr (by simp), withPhase_of_ne hr (by simp [hold]) (by simp)]
  exact hcore

/-- A LOGIN is rejected. -/
lemma Metered.reject (hold : r.phase = .asked) :
    Metered cfg k { s.move i r .rejected with log := .rejected r.key s.now :: s.log } := by
  obtain ⟨spoilt, charges, hinv⟩ := h.inv
  refine ⟨{ h.sane with }, spoilt, charges, ?_⟩
  have hfail := hinv.fail cfg.rate_pos.le ((mem_withPhase_of_eq hr).2 hold)
  rw [meter, withPhase_leave hr (by simp), withPhase_enter hr]
  exact hfail

/-- A rejected LOGIN is charged. -/
lemma Metered.charge (hold : r.phase = .rejected) :
    Metered cfg k ((consumeBudget cfg s).move i r (.settled .invalid)) := by
  set s' := (consumeBudget cfg s).move i r (.settled .invalid)
  obtain ⟨spoilt, charges, hinv⟩ := h.inv
  have hmem := (mem_withPhase_of_eq hr).2 hold
  have hasked : withPhase .asked s'.requests = withPhase .asked s.requests := by
    simp only [s', State.move, consumeBudget, requests_refill]
    exact withPhase_of_ne hr (by simp [hold]) (by simp)
  have hrejected : withPhase .rejected s'.requests = (withPhase .rejected s.requests).erase i := by
    simp only [s', State.move, consumeBudget, requests_refill]
    exact withPhase_leave hr (by simp)
  have hlog : rejections s' = rejections s := by
    simp only [s', rejections, State.move, consumeBudget, log_refill]
  have hlevel : level cfg s' = if 1 ≤ level cfg s then level cfg s - 1 else 0 := by
    have hnow : s'.now - s'.lastRefill ≤ 0 := by
      simp [s', State.move, consumeBudget, lastRefill_refill h.sane]
    rw [level, if_pos hnow]
    simp only [s', State.move, consumeBudget, tokens_refill]
  have hnow : s'.now = s.now := by simp only [s', State.move, consumeBudget, now_refill]
  have hsane := h.sane.consumeBudget
  by_cases htoken : 1 ≤ level cfg s
  · refine ⟨{ hsane with }, (out s).erase i, s.now :: charges, hinv.of_core ?_ hlog⟩
    have hcore := hinv.toCore.charge hmem htoken
    rw [if_pos htoken] at hlevel
    rw [meter, hasked, hrejected, hlog, hlevel, hnow]
    exact hcore
  · refine ⟨{ hsane with }, spoilt.erase i, charges, hinv.of_core ?_ hlog⟩
    have hcore := hinv.toCore.drain hmem (not_le.1 htoken)
    rw [if_neg htoken] at hlevel
    rw [meter, hasked, hrejected, hlog, hlevel, hnow]
    exact hcore

lemma Metered.advance
    (hfew : r.phase = .leading → (out s).card ≤ k) (hs : advance cfg s i r = some s') :
    Metered cfg k s' := by
  obtain ⟨s₁, p, hnext, rfl⟩ := next_of_advance hs
  generalize hphase : r.phase = q at hnext
  have hr' : (Lockout.refill cfg s).requests[i]? = some r := by rwa [requests_refill]
  cases hnext with
  | join | lead | joined | settle => exact h.move hr (by simp [hphase]) (by simp)
  | ask htoken =>
    have hout : (out (Lockout.refill cfg s)).card ≤ k := by
      rw [out, requests_refill]
      exact hfew hphase
    rw [tokens_refill, ← level_refill] at htoken
    exact h.refill.ask hr' hphase htoken hout
  | exhaust => exact h.refill.move hr' (by simp [hphase]) (by simp)
  | charge => exact h.charge hr hphase
  | record res =>
    have hr' : (Lockout.record cfg s r.key res).requests[i]? = some r := by
      cases res <;> exact hr
    exact (h.record r.key res).move hr' (by simp [hphase]) (by simp)

end Steps

/-! ## Runs -/

lemma Metered.step {a : Action} (h : Metered cfg k s) (hguard : fewOut k s a = true)
    (hs : step cfg s a = some s') : Metered cfg k s' := by
  cases a with
  | tick =>
    obtain ⟨hd, ⟨⟩⟩ := Option.ite_none_right_eq_some.1 hs
    obtain ⟨spoilt, charges, hinv⟩ := h.inv
    obtain ⟨hrise, hfill⟩ := level_tick h.sane hd
    refine ⟨h.sane.tick hd, spoilt, charges, hinv.of_core ?_ rfl⟩
    exact hinv.toCore.tick hd cfg.rate_pos.le hrise (level_le (h.sane.tick hd)) hfill
  | arrive =>
    simp only [Lockout.step] at hs
    split at hs
    · cases hs
      exact h
    · cases hs
      exact h.same { h.sane with } rfl rfl (withPhase_append (by simp))
        (withPhase_append (by simp)) rfl
  | advance =>
    obtain ⟨r, hr, hs⟩ := Option.bind_eq_some_iff.1 hs
    refine h.advance hr (fun hleading => ?_) hs
    simpa [fewOut, hr, hleading] using hguard
  | answer i a =>
    obtain ⟨r, hr, hs⟩ := Option.bind_eq_some_iff.1 hs
    obtain ⟨hasked, ⟨⟩⟩ := Option.ite_none_right_eq_some.1 hs
    cases a with
    | valid | unavailable => exact h.passed hr hasked _
    | rejected => exact h.reject hr hasked
    | lost => simp [fewOut] at hguard
  | cancel =>
    obtain ⟨r, hr, hs⟩ := Option.bind_eq_some_iff.1 hs
    split at hs
    · rename_i hwaiting
      cases hs
      exact h.move hr (by simp [hwaiting]) (by simp)
    · cases hs

lemma metered_start (cfg : Config) (k : ℕ) (t : ℚ) : Metered cfg k (start cfg t) := by
  have hbudget : (0 : ℚ) ≤ cfg.budget := Nat.cast_nonneg _
  have hfull : level cfg (start cfg t) = cfg.budget := by simp [level, start]
  have hnone : ∀ p, withPhase p (start cfg t).requests = ∅ := fun p => rfl
  refine ⟨⟨le_rfl, hbudget, le_rfl⟩, ∅, [], ⟨?_, fun u T hT => ?_⟩⟩
  · rw [meter, hnone, hnone, hfull]
    refine ⟨by simp, by simp, by simp, by simp, by simp, hbudget, le_rfl, ?_, by simp, ?_, ?_⟩
    · exact fun u hu => absurd hu (by simp [rejections, start])
    · intro u _
      simp [rejections, start]
    · intro u hu
      have : 0 ≤ cfg.rate * ((start cfg t).now - u) :=
        mul_nonneg cfg.rate_pos.le (by simpa using hu)
      simpa using this
  · have : (0 : ℚ) ≤ cfg.rate * T := mul_nonneg cfg.rate_pos.le hT
    have hzero : (countIn u T (meter cfg (start cfg t) ∅ []).failures : ℚ) = 0 := by
      simp [meter, rejections, start, countIn]
    positivity

/-- In every run in which no more than `k + 1` LOGINs are out at once, and no rejection is lost, the
LOGINs that are rejected in a window are bounded. -/
lemma rejections_le {t : ℚ} {as : List Action} (h : exec (step cfg) (start cfg t) as = some s)
    (hguard : Guarded (step cfg) (fun s a => fewOut k s a = true) (start cfg t) as) (u T : ℚ)
    (hT : 0 ≤ T) :
    (countIn u T (rejections s) : ℚ) ≤ (k + 1) *
    (cfg.budget + cfg.budget * T / cfg.window) + k := by
  have hmetered :=
    Run.inv_exec (fun _ _ _ hg hi hs => Metered.step hi hg hs) (metered_start cfg k t) hguard h
  obtain ⟨spoilt, charges, hinv⟩ := hmetered.inv
  have hbound := hinv.bounded u T hT
  rw [Config.rate, div_mul_eq_mul_div] at hbound
  exact hbound

end Moov.Lockout
