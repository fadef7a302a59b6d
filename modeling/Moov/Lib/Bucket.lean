import Mathlib.Algebra.Order.Field.Rat
import Mathlib.Data.Finset.Card
import Mathlib.Tactic.Linarith
import Mathlib.Tactic.Ring

/-!
# A bucket that is checked first and charged later

A token bucket meters attempts: an attempt is admitted if the bucket holds a token, and takes one
when it has failed.  Between the two, other attempts are admitted on the same token.

* `Meter` — the level of the bucket, the attempts that are admitted and those that have failed and
  are not charged yet, and the times of all failures;
* `Meter.Inv` — as long as no more than `k + 1` attempts are out at once, each charge of a whole
  token answers for the attempts that are out with it;
* `Meter.Inv.bounded` — so in a window of length `T` there are at most
  `(k + 1) * (cap + rate * T) + k` failures.  Attempts that do not overlap, `k = 0`, keep to the
  bucket.
-/

namespace Moov.Bucket

open Finset

/-- A bucket and its attempts.  An attempt is spoilt once a whole token was charged after it was
admitted. -/
structure Meter where
  now : ℚ
  level : ℚ
  admitted : Finset ℕ
  failed : Finset ℕ
  spoilt : Finset ℕ
  failures : List ℚ
  charges : List ℚ

/-- The times from one on. -/
def countFrom (u : ℚ) (times : List ℚ) : ℕ := times.countP fun t => u ≤ t

/-- The times in a window. -/
def countIn (u T : ℚ) (times : List ℚ) : ℕ := times.countP fun t => u ≤ t ∧ t ≤ u + T

lemma countIn_le_countFrom (u T : ℚ) (times : List ℚ) : countIn u T times ≤ countFrom u times := by
  refine List.countP_mono_left fun t _ h => ?_
  simp only [decide_eq_true_eq] at h ⊢
  exact h.1

@[simp] lemma countFrom_nil (u : ℚ) : countFrom u [] = 0 := rfl

lemma countFrom_cons_of_le {u t : ℚ} (h : u ≤ t) (times : List ℚ) :
    countFrom u (t :: times) = countFrom u times + 1 := by
  simp [countFrom, h]

/-- A window that begins after all of the times is empty. -/
lemma countFrom_eq_zero {u : ℚ} {times : List ℚ} (h : ∀ t ∈ times, t < u) :
    countFrom u times = 0 := by
  refine List.countP_eq_zero.2 fun t ht => ?_
  simpa using h t ht

variable (cap rate : ℚ) (k : ℕ) {i : ℕ}

/-- The meter, when at most `k + 1` attempts are out at once. -/
structure Meter.Core (m : Meter) : Prop where
  apart : Disjoint m.admitted m.failed
  spoilt_sub : m.spoilt ⊆ m.admitted ∪ m.failed
  few : (m.admitted ∪ m.failed).card ≤ k + 1
  /-- The attempt that was charged is not out any more. -/
  few_spoilt : m.spoilt.card ≤ k
  /-- The token of an attempt that is not spoilt is still there. -/
  token : ∀ i ∈ m.admitted ∪ m.failed, i ∉ m.spoilt → 1 ≤ m.level
  level_nonneg : 0 ≤ m.level
  level_le : m.level ≤ cap
  failures_past : ∀ t ∈ m.failures, t ≤ m.now
  charges_past : ∀ t ∈ m.charges, t ≤ m.now
  /-- A charge answers for the attempts that it spoils; a spoilt attempt may still fail, and one
  that is not spoilt waits for its charge. -/
  answered : ∀ u ≤ m.now, countFrom u m.failures + (m.spoilt ∩ m.admitted).card ≤
    (k + 1) * countFrom u m.charges + k + (m.failed \ m.spoilt).card
  spent : ∀ u ≤ m.now, countFrom u m.charges + m.level ≤ cap + rate * (m.now - u)

/-- With the windows up to now. -/
structure Meter.Inv (m : Meter) : Prop extends Meter.Core cap rate k m where
  bounded : ∀ u T, 0 ≤ T → (countIn u T m.failures : ℚ) ≤ (k + 1) * (cap + rate * T) + k

namespace Meter

variable {cap rate k} {m : Meter}

section

variable (h : m.Core cap rate k)
include h

/-- The failures from a time on. -/
lemma Core.countFrom_le {u : ℚ} (hu : u ≤ m.now) :
    (countFrom u m.failures : ℚ) ≤ (k + 1) * (cap + rate * (m.now - u)) + k := by
  have hanswered : (countFrom u m.failures : ℚ) ≤
    (k + 1) * countFrom u m.charges + k + (m.failed \ m.spoilt).card := by
    have := h.answered u hu
    exact_mod_cast le_trans (Nat.le_add_right _ _) this
  have hspent := h.spent u hu
  have hk : (0 : ℚ) ≤ k + 1 := by positivity
  rcases (m.failed \ m.spoilt).eq_empty_or_nonempty with hempty | ⟨i, hi⟩
  · -- every failure is answered for by a charge
    rw [hempty] at hanswered
    have hcharges : (countFrom u m.charges : ℚ) ≤ cap + rate * (m.now - u) := by
      linarith [h.level_nonneg]
    have := mul_le_mul_of_nonneg_left hcharges hk
    simp only [card_empty, Nat.cast_zero, add_zero] at hanswered
    linarith
  · -- a failure waits for its charge, and its token is still there
    obtain ⟨hfailed, hclean⟩ := mem_sdiff.1 hi
    have htoken := h.token i (mem_union_right _ hfailed) hclean
    have hcharges : (countFrom u m.charges : ℚ) + 1 ≤ cap + rate * (m.now - u) := by linarith
    have hwaiting : ((m.failed \ m.spoilt).card : ℚ) ≤ k + 1 := by
      have : (m.failed \ m.spoilt).card ≤ k + 1 :=
        le_trans (card_le_card (sdiff_subset.trans subset_union_right)) h.few
      exact_mod_cast this
    have := mul_le_mul_of_nonneg_left hcharges hk
    linarith

/-! ## Steps -/

/-- Time passes, and the bucket fills. -/
lemma Core.tick {d level : ℚ} (hd : 0 ≤ d) (hrate : 0 ≤ rate) (hle : m.level ≤ level)
    (hcap : level ≤ cap) (hfill : level ≤ m.level + rate * d) :
    Core cap rate k { m with now := m.now + d, level := level } where
  apart := h.apart
  spoilt_sub := h.spoilt_sub
  few := h.few
  few_spoilt := h.few_spoilt
  token i hi hclean := le_trans (h.token i hi hclean) hle
  level_nonneg := le_trans h.level_nonneg hle
  level_le := hcap
  failures_past t ht := by linarith [h.failures_past t ht]
  charges_past t ht := by linarith [h.charges_past t ht]
  answered u hu := by
    by_cases hnow : u ≤ m.now
    · exact h.answered u hnow
    · -- nothing has failed since, but spoilt attempts may be out
      have hfailures :=
        countFrom_eq_zero fun t ht => lt_of_le_of_lt (h.failures_past t ht) (not_le.1 hnow)
      have hspoilt : (m.spoilt ∩ m.admitted).card ≤ k :=
        le_trans (card_le_card inter_subset_left) h.few_spoilt
      simp only [hfailures]
      omega
  spent u hu := by
    by_cases hnow : u ≤ m.now
    · have hring : rate * (m.now + d - u) = rate * (m.now - u) + rate * d := by ring
      linarith [h.spent u hnow]
    · have hcharges :=
        countFrom_eq_zero fun t ht => lt_of_le_of_lt (h.charges_past t ht) (not_le.1 hnow)
      have hpos : 0 ≤ rate * (m.now + d - u) := mul_nonneg hrate (by simpa using hu)
      simp only [hcharges, Nat.cast_zero, zero_add]
      linarith

/-- An attempt is admitted. -/
lemma Core.admit (hi : i ∉ m.admitted ∪ m.failed) (htoken : 1 ≤ m.level)
    (hfew : (m.admitted ∪ m.failed).card ≤ k) :
    Core cap rate k { m with admitted := insert i m.admitted } := by
  have hclean : i ∉ m.spoilt := fun hs => hi (h.spoilt_sub hs)
  have hunion : insert i m.admitted ∪ m.failed = insert i (m.admitted ∪ m.failed) := insert_union ..
  refine { h with apart := ?_, spoilt_sub := ?_, few := ?_, token := ?_, answered := ?_ }
  · exact disjoint_insert_left.2 ⟨fun hf => hi (mem_union_right _ hf), h.apart⟩
  · rw [hunion]
    exact h.spoilt_sub.trans (subset_insert _ _)
  · rw [hunion, card_insert_of_notMem hi]
    omega
  · exact fun _ _ _ => htoken
  · intro u hu
    rw [inter_insert_of_notMem hclean]
    exact h.answered u hu

/-- An attempt is over that does not wait for its charge. -/
lemma Core.forget (hi : i ∉ m.failed \ m.spoilt) : Core cap rate k { m with
      admitted := m.admitted.erase i, failed := m.failed.erase i, spoilt := m.spoilt.erase i } := by
  have hunion : m.admitted.erase i ∪ m.failed.erase i = (m.admitted ∪ m.failed).erase i :=
    (erase_union_distrib ..).symm
  refine { h with
    apart := h.apart.mono (erase_subset _ _) (erase_subset _ _)
    spoilt_sub := ?_, few := ?_
    few_spoilt := le_trans (card_le_card (erase_subset _ _)) h.few_spoilt
    token := ?_, answered := ?_ }
  · rw [hunion]
    exact erase_subset_erase _ h.spoilt_sub
  · rw [hunion]
    exact le_trans (card_le_card (erase_subset _ _)) h.few
  · intro j hj hclean
    rw [hunion, mem_erase] at hj
    exact h.token j hj.2 fun hs => hclean (mem_erase.2 ⟨hj.1, hs⟩)
  · intro u hu
    have hsub : m.spoilt.erase i ∩ m.admitted.erase i ⊆ m.spoilt ∩ m.admitted :=
      inter_subset_inter (erase_subset _ _) (erase_subset _ _)
    have hsame : m.failed.erase i \ m.spoilt.erase i = m.failed \ m.spoilt := by
      rw [← erase_sdiff_distrib, erase_eq_of_notMem hi]
    have := h.answered u hu
    have := card_le_card hsub
    simp only [hsame]
    omega

/-- An attempt that is admitted ends without a failure. -/
lemma Core.leave (hi : i ∈ m.admitted) :
    Core cap rate k { m with admitted := m.admitted.erase i, spoilt := m.spoilt.erase i } := by
  have hfailed : i ∉ m.failed := disjoint_left.1 h.apart hi
  have hcore := h.forget fun hs => hfailed (mem_sdiff.1 hs).1
  rwa [erase_eq_of_notMem hfailed] at hcore

/-- An attempt fails. -/
lemma Core.fail (hi : i ∈ m.admitted) : Core cap rate k { m with
      admitted := m.admitted.erase i
      failed := insert i m.failed
      failures := m.now :: m.failures } := by
  have hunion : m.admitted.erase i ∪ insert i m.failed = m.admitted ∪ m.failed := by
    rw [union_insert, ← insert_union, insert_erase hi]
  refine { h with
    apart := ?_, spoilt_sub := ?_, few := ?_, token := ?_, failures_past := ?_, answered := ?_ }
  · exact disjoint_insert_right.2 ⟨notMem_erase i _, h.apart.mono_left (erase_subset _ _)⟩
  · rw [hunion]
    exact h.spoilt_sub
  · rw [hunion]
    exact h.few
  · rw [hunion]
    exact h.token
  · exact List.forall_mem_cons.2 ⟨le_rfl, h.failures_past⟩
  · intro u hu
    have hanswered := h.answered u hu
    dsimp only
    rw [countFrom_cons_of_le hu]
    by_cases hspoilt : i ∈ m.spoilt
    · -- the charge that has spoilt it answers for it
      have hless : (m.spoilt ∩ m.admitted.erase i).card + 1 = (m.spoilt ∩ m.admitted).card := by
        rw [inter_erase]
        exact card_erase_add_one (mem_inter.2 ⟨hspoilt, hi⟩)
      rw [insert_sdiff_of_mem _ hspoilt]
      omega
    · have hmore : (insert i m.failed \ m.spoilt).card = (m.failed \ m.spoilt).card + 1 := by
        rw [insert_sdiff_of_notMem _ hspoilt, card_insert_of_notMem]
        exact fun hf => disjoint_left.1 h.apart hi (mem_sdiff.1 hf).1
      have hsub : (m.spoilt ∩ m.admitted.erase i).card ≤ (m.spoilt ∩ m.admitted).card :=
        card_le_card (inter_subset_inter_left (erase_subset _ _))
      omega

/-- A failure is charged a whole token: it answers for all attempts that are out. -/
lemma Core.charge (hi : i ∈ m.failed) (htoken : 1 ≤ m.level) : Core cap rate k { m with
      failed := m.failed.erase i
      spoilt := (m.admitted ∪ m.failed).erase i
      level := m.level - 1
      charges := m.now :: m.charges } := by
  have hadmitted : i ∉ m.admitted := disjoint_right.1 h.apart hi
  have hunion : m.admitted ∪ m.failed.erase i = (m.admitted ∪ m.failed).erase i := by
    rw [erase_union_distrib, erase_eq_of_notMem hadmitted]
  have hcard : ((m.admitted ∪ m.failed).erase i).card + 1 = (m.admitted ∪ m.failed).card :=
    card_erase_add_one (mem_union_right _ hi)
  have hfew := h.few
  refine { h with
    apart := h.apart.mono_right (erase_subset _ _)
    spoilt_sub := ?_, few := ?_, few_spoilt := ?_, token := ?_, level_nonneg := ?_, level_le := ?_
    charges_past := ?_, answered := ?_, spent := ?_ }
  · rw [hunion]
  · rw [hunion]
    omega
  · simp only
    omega
  · intro j hj hclean
    rw [hunion] at hj
    exact absurd hj hclean
  · simpa using htoken
  · have := h.level_le
    linarith
  · exact List.forall_mem_cons.2 ⟨le_rfl, h.charges_past⟩
  · intro u hu
    have hanswered := h.answered u hu
    rw [countFrom_cons_of_le hu]
    have hall : (m.admitted ∪ m.failed).erase i ∩ m.admitted = m.admitted := by
      rw [← hunion]
      exact inter_eq_right.2 subset_union_left
    have hsplit : (m.spoilt ∩ m.admitted).card + (m.admitted \ m.spoilt).card =
      m.admitted.card := by
      rw [inter_comm]
      exact card_inter_add_card_sdiff ..
    have hclean : (m.admitted \ m.spoilt).card + (m.failed \ m.spoilt).card ≤
      (m.admitted ∪ m.failed).card := by
      rw [← card_union_of_disjoint (h.apart.mono sdiff_subset sdiff_subset)]
      exact card_le_card (union_subset_union sdiff_subset sdiff_subset)
    simp only [hall, Nat.mul_add]
    omega
  · intro u hu
    have := h.spent u hu
    rw [countFrom_cons_of_le hu]
    push_cast
    linarith

/-- A failure is charged what is left of a token; another was charged since it was admitted. -/
lemma Core.drain (hi : i ∈ m.failed) (hlevel : m.level < 1) :
    Core cap rate k
      { m with failed := m.failed.erase i, spoilt := m.spoilt.erase i, level := 0 } := by
  have hadmitted : i ∉ m.admitted := disjoint_right.1 h.apart hi
  have hcore := h.forget fun hs =>
    absurd (h.token i (mem_union_right _ hi) (mem_sdiff.1 hs).2) (not_le.2 hlevel)
  rw [erase_eq_of_notMem hadmitted] at hcore
  refine { hcore with
    token := fun j hj hclean => absurd (hcore.token j hj hclean) (not_le.2 hlevel)
    level_nonneg := le_rfl
    level_le := le_trans h.level_nonneg h.level_le
    spent := fun u hu => ?_ }
  have := h.spent u hu
  linarith [h.level_nonneg]

end

/-! ## Windows -/

/-- Nothing fails. -/
lemma Inv.of_core {m' : Meter} (h : m.Inv cap rate k) (hcore : m'.Core cap rate k)
    (hsame : m'.failures = m.failures) :
    m'.Inv cap rate k := ⟨hcore, hsame ▸ h.bounded⟩

/-- An attempt fails: the windows that reach up to now are counted from their beginning. -/
lemma Inv.fail (h : m.Inv cap rate k) (hrate : 0 ≤ rate) (hi : i ∈ m.admitted) :
    Inv cap rate k { m with
      admitted := m.admitted.erase i
      failed := insert i m.failed
      failures := m.now :: m.failures } := by
  have hcore := h.toCore.fail hi
  refine ⟨hcore, fun u T hT => ?_⟩
  by_cases hin : u ≤ m.now ∧ m.now ≤ u + T
  · have hfrom : (countIn u T (m.now :: m.failures) : ℚ) ≤ countFrom u (m.now :: m.failures) := by
      exact_mod_cast countIn_le_countFrom u T (m.now :: m.failures)
    have hnow := hcore.countFrom_le hin.1
    have hmono : (k + 1 : ℚ) * (cap + rate * (m.now - u)) ≤ (k + 1) * (cap + rate * T) := by
      have hk : (0 : ℚ) ≤ k + 1 := by positivity
      have : rate * (m.now - u) ≤ rate * T := mul_le_mul_of_nonneg_left (by linarith [hin.2]) hrate
      exact mul_le_mul_of_nonneg_left (by linarith) hk
    linarith
  · have hsame : countIn u T (m.now :: m.failures) = countIn u T m.failures := by
      simp only [countIn, List.countP_cons, hin, decide_false, Bool.false_eq_true,
        if_false, add_zero]
    rw [hsame]
    exact h.bounded u T hT

end Meter

end Moov.Bucket
