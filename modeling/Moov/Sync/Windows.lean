import Moov.Sync.Initial

/-!
# The windows of the initial sync

The backfill and `recentUIDs` walk down a mailbox in windows, and reckon them in `uint32`.
Here they do so on words of 32 bits, and agree with the windows on numbers of the passes:
no end of a window wraps around, whatever the server announces, the checkpoint holds and
the configuration asks for (`windows_partition`).
-/

namespace Moov.Sync

open Moov.Store List

/-! ## The words -/

/-- `highestUID`, as the words compute it. -/
def highestWord (uidNext numMessages : BitVec 32) : BitVec 32 :=
  if 1 < uidNext then uidNext - 1 else numMessages

/-- Where a backfill resumes, likewise. -/
def resumeWord (uidNext numMessages uidLow : BitVec 32) : BitVec 32 :=
  let high := highestWord uidNext numMessages
  if 0 < uidLow ∧ uidLow - 1 < high then uidLow - 1 else high

/-- The lower end of a window, likewise. -/
def lowWord (win : Int) (high : BitVec 32) : BitVec 32 :=
  let size := BitVec.ofNat 32 (windowSize win)
  if size < high then high - size + 1 else 1

/-- The loop of `uidRange`. -/
def uidLoop (u high : BitVec 32) : List (BitVec 32) :=
  if u = high then [u] else u :: uidLoop (u + 1) high
termination_by (high - u).toNat
decreasing_by bv_omega

/-- `uidRange`. -/
def wordRange (low high : BitVec 32) : List (BitVec 32) :=
  if high < low then [] else uidLoop low high

/-! ## One window -/

lemma windowSize_bounds (win : Int) : 0 < windowSize win ∧ windowSize win < 4294967296 := by
  unfold windowSize
  split_ifs <;> omega

lemma lowWord_toNat (win : Int) (high : BitVec 32) :
    (lowWord win high).toNat = windowLow win high.toNat := by
  have hs := windowSize_bounds win
  simp only [lowWord, windowLow]
  split_ifs <;> bv_omega

lemma resumeWord_toNat (cp : Checkpoint) (sel : SelectResult)
    (uidNext numMessages uidLow : BitVec 32) :
    (resumeWord uidNext numMessages uidLow).toNat =
      resumeHigh { cp with uidLow := uidLow.toNat }
        { sel with uidNext := uidNext.toNat, numMessages := numMessages.toNat } := by
  simp only [resumeWord, resumeHigh, highestWord, highestUID]
  split_ifs <;> bv_omega

/-- What is below a window. -/
lemma below_lowWord (win : Int) {high : BitVec 32} (h : high ≠ 0) :
    (lowWord win high).toNat = (lowWord win high - 1).toNat + 1 ∧
      (lowWord win high - 1).toNat < high.toNat ∧
      high.toNat ≤ (lowWord win high - 1).toNat + windowSize win ∧
      (lowWord win high = 1 ∨ (lowWord win high - 1).toNat + windowSize win = high.toNat) := by
  have hb := windowSize_bounds win
  have hlow := lowWord_toNat win high
  generalize lowWord win high = low at hlow ⊢
  rw [windowLow] at hlow
  split at hlow <;> bv_omega

/-! ## The loops -/

/-- The windows of the backfill and of `recentUIDs`, from the top.  `stop` is
`reachedCutoff`, which a backfill does not look at. -/
def descend (win : Int) (stop : BitVec 32 × BitVec 32 → Bool) (high : BitVec 32) :
    List (BitVec 32 × BitVec 32) :=
  if h0 : high = 0 then []
  else if stop (lowWord win high, high) ∨ lowWord win high = 1 then [(lowWord win high, high)]
  else (lowWord win high, high) :: descend win stop (lowWord win high - 1)
termination_by high.toNat
decreasing_by exact (below_lowWord win h0).2.1

/-- The UIDs that the windows ask for, in ascending order. -/
def asked (ws : List (BitVec 32 × BitVec 32)) : List Nat :=
  (ws.reverse.flatMap fun w => wordRange w.1 w.2).map BitVec.toNat

/-- How many windows that many UIDs take. -/
def windowsFor (win : Int) (uids : Nat) : Nat := (uids + windowSize win - 1) / windowSize win

lemma toNat_uidLoop (u high : BitVec 32) (h : u ≤ high) :
    (uidLoop u high).map BitVec.toNat = range' u.toNat (high.toNat - u.toNat + 1) := by
  fun_induction uidLoop u high with
  | case1 => simp
  | case2 u hu ih =>
    have hn : (u + 1).toNat = u.toNat + 1 := by bv_omega
    rw [map_cons, ih (by bv_omega), hn,
      show high.toNat - u.toNat = high.toNat - (u.toNat + 1) + 1 by bv_omega, ← range'_succ]

/-- One more window on top. -/
lemma asked_cons {low high : BitVec 32} {l rest : Nat} {ws : List (BitVec 32 × BitVec 32)}
    (h : asked ws = range' (rest + 1) (l - rest)) (hr : rest ≤ l) (hlow : low.toNat = l + 1)
    (hl : l < high.toNat) : asked ((low, high) :: ws) = range' (rest + 1) (high.toNat - rest) := by
  have hword : (wordRange low high).map BitVec.toNat = range' (l + 1) (high.toNat - l) := by
    rw [wordRange, if_neg (by bv_omega), toNat_uidLoop _ _ (by bv_omega), hlow]
    congr 1
    omega
  have happ := @range'_append_1 (rest + 1) (l - rest) (high.toNat - l)
  rw [asked, reverse_cons, flatMap_append, map_append, flatMap_singleton, hword]
  rw [show rest + 1 + (l - rest) = l + 1 by omega,
    show l - rest + (high.toNat - l) = high.toNat - rest by omega] at happ
  exact (congrArg (· ++ _) h).trans happ

lemma windowsFor_add (win : Int) (uids : Nat) :
    windowsFor win (uids + windowSize win) = windowsFor win uids + 1 := by
  have hb := (windowSize_bounds win).1
  rw [windowsFor, windowsFor, ← Nat.add_div_right _ hb]
  congr 1
  omega

/-- The windows ask for the UIDs from `high` down to one above `rest`, in as many windows as
that takes, and `rest` is 0 unless `stop` ended them. -/
theorem descend_tiles (win : Int) (stop : BitVec 32 × BitVec 32 → Bool) (high : BitVec 32) :
    ∃ rest ≤ high.toNat, asked (descend win stop high) = range' (rest + 1) (high.toNat - rest) ∧
      (descend win stop high).length = windowsFor win (high.toNat - rest) ∧
      (rest = 0 ∨ (descend win stop high).getLast?.any stop) := by
  have hb := windowSize_bounds win
  fun_induction descend win stop high with
  | case1 => exact ⟨0, Nat.zero_le _, rfl, (Nat.div_eq_of_lt (by simp; omega)).symm, .inl rfl⟩
  | case2 high h0 hend =>
    obtain ⟨hlow, hl, hle, -⟩ := below_lowWord win h0
    refine ⟨(lowWord win high - 1).toNat, Nat.le_of_lt hl,
      asked_cons (by rw [Nat.sub_self]; rfl) (Nat.le_refl _) hlow hl, ?_, ?_⟩
    · exact (Nat.div_eq_of_lt_le (k := 1) (by omega) (by omega)).symm
    · exact hend.symm.imp (fun h => by rw [h]; rfl) id
  | case3 high h0 hend ih =>
    obtain ⟨hlow, hl, -, hfull⟩ := below_lowWord win h0
    obtain ⟨rest, hr, hasked, hcount, hrest⟩ := ih
    have hfull := hfull.resolve_left fun h => hend (.inr h)
    refine ⟨rest, by omega, asked_cons hasked hr hlow hl, ?_, hrest.imp_right fun h => ?_⟩
    · rw [length_cons, hcount, ← windowsFor_add, ← hfull, Nat.sub_add_comm hr]
    · cases hd : descend win stop (lowWord win high - 1) with
      | nil =>
        rw [hd] at h
        cases h
      | cons => rwa [getLast?_cons_cons, ← hd]

/-- The windows end with the first one that `stop` ends them with. -/
lemma descend_goes_on (win : Int) (stop : BitVec 32 × BitVec 32 → Bool) (high : BitVec 32) :
    ∀ w ∈ (descend win stop high).dropLast, stop w = false := by
  fun_induction descend win stop high with
  | case1 => simp
  | case2 => simp
  | case3 high _ hend ih =>
    have hstop : stop (lowWord win high, high) = false :=
      Bool.eq_false_iff.2 fun h => hend (.inl h)
    cases hd : descend win stop (lowWord win high - 1) with
    | nil => simp
    | cons =>
      rw [dropLast_cons_cons, ← hd]
      exact forall_mem_cons.2 ⟨hstop, ih⟩

/-- **Windows.**  Nothing wraps: a backfill asks for every UID from where it resumes down
to 1, and the probe from the top to 1 or to the first window that `stop` ends it with, each
once, in as many windows as these UIDs take. -/
theorem windows_partition (win : Int) (cp : Checkpoint) (sel : SelectResult)
    (uidNext numMessages uidLow : BitVec 32) :
    let cp := { cp with uidLow := uidLow.toNat }
    let sel := { sel with uidNext := uidNext.toNat, numMessages := numMessages.toNat }
    let backfill := descend win (fun _ => false) (resumeWord uidNext numMessages uidLow)
    (asked backfill = range' 1 (resumeHigh cp sel) ∧
      backfill.length = windowsFor win (resumeHigh cp sel)) ∧
    ∀ stop, ∃ rest ≤ highestUID sel,
      let probe := descend win stop (highestWord uidNext numMessages)
      asked probe = range' (rest + 1) (highestUID sel - rest) ∧
        probe.length = windowsFor win (highestUID sel - rest) ∧
        (rest = 0 ∨ probe.getLast?.any stop) ∧ ∀ w ∈ probe.dropLast, stop w = false := by
  intro cp sel backfill
  constructor
  · obtain ⟨rest, -, hasked, hcount, hrest⟩ := descend_tiles win (fun _ => false)
      (resumeWord uidNext numMessages uidLow)
    obtain rfl : rest = 0 := hrest.resolve_right (by simp)
    rw [resumeWord_toNat cp sel] at hasked hcount
    exact ⟨hasked, hcount⟩
  · intro stop
    have htop : (highestWord uidNext numMessages).toNat = highestUID sel := by
      simp only [highestWord, highestUID, sel]
      split_ifs <;> bv_omega
    obtain ⟨rest, hle, hasked, hcount, hrest⟩ :=
      htop ▸ descend_tiles win stop (highestWord uidNext numMessages)
    exact ⟨rest, hle, hasked, hcount, hrest, descend_goes_on win stop _⟩

/-- The probe stops at the first window with a message dated before the cutoff. -/
theorem probe_stops_short :
    asked (descend 1 (fun w => (probeWindow (twoDated 10 10) w.1.toNat w.2.toNat 50).2)
      (highestWord 3 2)) = [2] := by
  have hone : uidLoop 2 2 = [2] := by rw [uidLoop, if_pos rfl]
  rw [descend, dif_neg (by decide), if_pos (by decide)]
  show (wordRange 2 2 ++ []).map BitVec.toNat = [2]
  rw [wordRange, if_neg (by decide), hone]
  rfl

end Moov.Sync
