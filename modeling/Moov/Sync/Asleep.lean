import Moov.Sync.Wakes

/-!
# Sleeping messages

The invariants of one Message-ID that the rule of `Moov.Sync.Wakes` is used for: what a
sleeping message can rely on (`Sleeping`), and how many copies a message has (`Single`).

`snooze_run` puts the results together: no run loses a message; when operations on one
Message-ID do not overlap, a row is pending or failed for every sleeping message and is
resolved to it; and when nothing crashes and no call fails after the MOVE or the APPEND,
each message has one live copy whenever nothing is under way.  `wakes_overlap` has two
runs in which operations do overlap: a waker and a user wake one message at once and it
comes back twice, and two messages with one Message-ID share a row, so that one of them
sleeps on without one.
-/

namespace Moov.Snooze

open List Option Bool Run

/-! ## What a sleeping message can rely on -/

/-- The row of the copy is live and in Snoozed. -/
def Copy.InSnoozed (k : Copy) : Prop :=
  ∃ r, k.row = some r ∧ r.deleted = false ∧ r.folder = .snoozed

/-- No copy with the Message-ID is asleep. -/
def Awake (V : Nat → Option Copy) : Prop := ∀ d k, V d = some k → k.asleep = false

/-- No other copy with the Message-ID has its row in Snoozed. -/
def OnlySleeper (V : Nat → Option Copy) (c : Nat) : Prop :=
  ∀ d k, V d = some k → k.InSnoozed → d = c

/-- What the operation under way knows of the sleeping copies. -/
def SleepStage (V : Nat → Option Copy) : Stage → Prop
  | .locate c _ _ => V c ≠ none ∧ Awake V ∧ OnlySleeper V c
  | .move c _ _ _ | .follow c _ _ =>
      (∃ k r, V c = some k ∧ k.row = some r ∧ r.deleted = false) ∧ Awake V ∧ OnlySleeper V c
  | .put c _ _ => (∃ k, V c = some k ∧ k.InSnoozed) ∧ Awake V ∧ OnlySleeper V c
  | .unmapped _ _ _ _ => False
  | .readSnooze c | .target c _ | .append c _ _ =>
      V c ≠ none ∧ ∀ d k, V d = some k → k.asleep = true → d = c
  | .reflect c _ n =>
      V c ≠ none ∧ (∀ d k, V d = some k → k.asleep = true → d = c) ∧
        ∃ k, V n = some k ∧ k.folder ≠ .snoozed
  | .expunge c _ _ | .tombstone c _ _ => V c ≠ none ∧ Awake V
  | .close => Awake V
  | _ => True

/-- A sleeping copy is the one its scheduled row is resolved to. -/
structure Sleeping (V : Nat → Option Copy) (P : Prop) (st : Stage) : Prop where
  sleeps : ∀ c k, V c = some k → k.asleep = true → k.InSnoozed ∧ P ∧ OnlySleeper V c
  stage : SleepStage V st

/-- The two see the same rows and the same copies asleep. -/
def SameRows (V V' : Nat → Option Copy) : Prop :=
  ∀ d, (V' d).map (fun k => (k.row, k.asleep)) = (V d).map fun k => (k.row, k.asleep)

section Sleep

variable {s s' : Account} {x : Option Nat} {caller : Caller} {st st' : Stage} {reply : Reply}
  {V V' : Nat → Option Copy} {P P' : Prop} {c d n : Nat} {k k' : Copy} {f : Copy → Copy}

lemma liveRow_eq_some {r : Row} : s.liveRow c = some r ↔
    ∃ k, s.copies[c]? = some k ∧ k.row = some r ∧ r.deleted = false := by
  simp only [Account.liveRow, bind_eq_some_iff]
  constructor
  · rintro ⟨k, hk, r', hr', h⟩
    split at h
    · cases h
    · cases h
      exact ⟨k, hk, hr', eq_false_iff.2 ‹_›⟩
  · rintro ⟨k, hk, hr, hd⟩
    exact ⟨k, hk, r, hr, by simp [hd]⟩

/-- The live row of a copy with the Message-ID. -/
lemma exists_of_liveRow {r : Row} (hc : s.copiesOf x c ≠ none) (hr : s.liveRow c = some r) :
    ∃ k, s.copiesOf x c = some k ∧ k.row = some r ∧ r.deleted = false := by
  obtain ⟨k, hk⟩ := ne_none_iff_exists'.1 hc
  obtain ⟨k', hk', hrow, hd⟩ := liveRow_eq_some.1 hr
  obtain rfl : k = k' := some.inj ((copiesOf_eq_some.1 hk).1.symm.trans hk')
  exact ⟨k, hk, hrow, hd⟩

lemma sleeper_iff : s.sleeper x c = true ↔ ∃ k, s.copiesOf x c = some k ∧ k.InSnoozed := by
  simp only [Account.sleeper, Option.any_eq_true, and_eq_true, decide_eq_true_eq,
    not_eq_true', copiesOf_eq_some, Copy.InSnoozed]
  constructor
  · rintro ⟨k, hk, hx, r, hr, hd, hf⟩
    exact ⟨k, ⟨hk, hx⟩, r, hr, hd, hf⟩
  · rintro ⟨k, ⟨hk, hx⟩, r, hr, hd, hf⟩
    exact ⟨k, hk, hx, r, hr, hd, hf⟩

lemma messageIDInSnoozed_eq_some (h : s.messageIDInSnoozed x = some c) : s.sleeper x c = true :=
  (mem_filter.1 (argmax_mem h)).2

lemma messageIDInSnoozed_eq_none (h : s.messageIDInSnoozed x = none) (d : Nat) :
    s.sleeper x d = false := by
  by_contra hd
  rw [not_eq_false] at hd
  have hmem := mem_filter.2 ⟨mem_range.2 (sleeper_lt hd), hd⟩
  rw [argmax_eq_none.1 h] at hmem
  cases hmem

section

variable (h : SameRows V V')
include h

lemma SameRows.back (hk : V' d = some k') :
    ∃ k, V d = some k ∧ k'.row = k.row ∧ k'.asleep = k.asleep := by
  have hd := h d
  rw [hk, map_some, eq_comm, map_eq_some_iff] at hd
  obtain ⟨k, hk, he⟩ := hd
  exact ⟨k, hk, (congrArg Prod.fst he).symm, (congrArg Prod.snd he).symm⟩

lemma SameRows.symm : SameRows V' V := fun d => (h d).symm

lemma SameRows.awake (ha : Awake V) : Awake V' := by
  intro d k' hk'
  obtain ⟨k, hk, -, he⟩ := h.back hk'
  rw [he]
  exact ha d k hk

lemma SameRows.onlySleeper (ho : OnlySleeper V c) : OnlySleeper V' c := by
  intro d k' hk' hin
  obtain ⟨k, hk, he, -⟩ := h.back hk'
  rw [Copy.InSnoozed, he] at hin
  exact ho d k hk hin

lemma SameRows.ne_none (hc : V c ≠ none) : V' c ≠ none := by
  intro hn
  obtain ⟨k, hk⟩ := ne_none_iff_exists'.1 hc
  obtain ⟨k', hk', -⟩ := h.symm.back hk
  rw [hn] at hk'
  cases hk'

end

lemma sameRows_onAt (hf : ∀ k, ((f k).row, (f k).asleep) = (k.row, k.asleep)) :
    SameRows V (onAt V c f) := by
  intro d
  unfold onAt
  split
  · cases V d with
    | none => rfl
    | some k => exact congrArg some (hf k)
  · rfl

lemma awake_onAt (hf : ∀ k, (f k).asleep = k.asleep) (ha : Awake V) : Awake (onAt V c f) := by
  intro d k' hd
  rcases onAt_eq_some hd with ⟨-, k, hk, rfl⟩ | ⟨-, hk⟩
  · rw [hf]
    exact ha d k hk
  · exact ha d k' hk

/-- A command to the server, where it holds the copy or not. -/
lemma sameRows_server (g : Folder) : SameRows (s.copiesOf x) ((s.serverMove c g).copiesOf x) ∧
    SameRows (s.copiesOf x) ((s.serverExpunge c g).copiesOf x) := by
  by_cases hh : s.holds c g = true
  · rw [copiesOf_serverMove g hh, copiesOf_serverExpunge g hh]
    exact ⟨sameRows_onAt fun _ => rfl, sameRows_onAt fun _ => rfl⟩
  · rw [Account.serverMove, Account.serverExpunge, if_neg hh, if_neg hh]
    exact ⟨fun d => rfl, fun d => rfl⟩

/-- With nobody asleep there is nothing to rely on. -/
lemma sleeping_of_awake (ha : Awake V) (hst : SleepStage V st) : Sleeping V P st := by
  refine ⟨fun c k hk hasl => ?_, hst⟩
  rw [ha c k hk] at hasl
  cases hasl

lemma onlySleeper_addAt (hin : ¬ k.InSnoozed) (ho : OnlySleeper V c) :
    OnlySleeper (addAt V n k) c := by
  intro d kd hd hkd
  rcases of_addAt hd with ⟨-, rfl⟩ | ⟨-, hd⟩
  · exact absurd hkd hin
  · exact ho d kd hd hkd

/-- A copy that is added is not asleep. -/
lemma asleep_addAt {Q : Nat → Copy → Prop} (hk : k.asleep = false)
    (h : ∀ d k, V d = some k → k.asleep = true → Q d k) :
    ∀ d k', addAt V n k d = some k' → k'.asleep = true → Q d k' := by
  intro d k' hd ha
  rcases of_addAt hd with ⟨-, rfl⟩ | ⟨-, hd⟩
  · rw [hk] at ha
    cases ha
  · exact h d k' hd ha

/-- A copy whose row is not in Snoozed, or that has none, is added. -/
lemma sleeps_addAt (hk : k.asleep = false) (hin : ¬ k.InSnoozed)
    (hs : ∀ c k, V c = some k → k.asleep = true → k.InSnoozed ∧ P ∧ OnlySleeper V c) :
    ∀ c k', addAt V n k c = some k' → k'.asleep = true →
      k'.InSnoozed ∧ P ∧ OnlySleeper (addAt V n k) c := by
  refine asleep_addAt hk fun c k' hc ha => ?_
  obtain ⟨h₁, h₂, h₃⟩ := hs c k' hc ha
  exact ⟨h₁, h₂, onlySleeper_addAt hin h₃⟩

lemma awake_addAt (hk : k.asleep = false) (h : Awake V) : Awake (addAt V n k) := by
  intro d k' hd
  rcases of_addAt hd with ⟨-, rfl⟩ | ⟨-, hd⟩
  · exact hk
  · exact h d k' hd

lemma addAt_ne_none (hn : V n = none) (hc : V c ≠ none) : addAt V n k c ≠ none := by
  rw [addAt_ne]
  · exact hc
  · rintro rfl
    exact hc hn

lemma addAt_eq_some (hn : V n = none) (hc : V c = some k') : addAt V n k c = some k' := by
  rw [addAt_ne]
  · exact hc
  · rintro rfl
    rw [hn] at hc
    cases hc

/-- A delivery into another folder changes nothing for the operation under way. -/
lemma sleepStage_addAt (hn : V n = none) (hk : k.asleep = false) (hin : ¬ k.InSnoozed)
    (h : SleepStage V st) : SleepStage (addAt V n k) st := by
  cases st with
  | locate =>
    exact ⟨addAt_ne_none hn h.1, awake_addAt hk h.2.1, onlySleeper_addAt hin h.2.2⟩
  | move | follow =>
    obtain ⟨⟨k', r, hk', hr⟩, ha, ho⟩ := h
    exact ⟨⟨k', r, addAt_eq_some hn hk', hr⟩, awake_addAt hk ha, onlySleeper_addAt hin ho⟩
  | put =>
    obtain ⟨⟨k', hk', hr⟩, ha, ho⟩ := h
    exact ⟨⟨k', addAt_eq_some hn hk', hr⟩, awake_addAt hk ha, onlySleeper_addAt hin ho⟩
  | unmapped => exact h
  | readSnooze | target | append => exact ⟨addAt_ne_none hn h.1, asleep_addAt hk h.2⟩
  | reflect =>
    obtain ⟨hc, ha, k', hk', hf⟩ := h
    exact ⟨addAt_ne_none hn hc, asleep_addAt hk ha, k', addAt_eq_some hn hk', hf⟩
  | expunge | tombstone => exact ⟨addAt_ne_none hn h.1, awake_addAt hk h.2⟩
  | close => exact awake_addAt hk h
  | _ => trivial

lemma copiesOf_serverAppend {p : Place} (hc : s.copiesOf x c ≠ none) :
    ∃ k, s.copiesOf x c = some k ∧ (s.serverAppend c p).copiesOf x =
      addAt (s.copiesOf x) s.copies.length ⟨k.message, x, true, .place p, none, false⟩ := by
  obtain ⟨k, hk, he⟩ := serverAppend_copies (p := p) hc
  exact ⟨k, hk, by rw [copiesOf_concat he, if_pos rfl]⟩

/-- The appended copy has no row yet. -/
lemma not_inSnoozed_appended (msg : Nat) (x : Option Nat) (p : Place) :
    ¬ Copy.InSnoozed ⟨msg, x, true, .place p, none, false⟩ := by
  rintro ⟨r, hr, -⟩
  cases hr

/-- A call of an operation on the Message-ID. -/
lemma sleeping_call (h : Call s x caller st reply s' st')
    (hmap : ∀ c g o t m, st = .move c g o t → reply = .moved m → (s.holds c g && m) = true)
    (hg : Sleeping (s.copiesOf x) (s.Scheduled x) st) :
    Sleeping (s'.copiesOf x) (s'.Scheduled x) st' := by
  have hst := hg.stage
  cases h with
  | here c o t r hr hf =>
    obtain ⟨hc, ha, ho⟩ := hst
    obtain ⟨k, hk, hrow, hd⟩ := exists_of_liveRow hc hr
    exact ⟨hg.sleeps, ⟨k, hk, r, hrow, hd, hf⟩, ha, ho⟩
  | elsewhere c o t r hr =>
    obtain ⟨hc, ha, ho⟩ := hst
    obtain ⟨k, hk, hrow, hd⟩ := exists_of_liveRow hc hr
    exact ⟨hg.sleeps, ⟨k, r, hk, hrow, hd⟩, ha, ho⟩
  | moved c g | moveLost c g =>
    obtain ⟨⟨k, r, hk, hrow, hd⟩, ha, ho⟩ := hst
    have hsame := (sameRows_server (s := s) (x := x) (c := c) g).1
    obtain ⟨k', hk', hrow', -⟩ := hsame.symm.back hk
    exact sleeping_of_awake (hsame.awake ha)
      ⟨⟨k', r, hk', hrow' ▸ hrow, hd⟩, hsame.awake ha, hsame.onlySleeper ho⟩
  | astray c g o t m hh =>
    rw [hmap c g o t m rfl rfl] at hh
    cases hh
  | unmapped => exact absurd hst id
  | followed c =>
    obtain ⟨⟨k, r, hk, hrow, hd⟩, ha, ho⟩ := hst
    have hawake : Awake ((s.moveMessages c).copiesOf x) := by
      rw [copiesOf_moveMessages]
      exact awake_onAt (fun _ => rfl) ha
    refine sleeping_of_awake hawake ⟨?_, hawake, ?_⟩
    · rw [copiesOf_moveMessages]
      exact ⟨_, onAt_self hk, { r with folder := .snoozed }, by rw [hrow]; rfl, hd, rfl⟩
    · rw [copiesOf_moveMessages]
      intro d k' hd' hin
      rcases onAt_eq_some hd' with ⟨rfl, -⟩ | ⟨-, hk₀⟩
      · rfl
      · exact ho d k' hk₀ hin
  | put c o t y hx =>
    subst hx
    obtain ⟨⟨k, hk, hin⟩, ha, ho⟩ := hst
    have hsame : ((s.putSnooze y t o).onCopy c fun k => { k with asleep := true }).copiesOf
        (some y) = onAt (s.copiesOf (some y)) c fun k => { k with asleep := true } := by
      rw [copiesOf_setAsleep, copiesOf_congr (copies_putSnooze y t o)]
    refine ⟨fun d k' hd hasl => ?_, trivial⟩
    rw [hsame] at hd ⊢
    -- only the copy just snoozed is asleep
    rcases onAt_eq_some hd with ⟨rfl, k₀, hk₀, rfl⟩ | ⟨-, hk₀⟩
    · obtain rfl := mem_unique hk hk₀
      refine ⟨hin, scheduled_putSnooze y t o, fun e k' he hin' => ?_⟩
      rcases onAt_eq_some he with ⟨rfl, -⟩ | ⟨-, hk₁⟩
      · rfl
      · exact ho e k' hk₁ hin'
    · rw [ha d k' hk₀] at hasl
      cases hasl
  | unkeyed => exact ⟨hg.sleeps, trivial⟩
  | readSnooze | targeted => exact ⟨hg.sleeps, hst⟩
  | obsolete hn =>
    -- whoever is asleep has a row in Snoozed
    refine ⟨hg.sleeps, fun d k hd => eq_false_iff.2 fun ha => ?_⟩
    have hin := sleeper_iff.2 ⟨k, hd, (hg.sleeps d k hd ha).1⟩
    rw [messageIDInSnoozed_eq_none hn d] at hin
    cases hin
  | resolved c o hc =>
    obtain ⟨k, hk, hin⟩ := sleeper_iff.1 (messageIDInSnoozed_eq_some hc)
    refine ⟨hg.sleeps, ne_none_iff_exists'.2 ⟨k, hk⟩, fun d k' hd ha => ?_⟩
    exact ((hg.sleeps d k' hd ha).2.2 c k hk hin).symm
  | appended c g p | appendLost c g p =>
    obtain ⟨k, -, he⟩ := copiesOf_serverAppend (p := p) hst.1
    have hin := not_inSnoozed_appended k.message x p
    rw [he, propext (scheduled_congr (snoozes_serverAppend c p))]
    refine ⟨sleeps_addAt rfl hin hg.sleeps, addAt_ne_none copiesOf_length hst.1, ?_⟩
    first
    | exact asleep_addAt rfl hst.2
    | exact ⟨asleep_addAt rfl hst.2, _, addAt_self, nofun⟩
  | reflected c g m =>
    obtain ⟨hc, ha, kₘ, hkₘ, hf⟩ := hst
    have hV : ((s.insertMessage m).onCopy c fun k => { k with asleep := false }).copiesOf x =
        onAt (onAt (s.copiesOf x) m fun k => { k with row := some ⟨s.nextID, k.folder, false⟩ })
          c fun k => { k with asleep := false } := by
      rw [copiesOf_setAsleep, copiesOf_insertMessage]
    have hawake : Awake (((s.insertMessage m).onCopy c fun k =>
        { k with asleep := false }).copiesOf x) := by
      rw [hV]
      intro d k' hd
      rcases onAt_eq_some hd with ⟨-, k₀, -, rfl⟩ | ⟨hne, hk₀⟩
      · rfl
      · refine eq_false_iff.2 fun hasl => ?_
        rcases onAt_eq_some hk₀ with ⟨-, k₁, hk₁, rfl⟩ | ⟨-, hk₁⟩
        · exact hne (ha d k₁ hk₁ hasl).symm
        · exact hne (ha d k' hk₁ hasl).symm
    refine sleeping_of_awake hawake ⟨?_, hawake⟩
    rw [hV]
    obtain ⟨k, hk⟩ := ne_none_iff_exists'.1 hc
    by_cases hmc : m = c
    · subst hmc
      rw [onAt_self (onAt_self hk)]
      exact some_ne_none _
    · rw [onAt_self ((onAt_ne hmc).trans hk)]
      exact some_ne_none _
  | expunged c g | expungeLost c g =>
    have hsame := (sameRows_server (s := s) (x := x) (c := c) g).2
    exact sleeping_of_awake (hsame.awake hst.2) ⟨hsame.ne_none hst.1, hsame.awake hst.2⟩
  | tombstoned c g =>
    have hawake : Awake ((s.markDeleted c g).copiesOf x) := by
      rw [copiesOf_markDeleted]
      exact awake_onAt (fun _ => rfl) hst.2
    exact sleeping_of_awake hawake hawake
  | closed =>
    have hawake : Awake ((s.closeSnooze x caller).copiesOf x) := by
      cases caller <;> exact hst
    exact sleeping_of_awake hawake trivial
  | failed i =>
    refine ⟨fun c k hk ha => ?_, trivial⟩
    obtain ⟨hin, hP, ho⟩ := hg.sleeps c k hk ha
    refine ⟨hin, scheduled_of_modify (i := i) rfl (fun r => ?_) (fun r hr => ?_) hP, ho⟩
    · split
      · split <;> rfl
      · rfl
    · split
      · split
        · exact .inr rfl
        · exact hr
      · exact hr
  | leave st hl =>
    cases st with
    | expunge | tombstone => exact ⟨hg.sleeps, hst.2⟩
    | _ => cases hl
  | stop st reply next hl hn => rcases hn with rfl | rfl <;> exact ⟨hg.sleeps, trivial⟩

lemma ne_none_of_mem_singleton (hk : V c = some k) (hd : d ∈ [c]) : V d ≠ none := by
  rw [mem_singleton.1 hd, hk]
  exact some_ne_none k

/-- A sleeping message stays the one its row is resolved to, in every careful run. -/
lemma keeps_sleeping : Keeps Account.careful Sleeping where
  careful h := h
  touched := by
    intro V P st hg c hc
    have hst := hg.stage
    cases st with
    | move | follow =>
      obtain ⟨⟨k, r, hk, -⟩, -⟩ := hst
      exact ne_none_of_mem_singleton hk hc
    | put =>
      obtain ⟨⟨k, hk, -⟩, -⟩ := hst
      exact ne_none_of_mem_singleton hk hc
    | unmapped => exact absurd hst id
    | append | expunge | tombstone =>
      rw [mem_singleton.1 hc]
      exact hst.1
    | reflect =>
      obtain ⟨hd, -, k, hk, -⟩ := hst
      rcases mem_cons.1 hc with rfl | hc
      · exact hd
      · exact ne_none_of_mem_singleton hk hc
    | _ => cases hc
  empty := ⟨(by simp), trivial⟩
  call := by
    intro s s' i op reply st' hop ha hG hcall hg
    refine sleeping_call hcall (fun c g o t m hst hr => ?_) hg
    subst hr
    simpa [Account.careful, hop, hst] using hG
  begins := by
    intro s s' x caller reply st' hcall hg
    refine sleeping_call hcall (by simp) ⟨hg.sleeps, trivial⟩
  snooze := by
    intro s c k r p t hk hr hp hno hg
    have hsl : ∀ d k', s.copiesOf k.rfcID d = some k' → ¬ k'.InSnoozed := by
      intro d k' hd hin
      have := sleeper_iff.2 ⟨k', hd, hin⟩
      rw [hno d] at this
      cases this
    refine ⟨hg.sleeps, ne_none_iff_exists'.2 ⟨k, copiesOf_eq_some.2 ⟨hk, rfl⟩⟩,
      fun d k' hd => eq_false_iff.2 fun ha => ?_, fun d k' hd hin => ?_⟩
    · exact hsl d k' hd (hg.sleeps d k' hd ha).1
    · exact absurd hin (hsl d k' hd)
  unsnooze := by
    intro s c k hk hall hg
    refine ⟨hg.sleeps, ne_none_iff_exists'.2 ⟨k, copiesOf_eq_some.2 ⟨hk, rfl⟩⟩,
      fun d k' hd ha => ?_⟩
    exact hall d (sleeper_iff.2 ⟨k', hd, (hg.sleeps d k' hd ha).1⟩)
  deliver := by
    intro V P st n y p id hn hm hg
    have hin : ¬ Copy.InSnoozed ⟨n, y, true, .place p, some ⟨id, .place p, false⟩, false⟩ := by
      rintro ⟨r, hr, -, hf⟩
      cases hr
      cases hf
    exact ⟨sleeps_addAt rfl hin hg.sleeps, sleepStage_addAt hn rfl hin hg.stage⟩
  crash _ hg := ⟨hg.sleeps, trivial⟩

end Sleep

/-! ## One live copy -/

/-- The copy is on the server in this folder and its row says so. -/
def Copy.LiveAt (k : Copy) (g : Folder) : Prop :=
  k.present = true ∧ k.folder = g ∧ ∃ r, k.row = some r ∧ r.deleted = false ∧ r.folder = g

/-- The server and the row agree: the copy is live, or it is gone and tombstoned. -/
def Copy.Settled (k : Copy) : Prop :=
  k.LiveAt k.folder ∨ k.present = false ∧ ∃ r, k.row = some r ∧ r.deleted = true

/-- The copy whose row is behind the server while the operation is here. -/
def Stage.unsettled : Stage → Option Nat
  | .follow c _ _ | .tombstone c _ _ => some c
  | .reflect _ _ n => some n
  | _ => none

/-- The two copies of a message that is being woken. -/
def Stage.twins : Stage → Option (Nat × Nat)
  | .reflect c _ n | .expunge c _ n => some (c, n)
  | _ => none

/-- Every other copy is settled. -/
def SettledBut (V : Nat → Option Copy) (u : Option Nat) : Prop :=
  ∀ c k, V c = some k → u ≠ some c → k.Settled

/-- No other two copies on the server are of one message. -/
def AloneBut (V : Nat → Option Copy) (w : Option (Nat × Nat)) : Prop :=
  ∀ c d k k', V c = some k → V d = some k' → k.present = true → k'.present = true →
    k.message = k'.message → c < d → w = some (c, d)

/-- What the operation under way knows of its copies. -/
def SingleStage (V : Nat → Option Copy) : Stage → Prop
  | .locate c _ _ | .put c _ _ | .readSnooze c | .target c _ => V c ≠ none
  | .move c g _ _ | .append c g _ | .expunge c g _ => ∃ k, V c = some k ∧ k.LiveAt g
  | .unmapped _ _ _ _ => False
  | .follow c _ _ => ∃ k r, V c = some k ∧ k.present = true ∧ k.folder = .snoozed ∧
      k.row = some r ∧ r.deleted = false
  | .reflect c g n => c ≠ n ∧ (∃ k, V c = some k ∧ k.LiveAt g) ∧
      ∃ k, V n = some k ∧ k.present = true
  | .tombstone c g _ => ∃ k r, V c = some k ∧ k.present = false ∧ k.row = some r ∧ r.folder = g
  | _ => True

/-- The copies with one Message-ID are settled and alone, but for what the operation
under way is about to do. -/
structure Single (V : Nat → Option Copy) (P : Prop) (st : Stage) : Prop where
  settled : SettledBut V st.unsettled
  alone : AloneBut V st.twins
  stage : SingleStage V st

section Single

variable {s s' : Account} {x : Option Nat} {caller : Caller} {st st' : Stage} {reply : Reply}
  {V : Nat → Option Copy} {P : Prop} {c n : Nat} {k kₙ : Copy} {f : Copy → Copy}
  {u u' : Option Nat} {w : Option (Nat × Nat)} {g : Folder}

lemma settledBut_onAt (h : SettledBut V u) (hu : ∀ d, d ≠ c → u = some d → u' = some d)
    (hc : u' ≠ some c → ∀ k, V c = some k → (f k).Settled) : SettledBut (onAt V c f) u' := by
  intro d k' hd hne
  rcases onAt_eq_some hd with ⟨rfl, k, hk, rfl⟩ | ⟨hcd, hk⟩
  · exact hc hne k hk
  · exact h d k' hk fun he => hne (hu d (Ne.symm hcd) he)

/-- The row of the copy that was behind has caught up. -/
lemma settledBut_settle (h : SettledBut V (some c)) (hk : V c = some k) (hf : (f k).Settled) :
    SettledBut (onAt V c f) none := by
  refine settledBut_onAt h (fun d hne he => ?_) (fun _ k' hk' => ?_)
  · exact absurd (some.inj he).symm hne
  · exact some.inj (hk.symm.trans hk') ▸ hf

lemma aloneBut_onAt (hf : ∀ k, ((f k).message, (f k).present) = (k.message, k.present))
    (h : AloneBut V w) : AloneBut (onAt V c f) w := by
  have hback : ∀ d k', onAt V c f d = some k' →
      ∃ k, V d = some k ∧ k'.message = k.message ∧ k'.present = k.present := by
    intro d k' hd
    rcases onAt_eq_some hd with ⟨-, k, hk, rfl⟩ | ⟨-, hk⟩
    · exact ⟨k, hk, congrArg Prod.fst (hf k), congrArg Prod.snd (hf k)⟩
    · exact ⟨k', hk, rfl, rfl⟩
  intro d e kd ke hd he hpd hpe hm hlt
  obtain ⟨k₁, h₁, hm₁, hp₁⟩ := hback d kd hd
  obtain ⟨k₂, h₂, hm₂, hp₂⟩ := hback e ke he
  exact h d e k₁ k₂ h₁ h₂ (hp₁ ▸ hpd) (hp₂ ▸ hpe) (hm₁.symm.trans (hm.trans hm₂)) hlt

/-- A live row is that of a copy on the server. -/
lemma liveAt_of_liveRow {r : Row} (hs : SettledBut (s.copiesOf x) none)
    (hc : s.copiesOf x c ≠ none) (hr : s.liveRow c = some r) :
    ∃ k, s.copiesOf x c = some k ∧ k.LiveAt r.folder := by
  obtain ⟨k, hk, hrow, hd⟩ := exists_of_liveRow hc hr
  refine ⟨k, hk, ?_⟩
  rcases hs c k hk nofun with ⟨hp, -, r', hr', hd', hf⟩ | ⟨-, r', hr', hd'⟩
  · obtain rfl := mem_unique hrow hr'
    exact ⟨hp, hf.symm, r, hrow, hd, rfl⟩
  · obtain rfl := mem_unique hrow hr'
    rw [hd] at hd'
    cases hd'

/-- The copy appended for a message that is alone on the server. -/
lemma aloneBut_append (hk : V c = some k) (hp : k.present = true) (hm : kₙ.message = k.message)
    (hfresh : ∀ d, V d ≠ none → d < n) (h : AloneBut V none) :
    AloneBut (addAt V n kₙ) (some (c, n)) := by
  intro d e kd ke hd he hpd hpe hme hde
  have hdn : d ≠ n := by
    rintro rfl
    rw [addAt_ne hde.ne'] at he
    have := hfresh e (by rw [he]; exact some_ne_none _)
    omega
  rw [addAt_ne hdn] at hd
  rcases of_addAt he with ⟨rfl, rfl⟩ | ⟨-, he⟩
  · rcases Nat.lt_trichotomy c d with hcd | rfl | hdc
    · cases h c d k kd hk hd hp hpd (hm.symm.trans hme.symm) hcd
    · rfl
    · cases h d c kd k hd hk hpd hp (hme.trans hm) hdc
  · cases h d e kd ke hd he hpd hpe hme hde

lemma settledBut_addAt (h : SettledBut V u) (hu : ∀ d, u = some d → u' = some d)
    (hk : u' ≠ some n → kₙ.Settled) : SettledBut (addAt V n kₙ) u' := by
  intro d kd hd hne
  rcases of_addAt hd with ⟨rfl, rfl⟩ | ⟨-, hd⟩
  · exact hk hne
  · exact h d kd hd fun he => hne (hu d he)

/-- Two copies that are both there are not the twins once one of them is expunged. -/
lemma aloneBut_expunged (h : AloneBut V (some (c, n))) :
    AloneBut (onAt V c fun k => { k with present := false }) none := by
  intro d e kd ke hd he hpd hpe hme hde
  rcases onAt_eq_some hd with ⟨-, k₀, -, rfl⟩ | ⟨hcd, hkd⟩
  · cases hpd
  rcases onAt_eq_some he with ⟨-, k₀, -, rfl⟩ | ⟨-, hke⟩
  · cases hpe
  cases h d e kd ke hkd hke hpd hpe hme hde
  exact absurd rfl hcd

lemma copiesOf_lt (h : s.copiesOf x c ≠ none) : c < s.copies.length := by
  obtain ⟨k, hk⟩ := ne_none_iff_exists'.1 h
  exact (List.getElem?_eq_some_iff.1 (copiesOf_eq_some.1 hk).1).1

/-- A call of an operation on the Message-ID, none of which fails too late. -/
lemma single_call (h : Call s x caller st reply s' st')
    (hmap : ∀ c g o t m, st = .move c g o t → reply = .moved m → (s.holds c g && m) = true)
    (hsm : st.smooth reply = true) (hg : Single (s.copiesOf x) (s.Scheduled x) st) :
    Single (s'.copiesOf x) (s'.Scheduled x) st' := by
  have hst := hg.stage
  cases h with
  | here | readSnooze => exact ⟨hg.settled, hg.alone, hst⟩
  | elsewhere c o t r hr | targeted c o r p reply hr =>
    exact ⟨hg.settled, hg.alone, liveAt_of_liveRow hg.settled hst hr⟩
  | moved c g o t hh =>
    obtain ⟨k, hk, hp, -, r, hrow, hd, -⟩ := hst
    rw [copiesOf_serverMove g hh]
    exact ⟨settledBut_onAt hg.settled nofun nofun,
      aloneBut_onAt (fun _ => rfl) hg.alone, _, r, onAt_self hk, hp, rfl, hrow, hd⟩
  | astray c g o t m hh =>
    rw [hmap c g o t m rfl rfl] at hh
    cases hh
  | moveLost | appendLost | expungeLost => cases hsm
  | unmapped => exact absurd hst id
  | followed =>
    obtain ⟨k, r, hk, hp, hf, hrow, hd⟩ := hst
    rw [copiesOf_moveMessages]
    refine ⟨settledBut_settle hg.settled hk ?_, aloneBut_onAt (fun _ => rfl) hg.alone, ?_⟩
    · exact .inl ⟨hp, rfl, { r with folder := .snoozed }, by rw [hrow]; rfl, hd, hf.symm⟩
    · show onAt _ _ _ _ ≠ none
      rw [onAt_self hk]
      exact some_ne_none _
  | put c o t y =>
    rw [copiesOf_setAsleep, copiesOf_congr (copies_putSnooze y t o)]
    exact ⟨settledBut_onAt hg.settled nofun
      (fun _ k hk => hg.settled c k hk nofun),
      aloneBut_onAt (fun _ => rfl) hg.alone, trivial⟩
  | unkeyed | obsolete | failed => exact ⟨hg.settled, hg.alone, trivial⟩
  | resolved c o hc =>
    obtain ⟨k, hk, -⟩ := sleeper_iff.1 (messageIDInSnoozed_eq_some hc)
    exact ⟨hg.settled, hg.alone, ne_none_iff_exists'.2 ⟨k, hk⟩⟩
  | appended c g p =>
    obtain ⟨k, hk, hlive⟩ := hst
    have hne : s.copiesOf x c ≠ none := ne_none_iff_exists'.2 ⟨k, hk⟩
    obtain ⟨k', hk', he⟩ := copiesOf_serverAppend (p := p) hne
    obtain rfl := mem_unique hk hk'
    rw [he]
    exact ⟨settledBut_addAt hg.settled nofun nofun,
      aloneBut_append hk hlive.1 rfl (fun d => copiesOf_lt) hg.alone, (copiesOf_lt hne).ne,
      ⟨k, addAt_eq_some copiesOf_length hk, hlive⟩, _, addAt_self, rfl⟩
  | reflected c g m =>
    obtain ⟨hcm, ⟨k, hk, hlive⟩, kₘ, hkₘ, hp⟩ := hst
    rw [copiesOf_setAsleep, copiesOf_insertMessage]
    have hset : SettledBut (onAt (s.copiesOf x) m fun k =>
        { k with row := some ⟨s.nextID, k.folder, false⟩ }) none :=
      settledBut_settle hg.settled hkₘ (.inl ⟨hp, rfl, _, rfl, rfl, rfl⟩)
    exact ⟨settledBut_onAt hset nofun
        (fun _ k' hk' => hset c k' hk' nofun),
      aloneBut_onAt (fun _ => rfl) (aloneBut_onAt (fun _ => rfl) hg.alone),
      _, onAt_self ((onAt_ne (Ne.symm hcm)).trans hk), hlive⟩
  | expunged c g =>
    obtain ⟨k, hk, hlive⟩ := hst
    have hholds : s.holds c g = true := by
      rw [Account.holds, (copiesOf_eq_some.1 hk).1]
      simp [hlive.1, hlive.2.1]
    rw [copiesOf_serverExpunge g hholds]
    obtain ⟨hp, -, r, hrow, hd, hf⟩ := hlive
    exact ⟨settledBut_onAt hg.settled nofun nofun,
      aloneBut_expunged hg.alone, _, r, onAt_self hk, rfl, hrow, hf⟩
  | tombstoned =>
    obtain ⟨k, r, hk, hp, hrow, hf⟩ := hst
    rw [copiesOf_markDeleted]
    refine ⟨settledBut_settle hg.settled hk ?_, aloneBut_onAt (fun _ => rfl) hg.alone, trivial⟩
    exact .inr ⟨hp, { r with deleted := true }, by rw [hrow, map_some, if_pos hf], rfl⟩
  | closed => cases caller <;> exact ⟨hg.settled, hg.alone, trivial⟩
  | leave st hl =>
    cases st with
    | expunge | tombstone => cases hsm
    | _ => cases hl
  | stop st reply next hl hn hr =>
    have hcalm : st.unsettled = none ∧ st.twins = none := by
      rcases hr with rfl | hr
      · cases st with
        | follow | reflect => cases hsm
        | expunge | tombstone => cases hl
        | _ => exact ⟨rfl, rfl⟩
      · cases st with
        | locate | target => exact ⟨rfl, rfl⟩
        | _ => cases hr
    have hset := hg.settled
    have hal := hg.alone
    rw [hcalm.1] at hset
    rw [hcalm.2] at hal
    rcases hn with rfl | rfl <;> exact ⟨hset, hal, trivial⟩

lemma singleStage_addAt (hn : V n = none) (h : SingleStage V st) :
    SingleStage (addAt V n kₙ) st := by
  cases st with
  | locate | put | readSnooze | target => exact addAt_ne_none hn h
  | move | append | expunge =>
    obtain ⟨k, hk, hl⟩ := h
    exact ⟨k, addAt_eq_some hn hk, hl⟩
  | unmapped => exact h
  | follow | tombstone =>
    obtain ⟨k, r, hk, hl⟩ := h
    exact ⟨k, r, addAt_eq_some hn hk, hl⟩
  | reflect =>
    obtain ⟨hcm, ⟨k, hk, hl⟩, k', hk', hp⟩ := h
    exact ⟨hcm, ⟨k, addAt_eq_some hn hk, hl⟩, k', addAt_eq_some hn hk', hp⟩
  | _ => trivial

/-- A delivered message is not one that was there. -/
lemma aloneBut_deliver (hm : ∀ j k, V j = some k → k.message < n)
    (hk : kₙ.message = n) (h : AloneBut V w) : AloneBut (addAt V n kₙ) w := by
  intro d e kd ke hd he hpd hpe hme hde
  rcases of_addAt hd with ⟨rfl, rfl⟩ | ⟨-, hd'⟩
  · rw [addAt_ne hde.ne'] at he
    have := hm e ke he
    omega
  rcases of_addAt he with ⟨rfl, rfl⟩ | ⟨-, he'⟩
  · have := hm d kd hd'
    omega
  exact h d e kd ke hd' he' hpd hpe hme hde

/-- The copies are settled and alone but for the operation under way, in every
undisturbed run. -/
lemma keeps_single : Keeps Account.undisturbed Single where
  careful h := (and_eq_true_iff.1 h).1
  touched := by
    intro V P st hg c hc
    have hst := hg.stage
    cases st with
    | move | append | expunge =>
      obtain ⟨k, hk, -⟩ := hst
      exact ne_none_of_mem_singleton hk hc
    | follow | tombstone =>
      obtain ⟨k, r, hk, -⟩ := hst
      exact ne_none_of_mem_singleton hk hc
    | put =>
      rw [mem_singleton.1 hc]
      exact hst
    | unmapped => exact absurd hst id
    | reflect =>
      obtain ⟨-, ⟨k, hk, -⟩, k', hk', -⟩ := hst
      rcases mem_cons.1 hc with rfl | hc
      · rw [hk]
        exact some_ne_none k
      · exact ne_none_of_mem_singleton hk' hc
    | _ => cases hc
  empty := ⟨(fun c k hk => nomatch hk), (fun c d k k' hk => nomatch hk), trivial⟩
  call := by
    intro s s' i op reply st' hop ha hG hcall hg
    obtain ⟨hcareful, hsm⟩ := and_eq_true_iff.1 hG
    refine single_call hcall (fun c g o t m hst hr => ?_) (by simpa [hop] using hsm) hg
    subst hr
    simpa [Account.careful, hop, hst] using hcareful
  begins := by
    intro s s' x caller reply st' hcall hg
    have hsm : Stage.resolve.smooth reply = true := by
      cases hcall with
      | stop st reply next hl hn hr => rcases hr with rfl | hr <;> first | rfl | cases hr
      | leave st hl => cases hl
      | _ => rfl
    exact single_call hcall (by simp) hsm ⟨hg.settled, hg.alone, trivial⟩
  snooze := by
    intro s c k r p t hk hr hp hno hg
    exact ⟨hg.settled, hg.alone, ne_none_iff_exists'.2 ⟨k, copiesOf_eq_some.2 ⟨hk, rfl⟩⟩⟩
  unsnooze := by
    intro s c k hk hall hg
    exact ⟨hg.settled, hg.alone, ne_none_iff_exists'.2 ⟨k, copiesOf_eq_some.2 ⟨hk, rfl⟩⟩⟩
  deliver := by
    intro V P st n y p id hn hm hg
    exact ⟨settledBut_addAt hg.settled (fun d h => h) (fun _ => .inl ⟨rfl, rfl, _, rfl, rfl, rfl⟩),
      aloneBut_deliver hm rfl hg.alone, singleStage_addAt hn hg.stage⟩
  crash := by
    intro s i V P st hG
    have := (and_eq_true_iff.1 hG).2
    cases this

end Single

/-! ## Whole runs -/

section Runs

variable {s s' : Account} {x : Option Nat} {caller : Caller} {st st' : Stage} {reply : Reply}
  {a : Action} {k : Copy} {as : List Action}

lemma keptInv_new : KeptInv .new :=
  ⟨⟨nofun, nofun⟩, nofun, nofun⟩

/-- A sleeping message in a state that careful steps lead to. -/
lemma resolves_of_sleeping (hL : Locally Sleeping s) {c : Nat}
    (hk : s.copies[c]? = some k) (ha : k.asleep = true) :
    ∃ (i : Nat) (r : SnoozeRow), s.snoozes[i]? = some r ∧ some r.rfcID = k.rfcID ∧
      (r.state = .pending ∨ r.state = .failed) ∧
      s.messageIDInSnoozed (some r.rfcID) = some c := by
  obtain ⟨st, -, hg⟩ := hL.good k.rfcID
  have hc : s.copiesOf k.rfcID c = some k := copiesOf_eq_some.2 ⟨hk, rfl⟩
  obtain ⟨hin, ⟨i, r, hr, hx, hst⟩, ho⟩ := hg.sleeps c k hc ha
  refine ⟨i, r, hr, hx, hst, ?_⟩
  rw [hx]
  cases hm : s.messageIDInSnoozed k.rfcID with
  | none =>
    have hno := messageIDInSnoozed_eq_none hm c
    rw [sleeper_iff.2 ⟨k, hc, hin⟩] at hno
    cases hno
  | some d =>
    obtain ⟨k', hk', hin'⟩ := sleeper_iff.1 (messageIDInSnoozed_eq_some hm)
    rw [ho d k' hk' hin']

/-- Nothing is under way. -/
def Account.quiet (s : Account) : Bool := s.ops.all fun op => decide (op.stage = .done)

lemma single_of_quiet (hq : s.quiet = true) (hL : Locally Single s) (y : Option Nat) :
    SettledBut (s.copiesOf y) none ∧ AloneBut (s.copiesOf y) none := by
  obtain ⟨st, hst, hg⟩ := hL.good y
  have hidle : Idle s.ops y := by
    intro j op hj hy
    have := all_eq_true.1 hq op (mem_of_getElem? hj)
    rw [of_decide_eq_true this]
    rfl
  obtain rfl := stands_of_idle hidle hst
  exact ⟨hg.settled, hg.alone⟩

/-- The copies on the server are those with a live row. -/
lemma present_iff_liveRow (hs : SettledBut (s.copiesOf k.rfcID) none) {c : Nat}
    (hk : s.copies[c]? = some k) : k.present = true ↔ (s.liveRow c).isSome = true := by
  rw [isSome_iff_exists]
  rcases hs c k (copiesOf_eq_some.2 ⟨hk, rfl⟩) (fun h => nomatch h) with
    ⟨hp, -, r, hr, hd, -⟩ | ⟨hp, r, hr, hd⟩
  · exact ⟨fun _ => ⟨r, liveRow_eq_some.2 ⟨k, hk, hr, hd⟩⟩, fun _ => hp⟩
  · refine ⟨fun h => absurd h (by rw [hp]; exact false_ne_true), ?_⟩
    rintro ⟨r', hr'⟩
    obtain ⟨k', hk', hrow, hd'⟩ := liveRow_eq_some.1 hr'
    obtain rfl := mem_unique hk hk'
    obtain rfl := mem_unique hr hrow
    rw [hd] at hd'
    cases hd'

/-- The invariants of a run whose steps `G` allows. -/
lemma locally_run {G : Account → Action → Bool}
    {Good : (Nat → Option Copy) → Prop → Stage → Prop} (hK : Keeps G Good)
    (hG : Run.Guarded Account.step (fun s a => G s a = true) .new as)
    (h : Run.exec Account.step .new as = some s) : KeptInv s ∧ Locally Good s := by
  refine inv_exec (I := fun s => KeptInv s ∧ Locally Good s) (fun s a s' hg hI hstep => ?_)
    ⟨keptInv_new, locally_new hK⟩ hG h
  exact ⟨keptInv_step hI.1 hstep, locally_step hK hg hI.1 hI.2 hstep⟩

/-- The server has a copy of every message. -/
lemma present_of_kept (hI : KeptInv s) (hk : k ∈ s.copies) :
    ∃ (c : Nat) (d : Copy), s.copies[c]? = some d ∧ d.message = k.message ∧ d.present = true := by
  obtain ⟨i, hi⟩ := mem_iff_getElem?.1 hk
  obtain ⟨c, hc⟩ := hI.kept i k.entry (by simp [Account.mail, hi])
  rw [Account.mail, getElem?_map, map_eq_some_iff] at hc
  obtain ⟨d, hd, he⟩ := hc
  exact ⟨c, d, hd, congrArg (fun e => e.1.1) he, congrArg Prod.snd he⟩

/-- Two copies of a message that is settled and alone are the same. -/
lemma eq_of_alone (hI : KeptInv s) (hal : ∀ y, AloneBut (s.copiesOf y) none) {c d : Nat}
    {k' : Copy} (hc : s.copies[c]? = some k) (hd : s.copies[d]? = some k')
    (hp : k.present = true) (hp' : k'.present = true) (hm : k.message = k'.message) : c = d := by
  have hx : k'.rfcID = k.rfcID :=
    congrArg Prod.snd (hI.numbered.oneID k'.entry (mem_map_of_mem (mem_of_getElem? hd))
      k.entry (mem_map_of_mem (mem_of_getElem? hc)) hm.symm)
  have hkc := copiesOf_eq_some.2 ⟨hc, rfl⟩
  have hkd := copiesOf_eq_some.2 ⟨hd, hx⟩
  rcases Nat.lt_trichotomy c d with hlt | rfl | hlt
  · cases hal _ c d k k' hkc hkd hp hp' hm hlt
  · rfl
  · cases hal _ d c k' k hkd hkc hp' hp hm.symm hlt

end Runs

/-- **Snoozes and wakes.**  From an account without mail, whatever is delivered, snoozed
and woken: every message is in some mailbox; a snoozed message keeps a pending or failed
row that is resolved to it if the steps were `careful`; and if they were `undisturbed`,
a message has one copy once nothing is under way, and the live rows are those of the
copies. -/
theorem snooze_run (as : List Action) (s : Account) (h : Run.exec Account.step .new as = some s) :
    (∀ k ∈ s.copies, ∃ (c : Nat) (d : Copy),
      s.copies[c]? = some d ∧ d.message = k.message ∧ d.present = true) ∧
    (Run.Guarded Account.step (fun s a => s.careful a = true) .new as →
      ∀ (c : Nat) (k : Copy), s.copies[c]? = some k → k.asleep = true →
        ∃ (i : Nat) (r : SnoozeRow), s.snoozes[i]? = some r ∧ some r.rfcID = k.rfcID ∧
          (r.state = .pending ∨ r.state = .failed) ∧
          s.messageIDInSnoozed (some r.rfcID) = some c) ∧
    (Run.Guarded Account.step (fun s a => s.undisturbed a = true) .new as → s.quiet = true →
      (∀ k ∈ s.copies, ∃! c : Nat, ∃ d : Copy,
        s.copies[c]? = some d ∧ d.message = k.message ∧ d.present = true) ∧
      ∀ (c : Nat) (k : Copy), s.copies[c]? = some k →
        (k.present = true ↔ (s.liveRow c).isSome = true)) := by
  have hkept : KeptInv s :=
    inv_exec (G := fun _ _ => True) (fun _ _ _ _ hI hstep => keptInv_step hI hstep)
    keptInv_new (guarded_of_forall fun _ _ => trivial) h
  refine ⟨fun k hk => present_of_kept hkept hk, fun hG c k hk ha => ?_, fun hG hq => ?_⟩
  · exact resolves_of_sleeping (locally_run keeps_sleeping hG h).2 hk ha
  · obtain ⟨hI, hL⟩ := locally_run keeps_single hG h
    have hone := single_of_quiet hq hL
    refine ⟨fun k hk => ?_, fun c k hk => present_iff_liveRow (hone k.rfcID).1 hk⟩
    obtain ⟨c, d, hd, hm, hp⟩ := present_of_kept hI hk
    refine ⟨c, ⟨d, hd, hm, hp⟩, ?_⟩
    rintro c' ⟨d', hd', hm', hp'⟩
    exact eq_of_alone hI (fun y => (hone y).2) hd' hd hp' hp (hm'.trans hm.symm)

/-- The calls of a snooze, and those of a wake, all answered. -/
def snoozed (i : Nat) : List Action :=
  [.advance i .ok, .advance i (.moved true), .advance i .ok, .advance i .ok]

def wakes (i : Nat) : List Action :=
  [.advance i .ok, .advance i .ok, .advance i .ok, .advance i .ok, .advance i .ok,
    .advance i .ok, .advance i .ok]

/-- One message is snoozed and woken, one is snoozed and sleeps on. -/
def oneEach : List Action :=
  [.deliver (some 7) .inbox, .deliver (some 8) .inbox, .snooze 0 10] ++ snoozed 0 ++
    [.claim 0 10, .snooze 1 20] ++ wakes 1 ++ snoozed 2

theorem snooze_run_oneEach : ∃ s, Run.exec Account.step .new oneEach = some s ∧
      (∃! c : Nat, ∃ d : Copy, s.copies[c]? = some d ∧ d.message = 0 ∧ d.present = true) ∧
      ∃ (i : Nat) (r : SnoozeRow), s.snoozes[i]? = some r ∧ some r.rfcID = some 8 ∧
        (r.state = .pending ∨ r.state = .failed) ∧
        s.messageIDInSnoozed (some r.rfcID) = some 1 := by
  obtain ⟨s, h, hq, h₀, h₁⟩ : ∃ s : Account, exec Account.step .new oneEach = some s ∧
      s.quiet = true ∧ ((s.copies[0]?).any fun k : Copy => decide (k.message = 0)) = true ∧
      ((s.copies[1]?).any fun k : Copy => k.asleep && decide (k.rfcID = some 8)) = true :=
    exists_exec (by decide +kernel)
  obtain ⟨k, hk, hm⟩ := (any_eq_true _ _).1 h₀
  obtain ⟨k', hk', ha⟩ := (any_eq_true _ _).1 h₁
  rw [and_eq_true, decide_eq_true_eq] at ha
  obtain ⟨-, hrow, hone⟩ := snooze_run oneEach s h
  refine ⟨s, h, ?_, ?_⟩
  · rw [← of_decide_eq_true hm]
    exact (hone (by decide +kernel) hq).1 k (mem_of_getElem? hk)
  · rw [← ha.2]
    exact hrow (by decide +kernel) 1 k' hk' ha.1

/-- A waker and a user wake one message, both before the other has expunged it. -/
def wokenTwice : List Action :=
  [.deliver (some 7) .inbox, .snooze 0 10] ++ snoozed 0 ++
    [.claim 0 10, .unsnooze 0, .advance 1 .ok, .advance 2 .ok, .advance 1 .ok, .advance 2 .ok,
      .advance 1 .ok, .advance 1 .ok, .advance 2 .ok, .advance 2 .ok] ++
    ((wakes 1).drop 4 ++ (wakes 2).drop 4)

/-- Two messages with one Message-ID are snoozed, one after the other, and one is woken. -/
def oneRowForTwo : List Action :=
  [.deliver (some 7) .inbox, .deliver (some 7) .inbox, .snooze 0 10] ++ snoozed 0 ++
    .snooze 1 10 :: snoozed 1 ++ .claim 0 10 :: wakes 2

/-- Without a crash and with every call answered, a message ends with two live copies; and
a snoozed message ends without a row that would wake it. -/
theorem wakes_overlap : (∃ s, Run.exec Account.step .new wokenTwice = some s ∧ s.quiet = true ∧
      (s.copies.filter fun k => k.present).map Copy.message = [0, 0]) ∧
    ∃ s, Run.exec Account.step .new oneRowForTwo = some s ∧ s.quiet = true ∧
      ((s.copies[0]?).any fun k => k.asleep && decide (k.rfcID = some 7)) = true ∧
      s.snoozes.map SnoozeRow.state = [.woken] :=
  ⟨exists_exec (by decide +kernel), exists_exec (by decide +kernel)⟩

end Moov.Snooze
