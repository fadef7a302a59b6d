import Moov.Jmap.Keywords

/-!
# What an update of the keywords shows

The keywords a client is shown before and after it has added one, removed one or replaced
them all, for every keyword and every message.

* `shown_iff` — what is shown, in terms of the flags of the server;
* `wire_cases` — the flag of the server that a keyword becomes: the system flag it stands for,
  itself, or, for a keyword spelled like the bare name of a system flag, that flag;
* `updated_iff` — when the update shows what was asked for.
-/

namespace Moov.Keywords

open Text List

variable {flags old new fs ks : List Name} {f g k t : Name} {s s' : System}

/-! ## Names without regard to case -/

lemma has_congr (h : toLower f = toLower g) : Has flags f ↔ Has flags g := by
  unfold Has
  rw [h]

lemma has_append {gs : List Name} : Has (fs ++ gs) f ↔ Has fs f ∨ Has gs f := by
  unfold Has
  simp only [mem_append, or_and_right, exists_or]

lemma has_singleton : Has [g] f ↔ toLower g = toLower f := by
  unfold Has
  simp

/-- A text that starts with a sign does so in lower case. -/
lemma head_toLower {c : Char} (hc : ¬ (97 ≤ c.toNat ∧ c.toNat ≤ 122)) (hfix : toLowerChar c = c) :
    (toLower f).head? = some c ↔ f.head? = some c := by
  cases f with
  | nil => rfl
  | cons =>
    simp only [toLower, map_cons, head?_cons, Option.some.injEq]
    constructor
    · intro h
      rcases toLowerChar_cases _ with hd | hd
      · exact hd.symm.trans h
      · exact absurd (h ▸ hd) hc
    · rintro rfl
      exact hfix

/-- The text is a system flag of the server, known or not. -/
def Backslash (f : Name) : Prop := f.head? = some '\\'

instance (f : Name) : Decidable (Backslash f) := inferInstanceAs (Decidable (_ = _))

lemma backslash_toLower : Backslash (toLower f) ↔ Backslash f :=
  head_toLower (by decide) (by decide)

lemma backslash_congr (h : toLower f = toLower g) : Backslash f ↔ Backslash g := by
  rw [← backslash_toLower, h, backslash_toLower]

lemma toLower_wire (s : System) : toLower s.wire = '\\' :: s.bare := by cases s <;> decide

lemma wire_inj {s : System} (h : toLower s.wire = toLower s'.wire) : s = s' := by
  revert h
  cases s <;> cases s' <;> decide

lemma systemFlags_eq_some : systemFlags f = some s ↔ s.bare = f := by
  constructor
  · intro h
    simpa using find?_some h
  · rintro rfl
    cases s <;> decide

lemma systemFlags_eq_none : systemFlags f = none ↔ ∀ s : System, s.bare ≠ f := by
  constructor
  · intro h s hs
    rw [systemFlags_eq_some.2 hs] at h
    cases h
  · intro h
    cases hs : systemFlags f with
    | none => rfl
    | some s => exact absurd (systemFlags_eq_some.1 hs) (h s)

lemma systemKeyword_eq_some : systemKeyword k = some s ↔ s.keyword = some (toLower k) := by
  unfold systemKeyword
  constructor
  · intro h
    simpa using find?_some h
  · intro h
    generalize toLower k = l at h
    cases s <;> simp only [System.keyword, Option.some.injEq, reduceCtorEq] at h <;>
      subst h <;> decide

/-! ## What is shown -/

/-- A keyword that a message with these flags is shown with, in some spelling. -/
def Shown (flags : List Name) (t : Name) : Prop :=
  ∃ k ∈ jmapKeywords (reflectFlags flags), toLower k = toLower t

instance (flags : List Name) (t : Name) : Decidable (Shown flags t) :=
  inferInstanceAs (Decidable (∃ _ ∈ _, _))

lemma mem_jmapKeywords {row : Row} :
    k ∈ jmapKeywords row ↔ (∃ s ∈ row.flags, s.keyword = some k) ∨ ∃ g ∈ row.keywords,
      storedKeyword g = some k := by
  unfold jmapKeywords
  rw [mem_sortStrings, mem_dedup, mem_append, mem_filterMap, mem_filterMap]

/-- An atom has neither spaces nor NULs. -/
lemma atom_chars (h : atom f) : f ≠ [] ∧ (∀ c ∈ f, isSpace c = false) ∧ ∀ c ∈ f, c.toNat ≠ 0 := by
  rw [atom, Bool.and_eq_true, decide_eq_true_iff, all_eq_true] at h
  have hchar : ∀ c ∈ f, 0x21 ≤ c.toNat ∧ c.toNat ≤ 0x7e := fun c hc => by
    have := h.2 c hc
    simp only [atomChar, Bool.and_eq_true, decide_eq_true_iff] at this
    exact this.1
  refine ⟨h.1, fun c hc => ?_, fun c hc => ?_⟩
  · have := hchar c hc
    unfold isSpace
    simp only [Bool.or_eq_false_iff, Bool.and_eq_false_iff, decide_eq_false_iff_not]
    constructor
    · simp only [mem_cons, not_mem_nil, or_false]
      omega
    · omega
  · have := hchar c hc
    omega

lemma flag_chars (h : validFlag f) :
    f ≠ [] ∧ (∀ c ∈ f, isSpace c = false) ∧ ∀ c ∈ f, c.toNat ≠ 0 := by
  unfold validFlag at h
  split at h
  · obtain ⟨-, hspace, hnul⟩ := atom_chars h
    exact ⟨cons_ne_nil _ _, forall_mem_cons.2 ⟨by decide, hspace⟩,
      forall_mem_cons.2 ⟨by decide, hnul⟩⟩
  · exact atom_chars h

lemma sanitizeText_eq (h : validFlag f) : sanitizeText f = f :=
  filter_eq_self.2 fun c hc => by simpa using (flag_chars h).2.2 c hc

/-- What is shown of a keyword of the server: itself, unless it has a backslash. -/
lemma storedKeyword_of_keyword (h : validFlag f) (hb : ¬ Backslash f) :
    ∃ k, storedKeyword f = some k ∧ toLower k = toLower f := by
  obtain ⟨hne, hspace, -⟩ := flag_chars h
  have hflag : imapFlagKeyword f = none := by
    unfold imapFlagKeyword
    split
    · exact absurd rfl hb
    · rfl
  unfold storedKeyword
  rw [trimSpace_eq hspace]
  rw [if_neg hne, hflag]
  refine ⟨_, rfl, ?_⟩
  split
  · exact toLower_idem f
  · rfl

lemma splitFlag_of_not_backslash (h : ¬ Backslash f) : splitFlag f = some (.inr f) := by
  unfold splitFlag
  split
  · exact absurd rfl h
  · rfl

lemma splitFlag_eq_inl : splitFlag f = some (.inl s) ↔ toLower f = toLower s.wire := by
  rw [toLower_wire]
  by_cases hb : Backslash f
  · obtain ⟨rest, rfl⟩ : ∃ rest, f = '\\' :: rest := by
      cases f with
      | nil => cases hb
      | cons c rest => exact ⟨rest, by rw [Option.some.inj hb]⟩
    have hlower : toLower ('\\' :: rest) = '\\' :: toLower rest := by
      rfl
    have hrecent : s.bare ≠ "recent".toList := by cases s <;> decide
    rw [hlower, cons_inj_right, splitFlag]
    constructor
    · intro h
      split at h
      · cases h
      · split at h
        · rename_i s' hs'
          cases h
          exact (systemFlags_eq_some.1 hs').symm
        · cases h
    · intro h
      rw [if_neg (h ▸ hrecent), systemFlags_eq_some.2 h.symm]
  · rw [splitFlag_of_not_backslash hb]
    constructor
    · intro h
      cases h
    · intro h
      rw [← backslash_toLower, h] at hb
      exact absurd rfl hb

/-- A flag that becomes a keyword stays as it is, and is none of the system flags. -/
lemma splitFlag_eq_inr (h : splitFlag f = some (.inr g)) :
    g = f ∧ (Backslash f → imapFlagKeyword f = some none) := by
  unfold splitFlag at h
  split at h
  · split at h
    · cases h
    · split at h
      · cases h
      · rename_i hnone
        cases h
        refine ⟨rfl, fun _ => ?_⟩
        rw [imapFlagKeyword, hnone]
        rfl
  · rename_i hne
    cases h
    refine ⟨rfl, fun hb => ?_⟩
    cases f with
    | nil => cases hb
    | cons c rest => exact absurd (Option.some.inj hb ▸ rfl) (hne rest)

lemma mem_reflect_flags : s ∈ (reflectFlags flags).flags ↔ Has flags s.wire := by
  have hmem : s ∈ (splitFlags flags).1 ↔ Has flags s.wire := by
    simp only [splitFlags, mem_filterMap, Has]
    constructor
    · rintro ⟨x, ⟨f, hf, hx⟩, hs⟩
      cases x with
      | inl =>
        cases hs
        exact ⟨f, hf, splitFlag_eq_inl.1 hx⟩
      | inr => cases hs
    · rintro ⟨f, hf, heq⟩
      exact ⟨.inl s, ⟨f, hf, splitFlag_eq_inl.2 heq⟩, rfl⟩
  rw [reflectFlags, storeFlags, mem_filter, decide_eq_true_iff, hmem]
  exact ⟨fun h => h.2, fun h => ⟨by cases s <;> decide, h⟩⟩

lemma mem_reflect_keywords (hvalid : ∀ f ∈ flags, validFlag f) :
    g ∈ (reflectFlags flags).keywords ↔ g ∈ flags ∧ splitFlag g = some (.inr g) := by
  simp only [reflectFlags, splitFlags, mem_map, mem_filterMap]
  constructor
  · rintro ⟨f, ⟨x, ⟨f', hf', hx⟩, hright⟩, rfl⟩
    cases x with
    | inl => cases hright
    | inr =>
      cases hright
      obtain ⟨rfl, -⟩ := splitFlag_eq_inr hx
      rw [sanitizeText_eq (hvalid _ hf')]
      exact ⟨hf', hx⟩
  · rintro ⟨hg, hx⟩
    exact ⟨g, ⟨.inr g, ⟨g, hg, hx⟩, rfl⟩, sanitizeText_eq (hvalid g hg)⟩

lemma keyword_lower (h : s.keyword = some k) : toLower k = k := by
  cases s <;> cases h <;> decide

/-- **What is shown**: the system flags under their keywords, and the flags without a
backslash. -/
theorem shown_iff (hvalid : ∀ f ∈ flags, validFlag f) :
    Shown flags t ↔ (∃ s : System, s.keyword = some (toLower t) ∧ Has flags s.wire) ∨
      (¬ Backslash t ∧ Has flags t) := by
  constructor
  · rintro ⟨k, hk, heq⟩
    rcases mem_jmapKeywords.1 hk with ⟨s, hs, hkw⟩ | ⟨g, hg, hkw⟩
    · rw [mem_reflect_flags] at hs
      rw [keyword_lower hkw] at heq
      exact .inl ⟨s, by rw [hkw, heq], hs⟩
    · obtain ⟨hg, hx⟩ := (mem_reflect_keywords hvalid).1 hg
      have hb : ¬ Backslash g := by
        intro hb
        obtain ⟨hne, hspace, -⟩ := flag_chars (hvalid g hg)
        unfold storedKeyword at hkw
        rw [trimSpace_eq hspace] at hkw
        rw [if_neg hne, (splitFlag_eq_inr hx).2 hb] at hkw
        cases hkw
      obtain ⟨k', hk', hlower⟩ := storedKeyword_of_keyword (hvalid g hg) hb
      rw [hk'] at hkw
      cases hkw
      have hgt : toLower g = toLower t := hlower.symm.trans heq
      exact .inr ⟨fun h => hb ((backslash_congr hgt).2 h), g, hg, hgt⟩
  · rintro (⟨s, hkw, hs⟩ | ⟨hb, g, hg, hgt⟩)
    · exact ⟨toLower t, mem_jmapKeywords.2 (.inl ⟨s, mem_reflect_flags.2 hs, hkw⟩), toLower_idem t⟩
    · have hbg : ¬ Backslash g := fun h => hb ((backslash_congr hgt).1 h)
      obtain ⟨k, hk, hlower⟩ := storedKeyword_of_keyword (hvalid g hg) hbg
      have hmem := (mem_reflect_keywords hvalid).2 ⟨hg, splitFlag_of_not_backslash hbg⟩
      exact ⟨k, mem_jmapKeywords.2 (.inr ⟨g, hmem, hk⟩), hlower.trans hgt⟩

/-! ## Requests -/

/-- The flag of the server that a keyword becomes. -/
def wireOf (k : Name) : Name := flagToGoIMAP (imapNameForKeyword k)

/-- A keyword becomes the system flag it stands for, the system flag it is spelled like, or
stays a keyword. -/
theorem wire_cases (k : Name) : (∃ s : System, s.keyword = some (toLower k) ∧ wireOf k = s.wire) ∨
    (∃ s : System, s.bare = toLower k ∧ wireOf k = s.wire) ∨
    ((∀ s : System, s.keyword ≠ some (toLower k)) ∧ (∀ s : System, s.bare ≠ toLower k) ∧
      toLower (wireOf k) = toLower k) := by
  unfold wireOf imapNameForKeyword
  cases hkw : systemKeyword k with
  | some s =>
    have hbare : systemFlags (toLower s.bare) = some s := by cases s <;> decide
    refine .inl ⟨s, systemKeyword_eq_some.1 hkw, ?_⟩
    rw [flagToGoIMAP, hbare]
  | none =>
    have hname : toLower (if k.head? = some '$' then toLower k else k) = toLower k := by
      split
      · exact toLower_idem k
      · rfl
    rw [flagToGoIMAP, hname]
    cases hs : systemFlags (toLower k) with
    | some s => exact .inr (.inl ⟨s, systemFlags_eq_some.1 hs, rfl⟩)
    | none =>
      refine .inr (.inr ⟨fun s h => ?_, systemFlags_eq_none.1 hs, hname⟩)
      rw [systemKeyword_eq_some.2 h] at hkw
      cases hkw

/-- What a client asks for. -/
inductive Request
  | add (k : Name)
  | remove (k : Name)
  | replace (ks : List Name)

/-- The key for one keyword, with the escapes of a JSON pointer. -/
def pointerTo (k : Name) : Name :=
  "keywords/".toList ++ k.flatMap fun c =>
    if c = '~' then ['~', '0'] else if c = '/' then ['~', '1'] else [c]

def Request.patch : Request → List (Pointer × Value)
  | .add k => [(.keyword (pointerTo k) k, .member .yes)]
  | .remove k => [(.keyword (pointerTo k) k, .member .null)]
  | .replace ks => [(.keywords, .object (ks.map fun k => (k, .yes)))]

/-- The update has succeeded: the flags of the server were `old` and are now `new`. -/
def Updated (u : Request) (old new : List Name) : Prop :=
  ∃ upd, interpretEmailPatch u.patch = .ok upd ∧ Applied upd old new

lemma not_backslash_of_valid (h : validKeyword k) : ¬ Backslash k := by
  intro hb
  cases k with
  | nil => cases hb
  | cons =>
    cases hb
    simp [validKeyword] at h

attribute [local simp] interpretEmailPatch interpretKeys interpretKey Request.patch

lemma updated_add (h : Updated (.add k) old new) :
    validKeyword k ∧ Stored .add [wireOf k] old new := by
  obtain ⟨upd, hupd, happlied⟩ := h
  cases hvalid : validKeyword k with
  | false => simp [hvalid] at hupd
  | true =>
    simp [hvalid] at hupd
    subst hupd
    obtain ⟨mid, hadd, hremove⟩ := happlied
    cases hremove
    exact ⟨rfl, hadd⟩

lemma updated_remove (h : Updated (.remove k) old new) :
    validKeyword k ∧ Stored .remove [wireOf k] old new := by
  obtain ⟨upd, hupd, happlied⟩ := h
  cases hvalid : validKeyword k with
  | false => simp [hvalid] at hupd
  | true =>
    simp [hvalid] at hupd
    subst hupd
    obtain ⟨mid, hadd, hremove⟩ := happlied
    cases hadd
    exact ⟨rfl, hremove⟩

/-- What a replacement stores: the flags of the keywords, and those a client does not see. -/
lemma updated_replace (h : Updated (.replace ks) old new) :
    (∀ k ∈ ks, validKeyword k) ∧ ∃ fs, Stored .set fs old new ∧
      ∀ f, Has fs f ↔ (∃ k ∈ ks, toLower (wireOf k) = toLower f) ∨
        Has (flagsToGoIMAP (invisibleFlags (reflectFlags old))) f := by
  obtain ⟨upd, hupd, happlied⟩ := h
  by_cases hbad : badMembers (ks.map fun k => (k, .yes)) = []
  · simp only [interpretEmailPatch, interpretKeys, interpretKey, Request.patch, parseKeywordSet,
      hbad, ne_eq, not_true_eq_false, if_false, Bool.false_eq_true] at hupd
    cases hupd
    refine ⟨fun k hk => ?_, _, happlied, fun f => ?_⟩
    · simp only [badMembers, map_eq_nil_iff, filter_eq_nil_iff] at hbad
      simpa using hbad (k, .yes) (mem_map_of_mem (f := fun k => (k, Member.yes)) hk)
    · rw [flagsToGoIMAP, map_append, has_append]
      refine or_congr ?_ Iff.rfl
      unfold Has
      simp only [mem_map, mem_sortStrings, exists_exists_and_eq_and]
      rfl
  · simp [parseKeywordSet, hbad] at hupd

/-! ## Right answers -/

/-- The system flags other than the one a keyword stands for are as they were. -/
def OthersKept (k : Name) (old new : List Name) : Prop :=
  ∀ s : System, s.keyword ≠ some (toLower k) → (Has new s.wire ↔ Has old s.wire)

/-- The client is shown what it asked for. -/
def Request.Right (u : Request) (old new : List Name) : Prop :=
  match u with
  | .add k => (∀ t, Shown new t ↔ Shown old t ∨ toLower t = toLower k) ∧ OthersKept k old new
  | .remove k => (∀ t, Shown new t ↔ Shown old t ∧ toLower t ≠ toLower k) ∧ OthersKept k old new
  | .replace ks => ∀ t, Shown new t ↔ ∃ k ∈ ks, toLower t = toLower k

/-- No keyword is spelled like the bare name of a system flag, unless both are there already
when it is added, or neither is when it is removed; and a system keyword that is removed is not
there as a keyword as well. -/
def Request.Safe (u : Request) (old : List Name) : Prop :=
  match u with
  | .add k => ∀ s : System, s.bare = toLower k → Has old k ∧ Has old s.wire
  | .remove k =>
      (∀ s : System, s.bare = toLower k → ¬ Has old k ∧ ¬ Has old s.wire) ∧
        ∀ s : System, s.keyword = some (toLower k) → ¬ Has old k
  | .replace ks => ∀ k ∈ ks, ∀ s : System, s.bare ≠ toLower k

lemma keyword_ne_bare (h : s.keyword = some k) : s'.bare ≠ k := by
  cases s <;> cases h <;> cases s' <;> decide

lemma not_wire_of_not_backslash (h : ¬ Backslash t) : toLower s.wire ≠ toLower t :=
  fun heq => h ((backslash_congr heq).1 (by cases s <;> rfl))

lemma keyword_inj (h : s.keyword = some k) (h' : s'.keyword = some k) : s = s' := by
  cases s <;> cases h <;> cases s' <;> first | rfl | exact absurd h' (by decide)

lemma bare_inj (h : s.bare = f) (h' : s'.bare = f) : s = s' :=
  Option.some.inj ((systemFlags_eq_some.2 h).symm.trans (systemFlags_eq_some.2 h'))

lemma wireOf_bare (hbare : s.bare = toLower k) : wireOf k = s.wire := by
  rcases wire_cases k with ⟨s₀, hkw, -⟩ | ⟨s₀, hs, hw⟩ | ⟨-, hne, -⟩
  · exact absurd hbare (keyword_ne_bare hkw)
  · rw [hw, bare_inj hs hbare]
  · exact absurd hbare (hne s)

lemma has_add (h : Stored .add [wireOf k] old new) :
    Has new f ↔ Has old f ∨ toLower (wireOf k) = toLower f := by
  rw [h.has f, FlagOp.leaves, has_singleton]

lemma has_remove (h : Stored .remove [wireOf k] old new) :
    Has new f ↔ Has old f ∧ toLower (wireOf k) ≠ toLower f := by
  rw [h.has f, FlagOp.leaves, has_singleton]

/-- A keyword that is not spelled like a system flag sets no other system flag. -/
lemma wire_ne (hk : ¬ Backslash k) (hbare : ∀ s : System, s.bare ≠ toLower k)
    (hs : s.keyword ≠ some (toLower k)) : toLower (wireOf k) ≠ toLower s.wire := by
  intro heq
  rcases wire_cases k with ⟨s₀, hkw, hw⟩ | ⟨s₀, hs₀, -⟩ | ⟨-, -, hw⟩
  · exact hs (wire_inj (hw ▸ heq) ▸ hkw)
  · exact hbare s₀ hs₀
  · exact not_wire_of_not_backslash hk (heq.symm.trans hw)

/-- What is shown of its flag is the keyword itself. -/
lemma wire_shown_iff (hk : ¬ Backslash k) (hbare : ∀ s : System, s.bare ≠ toLower k) :
    ((∃ s : System, s.keyword = some (toLower t) ∧ toLower (wireOf k) = toLower s.wire) ∨
      (¬ Backslash t ∧ toLower (wireOf k) = toLower t)) ↔ toLower t = toLower k := by
  constructor
  · rintro (⟨s, hs, heq⟩ | ⟨hb, heq⟩)
    · by_contra hne
      exact wire_ne hk hbare (fun hkw => hne (Option.some.inj (hs.symm.trans hkw))) heq
    · rcases wire_cases k with ⟨s₀, -, hw⟩ | ⟨s₀, hs₀, -⟩ | ⟨-, -, hw⟩
      · exact absurd (hw ▸ heq) (not_wire_of_not_backslash hb)
      · exact absurd hs₀ (hbare s₀)
      · exact heq.symm.trans hw
  · intro heq
    rcases wire_cases k with ⟨s, hs, hw⟩ | ⟨s, hs, -⟩ | ⟨-, -, hw⟩
    · exact .inl ⟨s, by rw [hs, heq], by rw [hw]⟩
    · exact absurd hs (hbare s)
    · exact .inr ⟨fun hb => hk ((backslash_congr heq).1 hb), hw.trans heq.symm⟩

lemma shown_congr (h : toLower t = toLower k) : Shown flags t ↔ Shown flags k := by
  rw [Shown, h, Shown]

lemma shown_same (hnew : ∀ f ∈ new, validFlag f) (hold : ∀ f ∈ old, validFlag f)
    (h : ∀ f, Has new f ↔ Has old f) : Shown new t ↔ Shown old t := by
  rw [shown_iff hnew, shown_iff hold]
  simp only [h]

/-- What is spelled like a system flag is shown as a keyword. -/
lemma shown_bare (hvalid : ∀ f ∈ flags, validFlag f) (hk : ¬ Backslash k)
    (hbare : s.bare = toLower k) :
    Shown flags k ↔ Has flags k := by
  have hnokw : ∀ s' : System, s'.keyword ≠ some (toLower k) := fun s' h' => keyword_ne_bare h' hbare
  simp [shown_iff hvalid, hnokw, hk]

section Add

variable (hold : ∀ f ∈ old, validFlag f) (hk : ¬ Backslash k) (h : Stored .add [wireOf k] old new)
include hold hk h

/-- Adding a keyword that is not spelled like a system flag shows it. -/
lemma add_right (hbare : ∀ s : System, s.bare ≠ toLower k) : (Request.add k).Right old new := by
  refine ⟨fun t => ?_, fun s hs => ?_⟩
  · rw [shown_iff h.valid, shown_iff hold, ← wire_shown_iff hk hbare]
    simp only [has_add h, and_or_left, exists_or]
    exact or_or_or_comm
  · rw [has_add h]
    exact ⟨fun hin => hin.resolve_right (wire_ne hk hbare hs), .inl⟩

/-- Adding one that is spelled like a system flag sets that flag. -/
lemma add_bare_iff (hbare : s.bare = toLower k) :
    (Request.add k).Right old new ↔ Has old k ∧ Has old s.wire := by
  have hw : wireOf k = s.wire := wireOf_bare hbare
  constructor
  · intro hright
    have hin := (shown_bare h.valid hk hbare).1 ((hright.1 k).2 (.inr rfl))
    rw [has_add h, hw] at hin
    refine ⟨hin.resolve_right (not_wire_of_not_backslash hk), ?_⟩
    refine (hright.2 s fun hkw => keyword_ne_bare hkw hbare).1 ?_
    rw [has_add h, hw]
    exact .inr rfl
  · rintro ⟨hkold, hsold⟩
    -- nothing changes, and the keyword is there
    have hsame : ∀ f, Has new f ↔ Has old f := by
      intro f
      rw [has_add h, hw]
      exact ⟨fun hin => hin.elim id fun heq => (has_congr heq).1 hsold, .inl⟩
    refine ⟨fun t => ?_, fun s' _ => hsame s'.wire⟩
    rw [shown_same h.valid hold hsame]
    refine ⟨.inl, fun hin => hin.elim id fun heq => ?_⟩
    exact (shown_congr heq).2 ((shown_bare hold hk hbare).2 hkold)

end Add

section Remove

variable (hold : ∀ f ∈ old, validFlag f) (hk : ¬ Backslash k)
  (h : Stored .remove [wireOf k] old new)
include hold hk h

/-- Removing a keyword that is not spelled like a system flag leaves the keyword of the name of
a system keyword. -/
lemma remove_iff_of_not_bare (hbare : ∀ s : System, s.bare ≠ toLower k) :
    (Request.remove k).Right old new ↔ ∀ s : System, s.keyword = some (toLower k) →
      ¬ Has old k := by
  have hself : Shown new k ↔ Has old k ∧ ∃ s : System, s.keyword = some (toLower k) := by
    rw [shown_iff h.valid]
    simp only [has_remove h]
    rcases wire_cases k with ⟨s, hkw, hw⟩ | ⟨s, hs, -⟩ | ⟨hkw, -, hw⟩
    · constructor
      · rintro (⟨s', hs', -, hne⟩ | ⟨-, hin, -⟩)
        · exact absurd (by rw [hw, keyword_inj hs' hkw]) hne
        · exact ⟨hin, s, hkw⟩
      · exact fun hin => .inr ⟨hk, hin.1, hw ▸ not_wire_of_not_backslash hk⟩
    · exact absurd hs (hbare s)
    · simp [hw, hkw]
  constructor
  · exact fun hright s hs hin => ((hright.1 k).1 (hself.2 ⟨hin, s, hs⟩)).2 rfl
  · refine fun hsafe => ⟨fun t => ?_, fun s hs => ?_⟩
    · by_cases ht : toLower t = toLower k
      · rw [shown_congr ht, hself]
        exact iff_of_false (fun ⟨hin, s, hs⟩ => hsafe s hs hin) fun hin => hin.2 ht
      · -- what is shown of its flag is the keyword itself
        have hnot := mt (wire_shown_iff hk hbare).1 ht
        simp only [not_or, not_exists, not_and] at hnot
        rw [and_iff_left ht, shown_iff h.valid, shown_iff hold]
        simp only [has_remove h]
        exact or_congr (exists_congr fun s => and_congr_right fun hs => and_iff_left (hnot.1 s hs))
          (and_congr_right fun hb => and_iff_left (hnot.2 hb))
    · rw [has_remove h]
      exact and_iff_left (wire_ne hk hbare hs)

/-- Removing one that is spelled like a system flag removes that flag. -/
lemma remove_bare_iff (hbare : s.bare = toLower k) :
    (Request.remove k).Right old new ↔ ¬ Has old k ∧ ¬ Has old s.wire := by
  have hw : wireOf k = s.wire := wireOf_bare hbare
  constructor
  · intro hright
    constructor
    · intro hin
      have hnew : Has new k := (has_remove h).2 ⟨hin, hw ▸ not_wire_of_not_backslash hk⟩
      exact ((hright.1 k).1 ((shown_bare h.valid hk hbare).2 hnew)).2 rfl
    · intro hin
      have hnew : Has new s.wire := (hright.2 s fun hkw => keyword_ne_bare hkw hbare).2 hin
      rw [has_remove h, hw] at hnew
      exact hnew.2 rfl
  · rintro ⟨hkold, hsold⟩
    -- nothing changes, and the keyword is not there
    have hsame : ∀ f, Has new f ↔ Has old f := by
      intro f
      rw [has_remove h, hw]
      exact ⟨fun hin => hin.1, fun hin => ⟨hin, fun heq => hsold ((has_congr heq).2 hin)⟩⟩
    refine ⟨fun t => ?_, fun s' _ => hsame s'.wire⟩
    rw [shown_same h.valid hold hsame]
    refine ⟨fun hin => ⟨hin, fun heq => ?_⟩, fun hin => hin.1⟩
    exact hkold ((shown_bare hold hk hbare).1 ((shown_congr heq).1 hin))

lemma remove_iff : (Request.remove k).Right old new ↔ (Request.remove k).Safe old := by
  by_cases hbare : ∃ s : System, s.bare = toLower k
  · obtain ⟨s, hs⟩ := hbare
    rw [remove_bare_iff hold hk h hs]
    refine ⟨fun hnot => ⟨fun s' hs' => ?_, fun _ _ => hnot.1⟩, fun hsafe => hsafe.1 s hs⟩
    rw [bare_inj hs' hs]
    exact hnot
  · rw [not_exists] at hbare
    rw [remove_iff_of_not_bare hold hk h hbare]
    exact ⟨fun hnot => ⟨fun s hs => absurd hs (hbare s), hnot⟩, fun hsafe => hsafe.2⟩

end Remove

lemma add_iff (hold : ∀ f ∈ old, validFlag f) (hk : ¬ Backslash k)
    (h : Stored .add [wireOf k] old new) :
    (Request.add k).Right old new ↔ (Request.add k).Safe old := by
  by_cases hbare : ∃ s : System, s.bare = toLower k
  · obtain ⟨s, hs⟩ := hbare
    rw [add_bare_iff hold hk h hs]
    refine ⟨fun hin s' hs' => ?_, fun hsafe => hsafe s hs⟩
    rw [bare_inj hs' hs]
    exact hin
  · have hnone : ∀ s : System, s.bare ≠ toLower k := fun s hs => hbare ⟨s, hs⟩
    exact ⟨fun _ s hs => absurd hs (hnone s), fun _ => add_right hold hk h hnone⟩

/-- What a replacement carries over is not shown: deleted, and flags with a backslash that are
not known. -/
lemma invisible_wire (hold : ∀ f ∈ old, validFlag f)
    (h : Has (flagsToGoIMAP (invisibleFlags (reflectFlags old))) f) :
    Backslash f ∧ ∀ s : System, toLower s.wire = toLower f → s.keyword = none := by
  obtain ⟨g, hg, hgf⟩ := h
  obtain ⟨name, hname, rfl⟩ := mem_map.1 hg
  rw [backslash_congr hgf.symm, ← hgf]
  rcases mem_append.1 hname with hdel | hkw
  · split at hdel
    · rw [mem_singleton] at hdel
      subst hdel
      refine ⟨by decide, fun s hs => ?_⟩
      revert hs
      cases s <;> decide
    · cases hdel
  · obtain ⟨hmem, hhead⟩ := mem_filter.1 hkw
    have hb : Backslash name := of_decide_eq_true hhead
    obtain ⟨-, hsplit⟩ := (mem_reflect_keywords hold).1 hmem
    have hplain : flagToGoIMAP name = name := by
      unfold flagToGoIMAP
      split
      · rename_i s hs
        have : Backslash s.bare := (systemFlags_eq_some.1 hs).symm ▸ backslash_toLower.2 hb
        exact absurd this (by cases s <;> decide)
      · rfl
    rw [hplain]
    refine ⟨hb, fun s hs => ?_⟩
    rw [splitFlag_eq_inl.2 hs.symm] at hsplit
    cases hsplit

lemma replace_iff (hold : ∀ f ∈ old, validFlag f) (hks : ∀ k ∈ ks, ¬ Backslash k)
    (h : Stored .set fs old new)
    (hfs : ∀ f, Has fs f ↔ (∃ k ∈ ks, toLower (wireOf k) = toLower f) ∨
      Has (flagsToGoIMAP (invisibleFlags (reflectFlags old))) f) :
    (Request.replace ks).Right old new ↔ (Request.replace ks).Safe old := by
  -- of what is left, only the flags of the keywords are shown
  have hvisible : ∀ f, (Backslash f → ∃ s : System, s.wire = f ∧ s.keyword ≠ none) →
      (Has new f ↔ ∃ k ∈ ks, toLower (wireOf k) = toLower f) := by
    intro f hf
    rw [h.has, FlagOp.leaves, hfs]
    constructor
    · rintro ((hin | hin) | ⟨hin, -⟩)
      · exact hin
      · obtain ⟨hb, hnone⟩ := invisible_wire hold hin
        obtain ⟨s, rfl, hs⟩ := hf hb
        exact absurd (hnone s rfl) hs
      · obtain ⟨s, rfl, -⟩ := hf (backslash_toLower.1 (hin ▸ rfl))
        exact absurd hin (by cases s <;> decide)
    · exact fun hin => .inl (.inl hin)
  have hshown : ∀ t, Shown new t ↔ ∃ k ∈ ks,
      (∃ s : System, s.keyword = some (toLower t) ∧ toLower (wireOf k) = toLower s.wire) ∨
        (¬ Backslash t ∧ toLower (wireOf k) = toLower t) := by
    intro t
    have hsystem (s : System) (hs : s.keyword = some (toLower t)) :=
      hvisible s.wire fun _ => ⟨s, rfl, hs ▸ Option.some_ne_none _⟩
    have hkeyword (ht : ¬ Backslash t) := hvisible t fun hb => absurd hb ht
    rw [shown_iff h.valid]
    constructor
    · rintro (⟨s, hs, hin⟩ | ⟨ht, hin⟩)
      · obtain ⟨k, hk, heq⟩ := (hsystem s hs).1 hin
        exact ⟨k, hk, .inl ⟨s, hs, heq⟩⟩
      · obtain ⟨k, hk, heq⟩ := (hkeyword ht).1 hin
        exact ⟨k, hk, .inr ⟨ht, heq⟩⟩
    · rintro ⟨k, hk, ⟨s, hs, heq⟩ | ⟨ht, heq⟩⟩
      · exact .inl ⟨s, hs, (hsystem s hs).2 ⟨k, hk, heq⟩⟩
      · exact .inr ⟨ht, (hkeyword ht).2 ⟨k, hk, heq⟩⟩
  constructor
  · intro hright k hk s hbare
    obtain ⟨k', -, ⟨s', hs', -⟩ | ⟨hb, heq⟩⟩ := (hshown k).1 ((hright k).2 ⟨k, hk, rfl⟩)
    · exact keyword_ne_bare hs' hbare
    · -- what is spelled like a system flag is no flag of the server
      rcases wire_cases k' with ⟨s', -, hw⟩ | ⟨s', -, hw⟩ | ⟨-, hne, hw⟩
      · exact not_wire_of_not_backslash hb (hw ▸ heq)
      · exact not_wire_of_not_backslash hb (hw ▸ heq)
      · exact hne s (hbare.trans (heq.symm.trans hw))
  · intro hsafe t
    rw [hshown t]
    exact exists_congr fun k => and_congr_right fun hk => wire_shown_iff (hks k hk) (hsafe k hk)

/-- **What an update shows.**  After a successful update the client is shown the keywords it
asked for, and no other system flag has changed, exactly when no keyword of the request is
spelled like the bare name of a system flag in a way that matters, nor a system keyword
removed that the message has as a keyword too. -/
theorem updated_iff {u : Request} (hold : ∀ f ∈ old, validFlag f) (h : Updated u old new) :
    u.Right old new ↔ u.Safe old := by
  cases u with
  | add =>
    obtain ⟨hk, hstored⟩ := updated_add h
    exact add_iff hold (not_backslash_of_valid hk) hstored
  | remove =>
    obtain ⟨hk, hstored⟩ := updated_remove h
    exact remove_iff hold (not_backslash_of_valid hk) hstored
  | replace =>
    obtain ⟨hks, fs, hstored, hfs⟩ := updated_replace h
    exact replace_iff hold (fun k hk => not_backslash_of_valid (hks k hk)) hstored hfs

/-- A server that adds the flags at the end. -/
lemma stored_append (hold : ∀ f ∈ old, validFlag f) (hfs : ∀ f ∈ fs, validFlag f) :
    Stored .add fs old (old ++ fs) :=
  ⟨hfs, forall_mem_append.2 ⟨hold, hfs⟩, fun _ => has_append⟩

/-- Marking an unread message as read. -/
lemma updated_markRead : Updated (.add "$Seen".toList) [] ["\\Seen".toList] :=
  ⟨⟨false, [], ["seen".toList], [], true⟩, by decide +kernel,
    ["\\Seen".toList], @stored_append [] ["\\Seen".toList] (by decide) (by decide), rfl⟩

theorem updated_iff_markRead : (Request.add "$Seen".toList).Right [] ["\\Seen".toList] := by
  refine (updated_iff (by decide) updated_markRead).2 fun s hs => ?_
  revert hs
  cases s <;> decide

/-- Putting the keyword `Seen` of one's own on an unread message marks it as read. -/
theorem own_keyword_marks_read : Updated (.add "Seen".toList) [] ["\\Seen".toList] ∧
      ¬ (Request.add "Seen".toList).Right [] ["\\Seen".toList] := by
  refine ⟨⟨⟨false, [], ["Seen".toList], [], true⟩, by decide +kernel, ["\\Seen".toList],
    @stored_append [] ["\\Seen".toList] (by decide) (by decide), rfl⟩, fun h => ?_⟩
  exact absurd ((h.1 "Seen".toList).2 (.inr rfl)) (by decide +kernel)

end Moov.Keywords
