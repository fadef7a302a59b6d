import Mathlib.Data.List.Basic
import Mathlib.Tactic.SplitIfs
import Mathlib.Tactic.Tauto
import Moov.Submit.Message

/-!
# A CRLF message as a list of lines

The byte-level functions of `Moov.Submit.Message` search and rewrite; all that
is ever said about their results is said about lines.  `IsLines` describes the
lists of lines that CRLF text splits into (each line with its terminator, only
the last may lack one), and this file moves every byte-level function over:

* `normalizeCRLF_lines`: repaired text is such a list, and text that is one
  already is left alone (`normalizeCRLF_flatten`);
* `splitLines_flatten`: splitting gives the list back;
* `splitHeaderBody_flatten`: the search for CRLFCRLF finds the first empty line
  *after the first line*, which is `headL` and `bodyL`;
* `stripHeader_flatten` and `prepareTransmission_flatten`: the whole preparation is
  `prepL`, a function on lists of lines.
-/

namespace Moov.Submit

open List

/-- Text with no line break in it. -/
def Plain (c : Bytes) : Prop := CR ∉ c ∧ LF ∉ c

/-- The lists of lines CRLF text splits into. -/
inductive IsLines : List Bytes → Prop
  | nil : IsLines []
  | last {c : Bytes} : Plain c → c ≠ [] → IsLines [c]
  | cons {c : Bytes} {L : List Bytes} : Plain c → IsLines L → IsLines ((c ++ crlf) :: L)

lemma Plain.nil : Plain [] := by simp [Plain]

variable {c l : Bytes} {x : UInt8} {L : List Bytes}

lemma Plain.of_cons (h : Plain (x :: c)) : x ≠ CR ∧ x ≠ LF ∧ Plain c := by
  simp only [Plain, mem_cons, not_or] at h
  exact ⟨fun e => h.1.1 e.symm, fun e => h.2.1 e.symm, h.1.2, h.2.2⟩

lemma Plain.cons (h1 : x ≠ CR) (h2 : x ≠ LF) (hc : Plain c) : Plain (x :: c) := by
  simp only [Plain, mem_cons, not_or]
  exact ⟨⟨fun e => h1 e.symm, hc.1⟩, fun e => h2 e.symm, hc.2⟩

/-- Leaving lines out keeps the rest a list of lines. -/
lemma IsLines.sublist {L L' : List Bytes} (h : IsLines L) (hs : L'.Sublist L) : IsLines L' := by
  induction h generalizing L' with
  | nil =>
    rw [sublist_nil.1 hs]
    exact .nil
  | @last c hc hne =>
    rcases sublist_singleton.1 hs with rfl | rfl
    · exact .nil
    · exact .last hc hne
  | @cons c L hc _ ih =>
    rcases sublist_cons_iff.1 hs with h | ⟨r, rfl, h⟩
    · exact ih h
    · exact .cons hc (ih h)

/-- A byte in front of a list of lines joins its first line. -/
lemma IsLines.consByte (h1 : x ≠ CR) (h2 : x ≠ LF)
    (h : IsLines L) : ∃ L', IsLines L' ∧ L'.flatten = x :: L.flatten := by
  cases h with
  | nil => exact ⟨[[x]], .last (Plain.cons h1 h2 .nil) (by simp), by simp⟩
  | @last c hc hne => exact ⟨[x :: c], .last (Plain.cons h1 h2 hc) (by simp), by simp⟩
  | @cons c L hc h => exact ⟨((x :: c) ++ crlf) :: L, .cons (Plain.cons h1 h2 hc) h, by simp⟩

/-! ## Line endings -/

/-- Clean text splits into lines.  The byte before must not be a CR, or an LF in
front would be the second half of a line end. -/
lemma exists_lines_of_clean : ∀ (n : Bytes) (prev : Option UInt8), prev ≠ some CR →
    cleanFrom prev n = true → ∃ L, IsLines L ∧ L.flatten = n
  | [], _, _, _ => ⟨[], .nil, rfl⟩
  | c :: rest, prev, hp, h => by
    simp only [cleanFrom, Bool.and_eq_true] at h
    obtain ⟨hc, hrest⟩ := h
    by_cases hlf : c = LF
    · simp [hlf, hp] at hc
    by_cases hcr : c = CR
    · -- a CR is followed by its LF, and the line ends here
      subst hcr
      match rest, hc, hrest with
      | [], hc, _ => simp [hlf] at hc
      | d :: rest', hc, hrest =>
        have hd : d = LF := by simpa [hlf] using hc
        subst hd
        simp only [cleanFrom, Bool.and_eq_true] at hrest
        obtain ⟨L, hL, rfl⟩ := exists_lines_of_clean rest' (some LF) (by decide) hrest.2
        exact ⟨([] ++ crlf) :: L, .cons .nil hL, by simp [crlf]⟩
    · obtain ⟨L, hL, rfl⟩ := exists_lines_of_clean rest (some c) (by simpa using hcr) hrest
      exact hL.consByte hcr hlf

/-- What the rewriting loop writes splits into lines. -/
lemma exists_lines_of_rewrite (raw : Bytes) : ∃ L, IsLines L ∧ L.flatten = rewriteCRLF raw := by
  have hbreak : ∀ {L : List Bytes} {s : Bytes}, IsLines L → L.flatten = s →
      ∃ L', IsLines L' ∧ L'.flatten = crlf ++ s := by
    intro L s hL hs
    exact ⟨([] ++ crlf) :: L, .cons .nil hL, by simp [hs]⟩
  induction raw using rewriteCRLF.induct with
  | case1 => exact ⟨[], .nil, rfl⟩
  | case2 c h =>
    obtain ⟨L, hL, he⟩ := hbreak .nil (s := []) rfl
    exact ⟨L, hL, by simpa [rewriteCRLF, h] using he⟩
  | case3 c h =>
    simp only [not_or] at h
    exact ⟨[[c]], .last (Plain.cons h.1 h.2 .nil) (by simp), by simp [rewriteCRLF, h]⟩
  | case4 rest ih =>
    obtain ⟨L, hL, he⟩ := ih
    obtain ⟨L', hL', he'⟩ := hbreak hL he
    exact ⟨L', hL', by simpa [rewriteCRLF] using he'⟩
  | case5 d rest hd ih =>
    obtain ⟨L, hL, he⟩ := ih
    obtain ⟨L', hL', he'⟩ := hbreak hL he
    exact ⟨L', hL', by simpa [rewriteCRLF, hd] using he'⟩
  | case6 d rest hcr ih =>
    obtain ⟨L, hL, he⟩ := ih
    obtain ⟨L', hL', he'⟩ := hbreak hL he
    exact ⟨L', hL', by rw [rewriteCRLF, if_neg hcr, if_pos rfl]; exact he'⟩
  | case7 c d rest hcr hlf ih =>
    obtain ⟨L, hL, he⟩ := ih
    obtain ⟨L', hL', he'⟩ := hL.consByte hcr hlf
    exact ⟨L', hL', by rw [rewriteCRLF, if_neg hcr, if_neg hlf, he', he]⟩

/-- Repaired text is a list of lines. -/
theorem normalizeCRLF_lines (raw : Bytes) : ∃ L, IsLines L ∧ normalizeCRLF raw = L.flatten := by
  unfold normalizeCRLF
  split_ifs with h
  · obtain ⟨L, hL, he⟩ := exists_lines_of_clean raw none (by simp) h
    exact ⟨L, hL, he.symm⟩
  · obtain ⟨L, hL, he⟩ := exists_lines_of_rewrite raw
    exact ⟨L, hL, he.symm⟩

lemma cleanFrom_plain (hc : Plain c) (prev : Option UInt8) (s : Bytes) :
    cleanFrom prev (c ++ crlf ++ s) = cleanFrom (some LF) s := by
  induction c generalizing prev with
  | nil => simp [crlf, cleanFrom, CR, LF]
  | cons x c ih =>
    obtain ⟨h1, h2, hc⟩ := hc.of_cons
    rw [cons_append, cons_append, cleanFrom, if_neg h2, if_neg h1, ih hc]
    simp

lemma cleanFrom_last (hc : Plain c) (prev : Option UInt8) : cleanFrom prev c = true := by
  induction c generalizing prev with
  | nil => rfl
  | cons x c ih =>
    obtain ⟨h1, h2, hc⟩ := hc.of_cons
    rw [cleanFrom, if_neg h2, if_neg h1, ih hc]
    rfl

lemma cleanFrom_flatten (h : IsLines L) (prev : Option UInt8) :
    cleanFrom prev L.flatten = true := by
  induction h generalizing prev with
  | nil => rfl
  | last hc => simpa using cleanFrom_last hc prev
  | cons hc _ ih => rw [flatten_cons, cleanFrom_plain hc, ih]

/-- Text that is a list of lines already is left alone. -/
theorem normalizeCRLF_flatten (h : IsLines L) : normalizeCRLF L.flatten = L.flatten := by
  rw [normalizeCRLF, if_pos (cleanFrom_flatten h none)]

/-! ## Splitting -/

lemma splitLines_crlf (hc : Plain c) (s : Bytes) :
    splitLines (c ++ crlf ++ s) = (c ++ crlf) :: splitLines s := by
  induction c with
  | nil => simp [crlf, splitLines, CR, LF]
  | cons x c ih =>
    obtain ⟨-, h2, hc⟩ := hc.of_cons
    rw [cons_append, cons_append, splitLines, if_neg h2, ih hc]

lemma splitLines_last (hc : Plain c) (hne : c ≠ []) : splitLines c = [c] := by
  induction c with
  | nil => exact absurd rfl hne
  | cons x c ih =>
    obtain ⟨-, h2, hc⟩ := hc.of_cons
    rw [splitLines, if_neg h2]
    by_cases h : c = []
    · rw [h]; rfl
    · rw [ih hc h]

/-- Splitting the text of a list of lines gives the list back. -/
theorem splitLines_flatten (h : IsLines L) : splitLines L.flatten = L := by
  induction h with
  | nil => rfl
  | last hc hne => simpa using splitLines_last hc hne
  | cons hc _ ih => rw [flatten_cons, splitLines_crlf hc, ih]

lemma flatten_inj {L L' : List Bytes} (h : IsLines L) (h' : IsLines L')
    (he : L.flatten = L'.flatten) : L = L' := by
  rw [← splitLines_flatten h, he, splitLines_flatten h']

/-! ## The first blank line -/

/-- A line other than the empty one. -/
def notBlank (l : Bytes) : Bool := decide (l ≠ crlf)

@[simp] lemma notBlank_crlf : notBlank crlf = false := by simp [notBlank]

lemma notBlank_of_ne (h : l ≠ crlf) : notBlank l = true := by simp [notBlank, h]

/-- The lines the code takes for the header block: the search for CRLFCRLF
never stops at the first line, even when that is the empty one. -/
def headL : List Bytes → List Bytes
  | [] => []
  | l :: rest => l :: rest.takeWhile notBlank

/-- The lines after the first empty line behind the first. -/
def bodyL : List Bytes → Option (List Bytes)
  | [] => none
  | _ :: rest =>
      match rest.dropWhile notBlank with
      | [] => none
      | _ :: body => some body

lemma not_crlf_prefix (hx : x ≠ CR) {t s : Bytes} : ¬ crlf ++ t <+: x :: s := by
  intro h
  rw [crlf, cons_append, cons_prefix_cons] at h
  exact hx h.1.symm

lemma splitHeaderBody_of_ne (hx : x ≠ CR) (s : Bytes) :
    splitHeaderBody (x :: s) = (x :: (splitHeaderBody s).1, (splitHeaderBody s).2) := by
  unfold splitHeaderBody
  rw [cutBlankLine, if_neg fun h => not_crlf_prefix hx (List.isPrefixOf_iff_prefix.1 h)]
  cases cutBlankLine s <;> rfl

/-- The search, one line at a time. -/
lemma splitHeaderBody_crlf (hc : Plain c) (s : Bytes) : splitHeaderBody (c ++ crlf ++ s) =
      if crlf.isPrefixOf s then (c ++ crlf, some (s.drop 2))
      else (c ++ crlf ++ (splitHeaderBody s).1, (splitHeaderBody s).2) := by
  induction c with
  | nil =>
    by_cases h : crlf.isPrefixOf s = true
    · obtain ⟨t, rfl⟩ := List.isPrefixOf_iff_prefix.1 h
      simp [splitHeaderBody, cutBlankLine, crlf, isPrefixOf]
    · have h4 : ¬ (crlf ++ crlf).isPrefixOf (CR :: LF :: s) = true := by
        simpa [crlf] using h
      rw [if_neg h]
      have hlf : splitHeaderBody (LF :: s) = (LF :: (splitHeaderBody s).1, (splitHeaderBody s).2) :=
        splitHeaderBody_of_ne (by decide) s
      have hcr : splitHeaderBody (CR :: LF :: s) =
          (CR :: (splitHeaderBody (LF :: s)).1, (splitHeaderBody (LF :: s)).2) := by
        unfold splitHeaderBody
        rw [cutBlankLine, if_neg h4]
        cases cutBlankLine (LF :: s) <;> rfl
      simpa [crlf, hlf] using hcr
  | cons x c ih =>
    obtain ⟨h1, -, hc⟩ := hc.of_cons
    rw [cons_append, cons_append, splitHeaderBody_of_ne h1, ih hc]
    by_cases h : crlf.isPrefixOf s = true
    · simp [h]
    · simp [h]

lemma splitHeaderBody_last (hc : Plain c) : splitHeaderBody c = (c, none) := by
  induction c with
  | nil => rfl
  | cons x c ih =>
    obtain ⟨h1, -, hc⟩ := hc.of_cons
    rw [splitHeaderBody_of_ne h1, ih hc]

/-- The text of a list of lines starts with a line end exactly when its first
line is the empty one. -/
lemma crlf_isPrefixOf_flatten (h : IsLines L) :
    crlf.isPrefixOf L.flatten = true ↔ L.head? = some crlf := by
  have hne : ∀ {x : UInt8} {c s : Bytes}, x ≠ CR → ¬ crlf <+: (x :: c) ++ s := by
    intro x c s hx
    have h := not_crlf_prefix hx (t := []) (s := c ++ s)
    simpa using h
  rw [List.isPrefixOf_iff_prefix]
  cases h with
  | nil => simp [crlf]
  | @last c hc hc' =>
    obtain ⟨x, c, rfl⟩ := exists_cons_of_ne_nil hc'
    obtain ⟨h1, -, -⟩ := hc.of_cons
    refine iff_of_false (hne h1) ?_
    simp [crlf, h1]
  | @cons c L hc _ =>
    cases c with
    | nil => simp [crlf]
    | cons x c =>
      obtain ⟨h1, -, -⟩ := hc.of_cons
      refine iff_of_false ?_ (by simp [crlf, h1])
      exact hne (c := []) h1

/-- **The search on lines.** -/
theorem splitHeaderBody_flatten (h : IsLines L) :
    splitHeaderBody L.flatten = ((headL L).flatten, (bodyL L).map List.flatten) := by
  induction h with
  | nil => rfl
  | @last c hc _ => simpa [headL, bodyL] using splitHeaderBody_last hc
  | @cons c L hc hL ih =>
    rw [flatten_cons, splitHeaderBody_crlf hc]
    cases L with
    | nil => simp [headL, bodyL, crlf, splitHeaderBody, cutBlankLine]
    | cons l rest =>
      by_cases hl : l = crlf
      · subst hl
        rw [if_pos ((crlf_isPrefixOf_flatten hL).2 rfl)]
        simp [headL, bodyL, crlf, notBlank]
      · have hp : ¬ crlf.isPrefixOf (l :: rest).flatten = true := by
          rw [crlf_isPrefixOf_flatten hL]
          simpa using hl
        rw [if_neg hp, ih]
        simp [headL, bodyL, notBlank_of_ne hl]

/-! ## The preparation on lines -/

/-- The empty line and the body, when there is one. -/
def bodyPart : Option (List Bytes) → List Bytes
  | none => []
  | some body => crlf :: body

lemma headL_append_bodyPart (L : List Bytes) : headL L ++ bodyPart (bodyL L) = L := by
  cases L with
  | nil => rfl
  | cons l rest =>
    simp only [headL, bodyL, cons_append, cons.injEq, true_and]
    induction rest with
    | nil => rfl
    | cons x rest ih =>
      by_cases hx : x = crlf
      · subst hx
        simp [bodyPart]
      · rw [takeWhile_cons_of_pos (notBlank_of_ne hx),
          dropWhile_cons_of_pos (notBlank_of_ne hx), cons_append, ih]

lemma stripLines_sublist (name : Bytes) (skipping : Bool) (L : List Bytes) :
    (stripLines name skipping L).Sublist L := by
  induction L generalizing skipping with
  | nil => exact List.Sublist.refl _
  | cons l L ih =>
    unfold stripLines
    split_ifs
    · exact (ih _).cons l
    · exact (ih _).cons_cons l
    · exact (ih _).cons l
    · exact (ih _).cons_cons l

/-- `stripHeader` on lines. -/
def stripL (name : Bytes) (L : List Bytes) : List Bytes :=
  stripLines name false (headL L) ++ bodyPart (bodyL L)

lemma stripL_sublist (name : Bytes) (L : List Bytes) : (stripL name L).Sublist L := by
  have h := (stripLines_sublist name false (headL L)).append_right (bodyPart (bodyL L))
  rwa [headL_append_bodyPart] at h

lemma headL_sublist (L : List Bytes) : (headL L).Sublist L := by
  have h := sublist_append_left (headL L) (bodyPart (bodyL L))
  rwa [headL_append_bodyPart] at h

theorem stripHeader_flatten (h : IsLines L) (name : Bytes) :
    stripHeader L.flatten name = (stripL name L).flatten := by
  have hh : IsLines (headL L) := h.sublist (headL_sublist L)
  rw [stripHeader, splitHeaderBody_flatten h]
  simp only [splitLines_flatten hh, stripL, flatten_append]
  cases bodyL L <;> simp [bodyPart]

/-- The added lines, from the lines of the header block. -/
def addedL (id : MessageID) (createdAt : Nat) (header : List Bytes) : List Bytes :=
  (if headerValueOf messageIDName header = [] ∧ id.text ≠ [] then [messageIDLine id] else []) ++
    (if headerValueOf dateName header = [] then [dateLine createdAt] else [])

/-- `PrepareTransmission` on lines. -/
def prepL (id : MessageID) (createdAt : Nat) (L : List Bytes) : List Bytes :=
  addedL id createdAt (headL (stripL bccName L)) ++ stripL bccName L

theorem prepareTransmission_flatten (h : IsLines L) {raw : Bytes}
    (hraw : normalizeCRLF raw = L.flatten) (id : MessageID) (createdAt : Nat) :
    prepareTransmission raw id createdAt = (prepL id createdAt L).flatten := by
  have hs : IsLines (stripL bccName L) := h.sublist (stripL_sublist bccName L)
  have hh := hs.sublist (headL_sublist _)
  rw [prepareTransmission, hraw, stripHeader_flatten h]
  simp only [splitHeaderBody_flatten hs, addedLines, addedL, headerValue, splitLines_flatten hh,
      prepL, flatten_append]

/-! ## The added lines -/

lemma Plain.append {b c : Bytes} (hb : Plain b) (hc : Plain c) : Plain (b ++ c) := by
  simp only [Plain, mem_append, not_or]
  exact ⟨⟨hb.1, hc.1⟩, hb.2, hc.2⟩

lemma digit_ne (n : Nat) : digit n ≠ CR ∧ digit n ≠ LF := by
  have h : ∀ d < 10, (48 + d).toUInt8 ≠ CR ∧ (48 + d).toUInt8 ≠ LF := by decide
  exact h (n % 10) (Nat.mod_lt n (by decide))

lemma plain_map_digit (l : List Nat) : Plain (l.map digit) := by
  constructor
  · intro h
    obtain ⟨n, -, hn⟩ := mem_map.1 h
    exact (digit_ne n).1 hn
  · intro h
    obtain ⟨n, -, hn⟩ := mem_map.1 h
    exact (digit_ne n).2 hn

lemma plain_twoDigits (n : Nat) : Plain (twoDigits n) := plain_map_digit [n / 10, n]

lemma plain_yearDigits (y : Nat) : Plain (yearDigits y) := by
  unfold yearDigits
  split_ifs
  · exact plain_map_digit [y / 1000, y / 100, y / 10, y]
  · exact plain_map_digit _

lemma plain_getD {names : List (List Char)} {d : List Char}
    (h : ∀ n ∈ d :: names, Plain (ofChars n)) (i : Nat) : Plain (ofChars (names.getD i d)) := by
  rw [getD_eq_getElem?_getD]
  cases hi : names[i]? with
  | none => exact h d (by simp)
  | some n => exact h n (mem_cons_of_mem _ (mem_of_getElem? hi))

instance (c : Bytes) : Decidable (Plain c) := inferInstanceAs (Decidable (_ ∧ _))

lemma plain_formatDate (t : Nat) : Plain (formatDate t) := by
  have hw : Plain (ofChars (weekdays.getD (t / 86400 % 7) ['T', 'h', 'u'])) :=
    plain_getD (by decide) _
  have hm : Plain (ofChars (months.getD ((civil (t / 86400)).2.1 - 1) ['J', 'a', 'n'])) :=
    plain_getD (by decide) _
  have h1 : Plain [SP] := by decide
  have h2 : Plain [COLON] := by decide
  have h3 : Plain (ofChars [',', ' ']) := by decide
  have h4 : Plain (ofChars [' ', '+', '0', '0', '0', '0']) := by decide
  exact ((((((((((((hw.append h3).append (plain_twoDigits _)).append h1).append hm).append
    h1).append (plain_yearDigits _)).append h1).append (plain_twoDigits _)).append h2).append
    (plain_twoDigits _)).append h2).append (plain_twoDigits _)).append h4

lemma exists_plain_messageIDLine (id : MessageID) :
    ∃ c, Plain c ∧ messageIDLine id = c ++ crlf := by
  have h1 : Plain (messageIDName ++ ofChars [':', ' ', '<']) := by decide
  have h2 : Plain (ofChars ['>']) := by decide
  exact ⟨_, (h1.append ⟨id.no_cr, id.no_lf⟩).append h2, rfl⟩

lemma exists_plain_dateLine (t : Nat) : ∃ c, Plain c ∧ dateLine t = c ++ crlf := by
  have h1 : Plain (dateName ++ ofChars [':', ' ']) := by decide
  exact ⟨_, h1.append (plain_formatDate t), rfl⟩

lemma mem_addedL {id : MessageID} {t : Nat} {header : List Bytes}
    (h : l ∈ addedL id t header) : l = messageIDLine id ∨ l = dateLine t := by
  unfold addedL at h
  split_ifs at h <;> simp at h <;> tauto

lemma isLines_addedL_append (h : IsLines L) (id : MessageID) (t : Nat)
    (header : List Bytes) : IsLines (addedL id t header ++ L) := by
  obtain ⟨c, hc, he⟩ := exists_plain_messageIDLine id
  obtain ⟨d, hd, hf⟩ := exists_plain_dateLine t
  unfold addedL
  rw [he, hf]
  split_ifs
  · exact .cons hc (.cons hd h)
  · exact .cons hc h
  · exact .cons hd h
  · exact h

lemma isLines_prepL (h : IsLines L) (id : MessageID) (t : Nat) : IsLines (prepL id t L) :=
  isLines_addedL_append (h.sublist (stripL_sublist bccName L)) id t _

end Moov.Submit
