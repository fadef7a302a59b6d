import Mathlib.Data.List.TakeWhile
import Moov.Submit.Lines

/-!
# What the preparation of a draft guarantees

The reading of a message that `PrepareTransmission` is judged by is RFC 5322's,
not the code's: the header section ends at the first empty line, *also when
that is the first line* (`headerSection`, `messageBody`); a field is a line and
the continuation lines after it (`fields`); its name is what stands before the
colon, less trailing white space, in any case (`fieldName`).

* `isHeaderNamed_iff`: the code's test of a name is that reading.
* `stripLines_eq_withoutField`: its loop drops exactly the fields of that name.
* `prepared_iff`: the preparation of a draft is faithful (`Prepared`) exactly
  when the draft is `WellHeaded`.  What goes wrong otherwise is that the header
  section is empty, or is once the `Bcc` fields are gone, so that the code reads
  the first paragraph of the body as a header block; or that a `Message-ID` or
  `Date` field is there but blank.
-/

namespace Moov.Submit

open List

/-! ## Reading a message -/

/-- The lines of the header section: those before the first empty line. -/
def headerSection (m : Bytes) : List Bytes := (splitLines m).takeWhile notBlank

/-- What follows the first empty line, on lines. -/
def restL (L : List Bytes) : Option (List Bytes) :=
  match L.dropWhile notBlank with
  | [] => none
  | _ :: body => some body

/-- The body: what follows the first empty line. -/
def messageBody (m : Bytes) : Option Bytes := (restL (splitLines m)).map List.flatten

/-- White space at the end of a name does not belong to it. -/
def trimRightWSP (b : Bytes) : Bytes := (b.reverse.dropWhile isWSP).reverse

/-- The name of the field a line starts, in lower case. -/
def fieldName (line : Bytes) : Option Bytes :=
  if COLON ∈ line then some (lower (trimRightWSP (line.takeWhile (· ≠ COLON)))) else none

/-- The fields of a header section, each with its continuation lines. -/
def fields : List Bytes → List (List Bytes)
  | [] => []
  | l :: ls =>
      match fields ls with
      | [] => [[l]]
      | g :: gs => if g.head?.any isContinuation then (l :: g) :: gs else [l] :: g :: gs

/-- The lines of a header section without the fields of a name. -/
def withoutField (name : Bytes) (ls : List Bytes) : List Bytes :=
  ((fields ls).filter fun g => !g.head?.any (isHeaderNamed · name)).flatten

/-! ## Names -/

/-- Only upper-case letters change, and they become lower-case letters. -/
lemma lowerASCII_cases (c : UInt8) :
    lowerASCII c = c ∨ (65 ≤ c.toNat ∧ c.toNat ≤ 90 ∧ (lowerASCII c).toNat = c.toNat + 32) := by
  unfold lowerASCII
  split_ifs with h
  · simp only [UInt8.le_iff_toNat_le] at h
    refine Or.inr ⟨h.1, h.2, ?_⟩
    rw [UInt8.toNat_add]
    have h1 := h.1
    have h2 := h.2
    simp only [UInt8.reduceToNat] at h1 h2 ⊢
    omega
  · exact Or.inl rfl

lemma lowerASCII_eq_colon {c : UInt8} : lowerASCII c = COLON ↔ c = COLON := by
  rcases lowerASCII_cases c with h | ⟨h1, h2, h3⟩
  · rw [h]
  · have hc : COLON.toNat = 58 := rfl
    rw [← UInt8.toNat_inj, ← UInt8.toNat_inj, h3, hc]
    omega

lemma isWSP_lowerASCII (c : UInt8) : isWSP (lowerASCII c) = isWSP c := by
  rcases lowerASCII_cases c with h | ⟨h1, h2, h3⟩
  · rw [h]
  · have hs : SP.toNat = 32 := rfl
    have ht : HT.toNat = 9 := rfl
    have hw : ∀ d : UInt8, 65 ≤ d.toNat → isWSP d = false := by
      intro d hd
      unfold isWSP
      simp only [Bool.or_eq_false_iff, beq_eq_false_iff_ne, ne_eq, ← UInt8.toNat_inj, hs, ht]
      omega
    rw [hw c h1, hw (lowerASCII c) (by omega)]

variable {b name : Bytes} {x : UInt8} {L ls header A S : List Bytes} {id : MessageID} {t : Nat}

lemma colon_mem_lower : COLON ∈ lower b ↔ COLON ∈ b := by
  constructor
  · intro h
    obtain ⟨c, hc, he⟩ := mem_map.1 h
    exact lowerASCII_eq_colon.1 he ▸ hc
  · intro h
    exact mem_map.2 ⟨COLON, h, rfl⟩

/-- A name as the code passes it: no colon and no white space. -/
def IsName (name : Bytes) : Prop := COLON ∉ name ∧ ∀ c ∈ name, isWSP c = false

lemma isName_of_all (h1 : COLON ∉ name) (h2 : name.all (!isWSP ·) = true) :
    IsName name := by
  refine ⟨h1, fun c hc => ?_⟩
  simpa using all_eq_true.1 h2 c hc

lemma IsName.of_lower_eq {b name : Bytes} (hn : IsName name) (h : lower b = lower name) :
    IsName b := by
  refine ⟨fun hc => hn.1 (colon_mem_lower.1 (h ▸ colon_mem_lower.2 hc)), ?_⟩
  intro c hc
  have hm : lowerASCII c ∈ lower name := h ▸ mem_map.2 ⟨c, hc, rfl⟩
  obtain ⟨d, hd, he⟩ := mem_map.1 hm
  rw [← isWSP_lowerASCII, ← he, isWSP_lowerASCII, hn.2 d hd]

/-- A line of a field: its name, white space, the colon, and the rest. -/
lemma isHeaderNamed_iff_exists {line name : Bytes} : isHeaderNamed line name = true ↔
      ∃ nm ws r, line = nm ++ ws ++ COLON :: r ∧ lower nm = lower name ∧
        ∀ c ∈ ws, isWSP c = true := by
  unfold isHeaderNamed cutFold
  constructor
  · intro h
    by_cases h1 : line.length < name.length
    · simp [h1] at h
    by_cases h2 : lower (line.take name.length) = lower name
    · simp only [h1, if_false, h2, ne_eq, not_true_eq_false, beq_iff_eq] at h
      obtain ⟨r, hr⟩ : ∃ r, (line.drop name.length).dropWhile isWSP = COLON :: r := by
        cases hd : (line.drop name.length).dropWhile isWSP with
        | nil => rw [hd] at h; simp at h
        | cons c r =>
          rw [hd] at h
          exact ⟨r, by simpa using h⟩
      refine ⟨line.take name.length, (line.drop name.length).takeWhile isWSP, r, ?_, h2, ?_⟩
      · rw [← hr, append_assoc, takeWhile_append_dropWhile, take_append_drop]
      · intro c hc
        exact mem_takeWhile_imp hc
    · simp [h1, h2] at h
  · rintro ⟨nm, ws, r, rfl, hn, hws⟩
    have hlen : nm.length = name.length := by
      have := congrArg length hn
      simpa [lower] using this
    have htake : (nm ++ ws ++ COLON :: r).take name.length = nm := by
      rw [append_assoc, ← hlen, take_left]
    have hdrop : (nm ++ ws ++ COLON :: r).drop name.length = ws ++ COLON :: r := by
      rw [append_assoc, ← hlen, drop_left]
    have hge : ¬ (nm ++ ws ++ COLON :: r).length < name.length := by
      simp only [length_append, hlen]
      omega
    rw [if_neg hge, htake, hdrop, if_neg (by simpa using hn)]
    have hd : (ws ++ COLON :: r).dropWhile isWSP = COLON :: r := by
      rw [dropWhile_append_of_pos hws]
      rfl
    simp [hd]

lemma ne_colon_of_notMem (h : COLON ∉ b) : ∀ c ∈ b, decide (c ≠ COLON) = true :=
  fun _ hc => decide_eq_true fun e => h (e ▸ hc)

lemma trimRightWSP_append {nm ws : Bytes} (hn : ∀ c ∈ nm, isWSP c = false)
    (hws : ∀ c ∈ ws, isWSP c = true) : trimRightWSP (nm ++ ws) = nm := by
  unfold trimRightWSP
  rw [reverse_append, dropWhile_append_of_pos (by simpa using hws)]
  have h : nm.reverse.dropWhile isWSP = nm.reverse := by
    cases hr : nm.reverse with
    | nil => rfl
    | cons c =>
      have hc : c ∈ nm := by
        rw [← mem_reverse, hr]
        exact mem_cons_self
      rw [dropWhile_cons_of_neg (by simp [hn c hc])]
  rw [h, reverse_reverse]

/-- The code's test of a name is the reading of it. -/
theorem isHeaderNamed_iff {line name : Bytes} (hn : IsName name) :
    isHeaderNamed line name = true ↔ fieldName line = some (lower name) := by
  rw [isHeaderNamed_iff_exists]
  constructor
  · rintro ⟨nm, ws, r, rfl, hl, hws⟩
    have hnm : IsName nm := hn.of_lower_eq hl
    have hcol : ∀ c ∈ nm ++ ws, decide (c ≠ COLON) = true := by
      intro c hc
      rcases mem_append.1 hc with h | h
      · exact ne_colon_of_notMem hnm.1 c h
      · refine decide_eq_true ?_
        rintro rfl
        exact absurd (hws _ h) (by decide)
    have htake : (nm ++ ws ++ COLON :: r).takeWhile (fun c => decide (c ≠ COLON)) = nm ++ ws := by
      rw [takeWhile_append_of_pos hcol]
      simp
    rw [fieldName, if_pos (by simp), htake, trimRightWSP_append hnm.2 hws, hl]
  · intro h
    unfold fieldName at h
    split_ifs at h with hc
    injection h with h
    obtain ⟨s, r, rfl, hs⟩ := eq_append_cons_of_mem hc
    have htake : (s ++ COLON :: r).takeWhile (fun c => decide (c ≠ COLON)) = s := by
      rw [takeWhile_append_of_pos (ne_colon_of_notMem hs)]
      simp
    rw [htake] at h
    -- the name is what is left of `s` when its white space at the end is gone
    refine ⟨trimRightWSP s, (s.reverse.takeWhile isWSP).reverse, r, ?_, h, ?_⟩
    · rw [trimRightWSP, ← reverse_append, takeWhile_append_dropWhile, reverse_reverse]
    · intro c hm
      exact mem_takeWhile_imp (mem_reverse.1 hm)

lemma isName_bcc : IsName bccName := isName_of_all (by decide) (by decide)

lemma isName_messageID : IsName messageIDName := isName_of_all (by decide) (by decide)

lemma isName_date : IsName dateName := isName_of_all (by decide) (by decide)

/-- A line has one name at most. -/
lemma not_named_of_named {l name name' : Bytes} (hn : IsName name) (hn' : IsName name')
    (hne : lower name ≠ lower name') (h : isHeaderNamed l name = true) :
    isHeaderNamed l name' = false := by
  rw [Bool.eq_false_iff]
  intro h'
  rw [isHeaderNamed_iff hn] at h
  rw [isHeaderNamed_iff hn'] at h'
  rw [h] at h'
  exact hne (Option.some.inj h')

/-- A continuation line starts no field. -/
lemma not_named_of_continuation {l name : Bytes} (hn : IsName name) (hne : name ≠ [])
    (h : isContinuation l = true) : isHeaderNamed l name = false := by
  rw [Bool.eq_false_iff]
  intro h'
  obtain ⟨nm, ws, r, rfl, hl, -⟩ := isHeaderNamed_iff_exists.1 h'
  cases nm with
  | nil =>
    have : name = [] := by simpa [lower] using hl.symm
    exact hne this
  | cons c =>
    have hc := (hn.of_lower_eq hl).2 c mem_cons_self
    simp [isContinuation, hc] at h

/-! ## Fields -/

/-- A field is a line and the continuation lines right after it. -/
lemma fields_cons (l : Bytes) (ls : List Bytes) :
    fields (l :: ls) = (l :: ls.takeWhile isContinuation) :: fields
      (ls.dropWhile isContinuation) := by
  induction ls generalizing l with
  | nil => rfl
  | cons x ls ih =>
    rw [fields, ih x]
    cases hx : isContinuation x with
    | true => simp [hx]
    | false =>
      rw [takeWhile_cons_of_neg (by simp [hx]), dropWhile_cons_of_neg (by simp [hx]), ih x]
      simp [hx]

lemma stripLines_true (name : Bytes) (ls : List Bytes) :
    stripLines name true ls = stripLines name false (ls.dropWhile isContinuation) := by
  induction ls with
  | nil => rfl
  | cons l ls ih =>
    cases hl : isContinuation l with
    | true => rw [stripLines, dropWhile_cons_of_pos hl, ← ih]; simp [hl]
    | false => rw [dropWhile_cons_of_neg (by simp [hl]), stripLines, stripLines]; simp [hl]

lemma stripLines_false (name : Bytes) (ls : List Bytes) : stripLines name false ls =
      ls.takeWhile isContinuation ++ stripLines name false (ls.dropWhile isContinuation) := by
  induction ls with
  | nil => rfl
  | cons l ls ih =>
    cases hl : isContinuation l with
    | true =>
      rw [takeWhile_cons_of_pos hl, dropWhile_cons_of_pos hl, cons_append, ← ih, stripLines]
      simp [hl]
    | false =>
      rw [takeWhile_cons_of_neg (by simp [hl]), dropWhile_cons_of_neg (by simp [hl])]
      rfl

lemma withoutField_cons (name l : Bytes) (ls : List Bytes) : withoutField name (l :: ls) =
      (if isHeaderNamed l name then [] else l :: ls.takeWhile isContinuation) ++
        withoutField name (ls.dropWhile isContinuation) := by
  rw [withoutField, fields_cons, withoutField]
  cases h : isHeaderNamed l name <;> simp [h]

/-- The loop of `stripHeader` drops exactly the fields of that name. -/
theorem stripLines_eq_withoutField (hn : IsName name) (hne : name ≠ [])
    (ls : List Bytes) : stripLines name false ls = withoutField name ls := by
  -- by length: one field at a time
  induction hk : ls.length using Nat.strong_induction_on generalizing ls with
  | _ k ih =>
    cases ls with
    | nil => rfl
    | cons l ls =>
      have hlt : (ls.dropWhile isContinuation).length < k := by
        have := (dropWhile_sublist isContinuation (l := ls)).length_le
        simp only [length_cons] at hk
        omega
      have hrest := ih _ hlt (ls.dropWhile isContinuation) rfl
      rw [withoutField_cons, ← hrest, stripLines]
      cases hc : isContinuation l with
      | true =>
        rw [not_named_of_continuation hn hne hc]
        simp only [if_true, Bool.false_eq_true, if_false, cons_append, cons.injEq, true_and]
        exact stripLines_false name ls
      | false =>
        cases hnamed : isHeaderNamed l name with
        | true => simpa using stripLines_true name ls
        | false =>
          simp only [Bool.false_eq_true, if_false, cons_append, cons.injEq, true_and]
          exact stripLines_false name ls

/-- No line of that name is left. -/
lemma not_named_of_mem_stripLines {name l : Bytes} (hn : IsName name) (hne : name ≠ [])
    {skipping : Bool} (h : l ∈ stripLines name skipping ls) :
    isHeaderNamed l name = false := by
  induction ls generalizing skipping with
  | nil => simp [stripLines] at h
  | cons x ls ih =>
    unfold stripLines at h
    split_ifs at h with hc hs hx
    · exact ih h
    · rcases mem_cons.1 h with rfl | h
      · exact not_named_of_continuation hn hne hc
      · exact ih h
    · exact ih h
    · rcases mem_cons.1 h with rfl | h
      · simpa using hx
      · exact ih h

/-- Where there is no such line the loop changes nothing. -/
lemma stripLines_eq_self
    (h : ∀ l ∈ ls, isHeaderNamed l name = false) : stripLines name false ls = ls := by
  induction ls with
  | nil => rfl
  | cons l ls ih =>
    have hl := h l mem_cons_self
    have hls := ih fun x hx => h x (mem_cons_of_mem l hx)
    unfold stripLines
    simp [hl, hls]

lemma stripLines_eq_self_iff (hn : IsName name) (hne : name ≠ []) :
    stripLines name false ls = ls ↔ ∀ l ∈ ls, isHeaderNamed l name = false := by
  constructor
  · intro h l hl
    rw [← h] at hl
    exact not_named_of_mem_stripLines hn hne hl
  · exact stripLines_eq_self

/-! ## Values -/

lemma mem_trimFront {runes : List Bytes} (hx : ∀ r ∈ runes, x ∉ r) (fuel : Nat)
    (h : x ∈ b) : x ∈ trimFront runes fuel b := by
  induction fuel generalizing b with
  | zero => exact h
  | succ fuel ih =>
    unfold trimFront
    cases hf : runes.find? (·.isPrefixOf b) with
    | none => exact h
    | some r =>
      have hr : r <+: b := List.isPrefixOf_iff_prefix.1 (by simpa using find?_some hf)
      obtain ⟨t, rfl⟩ := hr
      apply ih
      rw [drop_left]
      rcases mem_append.1 h with h | h
      · exact absurd h (hx r (mem_of_find?_eq_some hf))
      · exact h

/-- Trimming white space keeps every byte that is part of no white space. -/
lemma mem_trimSpace (hx : ∀ r ∈ spaceRunes, x ∉ r) (h : x ∈ b) : x ∈ trimSpace b := by
  have hx' : ∀ r ∈ spaceRunes.map reverse, x ∉ r := by
    intro r hr
    obtain ⟨r', hr', rfl⟩ := mem_map.1 hr
    rw [mem_reverse]
    exact hx r' hr'
  unfold trimSpace
  rw [mem_reverse]
  apply mem_trimFront hx'
  rw [mem_reverse]
  exact mem_trimFront hx _ h

lemma mem_trimBreaks (h1 : x ≠ CR) (h2 : x ≠ LF) (h : x ∈ b) : x ∈ trimBreaks b := by
  unfold trimBreaks
  rw [mem_reverse]
  have hm : x ∈ b.reverse := mem_reverse.2 h
  rw [← takeWhile_append_dropWhile (p := fun c => c == CR || c == LF) (l := b.reverse)] at hm
  rcases mem_append.1 hm with h | h
  · have := mem_takeWhile_imp h
    simp [h1, h2] at this
  · exact h

/-- A field with a visible byte after its colon has a value. -/
lemma fieldValue_ne_nil {name rest : Bytes} (hn : COLON ∉ name)
    (h1 : x ≠ CR) (h2 : x ≠ LF) (hx : ∀ r ∈ spaceRunes, x ∉ r) (h : x ∈ rest) (ls : List Bytes) :
    fieldValue (name ++ COLON :: rest) ls ≠ [] := by
  have hd : (name ++ COLON :: rest).dropWhile (· != COLON) = COLON :: rest := by
    rw [dropWhile_append_of_pos (by simpa using ne_colon_of_notMem hn)]
    simp
  unfold fieldValue
  rw [hd]
  refine ne_nil_of_mem (mem_trimSpace hx (mem_append_left _ ?_))
  exact mem_trimBreaks h1 h2 h

lemma headerValueOf_cons {name l : Bytes} (h : isHeaderNamed l name = false) :
    headerValueOf name (l :: ls) = headerValueOf name ls := by
  rw [headerValueOf, h]
  rfl

lemma messageIDLine_eq (id : MessageID) : messageIDLine id =
      messageIDName ++ COLON :: (ofChars [' ', '<'] ++ id.text ++ ofChars ['>'] ++ crlf) := by
  simp [messageIDLine, ofChars, COLON]
  decide

lemma dateLine_eq (t : Nat) :
    dateLine t = dateName ++ COLON :: (ofChars [' '] ++ formatDate t ++ crlf) := by
  simp [dateLine, ofChars, COLON]
  decide

lemma messageIDLine_named (id : MessageID) :
    isHeaderNamed (messageIDLine id) messageIDName = true :=
  isHeaderNamed_iff_exists.2 ⟨messageIDName, [], _, by rw [messageIDLine_eq]; rfl, rfl, by simp⟩

lemma dateLine_named (t : Nat) : isHeaderNamed (dateLine t) dateName = true :=
  isHeaderNamed_iff_exists.2 ⟨dateName, [], _, by rw [dateLine_eq]; rfl, rfl, by simp⟩

lemma messageIDLine_not_date (id : MessageID) : isHeaderNamed (messageIDLine id) dateName = false :=
  not_named_of_named isName_messageID isName_date (by decide) (messageIDLine_named id)

lemma dateLine_not_messageID (t : Nat) : isHeaderNamed (dateLine t) messageIDName = false :=
  not_named_of_named isName_date isName_messageID (by decide) (dateLine_named t)

lemma headerValueOf_messageIDLine (id : MessageID) (ls : List Bytes) :
    headerValueOf messageIDName (messageIDLine id :: ls) ≠ [] := by
  rw [headerValueOf, if_pos (messageIDLine_named id), messageIDLine_eq]
  -- the angle bracket in front of the identifier
  refine fieldValue_ne_nil (x := 60) isName_messageID.1 (by decide) (by decide) (by decide) ?_ ls
  exact mem_append_left _ (mem_append_left _ (mem_append_left _ (by decide)))

lemma headerValueOf_dateLine (t : Nat) (ls : List Bytes) :
    headerValueOf dateName (dateLine t :: ls) ≠ [] := by
  rw [headerValueOf, if_pos (dateLine_named t), dateLine_eq]
  -- the zone at the end of the date has a plus sign
  refine fieldValue_ne_nil (x := 43) isName_date.1 (by decide) (by decide) (by decide) ?_ ls
  refine mem_append_left _ (mem_append_right _ ?_)
  exact mem_append_right _ (by decide)

/-! ## What is added -/

/-- Neither field is found, as far as it would be added. -/
def NoneFound (id : MessageID) (header : List Bytes) : Prop :=
  (id.text = [] ∨ headerValueOf messageIDName header = []) ∧ headerValueOf dateName header = []

/-- Both fields are found, as far as they would be added. -/
def AllFound (id : MessageID) (header : List Bytes) : Prop :=
  (id.text = [] ∨ headerValueOf messageIDName header ≠ []) ∧ headerValueOf dateName header ≠ []

lemma addedL_eq_nil_iff : addedL id t header = [] ↔ AllFound id header := by
  unfold addedL AllFound
  by_cases h1 : id.text = [] <;> by_cases h2 : headerValueOf messageIDName header = [] <;>
    by_cases h3 : headerValueOf dateName header = [] <;> simp [h1, h2, h3]

/-- In front of other lines the added ones are found again, and what was not added is found
if it is there. -/
lemma addedL_append_eq_nil_iff (id : MessageID) (t : Nat) (header S : List Bytes) :
    addedL id t (addedL id t header ++ S) = [] ↔
    (id.text = [] ∨ headerValueOf messageIDName header = [] ∨ headerValueOf messageIDName S ≠ []) ∧
      (headerValueOf dateName header = [] ∨ headerValueOf dateName S ≠ []) := by
  rw [addedL_eq_nil_iff]
  have hm := headerValueOf_messageIDLine id
  have hd := headerValueOf_dateLine t
  have hmd := messageIDLine_not_date id
  have hdm := dateLine_not_messageID t
  unfold AllFound addedL
  by_cases h1 : id.text = [] <;> by_cases h2 : headerValueOf messageIDName header = [] <;>
    by_cases h3 : headerValueOf dateName header = [] <;>
      simp [h1, h2, h3, hm, hd, headerValueOf_cons, hmd, hdm]

/-! ## The code's view of the header block and the reading of it -/

lemma takeWhile_append_bodyPart (ls : List Bytes) :
    ls.takeWhile notBlank ++ bodyPart (restL ls) = ls := by
  induction ls with
  | nil => rfl
  | cons l ls ih =>
    by_cases hl : l = crlf
    · subst hl
      simp [restL, bodyPart]
    · rw [restL, takeWhile_cons_of_pos (notBlank_of_ne hl),
        dropWhile_cons_of_pos (notBlank_of_ne hl), cons_append]
      exact congrArg (l :: ·) ih

lemma takeWhile_append_notBlank (hA : ∀ l ∈ A, notBlank l = true) (S : List Bytes) :
    (A ++ S).takeWhile notBlank = A ++ S.takeWhile notBlank ∧ restL (A ++ S) = restL S := by
  refine ⟨takeWhile_append_of_pos hA, ?_⟩
  rw [restL, restL, dropWhile_append_of_pos hA]

/-- The two views agree on a message that does not start with an empty line. -/
lemma headL_of_head_ne (h : L.head? ≠ some crlf) :
    headL L = L.takeWhile notBlank ∧ bodyL L = restL L := by
  cases L with
  | nil => exact ⟨rfl, rfl⟩
  | cons l =>
    have hl : l ≠ crlf := by simpa using h
    rw [headL, bodyL, restL, takeWhile_cons_of_pos (notBlank_of_ne hl),
      dropWhile_cons_of_pos (notBlank_of_ne hl)]
    exact ⟨rfl, rfl⟩

/-- On one that does, the code takes the first paragraph of the body along. -/
lemma headL_crlf (rest : List Bytes) :
    headL (crlf :: rest) = crlf :: rest.takeWhile notBlank ∧ bodyL (crlf :: rest) = restL rest :=
  ⟨rfl, rfl⟩

lemma notBlank_of_mem_addedL : ∀ l ∈ addedL id t header, notBlank l = true := by
  intro l hl
  apply notBlank_of_ne
  rintro rfl
  rcases mem_addedL hl with h | h
  · exact absurd (h ▸ messageIDLine_named id) (by decide)
  · exact absurd (h ▸ dateLine_named t) (by decide)

lemma not_bcc_of_mem_addedL : ∀ l ∈ addedL id t header, isHeaderNamed l bccName = false := by
  intro l hl
  rcases mem_addedL hl with rfl | rfl
  · exact not_named_of_named isName_messageID isName_bcc (by decide) (messageIDLine_named id)
  · exact not_named_of_named isName_date isName_bcc (by decide) (dateLine_named t)

lemma head_append_ne (hA : ∀ l ∈ A, notBlank l = true)
    (h : A = [] → S.head? ≠ some crlf) : (A ++ S).head? ≠ some crlf := by
  cases A with
  | nil => exact h rfl
  | cons a =>
    intro ha
    have ha : a = crlf := by simpa using ha
    have := hA a mem_cons_self
    simp [ha] at this

/-- Added lines in front of a message that does not start with an empty line
join its header block. -/
lemma headL_append_of_head_ne (hA : ∀ l ∈ A, notBlank l = true)
    (hS : S.head? ≠ some crlf) : headL (A ++ S) = A ++ headL S ∧ bodyL (A ++ S) = bodyL S := by
  obtain ⟨h1, h2⟩ := headL_of_head_ne (head_append_ne hA fun _ => hS)
  obtain ⟨h3, h4⟩ := headL_of_head_ne hS
  obtain ⟨h5, h6⟩ := takeWhile_append_notBlank hA S
  rw [h1, h2, h3, h4, h5, h6]
  exact ⟨rfl, rfl⟩

/-- In front of one that does, they are the whole of it. -/
lemma headL_append_crlf (hA : ∀ l ∈ A, notBlank l = true) (hne : A ≠ [])
    (b : List Bytes) : headL (A ++ crlf :: b) = A ∧ bodyL (A ++ crlf :: b) = some b := by
  obtain ⟨h1, h2⟩ := headL_of_head_ne (head_append_ne hA fun h => absurd h hne)
  obtain ⟨h5, h6⟩ := takeWhile_append_notBlank hA (crlf :: b)
  rw [h1, h2, h5, h6]
  simp [restL]

lemma stripL_eq_self (h : ∀ l ∈ headL L, isHeaderNamed l bccName = false) :
    stripL bccName L = L := by
  rw [stripL, stripLines_eq_self h, headL_append_bodyPart]

lemma stripL_eq_self_iff :
    stripL bccName L = L ↔ ∀ l ∈ headL L, isHeaderNamed l bccName = false := by
  refine ⟨fun h => ?_, stripL_eq_self⟩
  rw [← stripLines_eq_self_iff isName_bcc (by decide)]
  have h' : stripLines bccName false (headL L) ++ bodyPart (bodyL L) =
      headL L ++ bodyPart (bodyL L) := by
    rw [headL_append_bodyPart]
    exact h
  exact append_cancel_right h'

lemma crlf_not_bcc : isHeaderNamed crlf bccName = false := by decide

lemma addedL_crlf (id : MessageID) (t : Nat) (ls : List Bytes) :
    addedL id t (crlf :: ls) = addedL id t ls := by
  have h1 : isHeaderNamed crlf messageIDName = false := by decide
  have h2 : isHeaderNamed crlf dateName = false := by decide
  rw [addedL, headerValueOf_cons h1, headerValueOf_cons h2]
  rfl

/-! ## Preparing twice -/

/-- When the stripped message does not start with an empty line, preparing it
again changes nothing. -/
lemma prepL_prepL_of_head_ne (hS : (stripL bccName L).head? ≠ some crlf)
    (hbcc : ∀ l ∈ headL (stripL bccName L), isHeaderNamed l bccName = false) :
    prepL id t (prepL id t L) = prepL id t L := by
  set S := stripL bccName L with hSdef
  have hA : ∀ l ∈ addedL id t (headL S), notBlank l = true := notBlank_of_mem_addedL
  obtain ⟨hhead, -⟩ := headL_append_of_head_ne hA hS
  have hY : prepL id t L = addedL id t (headL S) ++ S := rfl
  have hstrip : stripL bccName (prepL id t L) = prepL id t L := by
    apply stripL_eq_self
    rw [hY, hhead]
    exact forall_mem_append.2 ⟨not_bcc_of_mem_addedL, hbcc⟩
  calc prepL id t (prepL id t L)
      = addedL id t (headL (prepL id t L)) ++ prepL id t L := by rw [prepL, hstrip]
    _ = addedL id t (addedL id t (headL S) ++ headL S) ++ prepL id t L := by rw [hY, hhead]
    _ = prepL id t L := by
        rw [(addedL_append_eq_nil_iff _ _ _ _).2 (by simp [em]), nil_append]

/-- When it does, that depends on what the first paragraph of its body looks
like to the code. -/
lemma prepL_prepL_iff_of_crlf {L b : List Bytes} (hS : stripL bccName L = crlf :: b) :
    prepL id t (prepL id t L) = prepL id t L ↔
      NoneFound id (b.takeWhile notBlank) ∨ (AllFound id (b.takeWhile notBlank) ∧
        ∀ l ∈ b.takeWhile notBlank, isHeaderNamed l bccName = false) := by
  set para := b.takeWhile notBlank with hpara
  have hadd : addedL id t (headL (stripL bccName L)) = addedL id t para := by
    rw [hS, (headL_crlf b).1, addedL_crlf]
  have hY : prepL id t L = addedL id t para ++ crlf :: b := by rw [prepL, hadd, hS]
  have hA : ∀ l ∈ addedL id t para, notBlank l = true := notBlank_of_mem_addedL
  have hexcl : ¬ (NoneFound id para ∧ AllFound id para) := fun h => h.2.2 h.1.2
  by_cases hnil : addedL id t para = []
  · -- nothing was added, and the second pass sees the same first paragraph
    have hall : AllFound id para := addedL_eq_nil_iff.1 hnil
    rw [hY, hnil, nil_append]
    have hbcc : stripL bccName (crlf :: b) = crlf :: b ↔
        ∀ l ∈ para, isHeaderNamed l bccName = false := by
      rw [stripL_eq_self_iff, (headL_crlf b).1]
      simp [← hpara, crlf_not_bcc]
    constructor
    · intro h
      refine Or.inr ⟨hall, hbcc.1 ?_⟩
      rw [prepL] at h
      cases hA' : addedL id t (headL (stripL bccName (crlf :: b))) with
      | nil => rwa [hA', nil_append] at h
      | cons a =>
        have hnb := notBlank_of_mem_addedL a (by rw [hA']; exact mem_cons_self)
        rw [hA', cons_append] at h
        injection h with ha
        simp [ha] at hnb
    · rintro (hnone | ⟨-, hno⟩)
      · exact absurd ⟨hnone, hall⟩ hexcl
      · rw [prepL, hbcc.2 hno, (headL_crlf b).1, ← hpara, addedL_crlf, hnil, nil_append]
  · -- something was added, and the second pass sees only that
    have hnall : ¬ AllFound id para := fun h => hnil (addedL_eq_nil_iff.2 h)
    have hhead := (headL_append_crlf hA hnil b).1
    have hstrip : stripL bccName (addedL id t para ++ crlf :: b) = addedL id t para ++
      crlf :: b := by
      apply stripL_eq_self
      rw [hhead]
      exact not_bcc_of_mem_addedL
    have hnone : addedL id t (addedL id t para) = [] ↔ NoneFound id para := by
      simpa [NoneFound, headerValueOf] using addedL_append_eq_nil_iff id t para []
    rw [hY, prepL, hstrip, hhead, append_left_eq_self, hnone]
    constructor
    · exact Or.inl
    · rintro (hnone | ⟨hall, -⟩)
      · exact hnone
      · exact absurd hall hnall

/-! ## The contract -/

/-- No line of that section starts a field of that name. -/
def Lacks (name : Bytes) (header : List Bytes) : Prop :=
  ∀ l ∈ header, fieldName l ≠ some (lower name)

/-- The two lines that may be added. -/
def addedFor (id : MessageID) (createdAt : Nat) (m d : Bool) : List Bytes :=
  (if m then [messageIDLine id] else []) ++ (if d then [dateLine createdAt] else [])

/-- **The contract of `PrepareTransmission`.**  What `out` must be for the
draft `raw`: CRLF text, no `Bcc` field in its header section, the other fields
and the body of the draft (line endings repaired), a `Message-ID` or `Date` in
front only when the draft's header section has no such field, and a fixed point
of the preparation. -/
structure Prepared (raw out : Bytes) (id : MessageID) (createdAt : Nat) : Prop where
  clean : cleanFrom none out = true
  noBcc : Lacks bccName (headerSection out)
  body : messageBody out = messageBody (normalizeCRLF raw)
  kept : ∃ m d, headerSection out =
      addedFor id createdAt m d ++ withoutField bccName (headerSection (normalizeCRLF raw)) ∧
    (m = true → Lacks messageIDName (headerSection (normalizeCRLF raw))) ∧
    (d = true → Lacks dateName (headerSection (normalizeCRLF raw)))
  idem : prepareTransmission out id createdAt = out

/-- A field of that name, if there is one, has a value. -/
def NotLeftBlank (name : Bytes) (header : List Bytes) : Prop :=
  Lacks name header ∨ headerValueOf name header ≠ []

/-- **The drafts the preparation is right for**, by their repaired text `n`.
Either the header section has a line that is not part of a `Bcc` field, and its
`Message-ID` and `Date`, if there, are not blank; or it has none, and then the
first paragraph of the body, which the code takes for a header block, must not
look like one: with neither field in it (and no `Bcc` if the section was empty
to begin with), or with both and no `Bcc`. -/
def WellHeaded (n : Bytes) (id : MessageID) : Prop :=
  (withoutField bccName (headerSection n) ≠ [] →
    (id.text = [] ∨ NotLeftBlank messageIDName (withoutField bccName (headerSection n))) ∧
    NotLeftBlank dateName (withoutField bccName (headerSection n))) ∧
  (withoutField bccName (headerSection n) = [] → ∀ b, messageBody n = some b →
    (headerSection n = [] → Lacks bccName (headerSection b)) ∧
    (NoneFound id (headerSection b) ∨
      (AllFound id (headerSection b) ∧ Lacks bccName (headerSection b))))

lemma lacks_iff (hn : IsName name) :
    Lacks name header ↔ ∀ l ∈ header, isHeaderNamed l name = false := by
  refine forall_congr' fun l => forall_congr' fun _ => ?_
  rw [ne_eq, ← isHeaderNamed_iff hn, Bool.not_eq_true]

lemma addedL_eq_addedFor (id : MessageID) (t : Nat) (header : List Bytes) :
    addedL id t header = addedFor id t
      (decide (headerValueOf messageIDName header = [] ∧ id.text ≠ []))
      (decide (headerValueOf dateName header = [])) := by
  simp [addedL, addedFor]

lemma addedFor_inj {m d m' d' : Bool}
    (h : addedFor id t m d = addedFor id t m' d') : m = m' ∧ d = d' := by
  have hne : messageIDLine id ≠ dateLine t := fun e =>
    absurd (e ▸ messageIDLine_not_date id) (by rw [dateLine_named]; decide)
  cases m <;> cases d <;> cases m' <;> cases d' <;> simp_all [addedFor]

lemma withoutField_bcc (ls : List Bytes) :
    withoutField bccName ls = stripLines bccName false ls :=
  (stripLines_eq_withoutField isName_bcc (by decide) ls).symm

lemma not_bcc_of_mem_withoutField :
    ∀ l ∈ withoutField bccName ls, isHeaderNamed l bccName = false := by
  rw [withoutField_bcc]
  exact fun l hl => not_named_of_mem_stripLines isName_bcc (by decide) hl

/-- Leaving out the `Bcc` fields leaves out no other. -/
lemma lacks_withoutField_iff (hn : IsName name)
    (hne : lower bccName ≠ lower name) (hname : name ≠ []) :
    Lacks name (withoutField bccName ls) ↔ Lacks name ls := by
  rw [lacks_iff hn, lacks_iff hn, withoutField_bcc]
  constructor
  · intro h
    suffices ∀ (skipping : Bool) (ls : List Bytes),
        (∀ l ∈ stripLines bccName skipping ls, isHeaderNamed l name = false) →
        ∀ l ∈ ls, isHeaderNamed l name = false from this false ls h
    intro skipping ls
    induction ls generalizing skipping with
    | nil => simp
    | cons x ls ih =>
      intro h l hl
      unfold stripLines at h
      split_ifs at h with hc hs hx
      · rcases mem_cons.1 hl with rfl | hl
        · exact not_named_of_continuation hn hname hc
        · exact ih _ h l hl
      · rcases mem_cons.1 hl with rfl | hl
        · exact not_named_of_continuation hn hname hc
        · exact ih _ (fun y hy => h y (mem_cons_of_mem x hy)) l hl
      · rcases mem_cons.1 hl with rfl | hl
        · exact not_named_of_named isName_bcc hn hne hx
        · exact ih _ h l hl
      · rcases mem_cons.1 hl with rfl | hl
        · exact h l mem_cons_self
        · exact ih _ (fun y hy => h y (mem_cons_of_mem x hy)) l hl
  · intro h l hl
    exact h l ((stripLines_sublist bccName false ls).subset hl)

/-! ## The contract on lines -/

section OnLines

lemma headerSection_flatten (h : IsLines L) : headerSection L.flatten = L.takeWhile notBlank := by
  rw [headerSection, splitLines_flatten h]

lemma messageBody_flatten (h : IsLines L) :
    messageBody L.flatten = (restL L).map List.flatten := by
  rw [messageBody, splitLines_flatten h]

lemma isLines_restL (h : IsLines L) {b : List Bytes} (hb : restL L = some b) : IsLines b := by
  have hs : b.Sublist L := by
    have he := takeWhile_append_bodyPart L
    rw [hb, bodyPart] at he
    conv_rhs => rw [← he]
    exact ((sublist_cons_self crlf b).trans (sublist_append_right _ _))
  exact h.sublist hs

/-- Bodies are the same text only when they are the same lines. -/
lemma map_flatten_inj {L' : List Bytes} (h : IsLines L) (h' : IsLines L')
    (he : (restL L').map List.flatten = (restL L).map List.flatten) : restL L' = restL L := by
  cases hb : restL L with
  | none =>
    rw [hb] at he
    simpa using he
  | some =>
    cases hb' : restL L' with
    | none => simp [hb, hb'] at he
    | some =>
      rw [hb, hb'] at he
      have := flatten_inj (isLines_restL h' hb') (isLines_restL h hb) (Option.some.inj he)
      rw [this]

/-- The added lines of the first pass and the header section they go in front of. -/
def KeptL (id : MessageID) (t : Nat) (L : List Bytes) : Prop :=
  ∃ m d, addedL id t (headL (stripL bccName L)) ++ (stripL bccName L).takeWhile notBlank =
      addedFor id t m d ++ withoutField bccName (L.takeWhile notBlank) ∧
    (m = true → Lacks messageIDName (L.takeWhile notBlank)) ∧
    (d = true → Lacks dateName (L.takeWhile notBlank))

/-- The contract, for a draft whose repaired text has the lines `L`. -/
lemma prepared_iff_lines (h : IsLines L) {raw : Bytes} (hraw : normalizeCRLF raw = L.flatten) :
    Prepared raw (prepareTransmission raw id t) id t ↔
      Lacks bccName ((stripL bccName L).takeWhile notBlank) ∧
      restL (stripL bccName L) = restL L ∧ KeptL id t L ∧
      prepL id t (prepL id t L) = prepL id t L := by
  have hS : IsLines (stripL bccName L) := h.sublist (stripL_sublist bccName L)
  have hY : IsLines (prepL id t L) := isLines_prepL h id t
  have hA : ∀ l ∈ addedL id t (headL (stripL bccName L)), notBlank l = true :=
    notBlank_of_mem_addedL
  obtain ⟨hsec, hrest⟩ := takeWhile_append_notBlank hA (stripL bccName L)
  have hout := prepareTransmission_flatten h hraw id t
  have hsecY : headerSection (prepL id t L).flatten =
      addedL id t (headL (stripL bccName L)) ++ (stripL bccName L).takeWhile notBlank := by
    rw [headerSection_flatten hY, prepL, hsec]
  have hbodyY : messageBody (prepL id t L).flatten = (restL (stripL bccName L)).map flatten := by
    rw [messageBody_flatten hY, prepL, hrest]
  have hidem := prepareTransmission_flatten hY (normalizeCRLF_flatten hY) id t
  constructor
  · rintro ⟨-, hno, hbody, hkept, hid⟩
    rw [hout] at hno hbody hkept hid
    rw [hsecY] at hno hkept
    rw [hbodyY, hraw, messageBody_flatten h] at hbody
    rw [hraw, headerSection_flatten h] at hkept
    rw [hidem] at hid
    exact ⟨fun l hl => hno l (mem_append_right _ hl), map_flatten_inj h hS hbody, hkept,
      flatten_inj (isLines_prepL hY id t) hY hid⟩
  · rintro ⟨hno, hbody, hkept, hid⟩
    rw [hout]
    refine ⟨cleanFrom_flatten hY none, ?_, ?_, ?_, ?_⟩
    · rw [hsecY]
      exact forall_mem_append.2 ⟨(lacks_iff isName_bcc).2 not_bcc_of_mem_addedL, hno⟩
    · rw [hbodyY, hraw, messageBody_flatten h, hbody]
    · rw [hsecY, hraw, headerSection_flatten h]
      exact hkept
    · rw [hidem, hid]

/-- When the whole header section goes, no other field was in it. -/
lemma lacks_of_withoutField_nil (hn : IsName name)
    (hne : lower bccName ≠ lower name) (hname : name ≠ [])
    (h : withoutField bccName ls = []) : Lacks name ls := by
  rw [← lacks_withoutField_iff hn hne hname, h]
  intro l hl
  simp at hl

/-- What is added goes with what is kept: the flags of the contract are those
of the code. -/
lemma keptL_iff (hsec : (stripL bccName L).takeWhile notBlank =
      withoutField bccName (L.takeWhile notBlank)) :
    KeptL id t L ↔ (headerValueOf messageIDName (headL (stripL bccName L)) = [] ∧ id.text ≠ [] →
        Lacks messageIDName (L.takeWhile notBlank)) ∧
      (headerValueOf dateName (headL (stripL bccName L)) = [] →
        Lacks dateName (L.takeWhile notBlank)) := by
  unfold KeptL
  rw [hsec, addedL_eq_addedFor]
  constructor
  · rintro ⟨m, d, he, hm, hd⟩
    obtain ⟨rfl, rfl⟩ := addedFor_inj (append_cancel_right he)
    exact ⟨fun h => hm (decide_eq_true h), fun h => hd (decide_eq_true h)⟩
  · rintro ⟨hm, hd⟩
    exact ⟨_, _, rfl, fun h => hm (of_decide_eq_true h), fun h => hd (of_decide_eq_true h)⟩

/-- The stripped message, when the draft does not start with an empty line. -/
lemma stripL_of_head_ne (h : L.head? ≠ some crlf) :
    stripL bccName L = withoutField bccName (L.takeWhile notBlank) ++ bodyPart (restL L) ∧
      (stripL bccName L).takeWhile notBlank = withoutField bccName (L.takeWhile notBlank) ∧
      restL (stripL bccName L) = restL L := by
  obtain ⟨h1, h2⟩ := headL_of_head_ne h
  have hS : stripL bccName L =
      withoutField bccName (L.takeWhile notBlank) ++ bodyPart (restL L) := by
    rw [stripL, h1, h2, withoutField_bcc]
  have hnb : ∀ l ∈ withoutField bccName (L.takeWhile notBlank), notBlank l = true := by
    intro l hl
    rw [withoutField_bcc] at hl
    exact mem_takeWhile_imp ((stripLines_sublist _ _ _).subset hl)
  obtain ⟨h3, h4⟩ := takeWhile_append_notBlank hnb (bodyPart (restL L))
  rw [hS]
  refine ⟨rfl, ?_, ?_⟩
  · rw [h3]
    cases restL L <;> simp [bodyPart]
  · rw [h4]
    cases restL L <;> simp [bodyPart, restL]

/-- A header section with something besides `Bcc` fields. -/
lemma contract_of_kept (hhead : L.head? ≠ some crlf)
    (hne : withoutField bccName (L.takeWhile notBlank) ≠ []) :
    (KeptL id t L ∧ prepL id t (prepL id t L) = prepL id t L) ↔
      (id.text = [] ∨ NotLeftBlank messageIDName (withoutField bccName (L.takeWhile notBlank))) ∧
      NotLeftBlank dateName (withoutField bccName (L.takeWhile notBlank)) := by
  obtain ⟨hS, hsec, -⟩ := stripL_of_head_ne hhead
  have hShead : (stripL bccName L).head? ≠ some crlf := by
    rw [hS]
    refine head_append_ne (fun l hl => ?_) fun h => absurd h hne
    rw [← hsec] at hl
    exact mem_takeWhile_imp hl
  have hheadL : headL (stripL bccName L) = withoutField bccName (L.takeWhile notBlank) := by
    rw [(headL_of_head_ne hShead).1, hsec]
  have hidem : prepL id t (prepL id t L) = prepL id t L := by
    apply prepL_prepL_of_head_ne hShead
    rw [hheadL]
    exact not_bcc_of_mem_withoutField
  rw [keptL_iff hsec, hheadL]
  unfold NotLeftBlank
  rw [lacks_withoutField_iff isName_messageID (by decide) (by decide),
    lacks_withoutField_iff isName_date (by decide) (by decide)]
  constructor
  · rintro ⟨⟨h1, h2⟩, -⟩
    refine ⟨?_, ?_⟩
    · by_cases hid : id.text = []
      · exact Or.inl hid
      · exact Or.inr (or_iff_not_imp_right.2 fun h => h1 ⟨not_not.1 h, hid⟩)
    · exact or_iff_not_imp_right.2 fun h => h2 (not_not.1 h)
  · rintro ⟨h1, h2⟩
    refine ⟨⟨fun ⟨h, hid⟩ => ?_, fun h => h2.resolve_right (not_not.2 h)⟩, hidem⟩
    exact (h1.resolve_left hid).resolve_right (not_not.2 h)

/-- A header section of nothing but `Bcc` fields. -/
lemma contract_of_all_bcc (hhead : L.head? ≠ some crlf)
    (hnil : withoutField bccName (L.takeWhile notBlank) = []) :
    (KeptL id t L ∧ prepL id t (prepL id t L) = prepL id t L) ↔
      ∀ b, restL L = some b → NoneFound id (b.takeWhile notBlank) ∨
        (AllFound id (b.takeWhile notBlank) ∧ Lacks bccName (b.takeWhile notBlank)) := by
  obtain ⟨hS, hsec, -⟩ := stripL_of_head_ne hhead
  rw [hnil, nil_append] at hS
  have hkept : KeptL id t L := by
    rw [keptL_iff hsec]
    exact ⟨fun _ => lacks_of_withoutField_nil isName_messageID (by decide) (by decide) hnil,
      fun _ => lacks_of_withoutField_nil isName_date (by decide) (by decide) hnil⟩
  simp only [hkept, true_and, lacks_iff isName_bcc]
  cases hb : restL L with
  | none =>
    rw [hb, bodyPart] at hS
    have hidem : prepL id t (prepL id t L) = prepL id t L := by
      apply prepL_prepL_of_head_ne
      · simp [hS]
      · simp [hS, headL]
    simp [hidem]
  | some =>
    rw [hb, bodyPart] at hS
    rw [prepL_prepL_iff_of_crlf hS]
    simp

lemma restL_crlf (rest : List Bytes) : restL (crlf :: rest) = some rest := by simp [restL]

/-- An empty header section: the code strips the first paragraph of the body. -/
lemma contract_of_crlf {rest : List Bytes} :
    (restL (stripL bccName (crlf :: rest)) = some rest ∧ KeptL id t (crlf :: rest) ∧
        prepL id t (prepL id t (crlf :: rest)) = prepL id t (crlf :: rest)) ↔
      Lacks bccName (rest.takeWhile notBlank) ∧
        (NoneFound id (rest.takeWhile notBlank) ∨ (AllFound id (rest.takeWhile notBlank) ∧
          Lacks bccName (rest.takeWhile notBlank))) := by
  have hS : stripL bccName (crlf :: rest) =
      crlf :: (stripLines bccName false (rest.takeWhile notBlank) ++ bodyPart (restL rest)) := by
    rw [stripL, (headL_crlf rest).1, (headL_crlf rest).2, stripLines, crlf_not_bcc]
    rfl
  have hrest : restL (stripL bccName (crlf :: rest)) = some rest ↔
      Lacks bccName (rest.takeWhile notBlank) := by
    rw [hS, lacks_iff isName_bcc, ← stripLines_eq_self_iff isName_bcc (by decide)]
    rw [restL_crlf, Option.some.injEq]
    conv_lhs => rhs; rw [← takeWhile_append_bodyPart rest]
    exact append_left_inj _
  rw [hrest]
  refine and_congr_right fun hno => ?_
  have hself : stripL bccName (crlf :: rest) = crlf :: rest := by
    rw [hS, stripLines_eq_self ((lacks_iff isName_bcc).1 hno), takeWhile_append_bodyPart]
  have hkept : KeptL id t (crlf :: rest) := by
    have hw : (crlf :: rest).takeWhile notBlank = [] := by simp
    have hno' : ∀ name, Lacks name ((crlf :: rest).takeWhile notBlank) := by
      intro name l hl
      simp at hl
    rw [keptL_iff (by rw [hself, hw]; rfl)]
    exact ⟨fun _ => hno' _, fun _ => hno' _⟩
  simp only [hkept, true_and]
  rw [prepL_prepL_iff_of_crlf hself, lacks_iff isName_bcc]

end OnLines

/-! ## Main result -/

/-- **When a draft is prepared as it should be.**  For every byte string taken
as a draft, `PrepareTransmission` keeps its contract exactly when the draft is
`WellHeaded`. -/
theorem prepared_iff (raw : Bytes) (id : MessageID) (createdAt : Nat) :
    Prepared raw (prepareTransmission raw id createdAt) id createdAt ↔
      WellHeaded (normalizeCRLF raw) id := by
  obtain ⟨L, hL, hraw⟩ := normalizeCRLF_lines raw
  rw [prepared_iff_lines hL hraw, hraw]
  have hpara : ∀ {b : List Bytes}, restL L = some b →
      headerSection b.flatten = b.takeWhile notBlank := fun hb =>
    headerSection_flatten (isLines_restL hL hb)
  unfold WellHeaded
  rw [headerSection_flatten hL, messageBody_flatten hL]
  by_cases hhead : L.head? = some crlf
  · -- the header section is empty
    obtain ⟨rest, rfl⟩ : ∃ rest, L = crlf :: rest := by
      cases L with
      | nil => simp at hhead
      | cons l rest => exact ⟨rest, by simpa using hhead⟩
    have hw : (crlf :: rest).takeWhile notBlank = [] := by simp
    have hno : Lacks bccName ((stripL bccName (crlf :: rest)).takeWhile notBlank) := by
      have : (stripL bccName (crlf :: rest)).takeWhile notBlank = [] := by
        rw [stripL, (headL_crlf rest).1, stripLines, crlf_not_bcc]
        simp [isContinuation, crlf, isWSP, CR, SP, HT, notBlank, LF]
      intro l hl
      simp [this] at hl
    have hwf : withoutField bccName [] = [] := rfl
    simp only [hno, true_and, restL_crlf, contract_of_crlf, hw, hwf, ne_eq, not_true_eq_false,
      false_implies, true_implies, Option.map_some, Option.some.injEq, forall_eq',
      hpara (restL_crlf rest)]
  · obtain ⟨hS, hsec, hrest⟩ := stripL_of_head_ne hhead
    have hno : Lacks bccName ((stripL bccName L).takeWhile notBlank) := by
      rw [hsec, lacks_iff isName_bcc]
      exact not_bcc_of_mem_withoutField
    simp only [hno, hrest, true_and]
    by_cases hnil : withoutField bccName (L.takeWhile notBlank) = []
    · rw [contract_of_all_bcc hhead hnil]
      simp only [hnil, ne_eq, not_true_eq_false, false_implies, true_and, true_implies]
      constructor
      · intro h b hb
        obtain ⟨bl, hbl, rfl⟩ := Option.map_eq_some_iff.1 hb
        rw [hpara hbl]
        refine ⟨fun hempty => ?_, h bl hbl⟩
        -- a draft with a body and an empty section starts with an empty line
        exfalso
        apply hhead
        cases L with
        | nil => simp [restL] at hbl
        | cons l =>
          by_contra hl
          have hl' : l ≠ crlf := by simpa using hl
          rw [takeWhile_cons_of_pos (notBlank_of_ne hl')] at hempty
          cases hempty
      · intro h bl hbl
        have := (h bl.flatten (by rw [hbl]; rfl)).2
        rwa [hpara hbl] at this
    · rw [contract_of_kept hhead hnil]
      simp [hnil]

/-- The draft `CRLF Bcc: x CRLF`: an empty header section, and a body of one
line. -/
def emptyHeaderDraft : Bytes := crlf ++ bccName ++ ofChars [':', ' ', 'x'] ++ crlf

def sampleID : MessageID := ⟨ofChars ['a'], by decide, by decide⟩

/-- That line is taken out of the body. -/
theorem prepareTransmission_edits_body :
    messageBody (prepareTransmission emptyHeaderDraft sampleID 0) ≠
        messageBody (normalizeCRLF emptyHeaderDraft) ∧
      ¬ Prepared emptyHeaderDraft (prepareTransmission emptyHeaderDraft sampleID 0) sampleID 0 := by
  have h : messageBody (prepareTransmission emptyHeaderDraft sampleID 0) ≠
      messageBody (normalizeCRLF emptyHeaderDraft) := by decide +kernel
  exact ⟨h, fun hp => h hp.body⟩

end Moov.Submit
