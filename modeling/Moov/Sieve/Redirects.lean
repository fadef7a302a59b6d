import Moov.Sieve.RoundTrip
import Moov.Sieve.Scan

/-!
# The redirects of a generated script

Over every writer of the generator, what the scan for redirects finds: the address of forward-all,
and those of the filter rules.  No text of the model or of the environment adds to it, as long as
the ids of the rules are of one line: an id stands in a comment as it is.

* `runs_commands` — what the scan finds in the commands of a script;
* `scan_generated` — what it finds in the script;
* `id_breaks_out` — an id with a line break.
-/

namespace Moov.Sieve

open List

open Search (cut)

variable {libs : Libs} {env : GenerateEnv} {out : List (List Char)} {a b ts : List Tok} {r : Rule}
  {extra : Option (List Tok)} {s : String}

/-! ## Lists of pieces -/

/-- The scan goes over the pieces, and finds the addresses. -/
def Runs (ts : List Tok) (out : List (List Char)) : Prop := Passes (render ts) out

/-- The same, if no word goes on after them. -/
def RunsBefore (ts : List Tok) (out : List (List Char)) : Prop := PassesBefore (render ts) out

lemma render_append (a b : List Tok) : render (a ++ b) = render a ++ render b := flatMap_append

lemma runs_nil : Runs [] [] := fun r => .here r

lemma Runs.cons {t : Tok} (ht : Passes t.text []) (h : Runs ts out) :
    Runs (t :: ts) out := ht.append h

lemma Runs.append {out out' : List (List Char)} (ha : Runs a out) (hb : Runs b out') :
    Runs (a ++ b) (out ++ out') := by
  rw [Runs, render_append]
  exact Passes.append ha hb

/-- Pieces without redirects, before others and after them. -/
lemma Runs.skip (ha : Runs a []) (hb : Runs b out) : Runs (a ++ b) out :=
  ha.append hb

lemma Runs.quiet (ha : Runs a out) (hb : Runs b []) : Runs (a ++ b) out := by
  have hall := ha.append hb
  rwa [append_nil] at hall

lemma Runs.redirect {target : List Char} (h : Runs a out) :
    Runs (.redirect target :: a) (target :: out) :=
  (passes_redirect target).append h

lemma Runs.before (h : Runs ts out) : RunsBefore ts out := Passes.before h

lemma Runs.skip_before (ha : Runs a []) (hb : RunsBefore b out) : RunsBefore (a ++ b) out := by
  rw [RunsBefore, render_append]
  exact fun r hr => append_assoc _ _ r ▸ (ha (_ ++ r)).trans (hb r hr)

/-- A text that begins where no word goes on. -/
def startsBlank : List Char → Bool
  | c :: _ => !isWordByte c
  | [] => false

variable {h : plain s.toList = true}

/-- Code that stops words goes on after pieces. -/
lemma RunsBefore.code
    (ha : RunsBefore a []) (hs : startsBlank s.toList = true)
    (hb : Runs (Sieve.code s h :: b) out) :
    Runs (a ++ Sieve.code s h :: b) out := by
  have htext : render (Sieve.code s h :: b) = s.toList ++ render b := rfl
  rw [Runs, htext] at hb
  rw [Runs, render_append, htext]
  cases hlist : s.toList with
  | nil => rw [hlist] at hs; cases hs
  | cons =>
    rw [hlist] at hs hb
    exact PassesBefore.append ha (by simpa [startsBlank] using hs) hb

lemma passes_code : Passes (code s h).text [] :=
  passes_quiet (Bool.and_eq_true_iff.1 h).2

lemma passes_quoted {s : List Char} : Passes (Tok.quoted s).text [] := passes_quoteSieve s

lemma runs_one {t : Tok} (h : Passes t.text []) : Runs [t] [] := Runs.cons h runs_nil

lemma runs_code : Runs [code s h] [] := runs_one passes_code

/-- Code without redirects in front. -/
lemma Runs.lit (hb : Runs b out) : Runs (Sieve.code s h :: b) out := .cons passes_code hb

/-- Code without redirects may stand between. -/
lemma RunsBefore.code_before
    (ha : RunsBefore a []) (hs : startsBlank s.toList = true) (hb : RunsBefore b out) :
    RunsBefore (a ++ Sieve.code s h :: b) out := by
  have hcode : Runs (a ++ [Sieve.code s h]) [] := ha.code hs runs_code
  have hall := hcode.skip_before hb
  rwa [append_assoc] at hall

lemma Runs.ite {p : Prop} [Decidable p] (ha : Runs a []) (hb : Runs b []) :
    Runs (if p then a else b) [] := by
  split
  · exact ha
  · exact hb

/-! ## Lists and tests -/

open Runs

lemma runs_quotedList (vs : List (List Char)) : Runs (quotedList vs) [] := by
  induction vs with
  | nil => exact runs_nil
  | cons v vs ih =>
    cases vs with
    | nil => exact runs_one passes_quoted
    | cons => exact .cons passes_quoted (.lit ih)

lemma runs_stringList (vs : List (List Char)) : Runs (stringList vs) [] :=
  .lit ((runs_quotedList vs).skip runs_code)

lemma runs_spamTest : Runs (spamTest libs env) [] :=
  .lit (.cons passes_quoted (.lit (runs_one passes_quoted)))

lemma runs_attachmentTest : Runs attachmentTest [] := .lit runs_code

lemma numChar_word {n : Nat} {c : Char} (h : c ∈ Nat.toDigits 10 n) : isWordByte c = true := by
  have hdigit := Decimal.isDigit_toDigits h
  simp only [Char.isDigit, Bool.and_eq_true, decide_eq_true_eq] at hdigit
  have hlo : '0' ≤ c := hdigit.1
  have hhi : c ≤ '9' := hdigit.2
  simp [isWordByte, hlo, hhi]

/-- A positive number is a word. -/
lemma passesBefore_number {n : Int64} (h : 0 < n) : PassesBefore (Tok.number n).text [] := by
  intro r hr
  have hpos : 0 < n.toInt := Int64.lt_iff_toInt_lt.1 h
  obtain ⟨k, hk⟩ := Int.eq_ofNat_of_zero_le hpos.le
  have htext : (Tok.number n).text = Nat.toDigits 10 k := by
    show (Json.Number.ofInt n.toInt).lit = _
    rw [hk]
    rfl
  have hdigits : ∀ c ∈ Nat.toDigits 10 k, c.isDigit = true :=
    fun c hc => Decimal.isDigit_toDigits hc
  rw [htext]
  refine goes_word Nat.toDigits_ne_nil (fun c hc => numChar_word hc) hr ?_ ?_
  · intro heq
    have hr' : 'r' ∈ Nat.toDigits 10 k := by
      rw [heq]
      decide
    exact absurd (hdigits 'r' hr') (by decide)
  · intro hboth
    have ht : 't' ∈ Nat.toDigits 10 k := by
      rw [hboth.1]
      decide
    exact absurd (hdigits 't' ht) (by decide)

lemma runsBefore_number {n : Int64} (h : 0 < n) : RunsBefore [.number n] [] := by
  rw [RunsBefore, render, flatMap_cons, flatMap_nil, append_nil]
  exact passesBefore_number h

/-- Every test of a criteria set is gone over. -/
lemma runsBefore_tests {c : Criteria} (h : ∀ t ∈ extra, RunsBefore t []) :
    ∀ t ∈ tests c extra, RunsBefore t [] := by
  intro t ht
  simp only [tests, mem_append] at ht
  rcases ht with (((((ht | ht) | ht) | ht) | ht) | ht) | ht
  · exact h t (by simpa using ht)
  · split at ht
    · cases ht
    · rw [mem_singleton.1 ht]
      exact (lit (runs_stringList _)).before
  · split at ht
    · cases ht
    · rw [mem_singleton.1 ht]
      exact (lit ((runs_stringList _).skip
        (.lit ((runs_stringList _).skip runs_code)))).before
  · split at ht
    · cases ht
    · rw [mem_singleton.1 ht]
      exact (lit (runs_stringList _)).before
  · split at ht
    · rename_i hsize
      rw [mem_singleton.1 ht]
      exact runs_code.skip_before (runsBefore_number hsize)
    · cases ht
  · split at ht
    · rename_i hsize
      rw [mem_singleton.1 ht]
      exact runs_code.skip_before (runsBefore_number hsize)
    · cases ht
  · split at ht
    · cases ht
    · rw [mem_singleton.1 ht]
      exact runs_attachmentTest.before
    · rw [mem_singleton.1 ht]
      exact (lit runs_attachmentTest).before

lemma runsBefore_joinTests {ts : List (List Tok)} (h : ∀ t ∈ ts, RunsBefore t []) :
    RunsBefore (joinTests ts) [] := by
  induction ts with
  | nil => exact runs_nil.before
  | cons t ts ih =>
    obtain ⟨ht, hts⟩ := forall_mem_cons.1 h
    cases ts with
    | nil => exact ht
    | cons => exact ht.code_before (by decide) (ih hts)

lemma runsBefore_criteriaTest (c : Criteria) (h : ∀ t ∈ extra, RunsBefore t []) :
    RunsBefore (criteriaTest c extra) [] := by
  have htests := runsBefore_tests (c := c) h
  rw [criteriaTest]
  split
  · rename_i t heq
    exact htests t (by rw [heq]; exact mem_singleton_self t)
  · refine Runs.before (.lit ?_)
    exact (runsBefore_joinTests htests).code (by decide) runs_code

/-! ## Writers -/

lemma runs_fileInto (folder : List Char) : Runs (fileInto folder) [] :=
  .lit (.cons passes_quoted runs_code)

lemma passes_stopCommand : Passes stopCommand.text [] := passes_code

lemma runs_writeBlockedRule (h : '\n' ∉ r.id) : Runs (writeBlockedRule libs env r) [] :=
  .cons (passes_comment h) (.lit ((runs_stringList _).skip (.lit ((runs_fileInto _).skip
    (.cons passes_stopCommand runs_code)))))

lemma runs_writeForwardAll (f : ForwardAll) : Runs (writeForwardAll libs env f) [f.address] := by
  refine .lit (.lit (runs_spamTest.skip (.lit (.redirect ?_))))
  exact .skip (ite (runs_fileInto _) runs_nil) runs_code

/-- The redirect of a rule. -/
def ruleTargets (a : Actions) : List (List Char) := if a.forward.isEmpty then [] else [a.forward]

lemma runs_writeRuleActions (env : GenerateEnv) (a : Actions) :
    Runs (writeRuleActions env a) (ruleTargets a) := by
  have hforward : Runs (if a.forward.isEmpty then [] else [.redirect a.forward])
    (ruleTargets a) := by
    unfold ruleTargets
    split
    · exact runs_nil
    · exact .redirect runs_nil
  have hfile : Runs (if a.delete then fileInto env.trashFolder else if a.moveTo.isEmpty then
    []
  else fileInto a.moveTo) [] :=
    ite (runs_fileInto _) (ite runs_nil (runs_fileInto _))
  have hstop : Runs (if a.stop then [stopCommand] else []) [] :=
    ite (runs_one passes_stopCommand) runs_nil
  refine .quiet (.quiet (.skip ?_ hforward) hfile) hstop
  exact ite runs_nil (.lit ((runs_stringList _).skip runs_code))

lemma runs_writeFilterRule (h : '\n' ∉ r.id) :
    Runs (writeFilterRule env r) (ruleTargets r.actions) := by
  have hcriteria : RunsBefore (criteriaTest r.criteria none) [] :=
    runsBefore_criteriaTest r.criteria (by simp)
  refine .cons (passes_comment h) (hcriteria.code (by decide) (.lit ?_))
  exact (runs_writeRuleActions env r.actions).quiet runs_code

lemma runs_writeNeverSpamRule (h : '\n' ∉ r.id) : Runs (writeNeverSpamRule libs env r) [] := by
  have hcriteria : RunsBefore (criteriaTest r.criteria (some (spamTest libs env))) [] :=
    runsBefore_criteriaTest r.criteria (by simpa using runs_spamTest.before)
  refine .cons (passes_comment h) (hcriteria.code (by decide) (.lit ?_))
  exact (runs_fileInto _).skip (.cons passes_stopCommand runs_code)

lemma runs_dateBoundWith {day moment : Tok} (hday : Passes day.text [])
    (hmoment : Passes moment.text []) (t : Time) :
    Runs (dateBoundWith day moment t) [] :=
  .lit (.cons hday (.lit (.cons passes_quoted (.lit (.cons passes_quoted
    (.lit (.cons hmoment (.lit (.cons passes_quoted runs_code)))))))))

lemma runs_dateBound (t : Time) (start : Bool) : Runs (dateBound t start) [] :=
  ite (runs_dateBoundWith passes_code passes_code t) (runs_dateBoundWith passes_code passes_code t)

lemma runs_guards (v : Vacation) : Runs (guards libs env v) [] := by
  refine .lit (.skip (.skip (.skip runs_spamTest ?_) ?_) ?_)
  · exact .lit (.lit runs_code)
  · exact ite runs_nil (.lit (runs_dateBound _ _))
  · exact ite runs_nil (.lit (runs_dateBound _ _))

lemma runs_writeVacation (v : Vacation) : Runs (writeVacation libs env v) [] := by
  refine .lit (.lit ((runs_guards v).skip (.lit (.lit ?_))))
  refine (runsBefore_number (by decide)).code (by decide) (.lit (.cons passes_quoted ?_))
  refine .skip (.skip ?_ (ite (.lit (runs_one (passes_block _)))
    (.lit (runs_one (passes_block _))))) runs_code
  exact ite runs_nil (.lit (runs_one passes_quoted))

/-! ## The commands -/

lemma runs_flatMap {α : Type} {rs : List α} {f : α → List Tok} {g : α → List (List Char)}
    (h : ∀ r ∈ rs, Runs (f r) (g r)) : Runs (rs.flatMap f) (rs.flatMap g) := by
  induction rs with
  | nil => exact runs_nil
  | cons r rs ih =>
    obtain ⟨hr, hrs⟩ := forall_mem_cons.1 h
    rw [flatMap_cons, flatMap_cons]
    exact hr.append (ih hrs)

/-- The ids of the enabled rules are of one line. -/
def OneLineIds (s : Script) : Prop := ∀ r ∈ s.rules, r.enabled = true → '\n' ∉ r.id

instance (s : Script) : Decidable (OneLineIds s) :=
  inferInstanceAs (Decidable (∀ r ∈ s.rules, r.enabled = true → '\n' ∉ r.id))

/-- The redirects of a rule that is written. -/
def filterTargets (r : Rule) : List (List Char) :=
  if r.enabled && r.type = ruleFilter then ruleTargets r.actions else []

def forwardAllTargets : Option ForwardAll → List (List Char)
  | some f => if f.enabled then [f.address] else []
  | none => []

lemma runs_blockedRule (h : r.enabled = true → '\n' ∉ r.id) : Runs (blockedRule libs env r) [] := by
  unfold blockedRule
  split
  · rename_i hblocked
    exact runs_writeBlockedRule (h (Bool.and_eq_true_iff.1 hblocked).1)
  · exact runs_nil

lemma runs_filterRule (h : r.enabled = true → '\n' ∉ r.id) :
    Runs (filterRule libs env r) (filterTargets r) := by
  unfold filterRule filterTargets
  cases henabled : r.enabled with
  | false => exact runs_nil
  | true =>
    have hid := h henabled
    by_cases hfilter : r.type = ruleFilter
    · simpa [hfilter] using runs_writeFilterRule hid
    · by_cases hspam : r.type = ruleNeverSpam
      · have hne : ruleNeverSpam ≠ ruleFilter := by decide
        simpa [hspam, hne] using runs_writeNeverSpamRule hid
      · simpa [hfilter, hspam] using runs_nil

lemma runs_forwardAllSection (f : Option ForwardAll) :
    Runs (forwardAllSection libs env f) (forwardAllTargets f) := by
  cases f with
  | none => exact runs_nil
  | some f =>
    simp only [forwardAllSection, forwardAllTargets]
    split
    · exact runs_writeForwardAll f
    · exact runs_nil

/-- What the scan finds in the commands of a script. -/
theorem runs_commands {s : Script} (h : OneLineIds s) :
    Runs (commands libs env s)
      (forwardAllTargets s.forwardAll ++ s.rules.flatMap filterTargets) := by
  have hmanaged : Runs managedBy [] := .lit runs_code
  have hrequire : Runs (requireLine s) [] :=
    ite runs_nil (.lit ((runs_stringList _).skip runs_code))
  have hblocked : Runs (s.rules.flatMap (blockedRule libs env)) [] := by
    have hflat : Runs (s.rules.flatMap (blockedRule libs env)) (s.rules.flatMap fun _ => []) :=
      runs_flatMap fun r hr => runs_blockedRule (h r hr)
    rwa [flatMap_eq_nil_iff.2 fun _ _ => rfl] at hflat
  have hfilter : Runs (s.rules.flatMap (filterRule libs env)) (s.rules.flatMap filterTargets) :=
    runs_flatMap fun r hr => runs_filterRule (h r hr)
  have hforward : Runs (forwardAllSection libs env s.forwardAll) (forwardAllTargets s.forwardAll) :=
    runs_forwardAllSection s.forwardAll
  have hvacation : Runs (vacationSection libs env s.vacation) [] := by
    cases s.vacation with
    | none => exact runs_nil
    | some v => exact ite (runs_writeVacation v) runs_nil
  have hall :=
    ((((hmanaged.skip hrequire).skip hblocked).append hforward).append hvacation).append hfilter
  rwa [nil_append, append_nil] at hall

/-! ## The script -/

/-- The comment with the metadata is left where it was ended. -/
lemma goes_metadata (s : Script) (t : List Char) :
    Goes (metaBegin ++ crlf ++ metadata s ++ crlf ++ metaEnd ++ t) [] t := by
  have hne : ['*', '/'] ≠ [] := by decide
  have hlf : '\n' ∉ ['*', '/'] := by decide
  have hcr : '\r' ∉ ['*', '/'] := by decide
  have hbegin : cut ['*', '/'] (" @moov:begin\r".toList) = none := by decide
  have hmeta : cut ['*', '/'] (metadata s ++ ['\r']) = none := by
    rw [Search.cut_eq_none_iff, Search.infix_barrier hne hcr]
    rintro (h | h)
    · exact Json.not_infix_guardStars _ h
    · exact hne (infix_nil.1 h)
  have hend : cut ['*', '/'] ("@moov:end ".toList ++ (['*', '/'] ++ t)) =
    some ("@moov:end ".toList, t) := by
    rw [Search.cut_inert_append (Search.inert_iff.1 (by decide)), cut_self_append hne,
      Option.map_some, append_nil]
  have hcut : cut ['*', '/'] (" @moov:begin\r".toList ++ '\n' :: ((metadata s ++ ['\r']) ++
      '\n' :: ("@moov:end ".toList ++ (['*', '/'] ++ t)))) =
      some (" @moov:begin\r".toList ++
        '\n' :: ((metadata s ++ ['\r']) ++ '\n' :: "@moov:end ".toList), t) := by
    rw [Search.cut_barrier hne hlf, hbegin]
    simp only [Search.cut_barrier hne hlf, hmeta, hend, Option.map_some]
  have htext : metaBegin ++ crlf ++ metadata s ++ crlf ++ metaEnd ++ t =
      '/' :: '*' :: (" @moov:begin\r".toList ++
      '\n' :: ((metadata s ++ ['\r']) ++ '\n' :: ("@moov:end ".toList ++ (['*', '/'] ++ t)))) := by
    have h1 : metaBegin ++ crlf = '/' :: '*' :: (" @moov:begin\r".toList ++ ['\n']) := by decide
    have h2 : metaEnd = "@moov:end ".toList ++ ['*', '/'] := by decide
    rw [h1, h2]
    simp only [crlf, append_assoc, cons_append, nil_append]
  rw [htext]
  refine goes_one ?_ ?_
  · rw [scanStep, if_neg (by decide), if_pos ⟨rfl, rfl⟩, drop_succ_cons, drop_zero, hcut]
  · simp only [length_append, length_cons]
    omega

/-- The redirects of a model: that of forward-all, and those of the enabled filter rules in their
order. -/
def redirectsOf (s : Script) : List (List Char) :=
  (s.forwardAll.toList.filter (·.enabled)).map (·.address) ++
    (s.rules.filter fun r => r.enabled && r.type = ruleFilter && !r.actions.forward.isEmpty).map
      (·.actions.forward)

lemma redirectsOf_eq (s : Script) :
    redirectsOf s = forwardAllTargets s.forwardAll ++ s.rules.flatMap filterTargets := by
  have hforward : (s.forwardAll.toList.filter (·.enabled)).map (·.address) =
    forwardAllTargets s.forwardAll := by
    cases s.forwardAll with
    | none => rfl
    | some f => cases henabled : f.enabled <;> simp [forwardAllTargets, henabled]
  have hrules : ∀ rs : List Rule,
      (rs.filter fun r => r.enabled && r.type = ruleFilter && !r.actions.forward.isEmpty).map
      (·.actions.forward) = rs.flatMap filterTargets := by
    intro rs
    induction rs with
    | nil => rfl
    | cons r rs ih =>
      rw [flatMap_cons, ← ih, filter_cons, filterTargets, ruleTargets]
      cases r.enabled && decide (r.type = ruleFilter) <;> cases r.actions.forward.isEmpty <;> rfl
  rw [redirectsOf, hforward, hrules]

lemma mem_targets_of_redirectsOf {s : Script} {a : List Char} (h : a ∈ redirectsOf s) :
    a ∈ targets s := by
  simp only [redirectsOf, targets, mem_append, mem_map, mem_filter, Bool.and_eq_true] at h ⊢
  rcases h with ⟨f, hf, rfl⟩ | ⟨r, ⟨hr, ⟨henabled, -⟩, hforward⟩, rfl⟩
  · exact .inr ⟨f, hf, rfl⟩
  · exact .inl ⟨r, ⟨hr, henabled, hforward⟩, rfl⟩

/-- In a script without an external section whose ids are of one line, the scan finds exactly the
redirects of the model, all of them to verified addresses. -/
theorem scan_generated (libs : Libs) (s : Script) (env : GenerateEnv)
    (caps : Option (List Char → Bool)) (text : List Char)
    (hbody : s.externalBody = []) (hids : OneLineIds s) (h : generate libs s env caps = .ok text) :
    scanRedirects text = .ok (redirectsOf s) ∧ ∀ a ∈ redirectsOf s, env.verifiedForward
      (libs.toLower a) = true := by
  refine ⟨?_, fun a ha => (generate_eq_ok_iff.1 h).2.1 a (mem_targets_of_redirectsOf ha)⟩
  have hcommands : Runs (commands libs env.withDefaults s)
      (forwardAllTargets s.forwardAll ++ s.rules.flatMap filterTargets) := runs_commands hids
  have hmeta := goes_metadata s (crlf ++ render (commands libs env.withDefaults s))
  have hbreak := passes_quiet (t := crlf) (by decide) (render (commands libs env.withDefaults s))
  have hrest := hcommands []
  rw [append_nil] at hrest
  have hgoes := (hmeta.trans hbreak).trans hrest
  have htext : text = metaBegin ++ crlf ++ metadata s ++ crlf ++ metaEnd ++
    (crlf ++ render (commands libs env.withDefaults s)) := by
    rw [(generate_ok h).1, scriptText, hbody]
    simp only [externalSection, isEmpty_nil, if_true, append_nil, append_assoc]
  rw [scanRedirects, htext, redirectsOf_eq]
  exact hgoes.scanFrom le_rfl

/-- A filter that forwards, under an id. -/
def forwardingFilter (id : List Char) : Script :=
  { Script.zero with
    version := 1
    rules := [{ Rule.zero with
      id := id
      type := ruleFilter
      enabled := true
      criteria := { Criteria.zero with from_ := ["a".toList] }
      actions := { Actions.zero with forward := "b@c".toList } }] }

def verifyingEnv : GenerateEnv := ⟨[], [], [], [], [], fun a => a = "b@c".toList⟩

lemma generate_forwardingFilter {id : List Char}
    (h : validate someLibs (forwardingFilter id) verifyingEnv none = []) :
    generate someLibs (forwardingFilter id) verifyingEnv none =
      .ok (scriptText someLibs verifyingEnv.withDefaults (forwardingFilter id)) := by
  refine generate_eq_ok_iff.2 ⟨h, fun a ha => ?_, rfl, fun v hv => ?_, rfl⟩
  · cases mem_singleton.1 ha
    show verifyingEnv.verifiedForward (someLibs.toLower "b@c".toList) = true
    decide +kernel
  · cases hv

theorem scan_generated_one :
    scanRedirects (scriptText someLibs verifyingEnv.withDefaults (forwardingFilter "r1".toList)) =
      .ok ["b@c".toList] :=
  (scan_generated someLibs (forwardingFilter "r1".toList) verifyingEnv none _ rfl
    (by decide +kernel)
    (generate_forwardingFilter (by decide +kernel))).1

/-- An id with a line break adds a redirect that was never verified. -/
theorem id_breaks_out :
    generate someLibs (forwardingFilter "r\nredirect \"x@y\";".toList) verifyingEnv none =
        .ok (scriptText someLibs verifyingEnv.withDefaults
          (forwardingFilter "r\nredirect \"x@y\";".toList)) ∧
      scanRedirects (scriptText someLibs verifyingEnv.withDefaults
        (forwardingFilter "r\nredirect \"x@y\";".toList)) =
        .ok ["x@y".toList, "b@c".toList] ∧
      verifyingEnv.verifiedForward (someLibs.toLower "x@y".toList) = false := by
  refine ⟨generate_forwardingFilter (by decide +kernel), ?_, ?_⟩
  · decide +kernel
  · decide +kernel

end Moov.Sieve
