import Moov.Sieve.Parse

/-!
# Finding redirects

`sieve/scan.go`: the lexical scan for the targets of `redirect` commands.

* `scanStep` — one round of the loop of `ScanRedirects`; `scanRedirects` — all of them;
* `Goes` — rounds that take the scan from one place to another, with what they find;
* `goes_tok` — how the scan goes over each piece that the generator writes.
-/

namespace Moov.Sieve

open List

open Search (cut)

/-! ## The scan -/

inductive ScanError
  | unterminatedEscape
  | unterminatedString
  | unterminatedText
  | unterminatedComment
  | textArgument
  | redirectNotTerminated
  | noAddress
  | outOfSteps
deriving DecidableEq

/-- `readString`, after the opening quote: the string, and what follows it. -/
def readString : List Char → Except ScanError (List Char × List Char)
  | [] => .error .unterminatedString
  | '\\' :: [] => .error .unterminatedEscape
  | '\\' :: c :: t => (readString t).map fun x => (c :: x.1, x.2)
  | c :: t => if c = '"' then .ok ([], t) else (readString t).map fun x => (c :: x.1, x.2)

/-- The line is the end of a text block. -/
def endsBlock (t : List Char) : Bool :=
  t = ['.'] || ['.', '\r', '\n'].isPrefixOf t || ['.', '\n'].isPrefixOf t

/-- `skipText`, after `text:`. -/
def skipText : List Char → Except ScanError (List Char)
  | [] => .error .unterminatedText
  | c :: t =>
      if c ≠ '\n' then skipText t
      else if endsBlock t then .ok ((t.dropWhile (· ≠ '\n')).drop 1)
      else skipText t

/-- The arguments of a `redirect`, up to its semicolon, within a number of steps. -/
def readArgs : (steps : Nat) → List Char → Except ScanError (List (List Char) × List Char)
  | 0, _ => .error .outOfSteps
  | _ + 1, [] => .error .redirectNotTerminated
  | steps + 1, c :: t =>
      if c = ';' then .ok ([], c :: t)
      else if c = '"' then
        match readString t with
        | .error e => .error e
        | .ok (s, r) => (readArgs steps r).map fun x => (s :: x.1, x.2)
      else if c = '#' then readArgs steps (t.dropWhile (· ≠ '\n'))
      else if "text:".toList.isPrefixOf (c :: t) then .error .textArgument
      else readArgs steps t

/-- A word, from its first letter on. -/
def scanWord (t : List Char) : Except ScanError (List (List Char) × List Char) :=
  let rest := t.dropWhile isWordByte
  if t.takeWhile isWordByte ≠ "redirect".toList then .ok ([], rest)
  else
    match readArgs (rest.length + 1) rest with
    | .error e => .error e
    | .ok (found, r) => if found.isEmpty then .error .noAddress else .ok (found, r)

/-- One round of the loop of `ScanRedirects`: what is found, and where it goes on. -/
def scanStep (c : Char) (t : List Char) : Except ScanError (List (List Char) × List Char) :=
  if c = '#' then .ok ([], t.dropWhile (· ≠ '\n'))
  else if c = '/' ∧ t.head? = some '*' then
    match cut ['*', '/'] (t.drop 1) with
    | none => .error .unterminatedComment
    | some x => .ok ([], x.2)
  else if c = '"' then (readString t).map fun x => ([], x.2)
  else if "text:".toList.isPrefixOf (c :: t) then (skipText ((c :: t).drop 5)).map fun r => ([], r)
  else if isWordByte c then scanWord (c :: t)
  else .ok ([], t)

/-- The loop, within a number of rounds. -/
def scanFrom : (steps : Nat) → List Char → Except ScanError (List (List Char))
  | _, [] => .ok []
  | 0, _ :: _ => .error .outOfSteps
  | steps + 1, c :: t =>
      match scanStep c t with
      | .error e => .error e
      | .ok (found, r) => (scanFrom steps r).map fun out => found ++ out

/-- `ScanRedirects`.  Every round takes at least one character. -/
def scanRedirects (text : List Char) : Except ScanError (List (List Char)) :=
  scanFrom text.length text

/-! ## Going from one place to another -/

/-- The scan goes from one place to another, and finds the addresses on its way. -/
inductive Goes : List Char → List (List Char) → List Char → Prop
  | here (t : List Char) : Goes t [] t
  | step {c : Char} {t r r' : List Char} {found out : List (List Char)} :
      scanStep c t = .ok (found, r) → r.length ≤ t.length → Goes r out r' → Goes (c :: t)
        (found ++ out) r'

variable {out out' : List (List Char)} {a t l : List Char} {c : Char} {steps : Nat}

lemma Goes.trans {t r r' : List Char} (h : Goes t out r) (h' : Goes r out' r') :
    Goes t (out ++ out') r' := by
  induction h with
  | here => exact h'
  | step hstep hlen _ ih =>
    rw [append_assoc]
    exact .step hstep hlen (ih h')

/-- A scan that gets to the end returns what it has found. -/
lemma Goes.scanFrom {out : List (List Char)} (h : Goes t out []) {n : Nat} (hn : t.length ≤ n) :
    scanFrom n t = .ok out := by
  generalize hend : ([] : List Char) = r at h
  induction h generalizing n with
  | here =>
    subst hend
    cases n <;> rfl
  | step hstep hlen _ ih =>
    obtain ⟨k, rfl⟩ : ∃ k, n = k + 1 := ⟨n - 1, by simp only [length_cons] at hn; omega⟩
    have hrest := ih (n := k) (by simp only [length_cons] at hn; omega) hend
    rw [Sieve.scanFrom, hstep]
    dsimp only
    rw [hrest]
    rfl

/-- A text that the scan goes over, whatever follows it. -/
def Passes (t : List Char) (out : List (List Char)) : Prop := ∀ r, Goes (t ++ r) out r

/-- No word goes on there. -/
def Stops (r : List Char) : Prop := ∀ c r', r = c :: r' → isWordByte c = false

/-- A text that the scan goes over if no word goes on after it. -/
def PassesBefore (t : List Char) (out : List (List Char)) : Prop :=
  ∀ r, Stops r → Goes (t ++ r) out r

lemma Passes.append {t u : List Char} (ht : Passes t out) (hu : Passes u out') :
    Passes (t ++ u) (out ++ out') := fun r => by
  rw [append_assoc]
  exact (ht (u ++ r)).trans (hu r)

lemma Passes.before {out : List (List Char)} (ht : Passes t out) : PassesBefore t out :=
  fun r _ => ht r

/-- What stops words goes on after a text. -/
lemma PassesBefore.append {t u : List Char} (ht : PassesBefore t out)
    (hc : isWordByte c = false) (hu : Passes (c :: u) out') :
    Passes (t ++ c :: u) (out ++ out') := fun r => by
  rw [append_assoc]
  refine (ht (c :: u ++ r) ?_).trans (hu r)
  intro d r' heq
  cases heq
  exact hc

/-! ## Single rounds -/

lemma not_text_of_ne (h : c ≠ 't') : ¬ "text:".toList.isPrefixOf (c :: t) = true := by
  intro hp
  have hstarts := List.isPrefixOf_iff_prefix.1 hp
  exact h (cons_prefix_cons.1 (show 't' :: "ext:".toList <+: c :: t from hstarts)).1.symm

lemma goes_one {t r : List Char} {found : List (List Char)} (h : scanStep c t = .ok (found, r))
    (hlen : r.length ≤ t.length) : Goes (c :: t) found r := by
  have hgoes := Goes.step h hlen (.here r)
  rwa [append_nil] at hgoes

/-- Between words. -/
lemma goes_other (hhash : c ≠ '#') (hslash : c ≠ '/') (hquote : c ≠ '"')
    (hword : isWordByte c = false) : Goes (c :: t) [] t := by
  have ht : c ≠ 't' := fun h => by
    rw [h] at hword
    exact absurd hword (by decide)
  refine goes_one ?_ le_rfl
  rw [scanStep, if_neg hhash, if_neg fun h => hslash h.1, if_neg hquote, if_neg (not_text_of_ne ht),
    hword, if_neg Bool.false_ne_true]

lemma dropWhile_ne {d : Char} (ha : d ∉ a) : (a ++ d :: t).dropWhile (· ≠ d) = d :: t := by
  have hall : ∀ x ∈ a, (decide (x ≠ d)) = true := fun x hx => decide_eq_true fun h => ha (h ▸ hx)
  rw [dropWhile_append_of_pos hall, dropWhile_cons_of_neg (by simp)]

/-- A comment, to the end of its line. -/
lemma goes_comment (ha : '\n' ∉ a) : Goes ('#' :: (a ++ '\n' :: t)) [] t := by
  have hcomment : Goes ('#' :: (a ++ '\n' :: t)) [] ('\n' :: t) := by
    refine goes_one ?_ (by simp)
    rw [scanStep, if_pos rfl, dropWhile_ne ha]
  exact hcomment.trans (goes_other (by decide) (by decide) (by decide) (by decide))

/-- A string. -/
lemma goes_string {s x t : List Char} (h : readString (x ++ '"' :: t) = .ok (s, t)) :
    Goes ('"' :: (x ++ '"' :: t)) [] t := by
  refine goes_one ?_ ?_
  · rw [scanStep, if_neg (by decide), if_neg (by simp), if_pos rfl, h]
    rfl
  · simp only [length_append, length_cons]
    omega

variable {w r : List Char}

lemma takeWhile_word (hw : ∀ c ∈ w, isWordByte c = true) (hr : Stops r) :
    (w ++ r).takeWhile isWordByte = w ∧ (w ++ r).dropWhile isWordByte = r := by
  have hnone : r.takeWhile isWordByte = [] ∧ r.dropWhile isWordByte = r := by
    cases r with
    | nil => exact ⟨rfl, rfl⟩
    | cons c r =>
      have hc := hr c r rfl
      exact ⟨takeWhile_cons_of_neg (by simp [hc]), dropWhile_cons_of_neg (by simp [hc])⟩
  rw [takeWhile_append_of_pos hw, dropWhile_append_of_pos hw, hnone.1, hnone.2, append_nil]
  exact ⟨rfl, rfl⟩

/-- `text:` at the start of a word is the word `text` and a colon. -/
lemma text_prefix_iff (hw : ∀ c ∈ w, isWordByte c = true) (hr : Stops r) :
    "text:".toList <+: w ++ r ↔ w = "text".toList ∧ r.head? = some ':' := by
  constructor
  · rintro ⟨u, hu⟩
    have hboth := takeWhile_word hw hr
    have hcolon : Stops (':' :: u) := fun c r' h => by
      cases h
      decide
    have htext :=
      takeWhile_word (w := "text".toList) (r := ':' :: u) (all_eq_true.1 (by decide)) hcolon
    have heq : "text".toList ++ ':' :: u = w ++ r := hu
    rw [heq, hboth.1, hboth.2] at htext
    rw [htext.1, htext.2]
    exact ⟨rfl, rfl⟩
  · rintro ⟨rfl, hhead⟩
    cases r with
    | nil => cases hhead
    | cons c r =>
      cases hhead
      exact ⟨r, rfl⟩

/-- A word. -/
lemma goes_word (hne : w ≠ []) (hw : ∀ c ∈ w, isWordByte c = true) (hr : Stops r)
    (hredirect : w ≠ "redirect".toList) (htext : ¬ (w = "text".toList ∧ r.head? = some ':')) :
    Goes (w ++ r) [] r := by
  obtain ⟨c, w', rfl⟩ := exists_cons_of_ne_nil hne
  have hc := hw c mem_cons_self
  have hhash : c ≠ '#' := fun h => absurd (h ▸ hc) (by decide)
  have hslash : c ≠ '/' := fun h => absurd (h ▸ hc) (by decide)
  have hquote : c ≠ '"' := fun h => absurd (h ▸ hc) (by decide)
  have hstarts : ¬ "text:".toList.isPrefixOf (c :: (w' ++ r)) = true := fun hp =>
    htext ((text_prefix_iff hw hr).1 (List.isPrefixOf_iff_prefix.1 hp))
  obtain ⟨htake, hdrop⟩ := takeWhile_word hw hr
  rw [cons_append] at htake hdrop ⊢
  refine goes_one ?_ (by simp)
  rw [scanStep, if_neg hhash, if_neg fun h => hslash h.1, if_neg hquote, if_neg hstarts, hc,
    if_pos rfl, scanWord]
  simp only [htake, hdrop, ne_eq, hredirect, not_false_eq_true, if_true]

/-! ## Code -/

lemma readAll_cons {m : Mode} {q : Mode} (h : readAll m (c :: t) = some q) :
    ∃ m', m.read c = some m' ∧ readAll m' t = some q := Option.bind_eq_some_iff.1 h

lemma comment_split (h : readAll .comment t = some .blank) :
    ∃ a b, t = a ++ '\n' :: b ∧ '\n' ∉ a ∧ readAll .blank b = some .blank := by
  induction t with
  | nil => cases h
  | cons c t ih =>
    obtain ⟨m, hm, ht⟩ := readAll_cons h
    rw [Mode.read] at hm
    split at hm
    · rename_i hc
      cases hm
      exact ⟨[], t, by rw [hc]; rfl, by simp, ht⟩
    · rename_i hc
      cases hm
      obtain ⟨a, b, rfl, ha, hb⟩ := ih ht
      exact ⟨c :: a, b, rfl, by simp [ha, Ne.symm hc], hb⟩

lemma string_split (h : readAll .string t = some .blank) :
    ∃ a b, t = a ++ '"' :: b ∧ '"' ∉ a ∧ '\\' ∉ a ∧ readAll .blank b = some .blank := by
  induction t with
  | nil => cases h
  | cons c t ih =>
    obtain ⟨m, hm, ht⟩ := readAll_cons h
    rw [Mode.read] at hm
    split at hm
    · rename_i hc
      cases hm
      exact ⟨[], t, by rw [hc]; rfl, by simp, by simp, ht⟩
    · rename_i hc
      split at hm
      · cases hm
      · rename_i hback
        cases hm
        obtain ⟨a, b, rfl, ha, ha', hb⟩ := ih ht
        exact ⟨c :: a, b, rfl, by simp [ha, Ne.symm hc], by simp [ha', Ne.symm hback], hb⟩

lemma word_split {w t : List Char} (h : readAll (.word w) t = some .blank) :
    ∃ a d b, t = a ++ d :: b ∧ (∀ c ∈ a, isWordByte c = true) ∧ isWordByte d = false ∧ w ++ a ≠
      "redirect".toList ∧
      ¬ (w ++ a = "text".toList ∧ d = ':') ∧ readAll .blank (d :: b) = some .blank := by
  induction t generalizing w with
  | nil => cases h
  | cons c t ih =>
    obtain ⟨m, hm, ht⟩ := readAll_cons h
    rw [Mode.read] at hm
    split at hm
    · rename_i hc
      cases hm
      obtain ⟨a, d, b, rfl, ha, hd, hredirect, htext, hb⟩ := ih ht
      rw [append_assoc] at hredirect htext
      exact ⟨c :: a, d, b, rfl, forall_mem_cons.2 ⟨hc, ha⟩, hd, hredirect, htext, hb⟩
    · rename_i hc
      split at hm
      · cases hm
      · rename_i hnot
        simp only [Bool.or_eq_true, Bool.and_eq_true, decide_eq_true_eq, not_or] at hnot
        refine ⟨[], c, t,
          rfl, by simp, by simpa using hc, by simpa using hnot.1, by simpa using hnot.2, ?_⟩
        exact Option.bind_eq_some_iff.2 ⟨m, hm, ht⟩

lemma readString_plain (hquote : '"' ∉ a) (hback : '\\' ∉ a) :
    readString (a ++ '"' :: t) = .ok (a, t) := by
  induction a with
  | nil => rfl
  | cons c a ih =>
    simp only [mem_cons, not_or] at hquote hback
    have hrest := ih hquote.2 hback.2
    rw [cons_append, readString]
    · rw [if_neg (Ne.symm hquote.1), hrest]
      rfl
    · intro h
      exact absurd h.symm hback.1
    · intro d u h
      exact absurd h.symm hback.1

/-- The scan goes over code that is complete. -/
lemma passes_quiet (h : quiet t = true) : Passes t [] := by
  rw [quiet, decide_eq_true_iff] at h
  intro r
  -- by strong induction on the length: a comment, a string or a word is taken at once
  induction hn : t.length using Nat.strongRecOn generalizing t with
  | ind n ih =>
    subst hn
    cases t with
    | nil => exact .here r
    | cons c t =>
      obtain ⟨m, hm, ht⟩ := readAll_cons h
      rw [Mode.read, readBlank] at hm
      split_ifs at hm with hhash hslash hquote hword
      · cases hm
        subst hhash
        obtain ⟨a, b, rfl, ha, hb⟩ := comment_split ht
        have hrest := ih b.length (by simp only [length_append, length_cons]; omega) hb rfl
        rw [cons_append, append_assoc, cons_append]
        exact (goes_comment ha).trans hrest
      · cases hm
        subst hquote
        obtain ⟨a, b, rfl, ha, ha', hb⟩ := string_split ht
        have hrest := ih b.length (by simp only [length_append, length_cons]; omega) hb rfl
        rw [cons_append, append_assoc, cons_append]
        exact (goes_string (readString_plain ha ha')).trans hrest
      · cases hm
        obtain ⟨a, d, b, rfl, ha, hd, hredirect, htext, hb⟩ := word_split ht
        have hrest := ih (d :: b).length (by simp only [length_append, length_cons]; omega) hb rfl
        have hstops : Stops (d :: b ++ r) := fun x y heq => by
          cases heq
          exact hd
        have hgoes := goes_word (w := c :: a) (r := d :: b ++ r) (cons_ne_nil _ _)
          (forall_mem_cons.2 ⟨hword, ha⟩) hstops hredirect
            (fun hboth => htext ⟨hboth.1, by simpa using hboth.2⟩)
        rw [cons_append, append_assoc]
        exact hgoes.trans hrest
      · cases hm
        have hrest := ih t.length (by simp) ht rfl
        exact (goes_other hhash hslash hquote (by simpa using hword)).trans hrest

/-! ## Texts of others -/

lemma readString_escapeQuoted (s t : List Char) :
    readString (escapeQuoted s ++ '"' :: t) = .ok (s, t) := by
  induction s with
  | nil => rfl
  | cons c s ih =>
    have hcons : escapeQuoted (c :: s) = (if c = '"' || c = '\\' then ['\\', c] else [c]) ++
      escapeQuoted s := rfl
    rw [hcons]
    split
    · rw [append_assoc, cons_append, cons_append, nil_append, readString, ih]
      rfl
    · rename_i hc
      simp only [Bool.or_eq_true, decide_eq_true_eq, not_or] at hc
      rw [append_assoc, cons_append, nil_append, readString]
      · rw [if_neg hc.1, ih]
        rfl
      · intro h
        exact absurd h hc.2
      · intro d u h
        exact absurd h hc.2

/-- The scan goes over a quoted string, whatever it says. -/
lemma passes_quoteSieve (s : List Char) : Passes (quoteSieve s) [] := by
  intro r
  rw [quoteSieve, cons_append, append_assoc]
  exact goes_string (readString_escapeQuoted s r)

/-- The scan goes over a comment with an id of one line. -/
lemma passes_comment {kind : RuleKind} {id : List Char} (h : '\n' ∉ id) :
    Passes (Tok.comment kind id).text [] := by
  intro r
  obtain ⟨l, hl, hlf⟩ : ∃ l, kind.label = '#' :: l ∧ '\n' ∉ l := by
    cases kind with
    | rule => exact ⟨" rule:".toList, rfl, by decide⟩
    | blocked => exact ⟨" blocked:".toList, rfl, by decide⟩
    | neverSpam => exact ⟨" never-spam:".toList, rfl, by decide⟩
  have hline : (Tok.comment kind id).text ++ r =
    '#' :: (l ++ id ++ ['\r'] ++ '\n' :: ("if ".toList ++ r)) := by
    rw [Tok.text_comment, hl]
    simp only [crlf, append_assoc, cons_append, nil_append]
  have hcomment : Goes ('#' :: (l ++ id ++ ['\r'] ++ '\n' :: ("if ".toList ++ r))) []
    ("if ".toList ++ r) := by
    refine goes_comment ?_
    simp [hlf, h]
  rw [hline]
  exact hcomment.trans (passes_quiet (by decide) r)

lemma readArgs_others (h : ∀ c ∈ a, c ∉ ";\"#t".toList) :
    readArgs (steps + a.length) (a ++ t) = readArgs steps t := by
  induction a with
  | nil => rfl
  | cons c a ih =>
    have hrest := ih fun d hd => h d (mem_cons_of_mem _ hd)
    have hc : c ≠ ';' ∧ c ≠ '"' ∧ c ≠ '#' ∧ c ≠ 't' := by simpa using h c mem_cons_self
    rw [length_cons, ← Nat.add_assoc, cons_append, readArgs, if_neg hc.1, if_neg hc.2.1,
      if_neg hc.2.2.1, if_neg (not_text_of_ne hc.2.2.2), hrest]

lemma redirect_chars : "redirect".toList = ['r', 'e', 'd', 'i', 'r', 'e', 'c', 't'] := by decide

lemma copy_chars : "    redirect :copy ".toList =
    [' ', ' ', ' ', ' '] ++
      (['r', 'e', 'd', 'i', 'r', 'e', 'c', 't'] ++ [' ', ':', 'c', 'o', 'p', 'y', ' ']) := by decide

/-- The arguments of a redirect that the generator writes. -/
lemma readArgs_copy (a r : List Char) (n : Nat) :
    readArgs (n + 2 + 7) ([' ', ':', 'c', 'o', 'p', 'y', ' '] ++ (quoteSieve a ++ ';' :: r)) =
      .ok ([a], ';' :: r) := by
  rw [show n + 2 + 7 = n + 2 + [' ', ':', 'c', 'o', 'p', 'y', ' '].length from rfl,
    readArgs_others (by simp), quoteSieve, cons_append, append_assoc, readArgs, if_neg (by decide),
    if_pos rfl, cons_append, nil_append,
    readString_escapeQuoted]
  dsimp only
  rw [readArgs, if_pos rfl]
  rfl

lemma scanWord_redirect (a r : List Char) : scanWord (['r', 'e', 'd', 'i', 'r', 'e', 'c', 't'] ++
      ([' ', ':', 'c', 'o', 'p', 'y', ' '] ++ (quoteSieve a ++ ';' :: r))) =
      .ok ([a], ';' :: r) := by
  have hstops : Stops ([' ', ':', 'c', 'o', 'p', 'y', ' '] ++ (quoteSieve a ++ ';' :: r)) :=
    fun c t h => by
    cases h
    decide
  obtain ⟨htake, hdrop⟩ := takeWhile_word (w := ['r', 'e', 'd', 'i', 'r', 'e', 'c', 't'])
    (all_eq_true.1 (by decide)) hstops
  obtain ⟨n, hn⟩ : ∃ n, ([' ', ':', 'c', 'o', 'p', 'y', ' '] ++ (quoteSieve a ++ ';' :: r)).length +
    1 = n + 2 + 7 := by
    refine ⟨(escapeQuoted a).length + r.length + 2, ?_⟩
    simp only [quoteSieve, length_append, length_cons, length_nil]
    omega
  rw [scanWord]
  simp only [htake, hdrop, hn, readArgs_copy, redirect_chars, ne_eq, not_true_eq_false, if_false]
  rfl

lemma goes_redirect (a r : List Char) : Goes (['r', 'e', 'd', 'i', 'r', 'e', 'c', 't'] ++
      ([' ', ':', 'c', 'o', 'p', 'y', ' '] ++ (quoteSieve a ++ ';' :: r))) [a] (';' :: r) := by
  refine goes_one ?_ ?_
  · rw [scanStep, if_neg (by decide), if_neg fun h => absurd h.1 (by decide), if_neg (by decide),
      if_neg (not_text_of_ne (by decide)), if_pos (by decide)]
    exact scanWord_redirect a r
  · simp only [append_eq, length_append, length_cons]
    omega

/-- The scan finds the address of a redirect. -/
lemma passes_redirect (a : List Char) : Passes (Tok.redirect a).text [a] := by
  intro r
  have hindent := passes_quiet (t := [' ', ' ', ' ', ' ']) (by decide)
  have hclose := passes_quiet (t := ';' :: crlf) (by decide) r
  rw [Tok.text_redirect, copy_chars]
  simp only [append_assoc]
  exact ((hindent _).trans (goes_redirect a (crlf ++ r))).trans hclose

/-! ## Text blocks -/

lemma skipText_line {t : List Char} (hl : '\n' ∉ l) :
    skipText (l ++ '\n' :: t) = if endsBlock t then .ok ((t.dropWhile (· ≠ '\n')).drop 1)
      else skipText t := by
  induction l with
  | nil => rw [nil_append, skipText, if_neg (by simp)]
  | cons c l ih =>
    simp only [mem_cons, not_or] at hl
    rw [cons_append, skipText, if_pos (Ne.symm hl.1), ih hl.2]

lemma lines_noLF (t : List Char) : ∀ l ∈ lines t, '\n' ∉ l := by
  induction t with
  | nil => simp [lines]
  | cons c t ih =>
    rw [lines]
    split
    · simpa using ih
    · rename_i hc
      split
      · simp [Ne.symm hc]
      · rename_i l ls hls
        rw [hls] at ih
        rw [forall_mem_cons] at ih ⊢
        exact ⟨not_mem_cons_of_ne_of_not_mem (Ne.symm hc) ih.1, ih.2⟩

lemma stuffLine_noLF (h : '\n' ∉ l) : '\n' ∉ stuffLine l := by
  unfold stuffLine
  split
  · simp [h]
  · exact h

/-- A stuffed line does not end a text block. -/
lemma not_endsBlock_stuffLine {t : List Char} (ht : t.head? = some '\r') :
    endsBlock (stuffLine l ++ t) = false := by
  obtain ⟨u, rfl⟩ : ∃ u, t = '\r' :: u := by
    cases t with
    | nil => cases ht
    | cons c u =>
      cases ht
      exact ⟨u, rfl⟩
  unfold stuffLine
  split
  · rename_i hdot
    cases l with
    | nil => cases hdot
    | cons =>
      cases hdot
      simp [endsBlock, isPrefixOf]
  · rename_i hdot
    cases l with
    | nil => simp [endsBlock, isPrefixOf]
    | cons c =>
      have hc : c ≠ '.' := fun h => hdot (by rw [h]; rfl)
      simp [endsBlock, isPrefixOf, hc, Ne.symm hc]

lemma joinLines_cons_cons (l m : List Char) (ls : List (List Char)) :
    joinLines (l :: m :: ls) = l ++ crlf ++ joinLines (m :: ls) := rfl

/-- A text block goes on to the line with a dot alone. -/
lemma skipText_joinLines {ls : List (List Char)} (hls : ∀ l ∈ ls, '\n' ∉ l) {t : List Char}
    (hl : '\n' ∉ l) :
    skipText (l ++ crlf ++ (joinLines (ls.map stuffLine) ++ (crlf ++ '.' :: (crlf ++ t)))) =
      .ok t := by
  have hend : ∀ x, '\n' ∉ x → skipText (x ++ (crlf ++ '.' :: (crlf ++ t))) = .ok t := by
    intro x hx
    have hx' : '\n' ∉ x ++ ['\r'] := by simp [hx]
    have hline := skipText_line (t := '.' :: (crlf ++ t)) hx'
    rw [append_assoc] at hline
    rw [show crlf ++ '.' :: (crlf ++ t) = ['\r'] ++ '\n' :: '.' :: (crlf ++ t) from rfl, hline,
      if_pos (by simp [endsBlock, crlf])]
    simp [crlf]
  have hnext : ∀ x y, '\n' ∉ x → endsBlock y = false → skipText (x ++ (crlf ++ y)) =
    skipText y := by
    intro x y hx hy
    have hx' : '\n' ∉ x ++ ['\r'] := by simp [hx]
    have hline := skipText_line (t := y) hx'
    rw [append_assoc, hy] at hline
    exact hline
  induction ls generalizing l with
  | nil =>
    rw [append_assoc]
    have hempty : endsBlock (crlf ++ '.' :: (crlf ++ t)) = false := by
      simp [endsBlock, crlf, isPrefixOf]
    have hstep := hnext l (crlf ++ '.' :: (crlf ++ t)) hl hempty
    have hlast := hend [] (by simp)
    exact hstep.trans hlast
  | cons x ls ih =>
    obtain ⟨hx, hls⟩ := forall_mem_cons.1 hls
    have hstuffed := stuffLine_noLF hx
    cases ls with
    | nil =>
      rw [append_assoc, map_cons, map_nil, joinLines]
      have hstep :=
        hnext l (stuffLine x ++ (crlf ++ '.' :: (crlf ++ t))) hl (not_endsBlock_stuffLine rfl)
      exact hstep.trans (hend _ hstuffed)
    | cons y ls =>
      rw [map_cons, map_cons, joinLines_cons_cons, append_assoc, append_assoc, append_assoc]
      have hstep := hnext l (stuffLine x ++ (crlf ++ (joinLines (stuffLine y :: ls.map stuffLine) ++
        (crlf ++ '.' :: (crlf ++ t))))) hl (not_endsBlock_stuffLine rfl)
      have hrest := ih hls hstuffed
      rw [append_assoc, map_cons] at hrest
      exact hstep.trans hrest

lemma goes_block {t r : List Char} (h : skipText t = .ok r) (hlen : r.length ≤ t.length) :
    Goes ('t' :: (['e', 'x', 't', ':'] ++ t)) [] r := by
  refine goes_one ?_ ?_
  · have hstarts : "text:".toList.isPrefixOf ('t' :: (['e', 'x', 't', ':'] ++ t)) = true :=
      List.isPrefixOf_iff_prefix.2 ⟨_, rfl⟩
    rw [scanStep, if_neg (by decide), if_neg fun h => absurd h.1 (by decide), if_neg (by decide),
      if_pos hstarts]
    rw [show ('t' :: (['e', 'x', 't', ':'] ++ t)).drop 5 = t from rfl, h]
    rfl
  · exact hlen.trans (suffix_append _ t).length_le

/-- The scan goes over a text block, whatever it says. -/
lemma passes_block (s : List Char) : Passes (Tok.block s).text [] := by
  intro r
  have hskip : skipText (crlf ++ (dotStuff s ++ (crlf ++ '.' :: (crlf ++ (';' :: (crlf ++ r)))))) =
      .ok (';' :: (crlf ++ r)) :=
    skipText_joinLines (lines_noLF (replaceAll crlf ['\n'] s)) (l := []) (by simp)
  have hgoes := goes_block hskip (by simp only [length_append, length_cons]; omega)
  have hclose := passes_quiet (t := ';' :: crlf) (by decide) r
  rw [Tok.text_block]
  simp only [append_assoc]
  exact hgoes.trans hclose

end Moov.Sieve
