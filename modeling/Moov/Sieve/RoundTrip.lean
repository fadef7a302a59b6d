import Moov.Sieve.Parse

/-!
# A generated script is read back

`ParseManaged` of what `Generate` returns.  The metadata is always found, since no `*/` can stand in
it.  The external section is found where its marker comes first in the whole script, which is not
where it is written if a text of the model or of the environment has the marker too.

* `rawJSON_scriptText`, `model_of_metadata` — the metadata is read back;
* `readExternal_empty_iff`, `readExternal_body_iff` — when the external body is read back;
* `roundTrip_iff` — when the model is.
-/

namespace Moov.Sieve

open List Search Json

open Search (Piece flat cut cutLast flat_append flat_fixed written afterFirst)

variable {libs : Libs} {env : GenerateEnv} {s : Script} {caps : Option (List Char → Bool)}
  {text t m close a : List Char}
  {ps : List (Piece Char)} {c : Char}

/-! ## The metadata -/

lemma metadata_eq (s : Script) : metadata s = flat (Json.pieces Json.escapeGuarded s.toJson) :=
  guardStars_pieces s.toJson

/-- The end of the metadata is not in the metadata: it would end the comment. -/
lemma metaEnd_notInfix_metadata (s : Script) : ¬ metaEnd <:+: metadata s := by
  intro h
  have hstar : ['*', '/'] <:+: metaEnd := ⟨"@moov:end ".toList, [], by decide⟩
  exact not_infix_guardStars _ (hstar.trans h)

lemma cut_self_append (hm : m ≠ []) : cut m (m ++ t) = some ([], t) := by
  obtain ⟨c, m, rfl⟩ := exists_cons_of_ne_nil hm
  have hstarts : (c :: m).isPrefixOf (c :: (m ++ t)) = true := by
    exact List.isPrefixOf_iff_prefix.2 (prefix_append _ _)
  rw [cons_append, cut, if_pos hstarts, ← cons_append, drop_left]

/-- The first end of metadata is the one that was written. -/
lemma cut_metaEnd (s : Script) (t : List Char) :
    cut metaEnd (metaBegin ++ crlf ++ metadata s ++ crlf ++ metaEnd ++ t) =
      some (metaBegin ++ crlf ++ metadata s ++ crlf, t) := by
  have hne : metaEnd ≠ [] := by decide
  have hlf : '\n' ∉ metaEnd := by decide
  have hcr : '\r' ∉ metaEnd := by decide
  have hbegin : cut metaEnd (metaBegin ++ ['\r']) = none := by decide
  have hmeta : cut metaEnd (metadata s ++ ['\r']) = none := by
    rw [cut_eq_none_iff, infix_barrier hne hcr]
    rintro (h | h)
    · exact metaEnd_notInfix_metadata s h
    · exact hne (infix_nil.1 h)
  have hself := cut_self_append (t := t) hne
  have hsplit : metaBegin ++ crlf ++ metadata s ++ crlf ++ metaEnd ++ t =
      (metaBegin ++ ['\r']) ++ '\n' :: ((metadata s ++ ['\r']) ++ '\n' :: (metaEnd ++ t)) := by
    simp only [crlf, append_assoc, cons_append, nil_append]
  rw [hsplit, cut_barrier hne hlf, hbegin]
  simp only [cut_barrier hne hlf, hmeta, hself, Option.map_some]
  simp only [crlf, append_assoc, cons_append, nil_append]

lemma dropWhile_space (ha : ∀ d ∈ a, Text.isSpace d = true)
    (hc : Text.isSpace c = false) : (a ++ c :: t).dropWhile Text.isSpace = c :: t := by
  rw [dropWhile_append_of_pos ha, dropWhile_cons_of_neg (by rw [hc]; exact Bool.false_ne_true)]

/-- White space around a text is taken off. -/
lemma trimSpace_around {b : List Char} {d : Char} (ha : ∀ x ∈ a, Text.isSpace x = true)
    (hb : ∀ x ∈ b, Text.isSpace x = true) (hc : Text.isSpace c = false)
    (hd : Text.isSpace d = false) :
    Text.trimSpace (a ++ (c :: (t ++ [d]) ++ b)) = c :: (t ++ [d]) := by
  have hreverse : (c :: (t ++ [d]) ++ b).reverse = b.reverse ++ d :: (t.reverse ++ [c]) := by
    simp
  rw [Text.trimSpace, cons_append, dropWhile_space ha hc, ← cons_append, hreverse,
    dropWhile_space (fun x hx => hb x (mem_reverse.1 hx)) hd]
  simp

/-- The metadata is found, and nothing around it. -/
theorem rawJSON_scriptText (libs : Libs) (env : GenerateEnv) (s : Script) :
    rawJSON (scriptText libs env s) = some (metadata s) := by
  have hbegin : cut metaBegin (scriptText libs env s) =
      some ([], crlf ++ metadata s ++ crlf ++ metaEnd ++ crlf ++
      render (commands libs env s) ++ externalSection s.externalBody) := by
    have hself :=
      cut_self_append (m := metaBegin) (t := crlf ++ metadata s ++ crlf ++ metaEnd ++ crlf ++
      render (commands libs env s) ++ externalSection s.externalBody) (by decide)
    simpa only [scriptText, append_assoc] using hself
  have hend : cut metaEnd (scriptText libs env s) = some (metaBegin ++ crlf ++ metadata s ++ crlf,
      crlf ++ render (commands libs env s) ++ externalSection s.externalBody) := by
    have hcut :=
      cut_metaEnd s (crlf ++ render (commands libs env s) ++ externalSection s.externalBody)
    simpa only [scriptText, append_assoc] using hcut
  have htake : (scriptText libs env s).take (metaBegin ++ crlf ++ metadata s ++ crlf).length =
      metaBegin ++ crlf ++ metadata s ++ crlf := by
    rw [eq_of_cut hend, append_assoc (metaBegin ++ crlf ++ metadata s ++ crlf), take_left]
  have hdrop :
      (metaBegin ++ crlf ++ metadata s ++ crlf).drop (([] : List Char).length + metaBegin.length) =
      crlf ++ (metadata s ++ crlf) := by
    rw [length_nil, Nat.zero_add, append_assoc, append_assoc, drop_left]
  obtain ⟨t, ht⟩ : ∃ t, metadata s = '\x7b' :: (t ++ ['\x7d']) := metadata_eq s ▸ flat_obj_eq _ _
  have hspace : ∀ x ∈ crlf, Text.isSpace x = true := all_eq_true.1 (by decide)
  have htrim := trimSpace_around (t := t) hspace hspace (show Text.isSpace '\x7b' = false by decide)
    (show Text.isSpace '\x7d' = false by decide)
  rw [rawJSON, hbegin, hend]
  dsimp only
  rw [if_neg (show ¬ _ < ([] : List Char).length from Nat.not_lt_zero _), htake, hdrop, ht, htrim]

/-- The model is read back from its metadata. -/
theorem model_of_metadata (h : s.marshals = true) :
    (Json.parse (metadata s)).bind Script.ofJson = some { s with externalBody := [] } := by
  rw [metadata_eq, parse_flat reads_escapeGuarded, Option.bind_some, readBack h]

/-! ## `Generate` -/

lemma generate_ok (h : generate libs s env caps = .ok text) :
    text = scriptText libs env.withDefaults s ∧ s.marshals = true ∧ generate libs s env none =
      .ok text := by
  obtain ⟨hvalid, htargets, hmarshals, hcollides, rfl⟩ := generate_eq_ok_iff.1 h
  have hnone : validate libs s env none = [] := by
    simp only [validate, append_eq_nil_iff] at hvalid ⊢
    exact ⟨hvalid.1, rfl⟩
  exact ⟨rfl, hmarshals, generate_eq_ok_iff.2 ⟨hnone, htargets, hmarshals, hcollides, rfl⟩⟩

/-- A generated script is read back if its external body is. -/
lemma parseManaged_eq_iff (hversion : s.version = metadataVersion)
    (h : generate libs s env caps = .ok text) :
    parseManaged libs text env = .ok (s, false) ↔ readExternal text = some s.externalBody := by
  obtain ⟨rfl, hmarshals, hagain⟩ := generate_ok h
  rw [parseManaged, rawJSON_scriptText]
  dsimp only
  rw [model_of_metadata hmarshals]
  dsimp only
  rw [if_neg (not_not_intro hversion)]
  cases hread : readExternal (scriptText libs env.withDefaults s) with
  | none => simp
  | some =>
    dsimp only
    constructor
    · intro heq
      have hmodel := (Prod.mk.inj (Except.ok.inj heq)).1
      exact congrArg (fun model : Script => some model.externalBody) hmodel
    · intro heq
      cases heq
      rw [drifts, hagain]
      simp

/-! ## Texts of others -/

/-- The texts of others in a piece of a script, as they stand there. -/
def Tok.texts : Tok → List (List Char)
  | .code _ | .number _ => []
  | .quoted s => [escapeQuoted s]
  | .comment _ id => [id]
  | .redirect a => [escapeQuoted a]
  | .block s => [dotStuff s]

section
variable (libs env s)

/-- The texts that a model and an environment bring into a script: the strings of the metadata, and
those of the commands. -/
def texts : List (List Char) :=
  (Json.strings s.toJson).map Json.escapeGuarded ++ (commands libs env s).flatMap Tok.texts

/-- The pieces of a script before the external section. -/
def scriptPieces : List (Piece Char) :=
  .fixed (metaBegin ++ crlf) :: (Json.pieces Json.escapeGuarded s.toJson ++
    .fixed (crlf ++ metaEnd ++ crlf) :: piecesOf (commands libs env s))

lemma scriptText_eq :
    scriptText libs env s = flat (scriptPieces libs env s) ++ externalSection s.externalBody := by
  rw [scriptPieces, flat_fixed, flat_append, flat_fixed, flat_piecesOf, ← metadata_eq]
  simp only [scriptText, append_assoc]

lemma written_tok (t : Tok) : written t.pieces = t.texts := by
  cases t <;> rfl

lemma written_piecesOf (ts : List Tok) : written (piecesOf ts) = ts.flatMap Tok.texts := by
  induction ts with
  | nil => rfl
  | cons t ts ih =>
    rw [piecesOf, flatMap_cons, written_append, written_tok, flatMap_cons]
    exact congrArg (t.texts ++ ·) ih

lemma written_scriptPieces :
    written (scriptPieces libs env s) = texts libs env s := by
  rw [scriptPieces, written, written_append, written, written_pieces, written_piecesOf, texts]

end

lemma foreign_hash : Json.Foreign '#' := ⟨by decide, by decide⟩

lemma apart_scriptPieces (h : Marker m) (libs : Libs) (env : GenerateEnv) (s : Script) :
    ∀ p ∈ scriptPieces libs env s, p.Apart m := by
  intro p hp
  rw [scriptPieces, mem_cons, mem_append, mem_cons] at hp
  rcases hp with rfl | hp | rfl | hp
  · exact h.inert (by decide)
  · obtain ⟨r, rfl⟩ := h.hash
    exact apart_pieces foreign_hash h.quote (unhashed_keys s) p hp
  · exact h.inert (by decide)
  · obtain ⟨t, -, ht⟩ := mem_flatMap.1 hp
    exact apart_tok h t p ht

/-! ## Line breaks -/

lemma trimBreak_cases (t : List Char) : (∃ q, t = '\r' :: '\n' :: '\n' :: q ∧ trimBreak t = q) ∨
      (∃ q, t = '\r' :: '\n' :: q ∧ q.head? ≠ some '\n' ∧ trimBreak t = q) ∨
      (∃ q, t = '\n' :: q ∧ trimBreak t = q) ∨ trimBreak t = t := by
  unfold trimBreak trimPrefix
  split
  · rename_i hcrlf
    obtain ⟨q, rfl⟩ := List.isPrefixOf_iff_prefix.1 hcrlf
    split
    · rename_i hlf
      obtain ⟨q, rfl⟩ := List.isPrefixOf_iff_prefix.1 hlf
      exact .inl ⟨q, rfl, rfl⟩
    · rename_i hlf
      refine .inr (.inl ⟨q, rfl, ?_, rfl⟩)
      intro hhead
      cases q with
      | nil => cases hhead
      | cons =>
        cases hhead
        exact hlf (by simp)
  · split
    · rename_i hlf
      obtain ⟨q, rfl⟩ := List.isPrefixOf_iff_prefix.1 hlf
      exact .inr (.inr (.inl ⟨q, rfl, rfl⟩))
    · exact .inr (.inr (.inr rfl))

lemma trimBreak_crlf (h : c ≠ '\n') (t : List Char) :
    trimBreak ('\r' :: '\n' :: c :: t) = c :: t := by
  simp [trimBreak, trimPrefix, crlf, h.symm]

lemma trimBreak_hash (t : List Char) : trimBreak ('#' :: t) = '#' :: t := by
  simp [trimBreak, trimPrefix, crlf]

/-- A text that is shut off by what the generator writes after it: nothing that begins in it goes on
in there, and no end marker stands after its line break. -/
def Shuts (close : List Char) : Prop :=
  ∃ b rest, close = b :: rest ∧ b ∉ externalEnd ∧ b ≠ '\n' ∧ ∀ u,
    ¬ externalEnd <+: trimBreak (close ++ u)

lemma trimBreak_append {rest x q : List Char} (h : trimBreak rest = '#' :: q) :
    trimBreak (rest ++ x) = '#' :: q ++ x := by
  rcases trimBreak_cases rest with ⟨r, rfl, hr⟩ | ⟨r, rfl, -, hr⟩ | ⟨r, rfl, hr⟩ | hr
  · subst h
    simp [trimBreak, trimPrefix, crlf]
  · rw [hr] at h
    subst h
    exact trimBreak_crlf (by decide) _
  · subst h
    simp [trimBreak, trimPrefix, crlf]
  · rw [hr] at h
    subst h
    exact trimBreak_hash _

lemma exists_of_end_prefix (h : externalEnd <+: t) : ∃ q, t = '#' :: q := by
  obtain ⟨r, hr⟩ : ∃ r, externalEnd = '#' :: r := ⟨_, rfl⟩
  obtain ⟨u, rfl⟩ := h
  exact ⟨r ++ u, by rw [hr]; rfl⟩

/-- The end marker right after a line break stands in the text, not in what shuts it off. -/
lemma end_prefix_iff {rest u : List Char} (h : Shuts close) :
    externalEnd <+: trimBreak (rest ++ (close ++ u)) ↔ externalEnd <+: trimBreak rest := by
  obtain ⟨b, cl, rfl, hb, hlf, hnil⟩ := h
  constructor
  · intro hstarts
    cases rest with
    | nil => exact absurd hstarts (hnil u)
    | cons c r =>
      rcases trimBreak_cases
        (c :: r ++ (b :: cl ++ u)) with ⟨q, ht, hq⟩ | ⟨q, ht, hhead, hq⟩ | ⟨q, ht, hq⟩ | hq
      · cases r with
        | nil => exact absurd (cons.inj (cons.inj ht).2).1 hlf
        | cons d r =>
          cases r with
          | nil => exact absurd (cons.inj (cons.inj (cons.inj ht).2).2).1 hlf
          | cons =>
            obtain ⟨rfl, rfl, rfl, rfl⟩ := ht
            exact not_prefix_of_barrier hb hstarts
      · rw [hq] at hstarts
        cases r with
        | nil => exact absurd (cons.inj (cons.inj ht).2).1 hlf
        | cons =>
          obtain ⟨rfl, rfl, rfl⟩ := ht
          have hr := not_prefix_of_barrier hb hstarts
          obtain ⟨q, rfl⟩ := exists_of_end_prefix hr
          rwa [trimBreak_crlf (by decide)]
      · obtain ⟨rfl, rfl⟩ := ht
        exact not_prefix_of_barrier hb hstarts
      · rw [hq] at hstarts
        have hr := not_prefix_of_barrier hb hstarts
        obtain ⟨q, hcons⟩ := exists_of_end_prefix hr
        rw [hcons, trimBreak_hash]
        rwa [hcons] at hr
  · intro hstarts
    obtain ⟨q, hq⟩ := exists_of_end_prefix hstarts
    rw [trimBreak_append hq]
    rw [hq] at hstarts
    exact hstarts.trans (prefix_append _ _)

lemma shuts_quote (t : List Char) : Shuts ('"' :: t) := by
  refine ⟨'"', t, rfl, by decide, by decide, ?_⟩
  intro u hstarts
  have hsame : trimBreak ('"' :: t ++ u) = '"' :: (t ++ u) := by
    simp [trimBreak, trimPrefix, crlf]
  obtain ⟨q, hq⟩ := exists_of_end_prefix hstarts
  exact absurd (cons.inj hq).1 (by decide)

lemma shuts_crlf (hlf : c ≠ '\n') (hhash : c ≠ '#') : Shuts (crlf ++ c :: t) := by
  refine ⟨'\r', '\n' :: c :: t, rfl, by decide, by decide, ?_⟩
  intro u hstarts
  rw [show crlf ++ c :: t ++ u = '\r' :: '\n' :: c :: (t ++ u) from rfl,
    trimBreak_crlf hlf] at hstarts
  obtain ⟨q, hq⟩ := exists_of_end_prefix hstarts
  exact hhash (cons.inj hq).1

/-! ## Where the external section is found -/

/-- Every text of others is shut off. -/
def AllShut (ps : List (Piece Char)) : Prop := ∀ t close, Piece.written t close ∈ ps → Shuts close

lemma allShut_scriptPieces (libs : Libs) (env : GenerateEnv) (s : Script) :
    AllShut (scriptPieces libs env s) := by
  intro t close hp
  rw [scriptPieces, mem_cons, mem_append, mem_cons] at hp
  rcases hp with hp | hp | hp | hp
  · cases hp
  · have hclose := without_pieces _ foreign_hash _ (unhashed_keys s) _ hp
    subst hclose
    exact shuts_quote []
  · cases hp
  · obtain ⟨tok, -, htok⟩ := mem_flatMap.1 hp
    cases tok with
    | code | number => simp [Tok.pieces] at htok
    | quoted | redirect =>
      simp only [Tok.pieces, mem_cons, not_mem_nil, or_false, reduceCtorEq, false_or,
        Piece.written.injEq] at htok
      rw [htok.2]
      exact shuts_quote _
    | comment | block =>
      simp only [Tok.pieces, mem_cons, not_mem_nil, or_false, reduceCtorEq, false_or,
        Piece.written.injEq] at htok
      rw [htok.2]
      exact shuts_crlf (by decide) (by decide)

/-- No text has the marker of the external section. -/
def Unmarked (ts : List (List Char)) : Prop := ∀ t ∈ ts, ¬ externalBegin <:+: t

/-- The first text with the marker goes on with the end marker, which comes nowhere after that: the
external section that is read is empty. -/
def endsAtOnce : List (List Char) → Bool
  | [] => false
  | t :: ts =>
      match cut externalBegin t with
      | none => endsAtOnce ts
      | some (_, rest) =>
          externalEnd.isPrefixOf (trimBreak rest) &&
            !contains ((trimBreak rest).drop 1) externalEnd &&
            ts.all fun t => !contains t externalEnd

lemma contains_iff : contains t m = true ↔ m <:+: t := by
  rw [contains, ← not_iff_not, Bool.not_eq_true, Option.isSome_eq_false_iff,
    Option.isNone_iff_eq_none, cut_eq_none_iff]

lemma all_not_contains_iff {ts : List (List Char)} :
    (ts.all fun t => !contains t m) = true ↔ ∀ t ∈ ts, ¬ m <:+: t := by
  simp only [all_eq_true, Bool.not_eq_true', ← Bool.not_eq_true, contains_iff]

instance (ts : List (List Char)) : Decidable (Unmarked ts) :=
  decidable_of_iff _ all_not_contains_iff

/-- An empty external body is read from a text of others that shuts it at once. -/
lemma cutLast_end_iff (rest : List Char) (hapart : ∀ p ∈ ps, p.Apart externalEnd)
    (hclose : (Piece.written rest close).Apart externalEnd) (hshut : Shuts close) :
    (cutLast externalEnd (trimBreak (rest ++ close ++ flat ps))).map Prod.fst = some [] ↔
      (externalEnd.isPrefixOf (trimBreak rest) && !contains ((trimBreak rest).drop 1) externalEnd &&
        (written ps).all fun t => !contains t externalEnd) = true := by
  have hne : externalEnd ≠ [] := by decide
  rw [append_assoc, cutLast_start_iff hne, end_prefix_iff hshut]
  rw [Bool.and_eq_true, Bool.and_eq_true, List.isPrefixOf_iff_prefix, all_not_contains_iff,
    Bool.not_eq_true', ← Bool.not_eq_true, contains_iff, and_assoc]
  refine and_congr_right fun hstarts => ?_
  obtain ⟨q, hq⟩ := exists_of_end_prefix hstarts
  obtain ⟨b, cl, rfl, hb, hinert⟩ := hclose
  rw [trimBreak_append hq, hq, cons_append, drop_succ_cons, drop_zero, drop_succ_cons, drop_zero,
    cons_append, infix_barrier hne hb, infix_inert_append hinert, infix_flat_iff hne hapart, not_or]
  refine and_congr_right fun _ => ?_
  simp

/-- What is read of a script without an external section. -/
lemma afterFirst_iff (hend : ∀ p ∈ ps, p.Apart externalEnd) (hshut : AllShut ps) :
    (∀ rest ∈ afterFirst externalBegin ps, (cutLast externalEnd (trimBreak rest)).map Prod.fst =
      some []) ↔
      Unmarked (written ps) ∨ endsAtOnce (written ps) = true := by
  induction ps with
  | nil => simp [afterFirst, Unmarked, written]
  | cons p ps ih =>
    have hps := ih (fun q hq => hend q (mem_cons_of_mem _ hq))
      (fun t close ht => hshut t close (mem_cons_of_mem _ ht))
    cases p with
    | fixed => exact hps
    | written t close =>
      rw [afterFirst, written]
      cases hcut : cut externalBegin t with
      | none =>
        have hnot := cut_eq_none_iff.1 hcut
        simp only [hps, Unmarked, endsAtOnce, hcut, forall_mem_cons, hnot,
          not_false_eq_true, true_and]
      | some x =>
        have hinfix : externalBegin <:+: t := ⟨x.1, x.2, (eq_of_cut hcut).symm⟩
        have hiff := cutLast_end_iff x.2 (fun q hq => hend q (mem_cons_of_mem _ hq))
          (hend (.written t close) mem_cons_self) (hshut t close mem_cons_self)
        simp only [Option.mem_def, Option.some.injEq, forall_eq', hiff, Unmarked, endsAtOnce, hcut,
          forall_mem_cons, hinfix, not_true_eq_false, false_and, false_or]

lemma unmarked_iff (h : ∀ p ∈ ps, p.Apart externalBegin) :
    afterFirst externalBegin ps = none ↔ Unmarked (written ps) := by
  have hne : externalBegin ≠ [] := by decide
  rw [← cut_flat hne h, Option.map_eq_none_iff, cut_eq_none_iff, infix_flat_iff hne h]
  simp [Unmarked]

/-- Without an external body, none is read. -/
theorem readExternal_empty_iff (hbegin : ∀ p ∈ ps, p.Apart externalBegin)
    (hend : ∀ p ∈ ps, p.Apart externalEnd) (hshut : AllShut ps) :
    readExternal (flat ps) = some [] ↔ Unmarked (written ps) ∨ endsAtOnce (written ps) = true := by
  rw [← afterFirst_iff hend hshut, ← cut_flat (by decide) hbegin, readExternal]
  cases cut externalBegin (flat ps) with
  | none | some => simp

lemma trimBreak_suffix (t : List Char) : ∃ p, t = p ++ trimBreak t ∧ p.length ≤ 3 := by
  rcases trimBreak_cases t with ⟨q, rfl, hq⟩ | ⟨q, rfl, -, hq⟩ | ⟨q, rfl, hq⟩ | hq
  · exact ⟨['\r', '\n', '\n'], by rw [hq]; rfl, by decide⟩
  · exact ⟨['\r', '\n'], by rw [hq]; rfl, by decide⟩
  · exact ⟨['\n'], by rw [hq]; rfl, by decide⟩
  · exact ⟨[], by rw [hq]; rfl, by decide⟩

lemma cutLast_end (a : List Char) :
    cutLast externalEnd (a ++ externalEnd ++ crlf) = some (a, crlf) :=
  cutLast_append (by decide) (by decide)

lemma readExternal_eq (text : List Char) :
    readExternal text = ((cut externalBegin text).map Prod.snd).elim (some []) fun rest =>
      (cutLast externalEnd (trimBreak rest)).map Prod.fst := by
  rw [readExternal]
  cases cut externalBegin text with
  | none | some => rfl

/-- An external body is read back if the marker is not found before it. -/
theorem readExternal_body_iff (hbegin : ∀ p ∈ ps, p.Apart externalBegin) {body : List Char}
    (hhead : body.head? = some '#') :
    readExternal (flat ps ++ (externalBegin ++ (crlf ++ body ++ externalEnd ++ crlf))) = some body ↔
      Unmarked (written ps) := by
  have hne : externalBegin ≠ [] := by decide
  obtain ⟨b, rfl⟩ : ∃ b, body = '#' :: b := by
    cases body with
    | nil => cases hhead
    | cons c b =>
      cases hhead
      exact ⟨b, rfl⟩
  rw [readExternal_eq, cut_flat_append hne hbegin, ← unmarked_iff hbegin]
  cases afterFirst externalBegin ps with
  | none =>
    have hbreak : trimBreak (crlf ++ '#' :: b ++ externalEnd ++ crlf) = '#' :: b ++
      externalEnd ++ crlf :=
      trimBreak_crlf (by decide) _
    simp only [Option.elim_none, cut_self_append hne, Option.map_some, Option.elim_some,
      hbreak, cutLast_end]
  | some rest =>
    simp only [Option.elim_some, reduceCtorEq, iff_false]
    -- at most three characters are taken off, and the marker is longer than that
    obtain ⟨p, hp, hlen⟩ :=
      trimBreak_suffix (rest ++ (externalBegin ++ (crlf ++ '#' :: b ++ externalEnd ++ crlf)))
    have hlong : externalBegin.length = 67 := by decide
    have hsplit : trimBreak (rest ++ (externalBegin ++ (crlf ++ '#' :: b ++ externalEnd ++ crlf))) =
        (rest ++ (externalBegin ++ (crlf ++ '#' :: b))).drop p.length ++ externalEnd ++ crlf := by
      have hdrop := congrArg (drop p.length) hp
      have hassoc : rest ++ (externalBegin ++ (crlf ++ '#' :: b ++ externalEnd ++ crlf)) =
          rest ++ (externalBegin ++ (crlf ++ '#' :: b)) ++ (externalEnd ++ crlf) := by
        simp only [append_assoc]
      have hle : p.length ≤ (rest ++ (externalBegin ++ (crlf ++ '#' :: b))).length := by
        simp only [length_append]
        omega
      rw [drop_left] at hdrop
      rw [← hdrop, hassoc, drop_append_of_le_length hle, append_assoc]
    rw [hsplit, cutLast_end, Option.map_some, Option.some.injEq]
    intro heq
    have hlength := congrArg length heq
    simp only [length_drop, length_append, length_cons] at hlength
    omega

/-! ## The round trip -/

/-- A model without an external body is read back exactly if none is read. -/
lemma parseManaged_empty_iff (hversion : s.version = metadataVersion)
    (hbody : s.externalBody = []) (h : generate libs s env caps = .ok text) :
    parseManaged libs text env = .ok (s, false) ↔
      Unmarked (texts libs env.withDefaults s) ∨
      endsAtOnce (texts libs env.withDefaults s) = true := by
  rw [parseManaged_eq_iff hversion h, (generate_ok h).1, scriptText_eq, ← written_scriptPieces,
    hbody, externalSection, if_pos (by rfl), append_nil,
    readExternal_empty_iff (apart_scriptPieces marker_externalBegin libs env.withDefaults s)
      (apart_scriptPieces (marker_of_hashDash ⟨_, rfl⟩ (by decide) (by decide)) libs
      env.withDefaults s) (allShut_scriptPieces libs env.withDefaults s)]

/-- A generated script is read back as it was, and without drift, exactly if the marker of the
external section is in no text of the model or of the environment; or if there is no external body,
and the one that is read instead is empty too. -/
theorem roundTrip_iff (libs : Libs) (s : Script) (env : GenerateEnv)
    (caps : Option (List Char → Bool)) (text : List Char)
    (hversion : s.version = metadataVersion) (himported : Imported s.externalBody)
    (h : generate libs s env caps = .ok text) :
    parseManaged libs text env = .ok (s, false) ↔ Unmarked (texts libs env.withDefaults s) ∨
        (s.externalBody = [] ∧ endsAtOnce (texts libs env.withDefaults s) = true) := by
  rcases himported.shape with hbody | ⟨hhead, hlast⟩
  · rw [parseManaged_empty_iff hversion hbody h]
    simp [hbody]
  · have hne : s.externalBody ≠ [] := fun hnil => by
      rw [hnil] at hhead
      cases hhead
    have hsection : externalSection s.externalBody =
        externalBegin ++ (crlf ++ s.externalBody ++ externalEnd ++ crlf) := by
      rw [externalSection, if_neg (by simpa using hne), if_pos hlast]
      simp only [append_assoc, nil_append]
    have hbegin := apart_scriptPieces marker_externalBegin libs env.withDefaults s
    rw [parseManaged_eq_iff hversion h, (generate_ok h).1, scriptText_eq, ← written_scriptPieces,
      hsection, readExternal_body_iff hbegin hhead]
    simp [hne]

/-- A filter that stops at a sender, under a name. -/
def namedFilter (name : List Char) : Script :=
  { Script.zero with
    version := 1
    rules := [{ Rule.zero with
      id := "r1".toList
      name := name
      type := ruleFilter
      enabled := true
      criteria := { Criteria.zero with from_ := ["a".toList] }
      actions := { Actions.zero with stop := true } }] }

def someLibs : Libs := ⟨Text.toLower, fun s => s, fun _ => []⟩

def someEnv : GenerateEnv := ⟨[], [], [], [], [], fun _ => false⟩

lemma generate_namedFilter {name : List Char}
    (h : validate someLibs (namedFilter name) someEnv none = []) :
    generate someLibs (namedFilter name) someEnv none =
      .ok (scriptText someLibs someEnv.withDefaults (namedFilter name)) := by
  refine generate_eq_ok_iff.2 ⟨h, fun a ha => ?_, rfl, fun v hv => ?_, rfl⟩
  · cases ha
  · cases hv

theorem roundTrip_iff_plain :
    parseManaged someLibs
      (scriptText someLibs someEnv.withDefaults (namedFilter "News".toList)) someEnv =
      .ok (namedFilter "News".toList, false) :=
  (roundTrip_iff someLibs (namedFilter "News".toList) someEnv none _ rfl .empty
    (generate_namedFilter (by decide +kernel))).2
    (.inl (by decide +kernel))

/-- A filter under the name of the marker makes the script unreadable. -/
theorem marker_in_name_is_found : generate someLibs (namedFilter externalBegin) someEnv none =
        .ok (scriptText someLibs someEnv.withDefaults (namedFilter externalBegin)) ∧
      parseManaged someLibs
        (scriptText someLibs someEnv.withDefaults (namedFilter externalBegin)) someEnv =
        .error .unterminated := by
  refine ⟨generate_namedFilter (by decide +kernel), ?_⟩
  decide +kernel

end Moov.Sieve
