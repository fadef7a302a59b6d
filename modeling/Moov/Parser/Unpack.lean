import Moov.Parser.Flatten
import Moov.Parser.Parse

/-!
# The files of a part list

`extractTNEFParts` over the items of a walk: which files it unpacks, and that they keep the list
a tree.

* `decodeTNEF_data_le` — no file of a stream is longer than the cap;
* `unpacked` — the files of a list of items, with their indices, up to the cap on parts;
* `extractTNEFParts_spec` — these are appended, and nothing else is.
-/

namespace Moov.Parser

open Text Utf8 Tnef List Option

/-! ## The files of a stream -/

section Stream

variable {maxAttachment maxTotal : Int} {w : Tnef.Walk}

/-- No file of a walk is longer than the cap. -/
structure Capped (maxAttachment : Int) (w : Tnef.Walk) : Prop where
  out : ∀ f ∈ w.out, (f.data.length : Int) ≤ maxAttachment
  cur : ∀ f ∈ w.cur, (f.data.length : Int) ≤ maxAttachment

lemma Capped.flush (h : Capped maxAttachment w) : Capped maxAttachment w.flush := by
  unfold Tnef.Walk.flush
  cases hcur : w.cur with
  | none => exact h
  | some f =>
    -- a long name replaces the name only
    have hdata : ∀ name : List Char, (if name ≠ [] then { f with filename := name } else f).data =
      f.data := by
      intro name
      split <;> rfl
    have hf := h.cur f hcur
    rw [← hdata (longFilenameFromProps w.pendingProps)] at hf
    dsimp only
    generalize (if longFilenameFromProps w.pendingProps ≠ [] then _ else f) = named at *
    refine ⟨fun g hg => ?_, fun g hg => absurd hg (not_mem_none g)⟩
    split at hg
    · exact forall_mem_append.2 ⟨h.out, forall_mem_singleton.2 hf⟩ g hg
    · exact h.out g hg

lemma Capped.attachmentAttribute (hmax : 0 ≤ maxAttachment) (h : Capped maxAttachment w)
    (id : Nat) (payload : Data) :
    Capped maxAttachment (Tnef.attachmentAttribute maxAttachment maxTotal id payload w).1 := by
  unfold Tnef.attachmentAttribute
  split
  · split
    · exact h.flush
    · refine ⟨h.flush.out, fun f hf => ?_⟩
      rw [← some.inj hf]
      exact hmax
  · cases hcur : w.cur with
    | none => exact h
    | some cur =>
      dsimp only
      split
      · split
        · refine ⟨h.out, fun f hf => ?_⟩
          rw [← some.inj hf]
          exact h.cur cur hcur
        · exact h
      · split
        · split
          · refine ⟨h.out, fun f hf => ?_⟩
            rw [← some.inj hf]
            exact h.cur cur hcur
          · exact h
        · split
          · split
            · refine ⟨h.out, fun f hf => ?_⟩
              rw [← some.inj hf]
              exact hmax
            · rename_i hfits
              split
              · exact h.flush
              · refine ⟨h.out, fun f hf => ?_⟩
                rw [← some.inj hf]
                exact not_lt.1 hfits
          · exact h

lemma proceed_data_le {r : Tnef.Walk × Option TnefError}
    {rest : Tnef.Walk → List TnefAttachment × Option TnefError}
    (h : Capped maxAttachment r.1)
    (hrest : ∀ w, Capped maxAttachment w → ∀ f ∈ (rest w).1, (f.data.length : Int) ≤
      maxAttachment) :
    ∀ f ∈ (proceed r rest).1, (f.data.length : Int) ≤ maxAttachment := by
  obtain ⟨w, e⟩ := r
  cases e with
  | none => exact hrest w h
  | some => exact h.out

lemma walk_data_le (hmax : 0 ≤ maxAttachment) {attributes : Nat} (h : Capped maxAttachment w)
    (data : Data) : ∀ f ∈ (Tnef.walk maxAttachment maxTotal attributes w data).1,
      (f.data.length : Int) ≤ maxAttachment := by
  induction attributes generalizing w data with
  | zero =>
    cases data with
    | nil | cons => exact h.flush.out
  | succ attributes ih =>
    cases data with
    | nil => exact h.flush.out
    | cons =>
      rw [Tnef.walk]
      split
      · exact h.flush.out
      · dsimp only
        split
        · exact h.flush.out
        · split
          · exact h.flush.out
          · split
            · exact ih h _
            · exact proceed_data_le (h.attachmentAttribute hmax _ _) fun w hw => ih hw _

/-- No file of a stream is longer than the cap. -/
theorem decodeTNEF_data_le (hmax : 0 ≤ maxAttachment) (data : Data) :
    ∀ f ∈ (decodeTNEF maxAttachment maxTotal data).1, (f.data.length : Int) ≤ maxAttachment := by
  unfold decodeTNEF
  split
  · exact forall_mem_nil _
  · split
    · exact forall_mem_nil _
    · exact walk_data_le hmax ⟨forall_mem_nil _, fun f hf => absurd hf (not_mem_none f)⟩ _

end Stream

/-! ## The files of a list -/

/-- The item carries a TNEF stream. -/
def Item.packed (item : Item) : Bool :=
  !(item.kind = .multipart || item.rfc822 || item.content = []) &&
    isTNEFPart item.mediaType item.filename

/-- The files in an item. -/
def Item.files (limits : Limits) (item : Item) : List TnefAttachment :=
  if item.packed then (decodeTNEF limits.maxPartSize limits.maxPartSize item.content).1 else []

/-- The first files, as many as the cap on parts leaves room for after a number of parts, with
their indices. -/
def numbered (limits : Limits) (count : Nat) (files : List TnefAttachment) :
    List (TnefAttachment × Nat) :=
  (files.take (limits.maxParts.toNat - count)).zipIdx count

/-- The files that are unpacked from a list of items. -/
def unpacked (limits : Limits) (items : List Item) : List (TnefAttachment × Nat) :=
  numbered limits items.length (items.flatMap fun item => item.files limits)

/-- The part is the file. -/
def IsFile (env : Env) (p : Part) (f : TnefAttachment × Nat) : Prop :=
  ∃ parent depth, p = filePart env f.2 parent depth f.1

/-- Files are unpacked at the end of a list. -/
structure Unpacking (env : Env) (limits : Limits) (b b' : Build) (files : List TnefAttachment) :
    Prop where
  appended : ∃ new, b'.parts = b.parts ++ new ∧
    List.Forall₂ (IsFile env) new (numbered limits b.parts.length files)
  status : b.status ≠ .failed → b'.status ≠ .failed
  tree : Tree limits (limits.maxDepth + 1) b.parts → Tree limits (limits.maxDepth + 1) b'.parts

variable {env : Env} {limits : Limits} {b b₁ b' : Build} {files files' : List TnefAttachment}
  {count : Nat} {q : Part} {items : List Item}

lemma numbered_append (h : files.length ≤ limits.maxParts.toNat - count) :
    numbered limits count (files ++ files') =
      numbered limits count files ++ numbered limits (count + files.length) files' := by
  rw [numbered, take_append, zipIdx_append, numbered, numbered, take_of_length_le h, Nat.sub_sub]

/-- No file, or no room. -/
lemma unpacking_refl (h : numbered limits b.parts.length files = []) :
    Unpacking env limits b b files :=
  ⟨⟨[], by rw [append_nil], by rw [h]; exact .nil⟩, fun h => h, fun h => h⟩

lemma Unpacking.worse (h : Unpacking env limits b b₁ files) (hw : Worse b₁ b') :
    Unpacking env limits b b' files :=
  ⟨by rw [hw.parts]; exact h.appended, fun hs =>
    hw.status (h.status hs), by rw [hw.parts]; exact h.tree⟩

lemma Worse.unpacking (hw : Worse b b₁) (h : Unpacking env limits b₁ b' files) :
    Unpacking env limits b b' files :=
  ⟨by rw [← hw.parts]; exact h.appended, fun hs =>
    h.status (hw.status hs), by rw [← hw.parts]; exact h.tree⟩

lemma Unpacking.getElem? {j : Nat} (h : Unpacking env limits b b' files)
    (hq : b.parts[j]? = some q) :
    b'.parts[j]? = some q := by
  obtain ⟨new, hnew, -⟩ := h.appended
  rw [hnew, List.getElem?_append_left (List.getElem?_eq_some_iff.1 hq).1, hq]

/-- Files that fill the list end the unpacking. -/
lemma Unpacking.full (h : Unpacking env limits b b' files)
    (hfull : limits.maxParts.toNat - b.parts.length ≤ files.length) :
    Unpacking env limits b b' (files ++ files') :=
  ⟨by rw [numbered, take_append_of_le_length hfull]; exact h.appended, h.status, h.tree⟩

lemma Unpacking.append (h : Unpacking env limits b b₁ files)
    (hroom : files.length ≤ limits.maxParts.toNat - b.parts.length)
    (h' : Unpacking env limits b₁ b' files') : Unpacking env limits b b' (files ++ files') := by
  obtain ⟨new, hnew, hfiles⟩ := h.appended
  obtain ⟨new', hnew', hfiles'⟩ := h'.appended
  have hcount : b₁.parts.length = b.parts.length + files.length := by
    rw [hnew, length_append, hfiles.length_eq, numbered, length_zipIdx, length_take,
      min_eq_right hroom]
  rw [hcount] at hfiles'
  refine ⟨⟨new ++ new', by rw [hnew', hnew, append_assoc], ?_⟩,
    fun hs => h'.status (h.status hs), fun ht => h'.tree (h.tree ht)⟩
  rw [numbered_append hroom]
  exact rel_append hfiles hfiles'

lemma numbered_full (h : limits.maxParts ≤ count) (files : List TnefAttachment) :
    numbered limits count files = [] := by
  have hroom : limits.maxParts.toNat - count = 0 := by omega
  rw [numbered, hroom]
  rfl

/-- One file, unpacked from a part of the list. -/
lemma unpacking_push {i : Nat} (hq : b.parts[i]? = some q)
    (hdepth : (q.depth : Int) ≤ limits.maxDepth)
    (hroom : (b.parts.length : Int) < limits.maxParts) (f : TnefAttachment) :
    Unpacking env limits b (b.push (filePart env b.parts.length i q.depth f)) [f] := by
  refine ⟨⟨[filePart env b.parts.length i q.depth f], rfl, ?_⟩, fun h => h, fun ht => ?_⟩
  · have htake : [f].take (limits.maxParts.toNat - b.parts.length) = [f] := take_of_length_le (by
      rw [length_singleton]
      omega)
    rw [numbered, htake]
    exact .cons ⟨i, q.depth, rfl⟩ .nil
  · refine ht.push (.inr ⟨i, q, hq, rfl, rfl⟩) rfl ?_ hroom
    change ((q.depth + 1 : Nat) : Int) ≤ limits.maxDepth + 1
    omega

/-- The files of one part. -/
lemma appendFiles_spec {i : Nat} (hdepth : (q.depth : Int) ≤ limits.maxDepth)
    (files : List TnefAttachment) : ∀ {b : Build}, b.parts[i]? = some q →
      Unpacking env limits b (appendFiles env limits i q.depth files b).1 files ∧
      ((appendFiles env limits i q.depth files b).2 = true →
      limits.maxParts.toNat - b.parts.length ≤ files.length) ∧
      ((appendFiles env limits i q.depth files b).2 = false → files.length ≤
      limits.maxParts.toNat - b.parts.length) := by
  induction files with
  | nil =>
    intro b _
    exact ⟨unpacking_refl (by rw [numbered, take_nil]; rfl), fun h => absurd h Bool.false_ne_true,
      fun _ => Nat.zero_le _⟩
  | cons f files ih =>
    intro b hq
    rw [appendFiles]
    split
    · rename_i hfull
      refine ⟨(unpacking_refl (numbered_full hfull _)).worse
        (worse_downgradeIf b true), fun _ => ?_,
        fun h => absurd h.symm Bool.false_ne_true⟩
      omega
    · rename_i hroom
      have hroom := not_le.1 hroom
      have hone : Unpacking env limits b _ [f] := unpacking_push hq hdepth hroom f
      have hpushed : (b.push (filePart env b.parts.length i q.depth f)).parts.length =
        b.parts.length + 1 :=
        List.length_append
      obtain ⟨hfiles, hcapped, hopen⟩ := ih (b := b.push (filePart env b.parts.length i q.depth f))
        (by rw [Build.push, List.getElem?_append_left (List.getElem?_eq_some_iff.1 hq).1, hq])
      refine ⟨hone.append ?_ hfiles, fun h => ?_, fun h => ?_⟩
      · rw [length_singleton]
        omega
      · have := hcapped h
        rw [length_cons]
        omega
      · have := hopen h
        rw [length_cons]
        omega

lemma packed_eq {p : Part} {item : Item} (h : Finished limits p item) : p.packed = item.packed := by
  rw [Part.packed, h.isMultipart, h.isRFC822, h.mediaType, h.filename, h.content, Item.packed]

/-- The loop over the parts. -/
lemma extractFrom_spec {ps : List Part} (h : List.Forall₂ (Finished limits) ps items) :
    ∀ {i : Nat} {b : Build}, (∀ k p, ps[k]? = some p → b.parts[i + k]? = some p) →
      (∀ p ∈ ps, (p.depth : Int) ≤ limits.maxDepth) →
      Unpacking env limits b (extractFrom env limits i ps b)
        (items.flatMap fun item => item.files limits) := by
  induction h with
  | nil =>
    intro i b _ _
    exact unpacking_refl (by rw [flatMap_nil, numbered, take_nil]; rfl)
  | @cons p item ps items hp _ ih =>
    intro i b hplaces hdepths
    have hq := hplaces 0 p rfl
    have hrest : ∀ k r, ps[k]? = some r → b.parts[i + 1 + k]? = some r := by
      intro k r hr
      rw [Nat.add_right_comm]
      exact hplaces (k + 1) r hr
    have hdepths' := fun r hr => hdepths r (mem_cons_of_mem _ hr)
    rw [extractFrom, flatMap_cons]
    split
    · rename_i hfull
      exact unpacking_refl (numbered_full hfull _)
    · split
      · have hnone : item.files limits = [] := by
          rw [Item.files, ← packed_eq hp, if_neg (by rwa [Bool.not_eq_true, ← Bool.not_eq_true'])]
        rw [hnone]
        exact ih hrest hdepths'
      · rename_i hpacked
        have hfiles : item.files limits =
          (decodeTNEF limits.maxPartSize limits.maxPartSize p.content).1 := by
          rw [Item.files, ← packed_eq hp, hp.content,
            if_pos (by rwa [Bool.not_eq_true', Bool.not_eq_false] at hpacked)]
        rw [hfiles]
        generalize decodeTNEF limits.maxPartSize limits.maxPartSize p.content = decoded
        obtain ⟨files, err⟩ := decoded
        dsimp only
        split
        · rename_i hempty
          rw [hempty]
          exact (worse_downgradeIf b _).unpacking (ih hrest hdepths')
        · obtain ⟨happend, hcapped, hopen⟩ :=
            @appendFiles_spec env _ _ _ (hdepths p mem_cons_self) files _ hq
          generalize appendFiles env limits i p.depth files b = r at *
          obtain ⟨b₁, capped⟩ := r
          cases capped with
          | true => exact happend.full (hcapped rfl)
          | false =>
            refine happend.append (hopen rfl)
              ((worse_downgradeIf b₁ _).unpacking (ih (fun k r hr => ?_) hdepths'))
            exact happend.getElem? (hrest k r hr)

/-- The parts after the unpacking: the items, and then their files. -/
theorem extractTNEFParts_spec (h : List.Forall₂ (Finished limits) b.parts items)
    (ht : Tree limits limits.maxDepth b.parts) :
    Unpacking env limits b (extractTNEFParts env limits b)
      (items.flatMap fun item => item.files limits) :=
  extractFrom_spec h (fun k p hp => by rwa [Nat.zero_add]) ht.depth

end Moov.Parser
