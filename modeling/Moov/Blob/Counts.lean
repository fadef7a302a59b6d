import Moov.Blob.Files

/-!
# The count on a blob row

Every helper locks the row of a blob before it touches the references of that blob, and
recounts them before it commits.

* `Sched` — the shape of a call: locks before references, and a recount after them;
* `TxOk` — what a transaction has written, it has written under its locks, and the rows it
  has locked and recounted agree with the references it sees;
* `Counted` — then every committed row agrees with the committed references, as long as no
  account is deleted that still has some (`unreferenced`);
* `refcount_eq_refs` — the count in every state of a run.
-/

namespace Moov.Blob

open List

open Run (exec states Guarded)

variable {Content : Type} {sha256 : Content → Nat} {w w' : World Content} {db db' : Database}
  {t t' : Tx} {h x i now : Nat} {row : BlobRow} {dirty : Option Nat} {rest call : List Stmt}
    {others : List Tx}
  {calls : List (List Stmt)} {p p' : Proc Content} {files : List (File Content)}
  {a : Action Content}

/-- The count of a row is `n`, and it is stamped exactly when that is zero. -/
structure BlobRow.Counts (row : BlobRow) (n : Nat) : Prop where
  refcount : row.refcount = n
  zeroRefSince : row.zeroRefSince.isSome ↔ n = 0

lemma recount_counts (row : BlobRow) (n now : Nat) : (recount row n now).Counts n where
  refcount := rfl
  zeroRefSince := by
    unfold recount
    split
    · simp only [Option.isSome_none, Bool.false_eq_true, false_iff]
      omega
    · split
      · rename_i hsome
        simp only [hsome, true_iff]
        omega
      · simp only [Option.isSome_some, true_iff]
        omega

/-! ## What a transaction sees of one blob -/

lemma Tx.refsAt_eq (t : Tx) (db : Database) (h : Nat) :
    t.refsAt db h = ((db.refsAt h).filter fun r => r ∉ t.removed) ++
      t.inserted.filter fun r => r.sha = h := by
  unfold Tx.refsAt Tx.refs Database.refsAt
  rw [filter_append, filter_filter, filter_filter]
  simp only [Bool.and_comm]

/-- A hash of which the transaction has written nothing. -/
lemma Tx.refsAt_of_untouched (hins : ∀ r ∈ t.inserted, r.sha ≠ h)
    (hrem : ∀ r ∈ t.removed, r.sha ≠ h) : t.refsAt db h = db.refsAt h := by
  have hnew : (t.inserted.filter fun r => r.sha = h) = [] :=
    filter_eq_nil_iff.2 fun r hr => by simpa using hins r hr
  rw [Tx.refsAt_eq, hnew, append_nil, filter_eq_self]
  intro r hr
  have hsha : r.sha = h := by simpa using (mem_filter.1 hr).2
  simpa using fun hin => hrem r hin hsha

lemma Tx.rowAt_of_untouched (hcounts : ∀ c ∈ t.counts, c.sha ≠ h) :
    t.rowAt db h = db.rowAt h := by
  unfold Tx.rowAt
  rw [find?_eq_none.2 fun c hc => by simpa using hcounts c hc]
  cases db.rowAt h <;> rfl

lemma Database.rowAt_sha (hrow : db.rowAt h = some row) : row.sha = h := by
  simpa using find?_some hrow

/-- Two databases agree on a blob. -/
structure SameAt (db db' : Database) (h : Nat) : Prop where
  row : db'.rowAt h = db.rowAt h
  refs : db'.refsAt h = db.refsAt h

lemma SameAt.txRefs (hsame : SameAt db db' h) : t.refsAt db' h = t.refsAt db h := by
  rw [Tx.refsAt_eq, Tx.refsAt_eq, hsame.refs]

/-! ## Commits -/

open Database

lemma commit_rowAt (t : Tx) (db : Database) (h : Nat) :
    (t.commit db).rowAt h = if h ∈ t.collected then none else t.rowAt db h := by
  unfold rowAt Tx.rowAt Tx.commit
  rw [find?_map]
  have hcomp : ((fun row : BlobRow => decide (row.sha = h)) ∘ fun row =>
      (t.counts.find? fun c => c.sha = row.sha).getD row) = fun row => decide (row.sha = h) := by
    funext row
    simp only [Function.comp_apply, sha_update]
  rw [hcomp, find?_filter]
  split
  · rename_i hin
    rw [find?_eq_none.2]
    · rfl
    · intro row _
      simp only [decide_eq_true_eq, not_and]
      rintro hnot rfl
      exact hnot hin
  · rename_i hnot
    have hpred : (fun row : BlobRow => decide ((decide (row.sha ∉ t.collected)) = true ∧
        decide (row.sha = h) = true)) = fun row => decide (row.sha = h) := by
      funext row
      by_cases hrow : row.sha = h
      · simp [hrow, hnot]
      · simp [hrow]
    rw [hpred]
    cases hrow : db.blobs.find? fun row => row.sha = h with
    | none => rw [rowAt, hrow]; rfl
    | some row =>
      have hsha : row.sha = h := by simpa using find?_some hrow
      rw [Option.map_some, hsha, rowAt, hrow, Option.map_some]

lemma commit_refsAt (t : Tx) (db : Database) (h : Nat) : (t.commit db).refsAt h = t.refsAt db h :=
  rfl

/-! ## The shape of a call -/

/-- A call takes a lock before it touches the references of a blob, and recounts them before
it turns to another one; `dirty` is the blob whose references were touched since. -/
def Sched : (locks : List Nat) → (dirty : Option Nat) → List Stmt → Prop
  | _, dirty, [] => dirty = none
  | locks, dirty, .insertMessage _ :: rest => dirty = none ∧ Sched locks none rest
  | locks, dirty, .lock h _ :: rest => dirty = none ∧ Sched (h :: locks) none rest
  | locks, dirty, .lockCollectable h _ :: rest => dirty = none ∧ Sched (h :: locks) none rest
  | locks, dirty, .insertRef r :: rest =>
      r.hash ∈ locks ∧ (dirty = none ∨ dirty = some r.hash) ∧ Sched locks (some r.hash) rest
  | locks, dirty, .deleteRef h _ _ :: rest => h ∈ locks ∧ dirty = none ∧ Sched locks (some h) rest
  | locks, dirty, .deletePins h _ :: rest => h ∈ locks ∧ dirty = none ∧ Sched locks (some h) rest
  | locks, dirty, .syncRefcount h :: rest =>
      h ∈ locks ∧ (dirty = none ∨ dirty = some h) ∧ Sched locks none rest
  | locks, dirty, .deleteBlob h :: rest => h ∈ locks ∧ dirty = none ∧ rest = []

lemma Sched.mono : ∀ {locks locks' : List Nat} {dirty : Option Nat}, (∀ x ∈ locks, x ∈ locks') →
      Sched locks dirty call → Sched locks' dirty call := by
  induction call with
  | nil => exact fun _ hs => hs
  | cons s rest ih =>
    intro locks locks' dirty hsub hs
    have hcons : ∀ x, ∀ y ∈ x :: locks, y ∈ x :: locks' := fun x y hy => by
      rcases mem_cons.1 hy with rfl | hy
      · exact mem_cons_self
      · exact mem_cons_of_mem _ (hsub y hy)
    cases s with
    | insertMessage => exact ⟨hs.1, ih hsub hs.2⟩
    | lock x | lockCollectable x => exact ⟨hs.1, ih (hcons x) hs.2⟩
    | insertRef | deleteRef | deletePins | syncRefcount =>
      exact ⟨hsub _ hs.1, hs.2.1, ih hsub hs.2.2⟩
    | deleteBlob => exact ⟨hsub _ hs.1, hs.2⟩

variable (refs : List Ref)

/-- One blob of `AddRefs`, and what comes after it. -/
lemma sched_addRefGroup (x : Nat) {locks : List Nat}
    (hrest : Sched (x :: locks) none rest) : Sched locks none (addRefGroup refs x ++ rest) := by
  have hinserts : ∀ (group : List Ref), (∀ r ∈ group, r.hash = x) → ∀ dirty,
      (dirty = none ∨ dirty = some x) →
        Sched (x :: locks) dirty (group.map .insertRef ++ ([.syncRefcount x] ++ rest)) := by
    intro group
    induction group with
    | nil => exact fun _ dirty hdirty => ⟨mem_cons_self, hdirty, hrest⟩
    | cons r group ih =>
      intro hgroup dirty hdirty
      have hr : r.hash = x := hgroup r mem_cons_self
      refine ⟨hr ▸ mem_cons_self, hr ▸ hdirty, ?_⟩
      exact ih (fun r' hr' => hgroup r' (mem_cons_of_mem _ hr')) _ (.inr (hr ▸ rfl))
  refine ⟨rfl, ?_⟩
  have := hinserts (refs.filter fun r => r.hash = x)
    (fun r hr => by simpa using (mem_filter.1 hr).2) none (.inl rfl)
  rwa [← append_assoc] at this

lemma sched_addRefs (locks : List Nat) : Sched locks none (addRefs refs) := by
  unfold addRefs
  generalize (refs.map (·.hash)).dedup.insertionSort (· ≤ ·) = order
  induction order generalizing locks with
  | nil => rfl
  | cons x order ih => exact sched_addRefGroup refs x (ih (x :: locks))

/-- The calls of a caller have the shape, and none deletes a row. -/
lemma sched_stmts (c : Call) : Sched [] none c.stmts ∧ ∀ x, Stmt.deleteBlob x ∉ c.stmts := by
  cases c with
  | insertMessage => exact ⟨⟨rfl, rfl⟩, by simp [Call.stmts]⟩
  | addRef => exact ⟨⟨rfl, by simp, .inl rfl, by simp, .inr rfl, rfl⟩, by simp [Call.stmts, addRef]⟩
  | addRefs refs => exact ⟨sched_addRefs refs [], by simp [Call.stmts, Blob.addRefs, addRefGroup]⟩
  | removeRef =>
    exact ⟨⟨rfl, by simp, rfl, by simp, .inr rfl, rfl⟩, by simp [Call.stmts, removeRef]⟩

/-! ## One statement -/

/-- What a transaction has written, it has written under its locks. -/
structure Written (db : Database) (t : Tx) : Prop where
  inserted : ∀ r ∈ t.inserted, r.sha ∈ t.locks
  removed : ∀ r ∈ t.removed, r.sha ∈ t.locks
  counts : ∀ c ∈ t.counts, c.sha ∈ t.locks
  locked : ∀ h ∈ t.locks, (db.rowAt h).isSome
  collected : ∀ h ∈ t.collected, h ∈ t.locks ∧ t.refsAt db h = []

/-- The rows it has locked are recounted, up to the dirty one. -/
def Fresh (db : Database) (t : Tx) (dirty : Option Nat) : Prop :=
  ∀ h ∈ t.locks, dirty ≠ some h → ∀ row, t.rowAt db h = some row → row.Counts (t.refsAt db h).length

/-- The committed rows are counted. -/
def Counted (db : Database) : Prop :=
  ∀ h row, db.rowAt h = some row → row.Counts (db.refsAt h).length

lemma Written.rowAt_of_not_locked (hw : Written db t) (hh : h ∉ t.locks) :
    t.rowAt db h = db.rowAt h :=
  Tx.rowAt_of_untouched fun c hc heq => hh (heq ▸ hw.counts c hc)

lemma Written.refsAt_of_not_locked (hw : Written db t) (hh : h ∉ t.locks) :
    t.refsAt db h = db.refsAt h :=
  Tx.refsAt_of_untouched (fun r hr heq => hh (heq ▸ hw.inserted r hr))
    fun r hr heq => hh (heq ▸ hw.removed r hr)

lemma Fresh.weaken (hf : Fresh db t dirty)
    (hdirty : dirty = none ∨ dirty = some x) : Fresh db t (some x) := by
  intro y hy hne row hrow
  refine hf y hy ?_ row hrow
  rcases hdirty with rfl | rfl
  · exact nofun
  · exact hne

/-- Changes to the references of one blob do not show at another. -/
lemma refsAt_delete {p : RefRow → Bool} (hp : ∀ r, p r = true → r.sha = x) (hh : h ≠ x) :
    (t.delete db p).refsAt db h = t.refsAt db h := by
  rw [Tx.refsAt_eq, Tx.refsAt_eq, Tx.delete]
  rw [filter_filter]
  congr 1
  · refine filter_congr fun r hr => ?_
    have hsha : r.sha = h := by simpa using (mem_filter.1 hr).2
    have hnot : p r ≠ true := fun hpr => hh (hsha.symm.trans (hp r hpr))
    simp [hnot]
  · refine filter_congr fun r _ => ?_
    by_cases hsha : r.sha = h
    · have hnot : p r = false := by
        cases hpr : p r with
        | false => rfl
        | true => exact absurd (hsha.symm.trans (hp r hpr)) hh
      simp [hsha, hnot]
    · simp [hsha]

lemma Written.delete (hw : Written db t) {p : RefRow → Bool}
    (hp : ∀ r, p r = true → r.sha = x) (hx : x ∈ t.locks) (hcol : t.collected = []) :
    Written db (t.delete db p) where
  inserted := fun r hr => hw.inserted r (mem_of_mem_filter hr)
  removed := fun r hr => by
    rcases mem_append.1 hr with hold | hnew
    · exact hw.removed r hold
    · exact (hp r (mem_filter.1 hnew).2) ▸ hx
  counts := hw.counts
  locked := hw.locked
  collected := fun y hy => absurd (hcol ▸ hy) not_mem_nil

lemma Fresh.delete {p : RefRow → Bool} (hf : Fresh db t none)
    (hp : ∀ r, p r = true → r.sha = x) : Fresh db (t.delete db p) (some x) := by
  intro y hy hne row hrow
  rw [refsAt_delete hp fun heq => hne (heq ▸ rfl)]
  exact hf y hy nofun row hrow

lemma Written.lock (hw : Written db t) (hrow : (db.rowAt x).isSome) :
    Written db { t with locks := x :: t.locks } where
  inserted := fun r hr => mem_cons_of_mem _ (hw.inserted r hr)
  removed := fun r hr => mem_cons_of_mem _ (hw.removed r hr)
  counts := fun c hc => mem_cons_of_mem _ (hw.counts c hc)
  locked := forall_mem_cons.2 ⟨hrow, hw.locked⟩
  collected := fun y hy => ⟨mem_cons_of_mem _ (hw.collected y hy).1, (hw.collected y hy).2⟩

/-- A row that is locked anew is as it was committed. -/
lemma Fresh.lock (hw : Written db t) (hdb : Counted db) (hf : Fresh db t none) :
    Fresh db { t with locks := x :: t.locks } none := by
  intro y hy hne row hrow
  by_cases hlocked : y ∈ t.locks
  · exact hf y hlocked hne row hrow
  · have hrow' : db.rowAt y = some row := hw.rowAt_of_not_locked hlocked ▸ hrow
    show row.Counts (t.refsAt db y).length
    rw [hw.refsAt_of_not_locked hlocked]
    exact hdb y row hrow'

lemma Tx.rowAt_sha (hrow : t.rowAt db h = some row) : row.sha = h := by
  unfold Tx.rowAt at hrow
  cases hdb : db.rowAt h with
  | none => rw [hdb] at hrow; cases hrow
  | some row' =>
    rw [hdb, Option.map_some, Option.some.injEq] at hrow
    have hsha := sha_update t.counts row'
    rw [Database.rowAt_sha hdb] at hsha
    rw [← hrow]
    exact hsha

/-- The recount of a row. -/
lemma rowAt_recount {x n : Nat} (hrow : t.rowAt db x = some row) (h : Nat) :
    ({ t with counts := recount row n t.now :: t.counts } : Tx).rowAt db h =
      if h = x then some (recount row n t.now) else t.rowAt db h := by
  have hsha : (recount row n t.now).sha = x := (Tx.rowAt_sha hrow : row.sha = x)
  unfold Tx.rowAt at hrow ⊢
  by_cases hx : h = x
  · subst hx
    rw [if_pos rfl, find?_cons_of_pos (by simpa using hsha)]
    cases hdb : db.rowAt h with
    | none => rw [hdb] at hrow; cases hrow
    | some => rfl
  · rw [if_neg hx, find?_cons_of_neg (by simpa [hsha] using fun heq : x = h => hx heq.symm)]

/-- **One statement.**  Of a call with the shape it leaves a call with the shape, and what
it does not leave dirty is counted; a lock is taken when nobody else has it. -/
theorem exec_next {s : Stmt} (hdb : Counted db) (hw : Written db t) (hcol : t.collected = [])
    (hs : Sched t.locks dirty (s :: rest)) (hf : Fresh db t dirty)
    (h : t.exec db others s = some (.next t')) :
    Written db t' ∧ (∃ dirty', Sched t'.locks dirty' rest ∧ Fresh db t' dirty') ∧
      (t'.collected ≠ [] → rest = [] ∧ ∃ x, s = .deleteBlob x) ∧
      ∀ y ∈ t'.locks, y ∈ t.locks ∨ ∀ o ∈ others, y ∉ o.locks := by
  have hkept : ∀ t₁ : Tx, t₁.collected = t.collected → t₁.locks = t.locks →
      (t₁.collected ≠ [] → rest = [] ∧ ∃ x, s = .deleteBlob x) ∧
      ∀ y ∈ t₁.locks, y ∈ t.locks ∨ ∀ o ∈ others, y ∉ o.locks :=
    fun _ heq hlocks => ⟨fun hne => absurd (heq.trans hcol) hne, fun y hy => .inl (hlocks ▸ hy)⟩
  have htaken : ∀ x, ¬ (others.any fun o => decide (x ∈ o.locks ∨ x ∈ o.shares)) = true →
      ∀ y ∈ x :: t.locks, y ∈ t.locks ∨ ∀ o ∈ others, y ∉ o.locks := by
    intro x hfree y hy
    rcases mem_cons.1 hy with rfl | hy
    · refine .inr fun o ho hin => hfree (any_eq_true.2 ⟨o, ho, ?_⟩)
      exact decide_eq_true (.inl hin)
    · exact .inl hy
  cases s with
  | insertMessage =>
    obtain ⟨-, h⟩ := Option.ite_none_left_eq_some.1 h
    split at h
    · cases h
      obtain ⟨rfl, hs⟩ := hs
      exact ⟨{ hw with }, ⟨none, hs, hf⟩, hkept _ rfl rfl⟩
    · cases h
  | lock x =>
    obtain ⟨hfree, h⟩ := Option.ite_none_left_eq_some.1 h
    split at h
    · rename_i hrow
      cases h
      obtain ⟨rfl, hs⟩ := hs
      exact ⟨hw.lock hrow, ⟨none, hs, Fresh.lock hw hdb hf⟩, fun hne => absurd hcol hne,
        htaken x hfree⟩
    · split at h <;> cases h
  | lockCollectable x =>
    simp only [Tx.exec] at h
    split at h
    · rename_i hcan
      obtain ⟨hfree, ⟨⟩⟩ := Option.ite_none_left_eq_some.1 h
      obtain ⟨rfl, hs⟩ := hs
      have hrow : (db.rowAt x).isSome := by
        cases hdbx : db.rowAt x with
        | none => rw [hdbx] at hcan; cases hcan
        | some => rfl
      exact ⟨hw.lock hrow, ⟨none, hs, Fresh.lock hw hdb hf⟩, fun hne => absurd hcol hne,
        htaken x hfree⟩
    · cases h
  | insertRef r =>
    obtain ⟨hlocked, hdirty, hs⟩ := hs
    simp only [Tx.exec] at h
    split at h
    · cases h
      exact ⟨hw, ⟨_, hs, hf.weaken hdirty⟩, hkept _ rfl rfl⟩
    · split at h
      · cases h
        refine ⟨⟨fun r' hr' => ?_, hw.removed, hw.counts, hw.locked, fun y hy => ?_⟩,
          ⟨_, hs, fun y hy hne row hrow => ?_⟩, hkept _ rfl rfl⟩
        · exact Run.forall_mem_concat hw.inserted hlocked r' hr'
        · exact absurd (hcol ▸ hy) not_mem_nil
        · have hne' : r.hash ≠ y := fun heq => hne (heq ▸ rfl)
          have hrefs : ({ t with
              inserted := t.inserted ++ [⟨r.hash, r.accountID, r.kind, r.ownerID, t.now⟩] } :
              Tx).refsAt
                db y = t.refsAt db y := by
            simp [Tx.refsAt_eq, hne']
          rw [hrefs]
          exact hf.weaken hdirty y hy hne row hrow
      · cases h
  | deleteRef x kind owner =>
    obtain ⟨hlocked, rfl, hs⟩ := hs
    cases h
    have hp : ∀ r : RefRow, decide (r.sha = x ∧ r.kind = kind ∧ r.owner = owner) =
      true → r.sha = x :=
      fun r hr => (of_decide_eq_true hr).1
    exact ⟨hw.delete hp hlocked hcol, ⟨_, hs, hf.delete hp⟩, hkept _ rfl rfl⟩
  | deletePins x cutoff =>
    obtain ⟨hlocked, rfl, hs⟩ := hs
    simp only [Tx.exec] at h
    split at h
    · cases h
      have hp : ∀ r : RefRow, decide (r.sha = x ∧ r.kind = .pin ∧ r.createdAt < cutoff) = true →
          r.sha = x := fun r hr => (of_decide_eq_true hr).1
      exact ⟨hw.delete hp hlocked hcol, ⟨_, hs, hf.delete hp⟩, hkept _ rfl rfl⟩
    · cases h
  | syncRefcount x =>
    obtain ⟨hlocked, hdirty, hs⟩ := hs
    have hf' := hf.weaken hdirty
    simp only [Tx.exec] at h
    split at h
    · rename_i hnone
      cases h
      refine ⟨hw, ⟨none, hs, fun y hy _ row hrow => ?_⟩, hkept _ rfl rfl⟩
      refine hf' y hy (fun heq => ?_) row hrow
      cases heq
      rw [hnone] at hrow
      cases hrow
    · rename_i row hrow
      cases h
      refine ⟨{ hw with counts := fun c hc => ?_ },
        ⟨none, hs, fun y hy _ row' hrow' => ?_⟩, hkept _ rfl rfl⟩
      · rcases mem_cons.1 hc with rfl | hc
        · exact (Tx.rowAt_sha hrow : row.sha = x) ▸ hlocked
        · exact hw.counts c hc
      · rw [rowAt_recount hrow] at hrow'
        split at hrow'
        · rename_i heq
          cases heq
          cases hrow'
          exact recount_counts _ _ _
        · rename_i hne
          exact hf' y hy (fun heq => hne (Option.some.inj heq).symm) row' hrow'
  | deleteBlob x =>
    obtain ⟨hlocked, rfl, rfl⟩ := hs
    simp only [Tx.exec] at h
    split at h
    · rename_i hzero
      split at h
      · cases h
      · cases h
        refine ⟨{ hw with collected := fun y hy => ?_ },
          ⟨none, rfl, hf⟩, fun _ => ⟨rfl, x, rfl⟩, fun _ => .inl⟩
        rcases mem_cons.1 hy with rfl | hy
        · -- a count of zero that is right
          refine ⟨hlocked, ?_⟩
          cases hrow : t.rowAt db y with
          | none => rw [hrow] at hzero; cases hzero
          | some row =>
            rw [hrow] at hzero
            have hcount := (hf y hlocked nofun row hrow).refcount
            have hrc : row.refcount = 0 := by simpa using hzero
            exact length_eq_zero_iff.1 (hcount.symm.trans hrc)
        · exact absurd (hcol ▸ hy) not_mem_nil
    · cases h
      exact ⟨hw, ⟨none, rfl, hf⟩, hkept _ rfl rfl⟩

/-! ## One transaction -/

/-- A transaction under way: the call it is in has the shape for what it left dirty, the
later ones have it from the start, and nothing comes after the deletion of a row. -/
structure TxOk (db : Database) (t : Tx) : Prop where
  written : Written db t
  done : t.collected ≠ [] → ∀ call ∈ t.calls, call = []
  later : ∀ call ∈ t.calls.tail, Sched [] none call ∧ ∀ x, Stmt.deleteBlob x ∉ call
  last : ∀ call ∈ t.calls.head?, ∀ x, Stmt.deleteBlob x ∈ call → t.calls.tail = []
  sched : ∃ dirty, (∀ call ∈ t.calls.head?, Sched t.locks dirty call) ∧
    (t.calls = [] → dirty = none) ∧ Fresh db t dirty

lemma TxOk.begin (hsched : ∀ call ∈ calls, Sched [] none call)
    (hdelete : calls.tail = [] ∨ ∀ call ∈ calls, ∀ x, Stmt.deleteBlob x ∉ call) :
    TxOk db (Tx.begin now calls) where
  written := ⟨forall_mem_nil _, forall_mem_nil _, forall_mem_nil _, forall_mem_nil _,
    forall_mem_nil _⟩
  done := nofun
  later := fun call hcall => by
    refine ⟨hsched call (mem_of_mem_tail hcall), ?_⟩
    rcases hdelete with htail | hnone
    · have htail' : (Tx.begin now calls).calls.tail = [] := htail
      rw [htail'] at hcall
      exact absurd hcall not_mem_nil
    · exact hnone call (mem_of_mem_tail hcall)
  last := fun call hcall x hx => by
    rcases hdelete with htail | hnone
    · exact htail
    · exact absurd hx (hnone call (mem_of_mem_head? hcall) x)
  sched := ⟨none, fun call hcall => hsched call (mem_of_mem_head? hcall), fun _ => rfl,
    forall_mem_nil _⟩

/-- A call is over, or is left with nothing dirty. -/
lemma TxOk.nextCall (ht : TxOk db t) (hcalls : t.calls = call :: calls) (hf : Fresh db t none) :
    TxOk db { t with calls := calls } := by
  have hlater : ∀ c ∈ calls, Sched [] none c ∧ ∀ x, Stmt.deleteBlob x ∉ c := by
    have := ht.later
    rwa [hcalls] at this
  exact {
    written := { ht.written with }
    done := fun hne c hc => ht.done hne c (hcalls ▸ mem_cons_of_mem _ hc)
    later := fun c hc => hlater c (mem_of_mem_tail hc)
    last := fun c hc x hx => absurd hx ((hlater c (mem_of_mem_head? hc)).2 x)
    sched := ⟨none, fun c hc => (hlater c (mem_of_mem_head? hc)).1.mono
      (forall_mem_nil _), fun _ => rfl, hf⟩ }

/-- Nothing of what it relies on has changed. -/
lemma TxOk.same (ht : TxOk db t) (hsame : ∀ h ∈ t.locks, SameAt db db' h) : TxOk db' t where
  written := ⟨ht.written.inserted, ht.written.removed, ht.written.counts,
    fun y hy => (hsame y hy).row ▸ ht.written.locked y hy, fun y hy =>
      ⟨(ht.written.collected y hy).1,
        (hsame y (ht.written.collected y hy).1).txRefs ▸ (ht.written.collected y hy).2⟩⟩
  done := ht.done
  later := ht.later
  last := ht.last
  sched := by
    obtain ⟨dirty, hs, hnil, hf⟩ := ht.sched
    refine ⟨dirty, hs, hnil, fun y hy hne row hrow => ?_⟩
    rw [Tx.rowAt, (hsame y hy).row] at hrow
    rw [(hsame y hy).txRefs]
    exact hf y hy hne row hrow

/-- A statement of the transaction. -/
lemma TxOk.next {st : Stmt}
    (hdb : Counted db) (ht : TxOk db t) (hcalls : t.calls = (st :: rest) :: calls)
    (h : t.exec db others st = some (.next t')) : TxOk db { t' with calls := rest :: calls } ∧
      ∀ y ∈ t'.locks, y ∈ t.locks ∨ ∀ o ∈ others, y ∉ o.locks := by
  obtain ⟨dirty, hs, -, hf⟩ := ht.sched
  rw [hcalls] at hs
  have hcol : t.collected = [] := by
    by_contra hne
    have := ht.done hne (st :: rest) (hcalls ▸ mem_cons_self)
    cases this
  obtain ⟨hw, ⟨dirty', hs', hf'⟩, hover, hlocks⟩ :=
    exec_next hdb ht.written hcol (hs _ rfl) hf h
  have hlater := ht.later
  have hlast := ht.last
  rw [hcalls] at hlater hlast
  refine ⟨{
    written := { hw with }
    done := fun hne c hc => by
      obtain ⟨rfl, x, rfl⟩ := hover hne
      have hnil : calls = [] := hlast _ rfl x mem_cons_self
      subst hnil
      exact mem_singleton.1 hc
    later := hlater
    last := fun c hc x hx => by
      cases hc
      exact hlast _ rfl x (mem_cons_of_mem _ hx)
    sched := ⟨dirty', fun c hc => by cases hc; exact hs', nofun, hf'⟩ }, hlocks⟩

/-- A statement that ends its call has left nothing dirty. -/
lemma TxOk.skip {st : Stmt} (ht : TxOk db t) (hcalls : t.calls = (st :: rest) :: calls)
    (h : t.exec db others st = some .skip) : TxOk db { t with calls := calls } := by
  obtain ⟨dirty, hs, -, hf⟩ := ht.sched
  rw [hcalls] at hs
  refine ht.nextCall hcalls ?_
  have hs := hs _ rfl
  cases st with
  | insertMessage | lock | lockCollectable => exact hs.1 ▸ hf
  | insertRef =>
    simp only [Tx.exec] at h
    split at h
    · cases h
    · split at h <;> cases h
  | deleteRef | deletePins | deleteBlob => exact hs.2.1 ▸ hf
  | syncRefcount =>
    simp only [Tx.exec] at h
    split at h <;> cases h

/-! ## Commits keep the count -/

/-- A reference has a row. -/
def Keyed (db : Database) : Prop :=
  ∀ h, db.rowAt h = none → db.refsAt h = []

lemma TxOk.fresh (ht : TxOk db t) (hcalls : t.calls = []) : Fresh db t none := by
  obtain ⟨dirty, -, hnil, hf⟩ := ht.sched
  exact hnil hcalls ▸ hf

lemma TxOk.commit_counted (ht : TxOk db t) (hcalls : t.calls = []) (hdb : Counted db) :
    Counted (t.commit db) := by
  intro y row hrow
  rw [commit_rowAt] at hrow
  split at hrow
  · cases hrow
  · rw [commit_refsAt]
    by_cases hlocked : y ∈ t.locks
    · exact ht.fresh hcalls y hlocked nofun row hrow
    · rw [ht.written.refsAt_of_not_locked hlocked]
      exact hdb y row (ht.written.rowAt_of_not_locked hlocked ▸ hrow)

lemma TxOk.commit_keyed (ht : TxOk db t) (hdb : Keyed db) : Keyed (t.commit db) := by
  intro y hrow
  rw [commit_rowAt] at hrow
  rw [commit_refsAt]
  split at hrow
  · rename_i hcol
    exact (ht.written.collected y hcol).2
  · have hnone : db.rowAt y = none := by simpa [Tx.rowAt] using hrow
    have hnot : y ∉ t.locks := fun hin => by
      have := ht.written.locked y hin
      rw [hnone] at this
      cases this
    rw [ht.written.refsAt_of_not_locked hnot]
    exact hdb y hnone

lemma TxOk.commit_sameAt (ht : TxOk db t) (hh : h ∉ t.locks) : SameAt db (t.commit db) h where
  row := by
    rw [commit_rowAt, if_neg fun hcol => hh (ht.written.collected h hcol).1,
      ht.written.rowAt_of_not_locked hh]
  refs := by rw [commit_refsAt, ht.written.refsAt_of_not_locked hh]

/-! ## Every process -/

/-- An account is only deleted when it has no references left. -/
def unreferenced (w : World Content) : Action Content → Bool
  | .deleteAccount account => w.db.refs.all fun r => r.account ≠ account
  | _ => true

structure Tidy (w : World Content) : Prop where
  key : w.db.blobs.Pairwise fun a b => a.sha ≠ b.sha
  keyed : Keyed w.db
  counted : Counted w.db
  txs : ∀ t after, .tx t after ∈ w.procs → TxOk w.db t
  apart : ∀ (i j : Nat) t t' a a', w.procs[i]? = some (.tx t a) → w.procs[j]? = some (.tx t' a') →
    i ≠ j → ∀ h ∈ t.locks, h ∉ t'.locks

/-- The new row of a `Put`. -/
lemma rowAt_append (hnone : db.rowAt row.sha = none) (h : Nat) :
    ({ db with blobs := db.blobs ++ [row] } : Database).rowAt h =
      if h = row.sha then some row else db.rowAt h := by
  unfold rowAt at hnone ⊢
  rw [find?_append]
  split
  · rename_i heq
    rw [heq, hnone]
    simp
  · rename_i hne
    have hlast : ([row].find? fun r => r.sha = h) = none :=
      find?_eq_none.2 fun r hr => by
        rw [mem_singleton.1 hr]
        simpa using fun heq : row.sha = h => hne heq.symm
    rw [hlast, Option.or_none]

lemma key_append (hkey : db.blobs.Pairwise fun a b => a.sha ≠ b.sha)
    (hnone : db.rowAt row.sha = none) :
    (db.blobs ++ [row]).Pairwise fun a b => a.sha ≠ b.sha := by
  refine pairwise_append.2 ⟨hkey, pairwise_singleton _ _, fun a ha b hb heq => ?_⟩
  rw [mem_singleton.1 hb] at heq
  exact find?_eq_none.1 hnone a ha (decide_eq_true heq)

/-- Two processes have locked nothing in common. -/
def Apart (p q : Proc Content) : Prop :=
  ∀ t a t' a', p = .tx t a → q = .tx t' a' → ∀ h ∈ t.locks, h ∉ t'.locks

lemma Apart.symm (p q : Proc Content) (h : Apart p q) : Apart q p :=
  fun t a t' a' hq hp x hx hx' => h t' a' t a hp hq x hx' hx

lemma Tidy.apart_procs (hw : Tidy w) (i j : Nat) (p q : Proc Content) (hi : w.procs[i]? = some p)
    (hj : w.procs[j]? = some q) (hij : i ≠ j) : Apart p q := by
  rintro t a t' a' rfl rfl
  exact hw.apart i j t t' a a' hi hj hij

/-- A process takes a step that commits nothing: a transaction it is left with is in order,
and has locked no more than what nobody else has. -/
lemma Tidy.stay (hw : Tidy w)
    (hp : w.procs[i]? = some p) (hok : ∀ t' a', p' = .tx t' a' → TxOk w.db t' ∧ ∀ h ∈ t'.locks,
      (∃ t a, p = .tx t a ∧ h ∈ t.locks) ∨ ∀ o ∈ Blob.txs (w.procs.set i .done), h ∉ o.locks) :
    Tidy { w with files := files, procs := w.procs.set i p' } := by
  refine ⟨hw.key, hw.keyed, hw.counted, fun t after hmem => ?_, fun j k t t' a a' hj hk hjk =>
    Run.apart_set Apart.symm hw.apart_procs ?_ j k _ _ hj hk hjk t a t' a' rfl rfl⟩
  · rcases mem_or_eq_of_mem_set hmem with hold | heq
    · exact hw.txs t after hold
    · exact (hok t after heq.symm).1
  · -- what the process has locked, against another one
    rintro j q hij hj t' a' t a hp' rfl x hx
    rcases (hok t' a' hp').2 x hx with ⟨t₀, a₀, rfl, hx₀⟩ | hfree
    · exact hw.apart i j t₀ t a₀ a hp hj hij x hx₀
    · exact hfree t (mem_filterMap.2 ⟨.tx t a, Run.mem_set_of_ne hj hij, rfl⟩)

/-- A process without a transaction is left. -/
lemma Tidy.leave (hw : Tidy w) (hp : w.procs[i]? = some p) (hnone : p'.tx? = none) :
    Tidy { w with files := files, procs := w.procs.set i p' } :=
  hw.stay hp fun t after heq => by rw [heq] at hnone; cases hnone

/-- The database changes where no other transaction has a lock. -/
lemma Tidy.change (hw : Tidy w)
    (hnone : p'.tx? = none) (hkey : db'.blobs.Pairwise fun a b => a.sha ≠ b.sha)
    (hkeyed : Keyed db')
    (hcounted : Counted db')
    (hsame : ∀ (j : Nat) t a, i ≠ j → w.procs[j]? = some (.tx t a) → ∀ h ∈ t.locks,
      SameAt w.db db' h) :
    Tidy { w with db := db', procs := w.procs.set i p' } := by
  have hother : ∀ (j : Nat) t a, (w.procs.set i p')[j]? = some (.tx t a) →
      i ≠ j ∧ w.procs[j]? = some (.tx t a) := by
    intro j t a hj
    rcases Run.getElem?_set_cases hj with ⟨-, rfl⟩ | hother
    · cases hnone
    · exact hother
  refine ⟨hkey, hkeyed, hcounted, fun t a hmem => ?_, fun j k t t' a a' hj hk hjk => ?_⟩
  · obtain ⟨j, hj⟩ := mem_iff_getElem?.1 hmem
    obtain ⟨hij, hj'⟩ := hother j t a hj
    exact (hw.txs t a (mem_of_getElem? hj')).same (hsame j t a hij hj')
  · exact hw.apart j k t t' a a' (hother j t a hj).2 (hother k t' a' hk).2 hjk

lemma tx?_afterCommit (after : After) : (afterCommit t after : Proc Content).tx? = none := by
  cases after with
  | done | expire => rfl
  | gc =>
    simp only [afterCommit]
    split <;> rfl

lemma Tidy.begin (hw : Tidy w) {after : After} {call : List Stmt} (hp : w.procs[i]? = some p)
    (hsched : Sched [] none call) :
    Tidy { w with procs := w.procs.set i (.tx (.begin now [call]) after) } := by
  refine hw.stay hp fun t a heq => ?_
  cases heq
  exact ⟨.begin (forall_mem_singleton.2 hsched) (.inl rfl), forall_mem_nil _⟩

lemma Tidy.go (hw : Tidy w) (hp : w.procs[i]? = some p)
    (h : advance sha256 w (Blob.txs (w.procs.set i .done)) p = some (w', p')) :
    Tidy { w' with procs := w.procs.set i p' } := by
  cases p with
  | put c stage =>
    cases stage with
    | stat =>
      simp only [advance] at h
      split at h <;>
      · cases h
        exact hw.leave hp rfl
    | rename | syncDir =>
      cases h
      exact hw.leave hp rfl
    | record =>
      obtain ⟨-, h⟩ := Option.ite_none_left_eq_some.1 h
      split at h
      · cases h
        exact hw.leave hp rfl
      · rename_i hsome
        cases h
        have hnone : w.db.rowAt (sha256 c) = none := by simpa using hsome
        have hrow := @rowAt_append w.db ⟨sha256 c, 0, some w.clock⟩ hnone
        refine hw.change rfl (key_append hw.key hnone) (fun y hy => ?_) (fun y row hy => ?_)
          fun j t a _ hj y hy => ?_
        · rw [hrow] at hy
          split at hy
          · cases hy
          · exact hw.keyed y hy
        · rw [hrow] at hy
          split at hy
          · rename_i heq
            cases hy
            have hrefs : w.db.refsAt y = [] := hw.keyed y (heq ▸ hnone)
            exact ⟨congrArg length hrefs.symm, by
              simp only [Option.isSome_some, true_iff]
              exact congrArg length hrefs⟩
          · exact hw.counted y row hy
        · have hlocked := (hw.txs t a (mem_of_getElem? hj)).written.locked y hy
          refine ⟨?_, rfl⟩
          rw [hrow, if_neg]
          rintro rfl
          rw [hnone] at hlocked
          cases hlocked
  | tx t after =>
    have ht := hw.txs t after (mem_of_getElem? hp)
    simp only [advance] at h
    split at h
    · rename_i hcalls
      cases h
      exact hw.change (tx?_afterCommit after) (pairwise_map.2 ((hw.key.filter _).imp fun hne => by
        rwa [sha_update, sha_update])) (ht.commit_keyed hw.keyed)
        (ht.commit_counted hcalls hw.counted) fun j t' a' hij hj y hy =>
          ht.commit_sameAt fun hin => hw.apart i j t t' after a' hp hj hij y hin hy
    · rename_i calls hcalls
      cases h
      have hf : Fresh w.db t none := by
        obtain ⟨dirty, hs, -, hf⟩ := ht.sched
        rw [hcalls] at hs
        have hdirty : dirty = none := hs _ rfl
        exact hdirty ▸ hf
      refine hw.stay hp fun t' a heq => ?_
      cases heq
      exact ⟨ht.nextCall hcalls hf, fun x hx => .inl ⟨t, after, rfl, hx⟩⟩
    · rename_i st rest calls hcalls
      split at h
      · cases h
      · rename_i t' hexec
        cases h
        obtain ⟨ht', hlocks⟩ := ht.next hw.counted hcalls hexec
        refine hw.stay hp fun t₁ a heq => ?_
        cases heq
        exact ⟨ht', fun x hx => (hlocks x hx).imp_left fun hold => ⟨t, after, rfl, hold⟩⟩
      · rename_i hexec
        cases h
        refine hw.stay hp fun t₁ a heq => ?_
        cases heq
        exact ⟨ht.skip hcalls hexec, fun x hx => .inl ⟨t, after, rfl, hx⟩⟩
      · cases h
        exact hw.leave hp rfl
  | gcScan | unlink | expireScan =>
    cases h
    exact hw.leave hp rfl
  | gc cutoff queue =>
    cases queue with
    | nil =>
      cases h
      exact hw.leave hp rfl
    | cons =>
      cases h
      exact hw.begin hp ⟨rfl, mem_cons_self, rfl, rfl⟩
  | expire cutoff queue =>
    cases queue with
    | nil =>
      cases h
      exact hw.leave hp rfl
    | cons =>
      cases h
      exact hw.begin hp ⟨rfl, mem_cons_self, rfl, mem_cons_self, .inr rfl, rfl⟩
  | done => cases h

/-- A process is started. -/
lemma Tidy.start (hw : Tidy w) (hp : started w a = some p) :
    Tidy { w with procs := w.procs ++ [p] } := by
  have hnew : ∀ t after, p = .tx t after → TxOk w.db t ∧ t.locks = [] := by
    rintro t after rfl
    cases a with
    | batch =>
      cases hp
      refine ⟨.begin (fun call hcall => ?_) (.inr fun call hcall => ?_), rfl⟩
      · obtain ⟨c, -, rfl⟩ := mem_map.1 hcall
        exact (sched_stmts c).1
      · obtain ⟨c, -, rfl⟩ := mem_map.1 hcall
        exact (sched_stmts c).2
    | _ => cases hp
  refine ⟨hw.key, hw.keyed, hw.counted, fun t after hmem => ?_, fun j k t t' a a' hj hk hjk =>
    Run.apart_append Apart.symm hw.apart_procs ?_ j k _ _ hj hk hjk t a t' a' rfl rfl⟩
  · rcases mem_append.1 hmem with hold | heq
    · exact hw.txs t after hold
    · exact (hnew t after (mem_singleton.1 heq).symm).1
  · intro q t a _ _ hp' _ x hx
    exact absurd ((hnew t a hp').2 ▸ hx) not_mem_nil

/-- The tables are the same, and so are the processes. -/
lemma Tidy.of_eq (hw : Tidy w) (db' : Database) (hblobs : db'.blobs = w.db.blobs)
    (hrefs : db'.refs = w.db.refs)
    {clock : Nat} : Tidy { w with db := db', clock := clock } := by
  have hsame : ∀ h, SameAt w.db db' h := fun h => by
    constructor
    · rw [rowAt, hblobs, rowAt]
    · rw [refsAt, hrefs, refsAt]
  refine ⟨hblobs ▸ hw.key, fun y hy => ?_, fun y row hy => ?_, fun t a hmem => ?_, hw.apart⟩
  · rw [(hsame y).refs]
    exact hw.keyed y ((hsame y).row ▸ hy)
  · rw [(hsame y).refs]
    exact hw.counted y row ((hsame y).row ▸ hy)
  · exact (hw.txs t a hmem).same fun y _ => hsame y

lemma Tidy.step (hdelete : unreferenced w a = true) (hw : Tidy w)
    (h : step sha256 w a = some w') : Tidy w' := by
  cases a with
  | go =>
    simp only [Blob.step] at h
    split at h
    · cases h
    · rename_i p hp
      split at h
      · cases h
      · rename_i w'' p' hadvance
        cases h
        exact hw.go hp hadvance
  | crash i =>
    cases h
    by_cases hi : i < w.procs.length
    · exact hw.leave (getElem?_eq_getElem hi) rfl
    · rw [set_eq_of_length_le (Nat.le_of_not_lt hi)]
      exact hw
  | powerLoss =>
    cases h
    exact ⟨hw.key, hw.keyed, hw.counted, (by simp),
      (by simp)⟩
  | createAccount account =>
    cases h
    exact hw.of_eq { w.db with accounts := account :: w.db.accounts } rfl rfl
  | deleteAccount account =>
    obtain ⟨-, ⟨⟩⟩ := Option.ite_none_right_eq_some.1 h
    -- the cascade finds nothing
    have hrefs := filter_eq_self.2 fun r hr => all_eq_true.1 hdelete r hr
    exact hw.of_eq (w.db.deleteAccount account) rfl hrefs
  | tick =>
    cases h
    exact hw.of_eq w.db rfl rfl
  | put c => cases h; exact hw.start (a := .put c) rfl
  | batch calls => cases h; exact hw.start (a := .batch calls) rfl
  | gc limit => cases h; exact hw.start (a := .gc limit) rfl
  | expirePins maxAge limit => cases h; exact hw.start (a := .expirePins maxAge limit) rfl

lemma Tidy.empty (grace : Nat) : Tidy (World.empty grace : World Content) where
  key := .nil
  keyed := fun _ _ => rfl
  counted := nofun
  txs := nofun
  apart := nofun

lemma Tidy.rowAt_of_mem (hw : Tidy w) (hrow : row ∈ w.db.blobs) :
    w.db.rowAt row.sha = some row := by
  cases hfind : w.db.rowAt row.sha with
  | none => exact absurd (decide_eq_true rfl) (find?_eq_none.1 hfind row hrow)
  | some row' =>
    have hmem : row' ∈ w.db.blobs := mem_of_find?_eq_some hfind
    have hinj := inj_on_of_nodup_map (f := BlobRow.sha) (pairwise_map.2 hw.key) hmem hrow
    rw [hinj (rowAt_sha hfind)]

/-- **The count.**  In every state of a run in which an account is only deleted once its
references are gone, each row has the number of its references as its count, is stamped
exactly when there are none, and is then collected by a GC whose cutoff is past the stamp. -/
theorem refcount_eq_refs {grace : Nat} {actions : List (Action Content)}
    (hdelete : Guarded (step sha256) (fun w a => unreferenced w a = true) (.empty grace) actions)
    (hw : w ∈ states (step sha256) (.empty grace) actions) :
    ∀ row ∈ w.db.blobs, row.refcount = (w.db.refsAt row.sha).length ∧
      (row.zeroRefSince.isSome ↔ w.db.refsAt row.sha = []) ∧
      (w.db.refsAt row.sha = [] → ∃ since, row.zeroRefSince = some since ∧
        ∀ cutoff, since < cutoff → row.collectable cutoff = true) := by
  have htidy := Run.inv_of_mem_states (fun _ _ _ hd hw h => Tidy.step hd hw h) (Tidy.empty grace)
    hdelete w hw
  intro row hrow
  obtain ⟨hcount, hzero⟩ := htidy.counted row.sha row (htidy.rowAt_of_mem hrow)
  rw [length_eq_zero_iff] at hzero
  refine ⟨hcount, hzero, fun hnone => ?_⟩
  obtain ⟨since, hsince⟩ := Option.isSome_iff_exists.1 (hzero.2 hnone)
  refine ⟨since, hsince, fun cutoff hlt => ?_⟩
  rw [hnone] at hcount
  simp [BlobRow.collectable, hcount, hsince, hlt]

/-- The upload of the bytes `7`, and a message that refers to them. -/
def storeOne : List (Action Nat) :=
  [.createAccount 1, .put 7, .go 0, .go 0, .go 0, .go 0, .batch [.addRef ⟨7, 1, .message, 5⟩],
    .go 1, .go 1, .go 1, .go 1, .go 1]

/-- A message is stored, its reference is dropped, and the account goes. -/
def dropOne : List (Action Nat) :=
  storeOne ++ [.batch [.removeRef 7 .message 5], .go 2, .go 2, .go 2, .go 2, .go 2,
    .deleteAccount 1]

theorem refcount_eq_refs_dropOne : ∃ w ∈ states (step id) (.empty 0) dropOne, ∃ row ∈ w.db.blobs,
      row.refcount = (w.db.refsAt 7).length ∧ row.collectable 1 = true := by
  refine ⟨_, mem_of_getElem? (i := 18) rfl, ⟨7, 0, some 0⟩, by decide, ?_, by decide⟩
  exact (@refcount_eq_refs Nat id _ 0 dropOne (by decide +kernel)
    (mem_of_getElem? (i := 18) rfl) ⟨7, 0, some 0⟩ (by decide)).1

/-- The cascade of a deleted account takes the reference, and the row keeps its count: no GC
will ever take it. -/
theorem deleted_account_leaves_count :
    ∃ w ∈ states (step id) (.empty 0) (storeOne ++ [.deleteAccount 1]),
      w.db.blobs = [⟨7, 1, none⟩] ∧ w.db.refs = [] ∧
        ∀ cutoff, (⟨7, 1, none⟩ : BlobRow).collectable cutoff = false :=
  ⟨_, mem_of_getElem? (i := 12) rfl, rfl, rfl, fun _ => rfl⟩

end Moov.Blob
