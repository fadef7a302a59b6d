import Moov.Blob.Store

/-!
# The file behind a blob row

`Put` looks for the file, and records the row in a later step; the GC deletes the row, and
removes the file in a later step.  Between the two steps of either, the other may act.

* `carefully` — a `Put` only relies on a file whose entry is synced, and the GC only removes
  a file that has no row and that no `Put` is about to record;
* `Backed` — then the file of every row is there, and survives the loss of power;
* `referenced_file_exists` — so a blob that is referenced can be read.
-/

namespace Moov.Blob

open List

open Run (exec states Guarded)

variable {Content : Type} {sha256 : Content → Nat} {w w' : World Content} {a : Action Content}

/-- A `Put` has its file in place and the row is still to come. -/
def Proc.isRecording (sha256 : Content → Nat) (h : Nat) : Proc Content → Bool
  | .put c .syncDir => sha256 c = h
  | .put c .record => sha256 c = h
  | _ => false

def carefully (sha256 : Content → Nat) (w : World Content) : Action Content → Bool
  | .go i =>
      match w.procs[i]? with
      | some (.put c .stat) => (w.fileAt (sha256 c)).all (·.durable)
      | some (.unlink _ h _) => (w.db.rowAt h).isNone && !w.procs.any (Proc.isRecording sha256 h)
      | _ => true
  | _ => true

/-- The file of a hash is there to stay. -/
def Safe (w : World Content) (h : Nat) : Prop :=
  ∃ f ∈ w.files, f.name = h ∧ f.durable = true

/-- What a process counts on. -/
def Proc.Backed (sha256 : Content → Nat) (w : World Content) : Proc Content → Prop
  | .put c .syncDir => ∃ f ∈ w.files, f.name = sha256 c
  | .put c .record => Safe w (sha256 c)
  | _ => True

structure Backed (sha256 : Content → Nat) (w : World Content) : Prop where
  files : ∀ f ∈ w.files, sha256 f.content = f.name
  rows : ∀ row ∈ w.db.blobs, Safe w row.sha
  procs : ∀ p ∈ w.procs, p.Backed sha256 w

/-! ## Rows and files of a step -/

/-- An `UPDATE` of a row keeps its key. -/
lemma sha_update (counts : List BlobRow) (row : BlobRow) :
    ((counts.find? fun c => c.sha = row.sha).getD row).sha = row.sha := by
  cases hc : counts.find? fun c => c.sha = row.sha with
  | none => rfl
  | some => simpa using find?_some hc

/-- What one step of a process does to the rows and to the files. -/
inductive Effect (sha256 : Content → Nat) (w : World Content) :
    Proc Content → World Content → Proc Content → Prop
  /-- The rows and the files are as they were, and the next step counts on nothing. -/
  | still {p w' p'} (hfiles : w'.files = w.files)
      (hrows : ∀ row ∈ w'.db.blobs, ∃ row' ∈ w.db.blobs, row'.sha = row.sha)
      (hp' : ∀ c stage, p' = .put c stage → stage = .rename) : Effect sha256 w p w' p'
  | found {c} (hfile : (w.fileAt (sha256 c)).isSome) :
      Effect sha256 w (.put c .stat) w (.put c .record)
  | rename {c} : Effect sha256 w (.put c .rename)
      { w with
        files := ⟨sha256 c, c, w.files.any fun f => f.name = sha256 c && f.durable⟩ ::
          w.files.filter fun f => f.name ≠ sha256 c }
      (.put c .syncDir)
  | syncDir {c} : Effect sha256 w (.put c .syncDir)
      { w with
        files := w.files.map fun f => if f.name = sha256 c then { f with durable := true } else f }
      (.put c .record)
  | record {c} : Effect sha256 w (.put c .record)
      { w with db := { w.db with blobs := w.db.blobs ++ [⟨sha256 c, 0, some w.clock⟩] } } .done
  | unlink {cutoff h queue} : Effect sha256 w (.unlink cutoff h queue)
      { w with files := w.files.filter fun f => f.name ≠ h } (.gc cutoff queue)

lemma effect_of_advance {others : List Tx} {p p' : Proc Content}
    (h : advance sha256 w others p = some (w', p')) : Effect sha256 w p w' p' := by
  have hsame : ∀ row ∈ w.db.blobs, ∃ row' ∈ w.db.blobs, row'.sha = row.sha :=
    fun row hrow => ⟨row, hrow, rfl⟩
  cases p with
  | put c stage =>
    cases stage with
    | stat =>
      simp only [advance] at h
      split at h
      · rename_i hfile
        cases h
        exact .found hfile
      · cases h
        exact .still rfl hsame fun c stage hp => by cases hp; rfl
    | rename =>
      cases h
      exact .rename
    | syncDir =>
      cases h
      exact .syncDir
    | record =>
      obtain ⟨-, h⟩ := Option.ite_none_left_eq_some.1 h
      split at h
      · cases h
        exact .still rfl hsame nofun
      · cases h
        exact .record
  | tx t after =>
    simp only [advance] at h
    split at h
    · cases h
      have hblobs : ∀ row ∈ (t.commit w.db).blobs, ∃ row' ∈ w.db.blobs, row'.sha = row.sha :=
        fun row hrow => by
        obtain ⟨row', hrow', rfl⟩ := mem_map.1 hrow
        exact ⟨row', mem_of_mem_filter hrow', (sha_update _ _).symm⟩
      refine .still rfl hblobs fun c stage hp => ?_
      cases after with
      | done | expire => cases hp
      | gc =>
        simp only [afterCommit] at hp
        split at hp <;> cases hp
    · cases h
      exact .still rfl hsame nofun
    · split at h
      · cases h
      all_goals
        cases h
        exact .still rfl hsame nofun
  | gc cutoff queue | expire cutoff queue =>
    cases queue <;> cases h <;> exact .still rfl hsame nofun
  | unlink =>
    cases h
    exact .unlink
  | gcScan | expireScan =>
    cases h
    exact .still rfl hsame nofun
  | done => cases h

/-! ## Files stay -/

lemma mem_of_fileAt {h : Nat} {f : File Content} (hf : w.fileAt h = some f) :
    f ∈ w.files ∧ f.name = h :=
  ⟨mem_of_find?_eq_some hf, by simpa using find?_some hf⟩

/-- The files of the hashes in `S` are kept, and those that stay, stay. -/
structure Keeps (w w' : World Content) (S : Nat → Prop) : Prop where
  file : ∀ h, S h → (∃ f ∈ w.files, f.name = h) → ∃ f ∈ w'.files, f.name = h
  safe : ∀ h, S h → Safe w h → Safe w' h

variable {S : Nat → Prop} {p p' : Proc Content} {procs : List (Proc Content)}

lemma Keeps.of_eq (h : w'.files = w.files) : Keeps w w' S :=
  ⟨fun _ _ hf => h ▸ hf, fun _ _ ⟨f, hf, hname⟩ => ⟨f, h ▸ hf, hname⟩⟩

/-- A process counts on as much where its file is kept. -/
lemma Proc.Backed.mono (hp : p.Backed sha256 w)
    (hkeeps : Keeps w w' fun h => p.isRecording sha256 h = true) : p.Backed sha256 w' := by
  cases p with
  | put c stage =>
    cases stage with
    | stat | rename => trivial
    | syncDir => exact hkeeps.file _ (decide_eq_true rfl) hp
    | record => exact hkeeps.safe _ (decide_eq_true rfl) hp
  | _ => trivial

lemma Keeps.mono {S T : Nat → Prop} (h : Keeps w w' S) (hST : ∀ x, T x → S x) : Keeps w w' T :=
  ⟨fun x hx => h.file x (hST x hx), fun x hx => h.safe x (hST x hx)⟩

lemma keeps_rename {c : Content} :
    Keeps w { w with
      files := ⟨sha256 c, c, w.files.any fun f => f.name = sha256 c && f.durable⟩ ::
        w.files.filter fun f => f.name ≠ sha256 c
      procs := procs } S := by
  constructor
  · rintro _ - ⟨f, hf, rfl⟩
    by_cases hname : f.name = sha256 c
    · exact ⟨_, mem_cons_self, hname.symm⟩
    · exact ⟨f, mem_cons_of_mem _ (mem_filter.2 ⟨hf, by simpa using hname⟩), rfl⟩
  · rintro _ - ⟨f, hf, rfl, hdurable⟩
    by_cases hname : f.name = sha256 c
    · refine ⟨_, mem_cons_self, hname.symm, any_eq_true.2 ⟨f, hf, ?_⟩⟩
      simp [hname, hdurable]
    · exact ⟨f, mem_cons_of_mem _ (mem_filter.2 ⟨hf, by simpa using hname⟩), rfl, hdurable⟩

lemma keeps_syncDir {h : Nat} :
    Keeps w { w with
      files := w.files.map fun f => if f.name = h then { f with durable := true } else f
      procs := procs } S := by
  constructor
  · rintro _ - ⟨f, hf, rfl⟩
    refine ⟨_, mem_map_of_mem hf, ?_⟩
    split <;> rfl
  · rintro _ - ⟨f, hf, rfl, hdurable⟩
    refine ⟨_, mem_map_of_mem hf, ?_, ?_⟩
    · split <;> rfl
    · split
      · rfl
      · exact hdurable

lemma keeps_unlink {h : Nat} :
    Keeps w { w with files := w.files.filter fun f => f.name ≠ h, procs := procs } (· ≠ h) := by
  constructor
  · rintro _ hne ⟨f, hf, rfl⟩
    exact ⟨f, mem_filter.2 ⟨hf, by simpa using hne⟩, rfl⟩
  · rintro _ hne ⟨f, hf, rfl, hdurable⟩
    exact ⟨f, mem_filter.2 ⟨hf, by simpa using hne⟩, rfl, hdurable⟩

/-- Another process is where it was, in a world that keeps what it counts on. -/
lemma Backed.others (hw : Backed sha256 w) {i : Nat}
    (hkeeps : ∀ p ∈ w.procs, Keeps w w' fun h => p.isRecording sha256 h = true)
    (hp' : p'.Backed sha256 w') : ∀ p ∈ w.procs.set i p', p.Backed sha256 w' := by
  intro p hp
  rcases mem_or_eq_of_mem_set hp with hold | rfl
  · exact (hw.procs p hold).mono (hkeeps p hold)
  · exact hp'

lemma Backed.go (hw : Backed sha256 w) {i : Nat} {p : Proc Content}
    (hp : w.procs[i]? = some p) (hcare : carefully sha256 w (.go i) = true)
    (heffect : Effect sha256 w p w' p') : Backed sha256 { w' with procs := w.procs.set i p' } := by
  simp only [carefully, hp] at hcare
  have hmem := mem_of_getElem? hp
  cases heffect with
  | still hfiles hrows hp' =>
    refine ⟨fun f hf => hw.files f (hfiles ▸ hf), fun row hrow => ?_,
      hw.others (fun _ _ => .of_eq hfiles) ?_⟩
    · obtain ⟨row', hrow', hsha⟩ := hrows row hrow
      have hkeeps : Keeps w { w' with procs := w.procs.set i p' } fun _ => True := .of_eq hfiles
      exact hsha ▸ hkeeps.safe _ trivial (hw.rows row' hrow')
    · cases p' with
      | put c stage =>
        cases hp' c stage rfl
        trivial
      | _ => trivial
  | @found c hfile =>
    refine ⟨hw.files, hw.rows, hw.others (fun _ _ => .of_eq rfl) ?_⟩
    -- the entry that was found is synced
    obtain ⟨f, hf⟩ := Option.isSome_iff_exists.1 hfile
    have hcare : (w.fileAt (sha256 c)).all (·.durable) = true := hcare
    rw [hf] at hcare
    exact ⟨f, (mem_of_fileAt hf).1, (mem_of_fileAt hf).2, hcare⟩
  | @rename c =>
    refine ⟨fun f hf => ?_, fun row hrow => ?_, hw.others (fun _ _ => keeps_rename) ?_⟩
    · rcases mem_cons.1 hf with rfl | hf
      · rfl
      · exact hw.files f (mem_of_mem_filter hf)
    · exact (@keeps_rename _ sha256 w (fun _ => True) _ c).safe _ trivial (hw.rows row hrow)
    · exact ⟨_, mem_cons_self, rfl⟩
  | @syncDir c =>
    refine ⟨fun f hf => ?_, fun row hrow => ?_, hw.others (fun _ _ => keeps_syncDir) ?_⟩
    · obtain ⟨f', hf', rfl⟩ := mem_map.1 hf
      split <;> exact hw.files f' hf'
    · exact (@keeps_syncDir _ w (fun _ => True) _ (sha256 c)).safe _ trivial (hw.rows row hrow)
    · obtain ⟨f, hf, hname⟩ := hw.procs _ hmem
      refine ⟨_, mem_map_of_mem hf, ?_⟩
      rw [if_pos hname]
      exact ⟨hname, rfl⟩
  | @record c =>
    exact ⟨hw.files, Run.forall_mem_concat hw.rows (hw.procs _ hmem),
      hw.others (fun _ _ => .of_eq rfl) trivial⟩
  | @unlink cutoff x queue =>
    obtain ⟨hrow, hrecording⟩ := Bool.and_eq_true_iff.1 hcare
    refine ⟨fun f hf => hw.files f (mem_of_mem_filter hf), fun row hmemrow => ?_,
      hw.others (fun q hq => keeps_unlink.mono fun y hy => ?_) trivial⟩
    · refine keeps_unlink.safe _ ?_ (hw.rows row hmemrow)
      rintro rfl
      have hnone := Option.isNone_iff_eq_none.1 hrow
      exact find?_eq_none.1 hnone row hmemrow (decide_eq_true rfl)
    · rintro rfl
      have hany := any_eq_true.2 ⟨q, hq, hy⟩
      simp [hany] at hrecording

/-- Where the files are the same and no row and no process is new, nothing is lost. -/
lemma Backed.of_le (hw : Backed sha256 w) (hfiles : w'.files = w.files)
    (hrows : ∀ row ∈ w'.db.blobs, row ∈ w.db.blobs)
    (hprocs : ∀ p ∈ w'.procs, p ∈ w.procs ∨ ∀ w₀, p.Backed sha256 w₀) : Backed sha256 w' where
  files := fun f hf => hw.files f (hfiles ▸ hf)
  rows := fun row hrow =>
    (Keeps.of_eq hfiles : Keeps w w' fun _ => True).safe _ trivial (hw.rows row (hrows row hrow))
  procs := fun p hp => by
    rcases hprocs p hp with hold | hnew
    · exact (hw.procs p hold).mono (.of_eq hfiles)
    · exact hnew w'

lemma Backed.step (hcare : carefully sha256 w a = true)
    (hw : Backed sha256 w) (h : step sha256 w a = some w') : Backed sha256 w' := by
  have hstart : ∀ {p : Proc Content}, started w a = some p →
      Backed sha256 { w with procs := w.procs ++ [p] } := fun {p} hp =>
    hw.of_le rfl (fun _ hrow => hrow) fun q hq => by
      rcases mem_append.1 hq with hold | hnew
      · exact .inl hold
      · rw [mem_singleton.1 hnew]
        refine .inr fun w₀ => ?_
        cases a with
        | put | batch | gc | expirePins => cases hp; trivial
        | _ => cases hp
  cases a with
  | go =>
    simp only [Blob.step] at h
    split at h
    · cases h
    · rename_i p hp
      split at h
      · cases h
      · rename_i w'' p' hadvance
        cases h
        exact hw.go hp hcare (effect_of_advance hadvance)
  | crash =>
    cases h
    refine hw.of_le rfl (fun _ hrow => hrow) fun q hq => ?_
    rcases mem_or_eq_of_mem_set hq with hold | rfl
    · exact .inl hold
    · exact .inr fun _ => trivial
  | powerLoss =>
    cases h
    refine ⟨fun f hf => hw.files f (mem_of_mem_filter hf), fun row hrow => ?_,
      forall_mem_nil _⟩
    obtain ⟨f, hf, hname, hdurable⟩ := hw.rows row hrow
    exact ⟨f, mem_filter.2 ⟨hf, hdurable⟩, hname, hdurable⟩
  | createAccount | tick =>
    cases h
    exact hw.of_le rfl (fun _ hrow => hrow) fun _ hp => .inl hp
  | deleteAccount =>
    obtain ⟨-, ⟨⟩⟩ := Option.ite_none_right_eq_some.1 h
    exact hw.of_le rfl (fun _ hrow => hrow) fun _ hp => .inl hp
  | put | batch | gc | expirePins => cases h; exact hstart rfl

lemma Backed.empty (grace : Nat) : Backed sha256 (World.empty grace) where
  files := forall_mem_nil _
  rows := forall_mem_nil _
  procs := forall_mem_nil _

/-- **The bytes of a referenced blob.**  In every state of a run in which each `Put` relies
on a synced entry and each removal of the GC is of a file without a row that no `Put` is
about to record, a row with a reference has its file, with the bytes of that hash. -/
theorem referenced_file_exists {grace : Nat} {actions : List (Action Content)}
    (hcare : Guarded (step sha256) (fun w a => carefully sha256 w a = true) (.empty grace) actions)
    (hw : w ∈ states (step sha256) (.empty grace) actions) :
    ∀ row ∈ w.db.blobs, w.db.refsAt row.sha ≠ [] →
      ∃ f, w.fileAt row.sha = some f ∧ sha256 f.content = row.sha := by
  have hbacked := Run.inv_of_mem_states (fun _ _ _ hcare hw h => Backed.step hcare hw h)
    (Backed.empty grace) hcare w hw
  intro row hrow _
  obtain ⟨f, hf, hname, -⟩ := hbacked.rows row hrow
  cases hfile : w.fileAt row.sha with
  | none => exact absurd (decide_eq_true hname) (by simpa using find?_eq_none.1 hfile f hf)
  | some f' =>
    obtain ⟨hf', hname'⟩ := mem_of_fileAt hfile
    exact ⟨f', rfl, (hbacked.files f' hf').trans hname'⟩

/-! ### One blob -/

/-- The upload of the bytes `7`, which the GC collects; two more uploads, of which the second
finds the file; and a message that refers to them. -/
def storeAgain : List (Action Nat) :=
  [.createAccount 1, .put 7] ++ replicate 4 (.go 0) ++ [.tick, .gc 10] ++ replicate 7 (.go 1) ++
    [.put 7] ++ replicate 4 (.go 2) ++ [.put 7, .go 3, .go 3] ++
    [.batch [.addRef ⟨7, 1, .message, 5⟩]] ++ replicate 5 (.go 4)

theorem referenced_file_exists_storeAgain :
    ∃ w ∈ states (step id) (.empty 0) storeAgain, w.db.refsAt 7 ≠ [] ∧
      ∃ f, w.fileAt 7 = some f ∧ f.content = 7 := by
  refine ⟨_, mem_of_getElem? (i := 28) rfl, by decide, ?_⟩
  exact @referenced_file_exists Nat id _ 0 storeAgain (by decide +kernel)
    (mem_of_getElem? (i := 28) rfl) ⟨7, 1, none⟩ (by decide) (by decide)

/-- The GC has deleted the row; a `Put` of the same bytes finds the file; the GC removes the
file; the `Put` records the row, and a message refers to it. -/
theorem put_beside_gc_loses_bytes :
    ∃ w ∈ states (step id) (.empty 0)
        [.createAccount 1, .put 7, .go 0, .go 0, .go 0, .go 0, .tick, .gc 10, .go 1, .go 1, .go 1,
          .go 1, .go 1, .go 1, .put 7, .go 2, .go 1, .go 2, .batch [.addRef ⟨7, 1, .message, 5⟩],
          .go 3, .go 3, .go 3, .go 3, .go 3],
      ⟨7, 1, none⟩ ∈ w.db.blobs ∧ w.db.refsAt 7 ≠ [] ∧ (w.fileAt 7).isNone :=
  ⟨_, mem_of_getElem? (i := 23) rfl, by decide, by decide, rfl⟩

-- a `Put` relies on an entry that another one has not synced, and the power fails
example : ∃ w ∈ states (step id) (.empty 0)
        ([.createAccount 1, .put 7, .go 0, .go 0, .put 7, .go 1, .go 1,
          .batch [.addRef ⟨7, 1, .message, 5⟩]] ++ replicate 5 (.go 2) ++ [.powerLoss]),
      ⟨7, 1, none⟩ ∈ w.db.blobs ∧ w.db.refsAt 7 ≠ [] ∧ (w.fileAt 7).isNone :=
  ⟨_, mem_of_getElem? (i := 13) rfl, by decide, by decide, rfl⟩

end Moov.Blob
