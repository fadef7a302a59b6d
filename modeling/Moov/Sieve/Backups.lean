import Moov.Lib.Run
import Moov.Sieve.Manager
import Moov.Sieve.RoundTrip

/-!
# Scripts of others

What `Push` overwrites of the scripts of other clients, who change them between its writes.  A
script that Moov did not generate is copied before it is overwritten, to a name that depends only on
the name it has, and whatever has that name is overwritten.

* `Pushing` — the scripts, the writes that a `Push` has yet to send, and what has been overwritten;
* `safe_push` — no write of a `Push` takes the last copy of a foreign script, if the names of its
  copies are free;
* `kept_of_careful` — the same of a run.
-/

namespace Moov.Sieve

open Scripts List

/-! ## Other clients -/

/-- What another client does. -/
inductive Edit
  | put (name content : List Char)
  | delete (name : List Char)
  | rename (old new : List Char)
  | activate (name : Option (List Char))

def Scripts.edit (s : Scripts) : Edit → Scripts
  | .put name content => s.put name content
  | .delete name => { s with stored := s.stored.filter fun x => x.1 ≠ name }
  | .rename old new =>
      if (s.get old).isSome && (s.get new).isNone then
        { stored := s.stored.map fun x => if x.1 = old then (new, x.2) else x
          active := if s.active = some old then some new else s.active }
      else s
  | .activate name => { s with active := name }

/-- A content is stored under some name. -/
def Scripts.keeps (s : Scripts) (content : List Char) : Bool :=
  s.stored.any fun x => s.get x.1 = some content

/-- The scripts, the environment and the writes of the `Push` that is under way, and the contents
that were overwritten by a `Push`, the last time in this environment, and that no other client
has removed since. -/
structure Pushing where
  scripts : Scripts
  env : GenerateEnv
  pending : List Write
  overwritten : List (GenerateEnv × List Char)

/-- What a write overwrites. -/
def Scripts.overwrites (s : Scripts) : Write → List (List Char)
  | .put name content => (s.get name).toList.filter fun c => c ≠ content
  | .activate _ => []

inductive PushAction
  /-- A `Push` reads the scripts. -/
  | begin (model : Script) (env : GenerateEnv)
  /-- It sends its next write. -/
  | send
  /-- It fails. -/
  | abort
  | edit (e : Edit)

variable (libs : Libs) (server : Server) {model : Script}

def Pushing.step (w : Pushing) : PushAction → Option Pushing
  | .begin model env =>
      if w.pending.isEmpty then
        some { w with env := env.withDefaults, pending := (push libs server w.scripts model env).1 }
      else none
  | .send =>
      match w.pending with
      | [] => none
      | x :: xs =>
          let cs := w.scripts.overwrites x
          some
            { w with
              scripts := w.scripts.apply x
              pending := xs
              overwritten := (w.overwritten.filter fun o => cs.all fun c => c ≠ o.2) ++
                cs.map fun c => (w.env, c) }
  | .abort => some { w with pending := [] }
  | .edit e =>
      let s := w.scripts.edit e
      some
        { w with
          scripts := s
          overwritten := w.overwritten.filter fun o => s.keeps o.2 || !w.scripts.keeps o.2 }

/-- A content that Moov does not generate in an environment. -/
def Foreign (env : GenerateEnv) (content : List Char) : Prop :=
  ∀ model caps, generate libs model env caps ≠ .ok content

/-- A script under Moov's name that `Read` takes for an edited one. -/
def edited (env : GenerateEnv) (raw : List Char) : Bool :=
  match parseManaged libs raw env with
  | .error .notManaged => true
  | .error _ => false
  | .ok (_, drifted) => drifted

/-- A name that is free, or that has this content. -/
def Scripts.vacant (s : Scripts) (name content : List Char) : Bool :=
  (s.get name).all fun d => d = content

/-- The names of the safety copies are vacant. -/
def Scripts.clear (s : Scripts) (env : GenerateEnv) : Bool :=
  ((s.get managedScriptName).all fun raw =>
    !edited libs env raw || s.vacant (backupName managedScriptName) raw) &&
    s.active.all fun name => name = managedScriptName || (s.get name).all fun content =>
      s.vacant (backupName name) content

/-- A `Push` begins where the names of its copies are vacant, and no other client stores, deletes or
renames a script until it ends. -/
def Pushing.careful (w : Pushing) : PushAction → Bool
  | .begin _ env => w.scripts.clear libs env.withDefaults
  | .edit (.activate _) => true
  | .edit _ => w.pending.isEmpty
  | _ => true

/-! ## Names -/

lemma length_backupName (name : List Char) : 12 ≤ (backupName name).length := by
  have hlong : 12 ≤ (withPrefix name).length := by
    rw [withPrefix]
    split
    · rename_i h
      exact (List.isPrefixOf_iff_prefix.1 h).length_le
    · rw [length_append]
      exact Nat.le_add_right _ _
  rw [backupName]
  split
  · rw [length_take]
    omega
  · exact hlong

lemma backupName_ne (name : List Char) : backupName name ≠ managedScriptName := by
  intro h
  have := length_backupName name
  rw [h] at this
  exact absurd this (by decide)

/-- Only the managed script and its copy are copied to that name. -/
lemma eq_of_backupName {name : List Char} (h : backupName name = backupName managedScriptName) :
    name = managedScriptName ∨ name = backupName managedScriptName := by
  have hslot : backupName managedScriptName = backupPrefix ++ managedScriptName := by decide
  rw [backupName] at h
  split at h
  · have hlength := congrArg length h
    rw [length_take] at hlength
    have : (backupName managedScriptName).length = 16 := by decide
    omega
  · rw [withPrefix] at h
    split at h
    · exact .inr h
    · exact .inl (append_cancel_left h)

/-! ## One `Push` -/

variable {libs server} {s s' : Scripts} {name content c raw : List Char} {env : GenerateEnv}
  {state : ManagedState}

lemma keeps_iff : s.keeps c = true ↔ ∃ name, s.get name = some c := by
  have hmem : ∀ {l : List (List Char × List Char)} {name : List Char}, lookup name l = some c →
    ∃ x ∈ l, x.1 = name := by
    intro l name h
    induction l with
    | nil => cases h
    | cons x l ih =>
      rw [lookup] at h
      split at h
      · rename_i heq
        exact ⟨x, mem_cons_self, heq⟩
      · obtain ⟨y, hy, heq⟩ := ih h
        exact ⟨y, mem_cons_of_mem _ hy, heq⟩
  simp only [keeps, any_eq_true, decide_eq_true_eq]
  constructor
  · rintro ⟨x, -, h⟩
    exact ⟨x.1, h⟩
  · rintro ⟨name, h⟩
    obtain ⟨x, hx, rfl⟩ := hmem h
    exact ⟨x, hx, h⟩

/-- Every write leaves a copy of what there is, unless it overwrites what Moov generates. -/
def Safe (libs : Libs) (env : GenerateEnv) : List Write → Scripts → Prop
  | [], _ => True
  | w :: ws, s =>
      (∀ c, (c ∈ s.overwrites w → Foreign libs env c) → s.keeps c = true →
        (s.apply w).keeps c = true) ∧ Safe libs env ws (s.apply w)

/-- What is stored under a vacant name overwrites nothing. -/
lemma get_put_of_vacant (h : s.vacant name content = true) {n : List Char} (hn : s.get n = some c) :
    (s.put name content).get n = some c := by
  rw [get_put]
  split
  · rename_i heq
    subst heq
    rw [vacant, hn, Option.all_some, decide_eq_true_eq] at h
    rw [h]
  · exact hn

/-- A script without drift is generated. -/
lemma generate_of_undrifted (h : parseManaged libs raw env = .ok (model, false)) :
    generate libs model env none = .ok raw := by
  simp only [parseManaged] at h
  split at h
  · cases h
  · split at h
    · cases h
    · split at h
      · cases h
      · split at h
        · cases h
        · simp only [Except.ok.injEq, Prod.mk.injEq, drifts] at h
          obtain ⟨rfl, hdrifts⟩ := h
          split at hdrifts
          · rename_i regen hregen
            rw [hregen, of_not_not (of_decide_eq_false hdrifts)]
          · cases hdrifts

/-- What `Read` says: of a script under Moov's name that it is edited, or else it is generated. -/
lemma read_spec (hread : s.read libs env = .ok state) :
    state.activeScript = s.active.getD [] ∧
      (s.get managedScriptName = none → state.present = false) ∧
      ∀ raw, s.get managedScriptName = some raw →
        state.present = true ∧ state.raw = raw ∧ state.drifted = edited libs env raw ∧
          (Foreign libs env raw → edited libs env raw = true) := by
  cases hraw : s.get managedScriptName with
  | none =>
    simp only [Scripts.read, hraw, Except.ok.injEq] at hread
    subst hread
    exact ⟨rfl, fun _ => rfl, nofun⟩
  | some raw =>
    cases hparse : parseManaged libs raw env with
    | error e =>
      cases e with
      | notManaged =>
        simp only [Scripts.read, hraw, hparse, Except.ok.injEq] at hread
        subst hread
        refine ⟨rfl, fun h => (by cases h), ?_⟩
        rintro _ ⟨⟩
        simp [edited, hparse]
      | _ => simp [Scripts.read, hraw, hparse] at hread
    | ok x =>
      obtain ⟨model, drifted⟩ := x
      simp only [Scripts.read, hraw, hparse, Except.ok.injEq] at hread
      subst hread
      refine ⟨rfl, fun h => (by cases h), ?_⟩
      rintro _ ⟨⟩
      refine ⟨rfl, rfl, by simp only [edited, hparse], fun hforeign => ?_⟩
      cases drifted with
      | true => simp only [edited, hparse]
      | false => exact absurd (generate_of_undrifted hparse) (hforeign _ _)

/-- A script of others under Moov's name has a copy. -/
def Copied (libs : Libs) (env : GenerateEnv) (s : Scripts) : Prop :=
  ∀ raw, s.get managedScriptName = some raw → Foreign libs env raw →
    ∃ name, name ≠ managedScriptName ∧ s.get name = some raw

lemma Copied.put (h : Copied libs env s) (hname : name ≠ managedScriptName)
    (hvacant : s.vacant name content = true) : Copied libs env (s.put name content) := by
  intro raw hraw hforeign
  rw [get_put, if_neg hname.symm] at hraw
  obtain ⟨n, hne, hn⟩ := h raw hraw hforeign
  exact ⟨n, hne, get_put_of_vacant hvacant hn⟩

lemma Copied.safe (h : Copied libs env s) (server : Server) (model : Script) :
    Safe libs env (replaceOwn libs server model env).1 s := by
  rw [replaceOwn]
  split
  · trivial
  · rename_i own _
    split
    · refine ⟨fun c hforeign hc => ?_, fun c _ hc => hc, trivial⟩
      obtain ⟨n, hn⟩ := keeps_iff.1 hc
      rw [apply, keeps_iff]
      by_cases hname : n = managedScriptName
      · subst hname
        by_cases heq : c = own
        · exact ⟨managedScriptName, by rw [get_put, if_pos rfl, heq]⟩
        · have hover : c ∈ s.overwrites (.put managedScriptName own) := by
            simp [overwrites, hn, heq]
          obtain ⟨n, hne, hn⟩ := h c hn (hforeign hover)
          exact ⟨n, by rw [get_put, if_neg hne, hn]⟩
      · exact ⟨n, by rw [get_put, if_neg hname, hn]⟩
    · trivial

lemma Safe.append {a b : List Write} (ha : Safe libs env a s)
    (hb : Safe libs env b (a.foldl Scripts.apply s)) : Safe libs env (a ++ b) s := by
  induction a generalizing s with
  | nil => exact hb
  | cons w a ih => exact ⟨ha.1, ih ha.2 hb⟩

lemma safe_backup (hcopied : Copied libs env (s.put (backupName name) content))
    (hvacant : s.vacant (backupName name) content = true) :
    Safe libs env [backup name content] s ∧
      Copied libs env ([backup name content].foldl Scripts.apply s) :=
  ⟨⟨fun _ _ hc =>
        keeps_iff.2 ((keeps_iff.1 hc).imp fun _ hn => get_put_of_vacant hvacant hn), trivial⟩,
        hcopied⟩

/-- The copy of the active script goes to a vacant name, also after that of the managed one. -/
def Vacates (s : Scripts) (active : List Char) : Prop :=
  active ≠ [] ∧ active ≠ managedScriptName → ∀ f, s.get active = some f →
    s.vacant (backupName active) f = true

lemma Vacates.put {active : List Char} (h : Vacates s active) :
    Vacates (s.put (backupName managedScriptName) raw) active := by
  intro hne f hf
  by_cases hslot : backupName active = backupName managedScriptName
  · have hself := (eq_of_backupName hslot).resolve_left hne.2
    rw [hself, get_put, if_pos rfl, Option.some.injEq] at hf
    simp [vacant, hslot, hf]
  · have hactive : active ≠ backupName managedScriptName := by
      rintro rfl
      exact hslot (by decide)
    rw [get_put, if_neg hactive] at hf
    rw [vacant, get_put, if_neg hslot]
    exact h hne f hf

lemma safe_preserveOwn (hread : s.read libs env = .ok state) (model : Script)
    (hown : ∀ raw, s.get managedScriptName = some raw → edited libs env raw = true →
      s.vacant (backupName managedScriptName) raw = true)
      (hvacates : Vacates s state.activeScript) :
    Safe libs env (preserveOwn libs state model env).1 s ∧
      Copied libs env ((preserveOwn libs state model env).1.foldl Scripts.apply s) ∧
      Vacates ((preserveOwn libs state model env).1.foldl Scripts.apply s) state.activeScript := by
  obtain ⟨-, habsent, hpresent⟩ := read_spec hread
  rw [preserveOwn]
  split
  · rename_i hdrifts
    rw [Bool.and_eq_true] at hdrifts
    cases hraw : s.get managedScriptName with
    | none =>
      rw [habsent hraw] at hdrifts
      cases hdrifts.1
    | some raw =>
      obtain ⟨-, hstate, hdrifted, -⟩ := hpresent raw hraw
      have hvacant := hown raw hraw (hdrifted.symm.trans hdrifts.2)
      rw [hstate]
      refine ⟨(safe_backup ?_ hvacant).1, ?_, hvacates.put⟩ <;>
      · intro raw' hraw' _
        refine ⟨backupName managedScriptName, backupName_ne _, ?_⟩
        have hmoov := get_put_of_vacant hvacant hraw
        have hcopy : (s.put (backupName managedScriptName) raw).get managedScriptName = some raw' :=
          hraw'
        rw [hmoov, Option.some.injEq] at hcopy
        show (s.put (backupName managedScriptName) raw).get _ = _
        rw [get_put, if_pos rfl, hcopy]
  · rename_i hundrifted
    refine ⟨trivial, fun raw hraw hforeign => ?_, hvacates⟩
    obtain ⟨hpres, -, hdrifted, hedited⟩ := hpresent raw hraw
    exact absurd (by rw [hpres, hdrifted, hedited hforeign]; rfl) hundrifted

lemma safe_takeOver {x : List Write × Script} (hcopied : Copied libs env s)
    (hvacates : Vacates s state.activeScript) (h : takeOver s state model = some x) :
    Safe libs env x.1 s ∧ Copied libs env (x.1.foldl Scripts.apply s) := by
  rw [takeOver] at h
  split at h
  · rename_i hne
    obtain ⟨f, hf, rfl⟩ := Option.map_eq_some_iff.1 h
    have hvacant := hvacates hne f hf
    exact safe_backup (hcopied.put (backupName_ne _) hvacant) hvacant
  · cases h
    exact ⟨trivial, hcopied⟩

/-- **One `Push`.**  Its copies go to vacant names, and then the managed script is replaced. -/
theorem safe_push (hclear : s.clear libs env.withDefaults = true) (server : Server)
    (model : Script) :
    Safe libs env.withDefaults (push libs server s model env).1 s := by
  simp only [clear, Bool.and_eq_true, Option.all_eq_true, Bool.or_eq_true, Bool.not_eq_true',
    decide_eq_true_eq] at hclear
  obtain ⟨hown, hactive⟩ := hclear
  simp only [push]
  split
  · trivial
  · rename_i state hread
    have hvacates : Vacates s state.activeScript := by
      rw [(read_spec hread).1]
      rintro ⟨hne, hmoov⟩ f hf
      cases hs : s.active with
      | none => exact absurd (by rw [hs]; rfl) hne
      | some name =>
        rw [hs] at hmoov hf
        exact (hactive name hs).resolve_left hmoov f hf
    obtain ⟨hsafe, hcopied, hvacates⟩ := safe_preserveOwn hread model
      (fun raw hraw hedited => (hown raw hraw).resolve_left (by simp [hedited])) hvacates
    split
    · exact hsafe
    · rename_i foreign htake
      obtain ⟨hsafe', hcopied'⟩ := safe_takeOver hcopied hvacates htake
      refine Safe.append (Safe.append hsafe hsafe') ?_
      rw [foldl_append]
      exact hcopied'.safe server _

/-! ## Runs -/

/-- Every content that a `Push` has overwritten, and that is foreign in its environment, is stored
under some name. -/
def Pushing.Kept (libs : Libs) (w : Pushing) : Prop :=
  ∀ o ∈ w.overwritten, Foreign libs o.1 o.2 → w.scripts.keeps o.2 = true

lemma stored_apply (h : s'.stored = s.stored) (x : Write) :
    (s'.apply x).stored = (s.apply x).stored := by
  cases x with
  | put => rw [apply, apply, put, put, h]
  | activate => exact h

lemma keeps_congr (h : s'.stored = s.stored) (c : List Char) : s'.keeps c = s.keeps c := by
  unfold Scripts.keeps Scripts.get
  rw [h]

/-- It does not matter which script is active. -/
lemma Safe.congr {ws : List Write} (h : s'.stored = s.stored) (hs : Safe libs env ws s) :
    Safe libs env ws s' := by
  induction ws generalizing s s' with
  | nil => trivial
  | cons x ws ih =>
    have hover : s'.overwrites x = s.overwrites x := by
      cases x <;> simp only [overwrites, Scripts.get, h]
    refine ⟨fun c hforeign hc => ?_, ih (stored_apply h x) hs.2⟩
    rw [keeps_congr (stored_apply h x)]
    exact hs.1 c (hover ▸ hforeign) (keeps_congr h c ▸ hc)

lemma step_kept {w w' : Pushing} {a : PushAction} (hcareful : w.careful libs a = true)
    (hkept : w.Kept libs) (hsafe : Safe libs w.env w.pending w.scripts)
    (h : w.step libs server a = some w') :
    w'.Kept libs ∧ Safe libs w'.env w'.pending w'.scripts := by
  cases a with
  | begin model =>
    simp only [Pushing.step, Option.ite_none_right_eq_some, Option.some.injEq] at h
    obtain ⟨-, rfl⟩ := h
    exact ⟨hkept, safe_push hcareful server model⟩
  | send =>
    simp only [Pushing.step] at h
    split at h
    · cases h
    · rename_i x xs hpending
      cases h
      rw [hpending] at hsafe
      refine ⟨fun o ho hforeign => ?_, hsafe.2⟩
      rcases mem_append.1 ho with hold | hnew
      · obtain ⟨hold, hnot⟩ := mem_filter.1 hold
        refine hsafe.1 o.2 (fun hc => ?_) (hkept o hold hforeign)
        exact absurd rfl (of_decide_eq_true (all_eq_true.1 hnot o.2 hc))
      · obtain ⟨c, hc, rfl⟩ := mem_map.1 hnew
        refine hsafe.1 c (fun _ => hforeign) ?_
        -- what is overwritten was stored
        cases x with
        | put name =>
          have hget := Option.mem_toList.1 (mem_filter.1 hc).1
          exact keeps_iff.2 ⟨name, hget⟩
        | activate => cases hc
  | abort =>
    cases h
    exact ⟨hkept, trivial⟩
  | edit e =>
    cases h
    constructor
    · intro o ho hforeign
      obtain ⟨ho, hstill⟩ := mem_filter.1 ho
      simpa [hkept o ho hforeign] using hstill
    · cases e with
      | activate => exact Safe.congr (s := w.scripts) rfl hsafe
      | _ =>
        have hnil : w.pending = [] := isEmpty_iff.1 hcareful
        rw [hnil]
        trivial

/-- In every run from any scripts in which each `Push` begins where the names of its copies are
vacant, and in which no other client changes a content while one is under way, nothing foreign is
lost. -/
theorem kept_of_careful (libs : Libs) (server : Server) (s : Scripts) (env : GenerateEnv)
    (actions : List PushAction) (w : Pushing)
    (hcareful : Run.Guarded (Pushing.step libs server) (fun w a => w.careful libs a = true)
      ⟨s, env, [], []⟩ actions)
    (h : Run.exec (Pushing.step libs server) ⟨s, env, [], []⟩ actions = some w) : w.Kept libs := by
  refine (Run.inv_exec (I := fun w => w.Kept libs ∧ Safe libs w.env w.pending w.scripts) ?_ ?_
    hcareful h).1
  · intro w a w' ha hw hstep
    exact step_kept ha hw.1 hw.2 hstep
  · exact ⟨fun c hc => (by cases hc), trivial⟩

def someServer : Server := ⟨fun _ => true, fun _ => true⟩

/-- What Moov generates begins with its metadata. -/
lemma foreign_of_head {libs : Libs} (h : content.head? ≠ some '/') : Foreign libs env content := by
  intro model caps hgenerate
  obtain ⟨-, -, -, -, rfl⟩ := generate_eq_ok_iff.1 hgenerate
  exact h rfl

/-- A `Push` over a script under Moov's name. -/
def pushOnce (env : GenerateEnv) : List PushAction := [.begin initialModel env, .send, .send, .send]

theorem kept_of_careful_edited :
    ∃ w, Run.exec (Pushing.step someLibs someServer)
        ⟨⟨[(managedScriptName, "keep;".toList)], none⟩, someEnv, [], []⟩
          (pushOnce someEnv) = some w ∧
      w.overwritten.map Prod.snd = ["keep;".toList] ∧ w.scripts.keeps "keep;".toList = true := by
  refine Run.exists_of_guarded (G := fun w a => w.careful someLibs a = true) (by decide +kernel)
    (by decide +kernel) fun w hcareful h hover => ?_
  have hkept := kept_of_careful someLibs someServer _ _ _ w hcareful h
  obtain ⟨o, ho, heq⟩ := mem_map.1 (hover ▸ mem_singleton_self "keep;".toList)
  exact heq ▸ hkept o ho (foreign_of_head (by rw [heq]; decide))

/-- The copy of a second edit takes the place of the copy of the first. -/
theorem second_edit_is_copied_over : (∀ env, Foreign someLibs env "keep;".toList) ∧
    ∃ w, Run.exec (Pushing.step someLibs someServer)
        ⟨⟨[(managedScriptName, "keep;".toList)], none⟩, someEnv, [], []⟩
        (pushOnce someEnv ++ .edit (.put managedScriptName "stop;".toList) :: pushOnce someEnv) =
          some w ∧
      w.pending = [] ∧ "keep;".toList ∈ w.overwritten.map Prod.snd ∧
      w.scripts.keeps "keep;".toList = false :=
  ⟨fun _ => foreign_of_head (by decide), Run.exists_exec (by decide +kernel)⟩

end Moov.Sieve
