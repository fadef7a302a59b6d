import Moov.Sieve.Account
import Moov.Sieve.Redirects

/-!
# The stored model stays valid

`Validate` looks up the address of every rule, and `DestroyForwardingAddress` asks the enabled ones
only: the address of a disabled rule can go, and the model that is stored is not valid any more.

* `Settled` — the scripts of an account that no one else has edited;
* `step_settled` — what a request leaves, if it does no harm;
* `stays_valid` — the same of a run.
-/

namespace Moov.Sieve

open List

/-- The model that `Read` finds. -/
def Account.model (setup : Setup) (a : Account) : Script :=
  match a.scripts.read setup.libs (a.env setup) with
  | .ok state => state.model
  | .error _ => initialModel

/-- A disabled rule forwards to an address. -/
def pausedTo (libs : Libs) (model : Script) (target : List Char) : Bool :=
  model.rules.any fun r => !r.enabled && libs.toLower r.actions.forward = target

/-- The requests that do no harm: no text that goes to the script has the marker of the external
section, and no address is destroyed to which a disabled rule forwards. -/
def Careful (setup : Setup) (a : Account) : Request → Prop
  | .change _ c => Unmarked (texts setup.libs (a.env setup).withDefaults (c.apply (a.model setup)))
  | .destroy id =>
      (a.addresses[id]?.join.all fun row => !pausedTo setup.libs (a.model setup)
        (setup.libs.toLower row.email)) = true
  | _ => True

instance (setup : Setup) (a : Account) (r : Request) : Decidable (Careful setup a r) :=
  match r with
  | .change _ _ => inferInstanceAs (Decidable (Unmarked _))
  | .destroy _ => inferInstanceAs (Decidable (_ = true))
  | .create _ _ | .verify _ => .isTrue trivial

variable {setup : Setup} {rows rows' : List (Option ForwardingAddress)} {model : Script}
  {text e : List Char} {s : Scripts}

/-! ## The stored model -/

/-- A model in the script that is generated from it, as `ParseManaged` finds it. -/
structure Holds (setup : Setup) (rows : List (Option ForwardingAddress)) (model : Script)
    (text : List Char) : Prop where
  version : model.version = metadataVersion
  body : model.externalBody = []
  generated : generate setup.libs model (generateEnv setup.folders rows) (some setup.server.caps) =
    .ok text
  unmarked : Unmarked (texts setup.libs (generateEnv setup.folders rows).withDefaults model)

lemma Holds.parse (h : Holds setup rows model text) :
    parseManaged setup.libs text (generateEnv setup.folders rows) = .ok (model, false) :=
  (parseManaged_empty_iff h.version h.body h.generated).2 (.inl h.unmarked)

lemma targets_subset_looksUp (model : Script) : targets model ⊆ looksUp model := by
  intro a ha
  rw [targets, mem_append] at ha
  rw [looksUp, mem_append]
  refine ha.imp_left fun h => ?_
  obtain ⟨r, hr, rfl⟩ := mem_map.1 h
  exact mem_map_of_mem (mem_filter.1 hr).1

/-- A script does not depend on the accepted addresses, as long as those of the model are. -/
lemma Holds.congr (h : Holds setup rows model text)
    (hv : ∀ a ∈ looksUp model, acceptedForwarding rows (setup.libs.toLower a) = true →
      acceptedForwarding rows' (setup.libs.toLower a) = true) : Holds setup rows' model text := by
  obtain ⟨hvalid, htargets, hmarshals, hcollides, htext⟩ := generate_eq_ok_iff.1 h.generated
  refine ⟨h.version, h.body, generate_eq_ok_iff.2 ⟨?_, ?_, hmarshals, hcollides, htext⟩, h.unmarked⟩
  · exact validate_of_verified hvalid hv
  · intro a ha
    exact hv a (targets_subset_looksUp model ha) (htargets a ha)

/-- The model of an account without a script. -/
lemma holds_initial (setup : Setup) (rows : List (Option ForwardingAddress)) :
    ∃ text, Holds setup rows initialModel text := by
  refine ⟨_, rfl, rfl, generate_eq_ok_iff.2 ⟨rfl, fun a ha => ?_, rfl, fun v hv => ?_, rfl⟩, ?_⟩
  · cases ha
  · cases hv
  · intro t ht
    cases ht

/-! ## The scripts of an account -/

/-- The server has no script, or the one of a valid model; no other is active. -/
structure Settled (setup : Setup) (rows : List (Option ForwardingAddress))
    (s : Scripts) : Prop where
  active : s.active = none ∨ s.active = some managedScriptName
  stored : s.stored = [] ∨ ∃ model text, s.stored = [(managedScriptName, text)] ∧
    Holds setup rows model text

lemma Settled.put (h : Settled setup rows s) (hm : Holds setup rows model text) :
    Settled setup rows (s.put managedScriptName text) := by
  refine ⟨h.active, .inr ⟨model, text, ?_, hm⟩⟩
  rcases h.stored with hs | ⟨model', text', hs, -⟩
  · simp [Scripts.put, hs, replace]
  · simp [Scripts.put, hs, replace]

/-- What `Read` returns of settled scripts: a valid model without drift. -/
structure Ready (setup : Setup) (rows : List (Option ForwardingAddress)) (state : ManagedState) :
    Prop where
  holds : ∃ text, Holds setup rows state.model text
  undrifted : (state.present && state.drifted) = false
  ours : ¬ (state.activeScript ≠ [] ∧ state.activeScript ≠ managedScriptName)

lemma Settled.read (h : Settled setup rows s) :
    ∃ state, s.read setup.libs (generateEnv setup.folders rows) = .ok state ∧
      Ready setup rows state := by
  have hours : ¬ (s.active.getD [] ≠ [] ∧ s.active.getD [] ≠ managedScriptName) := by
    rintro ⟨hne, hother⟩
    rcases h.active with hnone | hours
    · exact hne (by rw [hnone]; rfl)
    · exact hother (by rw [hours]; rfl)
  rcases h.stored with hs | ⟨model, text, hs, hm⟩
  · refine ⟨s.listed, ?_, holds_initial setup rows, rfl, hours⟩
    simp only [Scripts.read, Scripts.get, hs, lookup]
  · refine ⟨{ s.listed with present := true, raw := text, model := model, drifted := false }, ?_,
      ⟨text, hm⟩, rfl, hours⟩
    simp only [Scripts.read, Scripts.get, hs, lookup, if_true, hm.parse]

lemma Account.model_eq {a : Account} {state : ManagedState}
    (h : a.scripts.read setup.libs (a.env setup) = .ok state) :
    a.model setup = state.model := by
  simp only [Account.model, h]

/-! ## Pushes -/

variable {c : Change} {state : ManagedState}

/-- The model that a change makes is stored as it is. -/
lemma Holds.apply (hstate : Ready setup rows state)
    (hmarks : Unmarked
      (texts setup.libs (generateEnv setup.folders rows).withDefaults (c.apply state.model)))
    (h : generate setup.libs { c.apply state.model with version := metadataVersion }
      (generateEnv setup.folders rows) (some setup.server.caps) = .ok text) :
    Holds setup rows (c.apply state.model) text := by
  obtain ⟨text', hm⟩ := hstate.holds
  have hversion : (c.apply state.model).version = metadataVersion := by
    cases c with
    | vacation | filters => exact hm.version
  have hbody : (c.apply state.model).externalBody = [] := by
    cases c with
    | vacation | filters => exact hm.body
  rw [← hversion] at h
  exact ⟨hversion, hbody, h, hmarks⟩

/-- What a push writes where nothing has been edited. -/
lemma Ready.push_eq (hready : Ready setup rows state)
    (hread : s.read setup.libs (generateEnv setup.folders rows) = .ok state) :
    push setup.libs setup.server s model (generateEnv setup.folders rows) =
      replaceOwn setup.libs setup.server model (generateEnv setup.folders rows).withDefaults := by
  simp only [push, Scripts.read_withDefaults, hread, preserveOwn, hready.undrifted,
    Bool.false_eq_true, if_false, takeOver, if_neg hready.ours, nil_append]

/-- However far a push gets, the scripts are settled. -/
lemma Settled.push (hs : Settled setup rows s)
    (hread : s.read setup.libs (generateEnv setup.folders rows) = .ok state)
    (hmarks : Unmarked (texts setup.libs (generateEnv setup.folders rows).withDefaults
      (c.apply state.model))) (done : Nat) :
    Settled setup rows
      (((Sieve.push setup.libs setup.server s (c.apply state.model)
        (generateEnv setup.folders rows)).1.take
      done).foldl Scripts.apply s) := by
  obtain ⟨state', hread', hready⟩ := hs.read
  rw [hread, Except.ok.injEq] at hread'
  subst hread'
  rw [hready.push_eq hread, replaceOwn, generate_withDefaults]
  split
  · rw [take_nil]
    exact hs
  · rename_i content hgenerate
    have hput := hs.put (Holds.apply hready hmarks hgenerate)
    split
    · rcases done with _ | _ | done
      · exact hs
      · exact hput
      · rw [take_of_length_le (by simp)]
        exact ⟨.inr rfl, hput.stored⟩
    · rw [take_nil]
      exact hs

/-- A change that an account without a script can make can be made to a valid model. -/
lemma Holds.generate_apply (hm : Holds setup rows model text) {text' : List Char}
    (hc : generate setup.libs (c.apply initialModel) (generateEnv setup.folders rows)
      (some setup.server.caps) = .ok text') :
    ∃ text'', generate setup.libs (c.apply model) (generateEnv setup.folders rows)
      (some setup.server.caps) = .ok text'' := by
  obtain ⟨hvalid, htargets, hmarshals, hcollides, -⟩ := generate_eq_ok_iff.1 hm.generated
  obtain ⟨hvalid', htargets', hmarshals', hcollides', -⟩ := generate_eq_ok_iff.1 hc
  obtain ⟨hrules, hvacation, hall, hext⟩ := validate_eq_nil_iff.1 hvalid
  obtain ⟨hrules', hvacation', hall', hext'⟩ := validate_eq_nil_iff.1 hvalid'
  -- every part of the changed model is one of the two others'
  have hboth : ∀ ext ∈ extensions (c.apply model), setup.server.caps ext = true := by
    intro ext h
    have hor : ext ∈ extensions model ∨ ext ∈ extensions (c.apply initialModel) := by
      cases c <;> simp only [extensions, mem_append, Change.apply] at h ⊢ <;> tauto
    exact hor.elim (hext ext) (hext' ext)
  cases c with
  | vacation =>
    exact ⟨_, generate_eq_ok_iff.2 ⟨validate_eq_nil_iff.2 ⟨hrules, hvacation', hall, hboth⟩,
      htargets, hmarshals', hcollides', rfl⟩⟩
  | filters =>
    exact ⟨_, generate_eq_ok_iff.2 ⟨validate_eq_nil_iff.2 ⟨hrules', hvacation, hall', hboth⟩,
      htargets', hmarshals, hcollides, rfl⟩⟩

/-! ## Requests -/

lemma Settled.congr (h : Settled setup rows s)
    (hread : s.read setup.libs (generateEnv setup.folders rows) = .ok state)
    (hv : ∀ a ∈ looksUp state.model, acceptedForwarding rows (setup.libs.toLower a) = true →
      acceptedForwarding rows' (setup.libs.toLower a) = true) : Settled setup rows' s := by
  refine ⟨h.active, h.stored.imp_right ?_⟩
  rintro ⟨model, text, hs, hm⟩
  simp only [Scripts.read, Scripts.get, hs, lookup, if_true, hm.parse, Except.ok.injEq] at hread
  subst hread
  exact ⟨model, text, hs, hm.congr hv⟩

variable {a a' : Account}

/-- An address that is looked up is not the one that is destroyed: an enabled redirect is in use,
and there is no disabled one. -/
lemma accepted_of_destroyed
    (hlower : ∀ t, setup.libs.toLower (setup.libs.toLower t) = setup.libs.toLower t) {id : Nat}
    {row : ForwardingAddress} (hrow : rows[id]?.join = some row)
    (hused : redirectsTo setup.libs model (setup.libs.toLower row.email) = false)
    (hpaused : pausedTo setup.libs model (setup.libs.toLower row.email) = false) :
    ∀ x ∈ looksUp model, acceptedForwarding rows (setup.libs.toLower x) = true →
      acceptedForwarding (rows.set id none) (setup.libs.toLower x) = true := by
  intro x hx haccepted
  have hne : setup.libs.toLower x ≠ setup.libs.toLower row.email := by
    simp only [redirectsTo, pausedTo, Bool.or_eq_false_iff, any_eq_false, Bool.and_eq_true,
      decide_eq_true_eq, not_and, Bool.not_eq_true', Option.any_eq_false] at hused hpaused
    rcases mem_append.1 hx with hx | hx
    · obtain ⟨r, hr, rfl⟩ := mem_map.1 hx
      cases henabled : r.enabled with
      | true => exact hused.2 r hr henabled
      | false => exact hpaused r hr henabled
    · obtain ⟨f, hf, rfl⟩ := mem_map.1 hx
      obtain ⟨hf, henabled⟩ := mem_filter.1 hf
      simpa [henabled] using hused.1 f (Option.mem_toList.1 hf)
  simp only [acceptedForwarding, any_eq_true, Option.any_eq_true, Bool.and_eq_true,
    decide_eq_true_eq] at haccepted ⊢
  obtain ⟨_, hmem, f, rfl, hf, hemail⟩ := haccepted
  refine ⟨some f, ?_, f, rfl, hf, hemail⟩
  obtain ⟨i, hi⟩ := mem_iff_getElem?.1 hmem
  refine mem_iff_getElem?.2 ⟨i, ?_⟩
  rw [getElem?_set_ne, hi]
  rintro rfl
  rw [hi] at hrow
  cases hrow
  exact hne (by rw [hemail, hlower])

lemma accepted_accept {email : List Char} (h : acceptedForwarding rows e = true) :
    acceptedForwarding (rows.map (Option.map (·.acceptIf email))) e = true := by
  simp only [acceptedForwarding, any_eq_true, Option.any_eq_true, Bool.and_eq_true,
    decide_eq_true_eq] at h ⊢
  obtain ⟨_, hmem, f, rfl, hf, hemail⟩ := h
  refine ⟨some (f.acceptIf email), mem_map.2 ⟨some f, hmem, rfl⟩, f.acceptIf email, rfl, ?_⟩
  rw [ForwardingAddress.acceptIf]
  split
  · exact ⟨rfl, hemail⟩
  · exact ⟨hf, hemail⟩

/-- A request that does no harm leaves the account settled. -/
theorem step_settled
    (hlower : ∀ t, setup.libs.toLower (setup.libs.toLower t) = setup.libs.toLower t) {r : Request}
    (h : Settled setup a.addresses a.scripts) (hc : Careful setup a r)
    (hstep : step setup a r = some a') :
    Settled setup a'.addresses a'.scripts := by
  obtain ⟨state, hread, -⟩ := h.read
  have hmodel : a.model setup = state.model := Account.model_eq hread
  cases r with
  | change done =>
    cases hstep
    rw [Careful, hmodel] at hc
    simp only [pushManaged, Account.env, hread]
    exact h.push hread hc done
  | create =>
    cases hstep
    simp only [createForwardingAddress]
    split
    · exact h
    · split
      · exact h
      · split <;> exact h.congr hread fun x _ hx => by simp_all [acceptedForwarding]
  | verify email =>
    cases hstep
    cases email with
    | none => exact h
    | some =>
      simp only [verifyForwarding]
      split
      · exact h.congr hread fun x _ hx => accepted_accept hx
      · exact h
  | destroy id =>
    cases hstep
    simp only [destroyForwardingAddress, Account.env, hread]
    cases hrow : a.addresses[id]?.join with
    | none => exact h
    | some =>
      rw [Careful, hrow, hmodel] at hc
      dsimp only
      split
      · exact h
      · rename_i hused
        exact h.congr hread
          (accepted_of_destroyed hlower hrow (by simpa using hused) (by simpa using hc))

/-- The stored model is valid with the addresses that are accepted now, `ParseManaged` reports no
drift, and a change that an account without a script can make is not refused. -/
structure Sound (setup : Setup) (a : Account) : Prop where
  valid : ∀ text, a.scripts.get managedScriptName = some text → ∃ model,
    parseManaged setup.libs text (a.env setup) = .ok (model, false) ∧
      validate setup.libs model (a.env setup) (some setup.server.caps) = []
  pushes : ∀ c text,
    generate setup.libs (c.apply initialModel) (a.env setup) (some setup.server.caps) = .ok text →
    ∃ text', generate setup.libs (c.apply (a.model setup)) (a.env setup)
      (some setup.server.caps) = .ok text' ∧
      (setup.server.accepts text' = true → ∀ done, 2 ≤ done →
        (pushManaged setup done a c).2 = .ok ())

lemma Settled.sound (h : Settled setup a.addresses a.scripts) : Sound setup a where
  valid text hget := by
    rcases h.stored with hs | ⟨model, text', hs, hm⟩
    · rw [Scripts.get, hs] at hget
      cases hget
    · rw [Scripts.get, hs, lookup, if_pos rfl, Option.some.injEq] at hget
      subst hget
      exact ⟨model, hm.parse, (generate_eq_ok_iff.1 hm.generated).1⟩
  pushes c text hc := by
    obtain ⟨state, hread, hready⟩ := h.read
    obtain ⟨_, hm⟩ := hready.holds
    have hmodel := Account.model_eq hread
    obtain ⟨text', htext'⟩ := hm.generate_apply hc
    have hversion : { c.apply state.model with version := metadataVersion } =
      c.apply state.model := by
      cases c <;> rw [← hm.version] <;> rfl
    refine ⟨text', hmodel ▸ htext', fun haccepts done hdone => ?_⟩
    simp only [pushManaged, Account.env, hread, hready.push_eq hread, replaceOwn, hversion,
      generate_withDefaults, htext', haccepts, if_true]
    exact if_neg (Nat.not_lt.2 hdone)

/-- In every run from the empty account whose requests do no harm, the stored model stays valid. -/
theorem stays_valid (setup : Setup)
    (hlower : ∀ t, setup.libs.toLower (setup.libs.toLower t) = setup.libs.toLower t)
    (requests : List Request) (a : Account)
    (hcareful : Run.Guarded (step setup) (Careful setup) .empty requests)
    (h : Run.exec (step setup) .empty requests = some a) : Sound setup a := by
  have hempty : Settled setup Account.empty.addresses Account.empty.scripts := ⟨.inl rfl, .inl rfl⟩
  have hsettled := Run.inv_exec (I := fun a => Settled setup a.addresses a.scripts)
    (fun _ _ _ hc hs hstep => step_settled hlower hs hc hstep) hempty hcareful h
  exact hsettled.sound

def someSetup : Setup := ⟨someLibs, ⟨[], [], []⟩, ⟨fun _ => true, fun _ => true⟩⟩

/-- A verified address, and a rule that forwards to it. -/
def forwarding (enabled : Bool) : List Request :=
  [.create true "b@c".toList, .verify (some "b@c".toList),
    .change 2 (.filters
    ((forwardingFilter "r1".toList).rules.map fun r => { r with enabled := enabled }) .zero),
    .destroy 0]

theorem stays_valid_forwarding : ∃ a, Run.exec (step someSetup) .empty (forwarding true) = some a ∧
    a.addresses = [some ⟨"b@c".toList, true⟩] ∧ Sound someSetup a :=
  Run.exists_of_guarded (G := Careful someSetup) (by decide +kernel) (by decide +kernel)
    fun a hcareful h _ =>
    stays_valid someSetup Text.toLower_idem _ a hcareful h

def away : Change := .vacation { Vacation.zero with enabled := true, subject := "Away".toList }

/-- The address of a disabled rule can be destroyed, and every later push is refused for it. -/
theorem disabled_rule_is_left : ∃ a, Run.exec (step someSetup) .empty (forwarding false) = some a ∧
    ((a.scripts.read someLibs (a.env someSetup)).toOption.any (·.drifted) = true ∧
      (generate someLibs (away.apply initialModel) (a.env someSetup) none).toOption.isSome = true ∧
      (pushManaged someSetup 2 a away).2 =
        .error (.generate (.invalid [.rule 0 "r1".toList (.forwardNotVerified "b@c".toList)]))) :=
  Run.exists_exec (by decide +kernel)

end Moov.Sieve
