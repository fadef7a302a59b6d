import Moov.Sieve.Parse

/-!
# The manager of the managed script

`sieve/manager.go`: the script that Moov manages among the scripts of an account, over ManageSieve.

* `Scripts` — what the server has: scripts by name, and the active one;
* `read` — `Manager.Read`;
* `push` — `Manager.Push`, as the writes that it sends one after another and the error that ends it.
-/

namespace Moov.Sieve

/-! ## The scripts of an account -/

/-- The scripts that the server has, and the name of the active one. -/
structure Scripts where
  stored : List (List Char × List Char)
  active : Option (List Char)
deriving DecidableEq

def lookup (name : List Char) : List (List Char × List Char) → Option (List Char)
  | [] => none
  | (n, content) :: rest => if n = name then some content else lookup name rest

/-- A script stored under its name, in the place of the one that was there. -/
def replace (name content : List Char) : List (List Char × List Char) → List (List Char × List Char)
  | [] => [(name, content)]
  | (n, c) :: rest => if n = name then (name, content) :: rest
    else (n, c) :: replace name content rest

lemma lookup_replace (name content n : List Char) (l : List (List Char × List Char)) :
    lookup n (replace name content l) = if n = name then some content else lookup n l := by
  induction l with
  | nil => simp [replace, lookup, eq_comm]
  | cons x l ih =>
    rw [replace]
    by_cases hx : x.1 = name
    · by_cases hn : n = name
      · simp [lookup, hx, hn]
      · simp [lookup, hx, hn, Ne.symm hn]
    · rw [if_neg hx, lookup, ih, lookup]
      by_cases hn : n = name
      · simp [hn, hx]
      · simp [hn]

namespace Scripts

/-- The content of a script. -/
def get (s : Scripts) (name : List Char) : Option (List Char) := lookup name s.stored

/-- The scripts with another one under a name. -/
def put (s : Scripts) (name content : List Char) : Scripts :=
  { s with stored := replace name content s.stored }

@[simp] lemma get_put (s : Scripts) (name content n : List Char) :
    (s.put name content).get n = if n = name then some content else s.get n :=
  lookup_replace name content n s.stored

end Scripts

/-- What a client sends to change the scripts: `PutScript` and `SetActive`. -/
inductive Write
  | put (name content : List Char)
  | activate (name : List Char)
deriving DecidableEq

def Scripts.apply (s : Scripts) : Write → Scripts
  | .put name content => s.put name content
  | .activate name => { s with active := some name }

/-- What the server is: the extensions it has, and the scripts that `CheckScript` accepts. -/
structure Server where
  caps : List Char → Bool
  accepts : List Char → Bool

/-! ## `Read` -/

/-- `ManagedScriptName`. -/
def managedScriptName : List Char := "moov".toList

/-- `BackupPrefix`. -/
def backupPrefix : List Char := "moov-backup-".toList

/-- `ManagedState`. -/
structure ManagedState where
  model : Script
  present : Bool
  drifted : Bool
  activeScript : List Char
  oursActive : Bool
  raw : List Char

inductive PushError
  /-- A call fails. -/
  | call
  | parse (e : ParseError)
  | generate (e : GenerateError)
  /-- `CheckScript` refuses the script. -/
  | check
deriving DecidableEq

/-- The model of an account without a managed script. -/
def initialModel : Script := { Script.zero with version := metadataVersion }

/-- What the listing says, where there is no managed script. -/
def Scripts.listed (s : Scripts) : ManagedState where
  model := initialModel
  present := false
  drifted := false
  activeScript := s.active.getD []
  oursActive := s.active = some managedScriptName
  raw := []

variable (libs : Libs)

/-- `Manager.Read`. -/
def Scripts.read (s : Scripts) (env : GenerateEnv) : Except PushError ManagedState :=
  match s.get managedScriptName with
  | none => .ok s.listed
  | some raw =>
      match parseManaged libs raw env with
      | .error .notManaged => .ok { s.listed with present := true, raw := raw, drifted := true }
      | .error e => .error (.parse e)
      | .ok (model, drifted) =>
          .ok { s.listed with present := true, raw := raw, model := model, drifted := drifted }

/-! ## `Push` -/

/-- A name with the prefix of a safety copy. -/
def withPrefix (name : List Char) : List Char := if backupPrefix.isPrefixOf name then
    name
  else backupPrefix ++ name

/-- The name of a safety copy. -/
def backupName (name : List Char) : List Char :=
  if 128 < (withPrefix name).length then (withPrefix name).take 128 else withPrefix name

/-- `Manager.backup`. -/
def backup (name content : List Char) : Write := .put (backupName name) content

/-- The script under Moov's name has no metadata. -/
def notManaged (raw : List Char) (env : GenerateEnv) : Bool :=
  match parseManaged libs raw env with
  | .error .notManaged => true
  | _ => false

/-- Step 1 of `Push`: a managed script that was edited outside Moov. -/
def preserveOwn (state : ManagedState) (model : Script) (env : GenerateEnv) : List Write × Script :=
  if state.present && state.drifted then
    ([backup managedScriptName state.raw],
      if notManaged libs state.raw env then
      importForeign model managedScriptName state.raw
    else model)
  else ([], model)

/-- Step 2 of `Push`: another script that is active. -/
def takeOver (s : Scripts) (state : ManagedState) (model : Script) : Option (List Write × Script) :=
  if state.activeScript ≠ [] ∧ state.activeScript ≠ managedScriptName then
    (s.get state.activeScript).map fun foreign =>
      ([backup state.activeScript foreign], importForeign model state.activeScript foreign)
  else some ([], model)

/-- The rest of `Push`: the script is generated, checked, stored and made active. -/
def replaceOwn (server : Server) (model : Script) (env : GenerateEnv) :
    List Write × Except PushError Unit :=
  match generate libs { model with version := metadataVersion } env (some server.caps) with
  | .error e => ([], .error (.generate e))
  | .ok content =>
      if server.accepts content then
        ([.put managedScriptName content, .activate managedScriptName], .ok ())
      else ([], .error .check)

/-- `Manager.Push`. -/
def push (server : Server) (s : Scripts) (model : Script) (env : GenerateEnv) :
    List Write × Except PushError Unit :=
  let env := env.withDefaults
  match s.read libs env with
  | .error e => ([], .error e)
  | .ok state =>
      let own := preserveOwn libs state model env
      match takeOver (own.1.foldl Scripts.apply s) state own.2 with
      | none => (own.1, .error .call)
      | some foreign =>
          let rest := replaceOwn libs server foreign.2 env
          (own.1 ++ foreign.1 ++ rest.1, rest.2)

section

variable {libs}

lemma generate_withDefaults (model : Script) (env : GenerateEnv)
    (caps : Option (List Char → Bool)) :
    generate libs model env.withDefaults caps = generate libs model env caps := by
  unfold generate
  simp only [GenerateEnv.withDefaults_withDefaults]

/-- `Push` fills in the defaults before it reads. -/
lemma Scripts.read_withDefaults (s : Scripts) (env : GenerateEnv) :
    s.read libs env.withDefaults = s.read libs env := by
  unfold Scripts.read parseManaged drifts
  simp only [generate_withDefaults]

end

end Moov.Sieve
