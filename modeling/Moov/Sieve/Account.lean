import Moov.Lib.Run
import Moov.Sieve.Manager

/-!
# Filters and forwarding addresses of an account

`jmap/mail/sieve_adapter.go` and the forwarding addresses of `store/sieve.go`: what the requests of
an account do to its forwarding addresses and to its managed script.

* `ForwardingAddress` — a row; the rows of an account are a list, in which the id of a row is its
  position and a deleted one leaves a gap;
* `pushManaged`, `createForwardingAddress`, `verifyForwarding`, `destroyForwardingAddress`;
* `Request`, `step` — the requests, one after another.
-/

namespace Moov.Sieve

/-! ## The account -/

/-- A row of `forwarding_addresses`. -/
structure ForwardingAddress where
  email : List Char
  accepted : Bool
deriving DecidableEq

/-- The forwarding addresses of an account by id, and the scripts at the server. -/
structure Account where
  addresses : List (Option ForwardingAddress)
  scripts : Scripts
deriving DecidableEq

def Account.empty : Account := ⟨[], ⟨[], none⟩⟩

/-- The folders of an account by their roles. -/
structure Folders where
  junk : List Char
  trash : List Char
  archive : List Char

/-- What an account is served by: the libraries, its folders, and the ManageSieve server. -/
structure Setup where
  libs : Libs
  folders : Folders
  server : Server

/-- `AcceptedForwardingAddresses`. -/
def acceptedForwarding (addresses : List (Option ForwardingAddress)) (email : List Char) : Bool :=
  addresses.any fun row => row.any fun f => f.accepted && f.email = email

/-- `generateEnv`. -/
def generateEnv (folders : Folders) (addresses : List (Option ForwardingAddress)) :
    GenerateEnv where
  junkFolder := folders.junk
  trashFolder := folders.trash
  archiveFolder := folders.archive
  spamHeader := []
  spamValue := []
  verifiedForward := acceptedForwarding addresses

variable (setup : Setup)

/-- The environment of an account. -/
def Account.env (a : Account) : GenerateEnv := generateEnv setup.folders a.addresses

/-! ## The managed script -/

/-- What a request changes in the managed model. -/
inductive Change
  /-- `SetVacation`. -/
  | vacation (v : Vacation)
  /-- `PutFilters`. -/
  | filters (rules : List Rule) (forwardAll : ForwardAll)

def Change.apply (model : Script) : Change → Script
  | vacation v => { model with vacation := some v }
  | filters rules f =>
      { model with rules := rules, forwardAll :=
        if f.enabled || !f.address.isEmpty then some f else none }

/-- `pushManaged`; `done` of the writes reach the server. -/
def pushManaged (done : Nat) (a : Account) (c : Change) : Account × Except PushError Unit :=
  match a.scripts.read setup.libs (a.env setup) with
  | .error e => (a, .error e)
  | .ok state =>
      let p := push setup.libs setup.server a.scripts (c.apply state.model) (a.env setup)
      ({ a with scripts := (p.1.take done).foldl Scripts.apply a.scripts },
        if done < p.1.length then .error .call else p.2)

/-! ## Forwarding addresses -/

inductive ForwardingError
  | tooMany
  /-- `ErrForwardingExists`. -/
  | taken
  | mail
  | notFound
  /-- `ErrForwardingInUse`. -/
  | inUse
  /-- `ErrTokenInvalid`. -/
  | tokenInvalid
  | reading (e : PushError)
deriving DecidableEq

def maxForwardingAddresses : Nat := 20

/-- `CreateForwardingAddress`, with the id of the row; `sent` is whether the verification is. -/
def createForwardingAddress (sent : Bool) (a : Account) (email : List Char) :
    Account × Except ForwardingError (Nat × ForwardingAddress) :=
  let email := setup.libs.toLower (Text.trimSpace email)
  let existing := a.addresses.filterMap id
  if maxForwardingAddresses ≤ existing.length then (a, .error .tooMany)
  else if existing.any fun f => f.email = email then (a, .error .taken)
  else if sent then
    ({ a with addresses := a.addresses ++ [some ⟨email, false⟩] },
      .ok (a.addresses.length, ⟨email, false⟩))
  else ({ a with addresses := a.addresses ++ [none] }, .error .mail)

/-- `AcceptForwardingAddress`, of one row. -/
def ForwardingAddress.acceptIf (email : List Char) (f : ForwardingAddress) : ForwardingAddress :=
  if f.email = email then { f with accepted := true } else f

/-- `VerifyForwarding`, of a token for an address; `none` is a token that is not one. -/
def verifyForwarding (a : Account) :
    Option (List Char) → Account × Except ForwardingError (List Char)
  | none => (a, .error .tokenInvalid)
  | some email =>
      let email := setup.libs.toLower email
      if a.addresses.any fun row => row.any fun f => f.email = email then
        ({ a with addresses := a.addresses.map (Option.map (·.acceptIf email)) }, .ok email)
      else (a, .error .tokenInvalid)

/-- An enabled rule or forwarding redirects to an address. -/
def redirectsTo (libs : Libs) (model : Script) (target : List Char) : Bool :=
  (model.forwardAll.any fun f => f.enabled && libs.toLower f.address = target) ||
    model.rules.any fun r => r.enabled && libs.toLower r.actions.forward = target

/-- `DestroyForwardingAddress`. -/
def destroyForwardingAddress (a : Account) (id : Nat) : Account × Except ForwardingError Unit :=
  match a.addresses[id]?.join with
  | none => (a, .error .notFound)
  | some row =>
      match a.scripts.read setup.libs (a.env setup) with
      | .error e => (a, .error (.reading e))
      | .ok state =>
          if redirectsTo setup.libs state.model (setup.libs.toLower row.email) then
            (a, .error .inUse)
          else ({ a with addresses := a.addresses.set id none }, .ok ())

/-! ## Requests -/

inductive Request
  | change (done : Nat) (c : Change)
  | create (sent : Bool) (email : List Char)
  | verify (email : Option (List Char))
  | destroy (id : Nat)

def step (a : Account) : Request → Option Account
  | .change done c => some (pushManaged setup done a c).1
  | .create sent email => some (createForwardingAddress setup sent a email).1
  | .verify email => some (verifyForwarding setup a email).1
  | .destroy id => some (destroyForwardingAddress setup a id).1

end Moov.Sieve
