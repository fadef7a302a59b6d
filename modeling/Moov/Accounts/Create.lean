import Moov.Lib.Faults
import Moov.Lib.Run

/-!
# Creating an account

`accounts/operations.go` and `provision/provision.go`: one create goes through Mailcow, Dovecot
and the store, and undoes what it has done in Mailcow when a later step fails.

* `create` — the calls of `Create`, `finishCreate`, `Provision` and `upsertAccount` in their
  order, each with an outcome of its own;
* `Sound` — what a create promises: an error leaves nothing behind, and a create without a fault
  serves the account;
* `creates_sound` — in any sequence of creates, as long as no fault comes where nothing undoes
  it.

The row of the account is not removed by any cleanup, and a create that dies leaves the mailbox;
the next create takes the row for an account, or fails to log in to the mailbox with a password
of its own.
-/

namespace Moov.Accounts

open Faults Faults.Prog Option

/-! ## The world -/

/-- A mailbox in Mailcow: the password it was created with, whether it is active with all of the
scopes that Moov asks for, and its app passwords. -/
structure Mailbox where
  password : Nat
  usable : Bool
  appPasswords : List Nat
deriving DecidableEq

/-- The row of an account: the credential that is sealed in it, if it is not pending. -/
structure Row where
  credential : Option Nat
deriving DecidableEq

/-- What the systems hold of one address, and the number of the next random password. -/
structure World where
  mailbox : Option Mailbox
  row : Option Row
  next : Nat
deriving DecidableEq

/-- The mailbox exists, and the credential of the row logs in. -/
def World.serves (w : World) : Bool :=
  match w.mailbox, w.row with
  | some mb, some row => row.credential.any fun c => mb.appPasswords.any fun p => p = c
  | _, _ => false

/-! ## Calls -/

/-- The calls of a create, in their order. -/
inductive Site
  | lookup
  | audit
  | createMailbox
  | login
  | getMailbox
  | createAppPassword
  | lookupAgain
  | createAccount
  | setCredentials
  | setAppPasswordID
  | readRateLimit
  | setRateLimit
  | setFacts
  | readBack
  | summary
  | describe
  | deleteAppPassword
  | deleteMailbox
deriving DecidableEq

/-- A call that changes nothing that is modelled. -/
def query {α : Type} (read : World → Option α) (w : World) : World × Option α := (w, read w)

/-- `randomPassword` and `GeneratePassword`. -/
def draw : Prog World Nat := fun w => ({ w with next := w.next + 1 }, .ok w.next)

/-- `CreateMailbox`: whether the mailbox is new. -/
def createMailbox (password : Nat) (w : World) : World × Option Bool :=
  match w.mailbox with
  | none => ({ w with mailbox := some ⟨password, true, []⟩ }, some true)
  | some _ => (w, some false)

/-- The LOGIN of `Validate`. -/
def login (password : Nat) (w : World) : Option Unit :=
  if w.mailbox.any fun mb => mb.password = password then some () else none

/-- `CreateAppPassword`. -/
def createAppPassword (password : Nat) (w : World) : World × Option Unit :=
  match w.mailbox with
  | none => (w, none)
  | some mb =>
      ({ w with mailbox := some { mb with appPasswords := password :: mb.appPasswords } }, some ())

def deleteAppPassword (password : Nat) (w : World) : World :=
  { w with mailbox := w.mailbox.map fun mb =>
    { mb with appPasswords := mb.appPasswords.filter fun p => p ≠ password } }

/-- `DeleteMailbox`; its app passwords go with it. -/
def deleteMailbox (w : World) : World := { w with mailbox := none }

/-- `CreateAccount`, in the credential state `pending`. -/
def createAccount (w : World) : World × Option Unit :=
  match w.row with
  | none => ({ w with row := some ⟨none⟩ }, some ())
  | some _ => (w, none)

/-- `SetAccountCredentials`. -/
def setCredentials (password : Nat) (w : World) : World × Option Unit :=
  match w.row with
  | none => (w, none)
  | some _ => ({ w with row := some ⟨some password⟩ }, some ())

/-! ## Programs -/

variable (f : Site → Outcome) {P : World → Prop} {α : Type} {read : World → Option α} {site : Site}

/-- `upsertAccount`. -/
def upsertAccount : Prog World Unit := do
  let existing ← call (f .lookupAgain) (query fun w => some w.row)
  match existing with
  | some _ => ret ()
  | none => call (f .createAccount) createAccount

/-- The steps of `Provision` after the app password exists. -/
def storeCredential (appPassword : Nat) : Prog World Unit := do
  upsertAccount f
  call (f .setCredentials) (setCredentials appPassword)

/-- `Provision`. -/
def provision (password : Nat) : Prog World Unit := do
  call (f .login) (query (login password))
  call (f .getMailbox) (query fun w => if w.mailbox.any (·.usable) then some () else none)
  let appPassword ← draw
  call (f .createAppPassword) (createAppPassword appPassword)
  onError (storeCredential f appPassword)
    (undo (f .deleteAppPassword) (deleteAppPassword appPassword))

/-- `resourceOf`; a mailbox that cannot be read does not matter. -/
def resourceOf (row : Row) : Prog World Row := do
  call (f .summary) (query fun _ => some ())
  let _ ← attempt (call (f .describe) (query fun w => w.mailbox))
  ret row

/-- The writes of `finishCreate` after the provisioning. -/
def writeFacts : Prog World Unit := do
  call (f .setAppPasswordID) (query fun w => w.row.map fun _ => ())
  call (f .readRateLimit) (query fun w => w.mailbox.map fun _ => ())
  call (f .setRateLimit) (query fun w => w.mailbox.map fun _ => ())
  call (f .setFacts) (query fun w => w.row.map fun _ => ())

/-- `finishCreate`. -/
def finishCreate (password : Nat) (ours : Bool) : Prog World Row := do
  let work := Prog.bind (provision f password) fun _ => writeFacts f
  if ours then onError work (undo (f .deleteMailbox) deleteMailbox) else work
  let row ← call (f .readBack) (query fun w => w.row)
  resourceOf f row

/-- `Create`, of an address in the domain of the caller. -/
def create : Prog World Row := do
  let existing ← call (f .lookup) (query fun w => some w.row)
  match existing with
  | some row => resourceOf f row
  | none =>
      let _ ← attempt (call (f .audit) (query fun _ => some ()))
      let password ← draw
      let ours ← call (f .createMailbox) (createMailbox password)
      finishCreate f password ours

/-- One create after another. -/
def step (w : World) (f : Site → Outcome) : Option World := some (create f w).1

/-! ## What a create promises -/

/-- An error leaves nothing behind that was not there, and a create that meets no fault returns
an account that is served. -/
structure Sound (w : World) (f : Site → Outcome) : Prop where
  clean : (create f w).2 = .error →
    ((create f w).1.mailbox.isSome → w.mailbox.isSome) ∧ ((create f w).1.row.isSome → w.row.isSome)
  served : (∀ site, f site = .done) → ∃ row, (create f w).2 = .ok row ∧
    (create f w).1.row = some row ∧
    (create f w).1.serves = true

/-- The address is free, or its account is served. -/
def Settled (w : World) : Prop := (w.mailbox = none ∧ w.row = none) ∨ w.serves = true

/-- Does the program go on after the call. -/
def Outcome.survived (o : Outcome) : Bool := o ≠ .died && o ≠ .diedAfter

/-- The call does what it is to do, if the program goes on after it. -/
def Outcome.reliable (o : Outcome) : Bool := o ≠ .refused && o ≠ .lost

/-- No fault comes where nothing undoes it: the mailbox and the row are created if and only if
Mailcow and the store say so, a create that has a mailbox does not die before the credential is
stored, and no call fails once the row is there. -/
def tame (f : Site → Outcome) : Bool :=
  (f .createMailbox ≠ .lost && f .createMailbox ≠ .diedAfter) &&
    ([Site.login, .getMailbox, .createAppPassword, .lookupAgain, .createAccount, .deleteAppPassword,
      .deleteMailbox].all fun site => Outcome.survived (f site)) &&
    f .createAccount ≠ .lost &&
    (f .setCredentials = .done || f .setCredentials = .diedAfter) &&
    [Site.setAppPasswordID, .readRateLimit, .setRateLimit, .setFacts, .readBack, .summary].all
      fun site => Outcome.reliable (f site)

variable {f} {w : World}

/-- What is asked of the calls, one by one. -/
structure Tame (f : Site → Outcome) : Prop where
  createMailbox : f .createMailbox ≠ .lost ∧ f .createMailbox ≠ .diedAfter
  survived : ∀ site ∈ [Site.login, .getMailbox, .createAppPassword, .lookupAgain, .createAccount,
    .deleteAppPassword, .deleteMailbox], f site ≠ .died ∧ f site ≠ .diedAfter
  createAccount : f .createAccount ≠ .lost
  setCredentials : f .setCredentials = .done ∨ f .setCredentials = .diedAfter
  reliable : ∀ site ∈ [Site.setAppPasswordID, .readRateLimit, .setRateLimit, .setFacts,
    .readBack, .summary],
    f site ≠ .refused ∧ f site ≠ .lost

lemma tame_of_eq (h : tame f = true) : Tame f := by
  unfold tame at h
  simp only [Bool.and_eq_true, Bool.or_eq_true, List.all_eq_true, decide_eq_true_eq,
    Outcome.survived, Outcome.reliable] at h
  exact ⟨h.1.1.1.1, h.1.1.1.2, h.1.1.2, h.1.2, h.2⟩

/-! ## The steps -/

/-- Nothing is there. -/
def Free (w : World) : Prop := w.mailbox = none ∧ w.row = none

/-- A new mailbox, and no row. -/
def Fresh (password : Nat) (w : World) : Prop :=
  w.mailbox = some ⟨password, true, []⟩ ∧ w.row = none

/-- A call that only reads, whatever becomes of it. -/
lemma triple_query {o : Outcome} : Triple P (call o (query read)) fun w fate =>
      P w ∧ (∀ a, fate = .ok a → read w = some a) ∧ (fate = .error → o = .done → read w = none) ∧
        (fate = .error → o = .done ∨ o = .refused ∨ o = .lost) ∧
        (fate = .dead → o = .died ∨ o = .diedAfter) := by
  refine Triple.call ?_ ?_ ?_ ?_ ?_ ?_
  · rintro rfl w hw a ha
    exact ⟨hw, fun b hb => by cases hb; exact ha, by simp, by simp, by simp⟩
  · rintro rfl w hw ha
    exact ⟨hw, by simp, fun _ _ => ha, by simp, by simp⟩
  all_goals
    rintro rfl w hw
    exact ⟨hw, by simp, by simp, by simp, by simp⟩

/-- A read whose errors do not matter. -/
lemma triple_attempt {o : Outcome} : Triple P (attempt (call o (query read))) fun w fate =>
    P w ∧ fate ≠ .error :=
  triple_query.attempt (fun w a h => ⟨h.1, by simp⟩) (fun w h => ⟨h.1, by simp⟩) fun w h =>
    ⟨h.1, by simp⟩

/-- A read that does not kill the program. -/
lemma triple_read (h : f site ≠ .died ∧ f site ≠ .diedAfter) :
    Triple P (call (f site) (query read)) fun w fate =>
      P w ∧ fate ≠ .dead ∧ ∀ a, fate = .ok a → read w = some a := by
  refine triple_query.weaken (fun _ h => h) fun w fate hq => ⟨hq.1, fun hdead => ?_, hq.2.1⟩
  rcases hq.2.2.2.2 hdead with hd | hd
  · exact h.1 hd
  · exact h.2 hd

/-- A read that is answered. -/
lemma triple_reliable
    (h : f site ≠ .refused ∧ f site ≠ .lost) (hread : ∀ w, P w → read w ≠ none) :
    Triple P (call (f site) (query read)) fun w fate =>
      P w ∧ fate ≠ .error ∧ ∀ a, fate = .ok a → read w = some a := by
  refine triple_query.weaken (fun _ h => h) fun w fate hq => ⟨hq.1, fun herr => ?_, hq.2.1⟩
  rcases hq.2.2.2.1 herr with hd | hd | hd
  · exact hread w hq.1 (hq.2.2.1 herr hd)
  · exact h.1 hd
  · exact h.2 hd

/-- The row of the account, over a mailbox. -/
lemma triple_upsertAccount (hf : Tame f) (mb : Mailbox) :
    Triple (fun w => w.mailbox = some mb ∧ w.row = none) (upsertAccount f) fun w fate =>
      w.mailbox = some mb ∧ fate ≠ .dead ∧ (fate = .error → w.row = none) ∧
      (fate = .ok () → w.row = some ⟨none⟩) := by
  have hcall : Triple (fun w => w.mailbox = some mb ∧ w.row = none)
      (call (f .createAccount) createAccount)
      fun w fate => w.mailbox = some mb ∧ fate ≠ .dead ∧ (fate = .error → w.row = none) ∧
        (fate = .ok () → w.row = some ⟨none⟩) := by
    have hsurvived := hf.survived .createAccount (by simp)
    refine Triple.call ?_ ?_ ?_ ?_ ?_ ?_
    · intro _ w hw a ha
      simp [createAccount, hw.1, hw.2]
    · intro _ w hw ha
      simp [createAccount, hw.2] at ha
    · intro _ w hw
      simp [hw.1, hw.2]
    · exact fun h => absurd h hf.createAccount
    · exact fun h => absurd h hsurvived.1
    · exact fun h => absurd h hsurvived.2
  refine Triple.bind (triple_read (hf.survived _ (by simp))) (fun existing => ?_) ?_ ?_
  · rintro w ⟨⟨hmb, hrow⟩, -, hread⟩
    -- the row that the first lookup did not find is not there now
    have hexisting : existing = none := by
      have := hread existing rfl
      rw [hrow] at this
      exact (some.inj this).symm
    subst hexisting
    exact hcall w ⟨hmb, hrow⟩
  · intro w hw
    exact ⟨hw.1.1, by simp, fun _ => hw.1.2, by simp⟩
  · intro w hw
    exact absurd rfl hw.2.1

/-- The row and its credential, over a mailbox. -/
lemma triple_storeCredential (hf : Tame f) (mb : Mailbox) (appPassword : Nat) :
    Triple (fun w => w.mailbox = some mb ∧ w.row = none)
      (storeCredential f appPassword) fun w fate =>
      w.mailbox = some mb ∧ (fate = .error → w.row = none) ∧
      (fate ≠ .error → w.row = some ⟨some appPassword⟩) := by
  -- the credential is stored, whether the program goes on or not
  have hstored : ∀ o, f .setCredentials = o → o = .done ∨ o = .diedAfter :=
    fun o ho => ho ▸ hf.setCredentials
  refine Triple.bind (triple_upsertAccount hf mb) (fun _ => ?_) ?_ ?_
  · refine Triple.call ?_ ?_ ?_ ?_ ?_ ?_
    · intro _ w hw a ha
      simp [setCredentials, hw.1, hw.2.2.2 rfl]
    · intro _ w hw ha
      simp [setCredentials, hw.2.2.2 rfl] at ha
    · exact fun h => absurd (hstored _ h) (by decide)
    · exact fun h => absurd (hstored _ h) (by decide)
    · exact fun h => absurd (hstored _ h) (by decide)
    · intro _ w hw
      simp [setCredentials, hw.1, hw.2.2.2 rfl]
  · intro w hw
    exact ⟨hw.1, fun _ => hw.2.2.1 rfl, nofun⟩
  · intro w hw
    exact absurd rfl hw.2.1

/-- A provisioning that fails leaves no row, and any other serves the account. -/
def Provisioned {α : Type} (w : World) (fate : Fate α) : Prop :=
  (fate = .error → w.row = none) ∧ (fate ≠ .error → w.serves = true)

lemma triple_provision (hf : Tame f) (password : Nat) :
    Triple (Fresh password) (provision f password) Provisioned := by
  have hread : ∀ {read : World → Option Unit} {site : Site}, site = .login ∨ site = .getMailbox →
      Triple (Fresh password) (call (f site) (query read)) fun w fate =>
        Fresh password w ∧ fate ≠ .dead := by
    intro read site hsite
    have hsurvived := hf.survived site (by rcases hsite with rfl | rfl <;> simp)
    exact (triple_read hsurvived).weaken (fun _ h => h) fun w fate h => ⟨h.1, h.2.1⟩
  have herr : ∀ w : World, (Fresh password w ∧ (Fate.error : Fate Unit) ≠ .dead) →
      Provisioned w (Fate.error : Fate Unit) := fun w h => ⟨fun _ => h.1.2, nofun⟩
  refine Triple.bind (hread (.inl rfl)) (fun _ => ?_) herr fun w h => absurd rfl h.2
  refine Triple.bind ((hread (.inr rfl)).weaken (fun w h => h.1) fun _ _ h => h) (fun _ => ?_) herr
    fun w h => absurd rfl h.2
  rintro ⟨mailbox, row, next⟩ ⟨⟨hmb, hrow⟩, -⟩
  cases hmb
  cases hrow
  -- the app password is drawn, and created in Mailcow
  have hrest : Triple (Fresh password)
      (Prog.bind (call (f .createAppPassword) (createAppPassword next)) fun _ =>
        onError (storeCredential f next) (undo (f .deleteAppPassword) (deleteAppPassword next)))
        Provisioned := by
    have hsurvived := hf.survived .createAppPassword (by simp)
    have hcall : Triple (Fresh password)
        (call (f .createAppPassword) (createAppPassword next)) fun w fate =>
          w.row = none ∧ fate ≠ .dead ∧
            (fate = .ok () → w.mailbox = some ⟨password, true, [next]⟩) := by
      refine Triple.call ?_ ?_ ?_ ?_ ?_ ?_
      · intro _ w hw a ha
        simp [createAppPassword, hw.1, hw.2]
      · intro _ w hw ha
        simp [createAppPassword, hw.1] at ha
      · intro _ w hw
        simp [hw.2]
      · intro _ w hw
        simp [createAppPassword, hw.1, hw.2]
      · exact fun h => absurd h hsurvived.1
      · exact fun h => absurd h hsurvived.2
    refine hcall.bind (fun _ => ?_) (fun w h => ⟨fun _ => h.1, nofun⟩) fun w h => absurd rfl h.2.1
    have hstore := (triple_storeCredential hf ⟨password, true, [next]⟩ next).weaken
      (fun w (h : w.row = none ∧ Fate.ok () ≠ .dead ∧
        (Fate.ok () = .ok () → w.mailbox = some ⟨password, true, [next]⟩)) =>
        ⟨h.2.2 rfl, h.1⟩) fun _ _ h => h
    have hserves : ∀ w : World, ∀ fate : Fate Unit, fate ≠ .error →
        (w.mailbox = some ⟨password, true, [next]⟩ ∧ (fate = .error → w.row = none) ∧
          (fate ≠ .error → w.row = some ⟨some next⟩)) → Provisioned w fate :=
      fun w fate hne h => ⟨fun he => absurd he hne, fun _ => by
        rw [World.serves, h.1, h.2.2 hne]
        exact List.any_eq_true.2 ⟨_, List.mem_cons_self, decide_eq_true rfl⟩⟩
    refine hstore.onError (fun w a h => hserves w _ (by simp) h)
      (fun w h => hserves w _ (by simp) h) ?_
    have hdelete := hf.survived .deleteAppPassword (by simp)
    refine Triple.undo ?_ (fun h => absurd h hdelete.1) fun h => absurd h hdelete.2
    intro _ _ w hw
    exact ⟨by simp, fun _ => ⟨fun _ => hw.2.1 rfl, nofun⟩⟩
  exact hrest ⟨_, _, next + 1⟩ ⟨rfl, rfl⟩

/-! ## A whole create -/

lemma isSome_of_serves (h : w.serves = true) : w.mailbox.isSome ∧ w.row.isSome := by
  obtain ⟨mailbox, row, next⟩ := w
  cases mailbox with
  | none => simp [World.serves] at h
  | some =>
    cases row with
    | none => simp [World.serves] at h
    | some => exact ⟨rfl, rfl⟩

lemma ne_none_of_serves (h : w.serves = true) : w.mailbox ≠ none ∧ w.row ≠ none :=
  ⟨isSome_iff_ne_none.1 (isSome_of_serves h).1, isSome_iff_ne_none.1 (isSome_of_serves h).2⟩

/-- Once the account is served, no write fails. -/
lemma triple_writeFacts (hf : Tame f) :
    Triple (fun w => w.serves = true) (writeFacts f) fun w fate =>
      w.serves = true ∧ fate ≠ .error := by
  have hcall : ∀ {read : World → Option Unit} {site : Site},
      site ∈ [Site.setAppPasswordID, .readRateLimit, .setRateLimit, .setFacts,
        .readBack, .summary] →
      (∀ w : World, w.serves = true → read w ≠ none) →
      Triple (fun w => w.serves = true) (call (f site) (query read)) fun w fate =>
        w.serves = true ∧ fate ≠ .error := by
    intro read site hsite hread
    exact (triple_reliable (hf.reliable site hsite) hread).weaken (fun _ h => h) fun w fate h =>
      ⟨h.1, h.2.1⟩
  have hrow : ∀ w : World, w.serves = true → (w.row.map fun _ => ()) ≠ none := fun w h => by
    simp [(ne_none_of_serves h).2]
  have hmailbox : ∀ w : World, w.serves = true → (w.mailbox.map fun _ => ()) ≠ none := fun w h => by
    simp [(ne_none_of_serves h).1]
  refine Triple.bind (hcall (by simp) hrow) (fun _ => ?_) (fun w h => absurd rfl h.2) fun w h =>
    ⟨h.1, by simp⟩
  refine Triple.bind ((hcall (by simp) hmailbox).weaken (fun _ h => h.1) fun _ _ h => h)
    (fun _ => ?_)
    (fun w h => absurd rfl h.2) fun w h => ⟨h.1, by simp⟩
  refine Triple.bind ((hcall (by simp) hmailbox).weaken (fun _ h => h.1) fun _ _ h => h)
    (fun _ => ?_)
    (fun w h => absurd rfl h.2) fun w h => ⟨h.1, by simp⟩
  exact (hcall (by simp) hrow).weaken (fun _ h => h.1) fun _ _ h => h

/-- The account is described as it is, and nothing changes. -/
lemma triple_resourceOf (row : Row) : Triple P (resourceOf f row) fun w fate =>
      P w ∧ (∀ r, fate = .ok r → r = row) ∧
      (fate = .error → f .summary = .refused ∨ f .summary = .lost) := by
  refine Triple.bind triple_query (fun _ => ?_) ?_ ?_
  · refine Triple.bind (triple_attempt.weaken (fun _ h => h.1) fun _ _ h => h) (fun _ => ?_)
      (fun w h => absurd rfl h.2)
      fun w h => ⟨h.1, by simp, by simp⟩
    exact Triple.ret fun w h => ⟨h.1, fun r hr => by cases hr; rfl, by simp⟩
  · rintro w ⟨hw, -, hread, hfault, -⟩
    refine ⟨hw, by simp, fun _ => ?_⟩
    rcases hfault rfl with hd | hd
    · exact absurd (hread rfl hd) (by simp)
    · exact hd
  · rintro w ⟨hw, -⟩
    exact ⟨hw, by simp, by simp⟩

/-- How a create of a free address ends: an error leaves it free, and an account is served. -/
structure Ended (w : World) (fate : Fate Row) : Prop where
  settled : Settled w
  free : fate = .error → w.mailbox = none ∧ w.row = none
  served : ∀ row, fate = .ok row → w.row = some row ∧ w.serves = true

lemma Ended.dead (h : Settled w) : Ended w .dead := ⟨h, by simp, by simp⟩

lemma Ended.error (h : Free w) : Ended w .error := ⟨.inl h, fun _ => h, by simp⟩

lemma triple_finishCreate (hf : Tame f) (password : Nat) :
    Triple (Fresh password) (finishCreate f password true) Ended := by
  have hwork : Triple (Fresh password)
      (Prog.bind (provision f password) fun _ => writeFacts f) Provisioned := by
    refine (triple_provision hf password).bind (fun _ => ?_) (fun w h => ⟨fun _ => h.1 rfl, nofun⟩)
      fun w h => ⟨by simp, fun _ => h.2 (by simp)⟩
    exact (triple_writeFacts hf).weaken (fun w h => h.2 (by simp)) fun w fate h =>
      ⟨fun he => absurd he h.2, fun _ => h.1⟩
  have hundone : Triple (Fresh password)
      (onError (Prog.bind (provision f password) fun _ => writeFacts f)
        (undo (f .deleteMailbox) deleteMailbox))
      fun w fate => (fate = .error → Free w) ∧ (fate ≠ .error → w.serves = true) := by
    refine hwork.onError (fun w a h => ⟨by simp, fun _ => h.2 (by simp)⟩)
      (fun w h => ⟨by simp, fun _ => h.2 (by simp)⟩) ?_
    have hdelete := hf.survived .deleteMailbox (by simp)
    refine Triple.undo ?_ (fun h => absurd h hdelete.1) fun h => absurd h hdelete.2
    intro _ _ w hw
    exact ⟨by simp, fun _ => ⟨fun _ => ⟨rfl, hw.1 rfl⟩, nofun⟩⟩
  refine Triple.bind hundone (fun _ => ?_) (fun w h => .error (h.1 rfl)) fun w h =>
    .dead (.inr (h.2 (by simp)))
  have hread :=
    triple_reliable (hf.reliable .readBack (by simp)) fun (w : World) (h : w.serves = true) =>
    (ne_none_of_serves h).2
  refine Triple.bind (hread.weaken (fun w h => h.2 (by simp)) fun _ _ h => h) (fun row => ?_)
    (fun w h => absurd rfl h.2.1) fun w h => .dead (.inr h.1)
  refine (triple_resourceOf row).weaken (fun _ h => h) fun w fate h =>
    ⟨.inr h.1.1, fun herr => ?_, fun r hr => ?_⟩
  · have hsummary := hf.reliable .summary (by simp)
    rcases h.2.2 herr with hd | hd
    · exact absurd hd hsummary.1
    · exact absurd hd hsummary.2
  · rw [h.2.1 r hr]
    exact ⟨h.1.2.2 row rfl, h.1.1⟩

/-- A create of a free address. -/
lemma triple_create_free (hf : Tame f) : Triple Free (create f) Ended := by
  refine Triple.bind triple_query (fun existing => ?_) (fun w h => .error h.1) fun w h =>
    .dead (.inl h.1)
  intro w hw
  have hexisting : existing = none := by
    have := hw.2.1 existing rfl
    rw [hw.1.2] at this
    exact (some.inj this).symm
  subst hexisting
  refine (Triple.bind triple_attempt (fun _ => ?_) (fun w h => absurd rfl h.2) fun w h =>
    .dead (.inl h.1)) w hw.1
  rintro w ⟨hfree, -⟩
  refine (Triple.bind (Q := fun w' fate => Free w' ∧ ∃ n, fate = .ok n) (p := draw) (P := Free)
    (fun w h => ⟨h, _, rfl⟩) (fun password => ?_)
    (fun w h => by simp at h) fun w h => by simp at h) w hfree
  have hmailbox : Triple Free (call (f .createMailbox) (createMailbox password)) fun w fate =>
        (∀ ours, fate = .ok ours → ours = true ∧ Fresh password w) ∧
          ((∀ ours, fate ≠ .ok ours) → Free w) := by
    refine Triple.call ?_ ?_ ?_ ?_ ?_ ?_
    · intro _ w h ours hours
      simp only [createMailbox, h.1, some.injEq] at hours
      simp [createMailbox, h.1, h.2, ← hours, Fresh]
    · intro _ w h hours
      simp [createMailbox, h.1] at hours
    · intro _ w h
      exact ⟨by simp, fun _ => h⟩
    · exact fun h => absurd h hf.createMailbox.1
    · intro _ w h
      exact ⟨by simp, fun _ => h⟩
    · exact fun h => absurd h hf.createMailbox.2
  refine Triple.bind (hmailbox.weaken (fun _ h => h.1) fun _ _ h => h) (fun ours => ?_)
    (fun w h => .error (h.2 (by simp))) fun w h => .dead (.inl (h.2 (by simp)))
  intro w h
  obtain ⟨rfl, hnew⟩ := h.1 ours rfl
  exact triple_finishCreate hf password w hnew

/-- A create of an address with a row changes nothing, and returns that row. -/
lemma triple_create_row {row : Row} :
    Triple (fun w => P w ∧ w.row = some row) (create f) fun w fate =>
      P w ∧ w.row = some row ∧ ∀ r, fate = .ok r → r = row := by
  refine Triple.bind triple_query (fun existing => ?_) (fun w h => ⟨h.1.1, h.1.2, by simp⟩)
    fun w h => ⟨h.1.1, h.1.2, by simp⟩
  intro w hw
  have hexisting : existing = some row := by
    have := hw.2.1 existing rfl
    rw [hw.1.2] at this
    exact (some.inj this).symm
  subst hexisting
  obtain ⟨h, hr, -⟩ := triple_resourceOf (f := f) (P := fun w => P w ∧ w.row = some row) row w hw.1
  exact ⟨h.1, h.2, hr⟩

/-- A create that meets no fault does not fail: it finds the row, or makes a mailbox that its own
password opens. -/
lemma exists_ok_of_done (hw : Settled w) (hf : ∀ site, f site = .done) :
    ∃ row, (create f w).2 = .ok row := by
  obtain rfl : f = fun _ => .done := funext hf
  obtain ⟨mailbox, row, next⟩ := w
  rcases hw with ⟨hmailbox, hrow⟩ | hserves
  · cases hmailbox
    cases hrow
    refine ⟨⟨some (next + 1)⟩, ?_⟩
    have hlogin : ∀ row n, login next ⟨some ⟨next, true, []⟩, row, n⟩ = some () :=
      fun row n => by simp [login]
    simp [create, finishCreate, provision, storeCredential, upsertAccount, writeFacts, resourceOf,
      call, query, draw, attempt, onError, ret, Bind.bind, Prog.bind, createMailbox,
      createAppPassword, createAccount, setCredentials, hlogin]
  · obtain ⟨row', hrow'⟩ := isSome_iff_exists.1 (isSome_of_serves hserves).2
    cases hrow'
    obtain ⟨mb, hmb⟩ := isSome_iff_exists.1 (isSome_of_serves hserves).1
    cases hmb
    exact ⟨row', rfl⟩

/-! ## Sequences of creates -/

/-- The condition on one create: the account has its row already, or no fault comes where nothing
undoes it. -/
def guarded (w : World) (f : Site → Outcome) : Bool := w.row.isSome || tame f

/-- From a settled world, a create keeps what it promises, and leaves a settled world. -/
lemma sound_of_settled (hw : Settled w) (hguard : guarded w f = true) :
    Sound w f ∧ Settled (create f w).1 := by
  rcases hw with hfree | hserves
  · have hf : Tame f := by
      rw [guarded, hfree.2] at hguard
      exact tame_of_eq hguard
    have hended : Ended (create f w).1 (create f w).2 := triple_create_free hf w hfree
    refine ⟨⟨fun herr => ?_, fun hdone => ?_⟩, hended.settled⟩
    · obtain ⟨hmailbox, hrow⟩ := hended.free herr
      simp [hmailbox, hrow]
    · obtain ⟨row, hrow⟩ := exists_ok_of_done (.inl hfree) hdone
      exact ⟨row, hrow, hended.served row hrow⟩
  · obtain ⟨row, hrow⟩ := isSome_iff_exists.1 (isSome_of_serves hserves).2
    obtain ⟨⟨hmailbox, hserves'⟩, hrow', hanswer⟩ :=
      triple_create_row (f := f)
        (P := fun w' => w'.mailbox = w.mailbox ∧ (w'.row = w.row → w'.serves = true))
        w ⟨⟨rfl, fun _ => hserves⟩, hrow⟩
    have hstill := hserves' (hrow'.trans hrow.symm)
    refine ⟨⟨fun _ => ?_, fun hdone => ?_⟩, .inr hstill⟩
    · rw [hmailbox, hrow', hrow]
      exact ⟨id, id⟩
    · obtain ⟨r, hr⟩ := exists_ok_of_done (.inr hserves) hdone
      refine ⟨r, hr, ?_, hstill⟩
      rw [hanswer r hr, hrow']

/-- In every sequence of creates of an address that is free or served, as long as no fault comes
where nothing undoes it before the account has its row, each create that fails leaves nothing
behind, and each that meets no fault returns an account that is served. -/
theorem creates_sound {w : World} {fs : List (Site → Outcome)} (hw : Settled w)
    (hguard : Run.Guarded step (fun w f => guarded w f = true) w fs) :
    Run.Guarded step Sound w fs := by
  refine Run.guarded_of_inv (fun w f hf hw => ?_) hw hguard
  obtain ⟨hsound, hsettled⟩ := sound_of_settled hw hf
  refine ⟨hsound, fun w' hw' => ?_⟩
  cases hw'
  exact hsettled

/-! ## Three sequences -/

/-- The address is free. -/
def free : World := ⟨none, none, 0⟩

/-- One call has an outcome of its own. -/
def only (site : Site) (o : Outcome) : Site → Outcome := fun s => if s = site then o else .done

def faultless : Site → Outcome := fun _ => .done

/-- The app password is refused, then the credential is stored and the process dies, and then
nothing fails. -/
theorem creates_sound_retried :
    Run.Guarded step Sound free
      [only .createAppPassword .refused, only .setCredentials .diedAfter, faultless] :=
  creates_sound (.inl ⟨rfl, rfl⟩) (by decide +kernel)

/-- The store refuses the credential: the create returns an error and the row is there.  The next
create takes that row for an account, which has no mailbox. -/
theorem pending_row_is_returned : (create (only .setCredentials .refused) free).2 = .error ∧
      (create (only .setCredentials .refused) free).1 = ⟨none, some ⟨none⟩, 2⟩ ∧
      create faultless (create (only .setCredentials .refused) free).1 =
      (⟨none, some ⟨none⟩, 2⟩, .ok ⟨none⟩) ∧
      ¬ Run.Guarded step Sound free [only .setCredentials .refused, faultless] := by
  refine ⟨by decide +kernel, by decide +kernel, by decide +kernel, fun h => ?_⟩
  have hclean := (h.1.clean (by decide +kernel)).2
  exact absurd (hclean (by decide +kernel)) (by decide +kernel)

/-- The process dies with the mailbox created: every later create fails to log in to it. -/
example : create faultless (create (only .createMailbox .diedAfter) free).1 =
    (⟨some ⟨0, true, []⟩, none, 2⟩, .error) := by decide +kernel

end Moov.Accounts
