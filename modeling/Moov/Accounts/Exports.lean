import Mathlib.Data.List.MinMax
import Mathlib.Data.Prod.Lex
import Moov.Lib.Run

/-!
# Exports of an account

`accounts/export.go` and `store/exports.go`: an export is asked for by the address of an account and
is looked up by that address.  Its row outlives the account, so the next account with the address
finds it.

* `getExport`, `startExport` — what an API caller is shown of the latest export of an address;
* `isolated_iff` — in a run, every account is shown its own exports only, exactly if no account is
  created for an address that has exports;
* `jobs_served` — overlapping calls and processes serve one job of an address at a time, if the
  calls for it take turns and no process ends while it produces.
-/

namespace Moov.Exports

open List

/-! ## The tables -/

structure Account where
  id : Nat
  address : List Char
  deleting : Bool
deriving DecidableEq

inductive Status
  | pending
  | running
  | ready
  | failed
  | expired
deriving DecidableEq

structure Export where
  id : Nat
  accountID : Option Nat
  address : List Char
  status : Status
  requestedAt : Nat
  purged : Bool
  /-- The account id that the runner read when it claimed the job. -/
  claimed : Option Nat
  /-- The account whose messages are in the zip. -/
  zip : Option Nat
  /-- The account that asked for the export. -/
  owner : Nat
deriving DecidableEq

def Export.active (e : Export) : Bool := e.status = .pending || e.status = .running

structure State where
  accounts : List Account
  exports : List Export
  nextID : Nat
deriving DecidableEq

def State.empty : State := ⟨[], [], 0⟩

/-- `GetAccountByEmail`. -/
def State.account (s : State) (address : List Char) : Option Account :=
  s.accounts.find? fun a => a.address = address

/-- `LatestExport`. -/
def State.latestExport (s : State) (address : List Char) : Option Export :=
  (s.exports.filter fun e => e.address = address).argmax fun e => toLex (e.requestedAt, e.id)

/-! ## Requests -/

open State

/-- What is shown of an export; `none` for the status is an address without one. -/
structure View where
  status : Option Status
  id : Option Nat
  /-- The export that the signed URL is for. -/
  download : Option Nat
deriving DecidableEq

def view (e : Export) : View :=
  if e.purged then ⟨some .expired, some e.id, none⟩
  else ⟨some e.status, some e.id, if e.status = .ready then some e.id else none⟩

/-- `GetExport`. -/
def getExport (s : State) (address : List Char) : Option View :=
  (s.account address).map fun _ => ((s.latestExport address).map view).getD ⟨none, none, none⟩

/-- `StartExport`, with the id and the time of a new job. -/
def startExport (s : State) (id now : Nat) (address : List Char) : State × Option View :=
  match s.account address with
  | none => (s, none)
  | some a =>
      if a.deleting then (s, none)
      else
        match (s.latestExport address).filter Export.active with
        | some e => (s, some (view e))
        | none =>
            if s.exports.any fun e => e.id = id then (s, none)
            else
              let e : Export := ⟨id, some a.id, address, .pending, now, false, none, none, a.id⟩
              ({ s with exports := s.exports ++ [e] }, some (view e))

inductive Action
  /-- `Create`, of an account that there is or of a new one. -/
  | create (address : List Char)
  | start (id now : Nat) (address : List Char)
  /-- `Delete`. -/
  | delete (address : List Char)
  /-- `Purge`, of one account; the exports keep their rows. -/
  | purge (id : Nat)
  /-- The runner claims a job, -/
  | claim (id : Nat)
  /-- writes the zip and completes it, -/
  | complete (id : Nat)
  /-- or fails it. -/
  | fail (id : Nat)
  /-- The retention sweep. -/
  | sweep (id : Nat)

/-- What becomes of a job. -/
def Export.advance (e : Export) : Action → Export
  | .claim id => if e.id = id && e.status = .pending then
    { e with status := .running, claimed := e.accountID }
  else e
  | .complete id =>
      if e.id = id && e.status = .running && e.claimed.isSome then
        { e with status := .ready, zip := e.claimed }
      else e
  | .fail id => if e.id = id && e.active then { e with status := .failed } else e
  | .sweep id =>
      if e.id = id && e.status = .ready && !e.purged then
        { e with status := .expired, purged := true, zip := none }
      else e
  | .purge id => if e.accountID = some id then { e with accountID := none } else e
  | _ => e

/-- The row of a new account. -/
def State.add (s : State) (address : List Char) : State :=
  { s with accounts := s.accounts ++ [⟨s.nextID, address, false⟩], nextID := s.nextID + 1 }

def State.step (s : State) : Action → Option State
  | .create address =>
      match s.account address with
      | some _ => some s
      | none => some (s.add address)
  | .start id now address => some (startExport s id now address).1
  | .delete address =>
      some { s with accounts := s.accounts.map fun a => if a.address = address then
        { a with deleting := true }
      else a }
  | .purge id =>
      if s.accounts.any fun a => a.id = id && a.deleting then
        some { s with
          accounts := s.accounts.filter fun a => a.id ≠ id
          exports := s.exports.map fun e => e.advance (.purge id) }
      else none
  | a => some { s with exports := s.exports.map fun e => e.advance a }

/-! ## Isolation -/

/-- Nothing is shown, or an export of the account, with the messages of the account. -/
def Owns (exports : List Export) (a : Account) (v : View) : Prop :=
  v.id = none ∨ ∃ e ∈ exports, v = view e ∧ e.owner = a.id ∧ ∀ n, e.zip = some n → n = a.id

/-- Every account is shown its own exports only. -/
def Isolated (s : State) : Prop :=
  ∀ a ∈ s.accounts, (∀ v, getExport s a.address = some v → Owns s.exports a v) ∧
      ∀ id now v, (startExport s id now a.address).2 = some v →
        Owns (startExport s id now a.address).1.exports a v

/-- An account is created only where there are no exports of the address. -/
def State.careful (s : State) : Action → Bool
  | .create address => (s.account address).isSome || !s.exports.any fun e => e.address = address
  | _ => true

/-- The accounts whose messages an export has had to do with. -/
def Export.Own (e : Export) : Prop :=
  ∀ n, e.accountID = some n ∨ e.claimed = some n ∨ e.zip = some n → n = e.owner

structure Inv (s : State) : Prop where
  unique : ∀ a ∈ s.accounts, ∀ b ∈ s.accounts, a.address = b.address → a.id = b.id
  rows : ∀ e ∈ s.exports, e.owner < s.nextID ∧ e.Own
  own : ∀ e ∈ s.exports, ∀ a ∈ s.accounts, e.address = a.address → e.owner = a.id
  accounts : ∀ a ∈ s.accounts, a.id < s.nextID

variable {s s' : State} {act : Action} {address : List Char} {a : Account} {e : Export}

lemma of_latestExport (h : s.latestExport address = some e) :
    e ∈ s.exports ∧ e.address = address := by
  have hmem := mem_filter.1 (argmax_mem h)
  exact ⟨hmem.1, of_decide_eq_true hmem.2⟩

lemma of_account (h : s.account address = some a) : a ∈ s.accounts ∧ a.address = address :=
  ⟨mem_of_find?_eq_some h, by simpa using find?_some h⟩

lemma of_account_none (h : s.account address = none) (ha : a ∈ s.accounts) :
    a.address ≠ address := by
  simpa using find?_eq_none.1 h a ha

/-- The job that an account asks for. -/
def job (id now : Nat) (a : Account) : Export :=
  ⟨id, some a.id, a.address, .pending, now, false, none, none, a.id⟩

/-- `StartExport` refuses, shows the latest export of the address, or makes a job for the account.
-/
lemma startExport_cases (s : State) (id now : Nat) (address : List Char) :
    startExport s id now address = (s, none) ∨
      (∃ e ∈ s.exports, e.address = address ∧ startExport s id now address = (s, some (view e))) ∨
      ∃ a ∈ s.accounts, a.address = address ∧ startExport s id now address =
        ({ s with exports := s.exports ++ [job id now a] }, some (view (job id now a))) := by
  unfold startExport
  split
  · exact .inl rfl
  · rename_i a ha
    obtain ⟨hmem, rfl⟩ := of_account ha
    split
    · exact .inl rfl
    · split
      · rename_i e hlatest
        have he := of_latestExport (Option.filter_eq_some_iff.1 hlatest).1
        exact .inr (.inl ⟨e, he.1, he.2, rfl⟩)
      · split
        · exact .inl rfl
        · exact .inr (.inr ⟨a, hmem, rfl, rfl⟩)

/-- An export that is found for an account is its own. -/
lemma Inv.owns (h : Inv s) (ha : a ∈ s.accounts) (he : e ∈ s.exports)
    (hae : e.address = a.address) :
    Owns s.exports a (view e) := by
  have howner := h.own e he a ha hae
  exact .inr ⟨e, he, rfl, howner, fun n hn => ((h.rows e he).2 n (.inr (.inr hn))).trans howner⟩

lemma Inv.isolated (h : Inv s) : Isolated s := by
  intro a ha
  constructor
  · intro v hv
    obtain ⟨-, -, rfl⟩ := Option.map_eq_some_iff.1 hv
    cases hlatest : s.latestExport a.address with
    | none => exact .inl rfl
    | some => exact h.owns ha (of_latestExport hlatest).1 (of_latestExport hlatest).2
  · intro id now v hv
    rcases startExport_cases s id now a.address with heq | ⟨e, he, hae, heq⟩ | ⟨b, hb, hab, heq⟩ <;>
      rw [heq] at hv ⊢
    · cases hv
    · cases hv
      exact h.owns ha he hae
    · cases hv
      exact .inr ⟨_, mem_append_right _ (mem_singleton_self _), rfl, h.unique b hb a ha hab,
        nofun⟩

/-- The rows that are left are those that there were. -/
lemma Inv.keep (h : Inv s) (hnext : s'.nextID = s.nextID)
    (haccounts : ∀ a' ∈ s'.accounts, ∃ a ∈ s.accounts, a'.id = a.id ∧ a'.address = a.address)
    (hexports : ∀ e' ∈ s'.exports, ∃ e ∈ s.exports, e'.owner = e.owner ∧ e'.address = e.address ∧
      (e.Own → e'.Own)) :
    Inv s' where
  unique a' ha' b' hb' hab := by
    obtain ⟨a, ha, hid, haddress⟩ := haccounts a' ha'
    obtain ⟨b, hb, hid', haddress'⟩ := haccounts b' hb'
    rw [hid, hid']
    exact h.unique a ha b hb (haddress.symm.trans (hab.trans haddress'))
  rows e' he' := by
    obtain ⟨e, he, howner, -, hown⟩ := hexports e' he'
    rw [howner, hnext]
    exact ⟨(h.rows e he).1, hown (h.rows e he).2⟩
  own e' he' a' ha' hae := by
    obtain ⟨a, ha, hid, haddress⟩ := haccounts a' ha'
    obtain ⟨e, he, howner, haddress', -⟩ := hexports e' he'
    rw [howner, hid]
    exact h.own e he a ha (haddress'.symm.trans (hae.trans haddress))
  accounts a' ha' := by
    obtain ⟨a, ha, hid, -⟩ := haccounts a' ha'
    rw [hid, hnext]
    exact h.accounts a ha

lemma advance_keeps (e : Export) (act : Action) :
    (e.advance act).owner = e.owner ∧ (e.advance act).address = e.address ∧
      (e.Own → (e.advance act).Own) ∧ (e.advance act).id = e.id ∧
      (e.advance act).requestedAt = e.requestedAt ∧
      (e.active = false → (e.advance act).active = false) := by
  cases act with
  | claim | complete | fail | sweep | purge =>
    simp only [Export.advance]
    split
    · refine ⟨rfl, rfl, fun h n hn => h n ?_, rfl, rfl, ?_⟩
      · tauto
      · simp_all [Export.active]
    · exact ⟨rfl, rfl, fun h => h, rfl, rfl, fun h => h⟩
  | _ => exact ⟨rfl, rfl, fun h => h, rfl, rfl, fun h => h⟩

lemma Inv.advance (h : Inv s) {accounts : List Account}
    (haccounts : ∀ a' ∈ accounts, ∃ a ∈ s.accounts, a'.id = a.id ∧ a'.address = a.address)
    (act : Action) :
    Inv ⟨accounts, s.exports.map fun e => e.advance act, s.nextID⟩ := by
  refine h.keep rfl haccounts fun e' he' => ?_
  obtain ⟨e, he, rfl⟩ := mem_map.1 he'
  obtain ⟨howner, haddress, hown, -⟩ := advance_keeps e act
  exact ⟨e, he, howner, haddress, hown⟩

lemma Inv.start (h : Inv s) (id now : Nat) (address : List Char) :
    Inv (startExport s id now address).1 := by
  rcases startExport_cases s id now address with heq | ⟨e, he, hae, heq⟩ | ⟨a, ha, rfl, heq⟩ <;>
    rw [heq]
  · exact h
  · exact h
  · refine ⟨h.unique, Run.forall_mem_concat h.rows ⟨h.accounts a ha, ?_⟩,
      Run.forall_mem_concat h.own (h.unique a ha), h.accounts⟩
    rintro n (hn | hn | hn) <;> cases hn
    rfl

lemma Inv.create (h : Inv s) (hnone : s.account address = none)
    (hfree : ∀ e ∈ s.exports, e.address ≠ address) : Inv (s.add address) where
  unique a ha b hb hab := by
    rcases mem_append.1 ha with ha | ha <;> rcases mem_append.1 hb with hb | hb
    · exact h.unique a ha b hb hab
    · rw [mem_singleton.1 hb] at hab
      exact absurd hab (of_account_none hnone ha)
    · rw [mem_singleton.1 ha] at hab
      exact absurd hab.symm (of_account_none hnone hb)
    · rw [mem_singleton.1 ha, mem_singleton.1 hb]
  rows e he := ⟨Nat.lt_succ_of_lt (h.rows e he).1, (h.rows e he).2⟩
  own e he a ha hae := by
    rcases mem_append.1 ha with ha | ha
    · exact h.own e he a ha hae
    · rw [mem_singleton.1 ha] at hae
      exact absurd hae (hfree e he)
  accounts :=
    Run.forall_mem_concat (fun a ha => Nat.lt_succ_of_lt (h.accounts a ha)) (Nat.lt_succ_self _)

lemma inv_step (h : Inv s) (hcareful : s.careful act = true) (hstep : s.step act = some s') :
    Inv s' := by
  have hall : ∀ a ∈ s.accounts, ∃ b ∈ s.accounts, a.id = b.id ∧ a.address = b.address :=
    fun a ha => ⟨a, ha, rfl, rfl⟩
  cases act with
  | create =>
    simp only [step] at hstep
    split at hstep
    · cases hstep
      exact h
    · rename_i hnone
      cases hstep
      refine h.create hnone fun e he => ?_
      simp only [careful, hnone, Option.isSome_none, Bool.false_or, Bool.not_eq_true', any_eq_false,
        decide_eq_true_eq] at hcareful
      exact hcareful e he
  | start id now address =>
    cases hstep
    exact h.start id now address
  | delete =>
    cases hstep
    refine h.keep rfl (fun a' ha' => ?_) fun e he => ⟨e, he, rfl, rfl, fun ho => ho⟩
    obtain ⟨a, ha, rfl⟩ := mem_map.1 ha'
    exact ⟨a, ha, by split <;> rfl, by split <;> rfl⟩
  | purge =>
    simp only [step, Option.ite_none_right_eq_some, Option.some.injEq] at hstep
    obtain ⟨-, rfl⟩ := hstep
    exact h.advance (fun a ha => hall a (mem_filter.1 ha).1) _
  | _ =>
    cases hstep
    exact h.advance hall _

/-- A new account is shown what it finds. -/
lemma not_isolated (h : Inv s) (hcareful : s.careful act = false) :
    ∃ s', s.step act = some s' ∧ ¬ Isolated s' := by
  cases act with
  | create address =>
    simp only [careful, Bool.or_eq_false_iff, Option.isSome_eq_false_iff, Option.isNone_iff_eq_none,
      Bool.not_eq_false', any_eq_true, decide_eq_true_eq] at hcareful
    obtain ⟨hnone, e, he, haddress⟩ := hcareful
    refine ⟨s.add address, by simp only [step, hnone], fun hisolated => ?_⟩
    have haccount : ((s.add address).account address).isSome = true := by simp [account, add]
    obtain ⟨d, hd⟩ : ∃ d, (s.add address).latestExport address = some d := by
      refine Option.ne_none_iff_exists'.1 fun hn => ?_
      have hempty := filter_eq_nil_iff.1 (argmax_eq_none.1 hn) e he
      exact hempty (decide_eq_true haddress)
    obtain ⟨b, hb⟩ := Option.isSome_iff_exists.1 haccount
    have hget : getExport (s.add address) address = some (view d) := by
      rw [getExport, hb, hd]
      rfl
    rcases (hisolated ⟨s.nextID, address, false⟩ (by simp [add])).1 _
      hget with hid | ⟨e', he', -, howner, -⟩
    · unfold view at hid
      split at hid <;> cases hid
    · -- no export is of an account that was not there
      exact absurd howner (h.rows e' he').1.ne
  | _ => cases hcareful

/-- **Isolation.**  In a run from the empty tables every account is shown its own exports only, in
every state that is reached, exactly if no account is created for an address that has exports. -/
theorem isolated_iff (acts : List Action) :
    Run.Guarded State.step (fun s act => ∀ s', s.step act = some s' → Isolated s') .empty acts ↔
      Run.Guarded State.step (fun s act => s.careful act = true) .empty acts := by
  have hempty : Inv .empty := ⟨by simp [empty], by simp [empty], by simp [empty], by simp [empty]⟩
  refine ⟨Run.guarded_of_inv (I := Inv) (fun s act hisolated hinv => ?_) hempty,
    Run.guarded_of_inv (I := Inv) (fun s act hcareful hinv => ?_) hempty⟩
  · cases hcareful : s.careful act with
    | true => exact ⟨rfl, fun s' => inv_step hinv hcareful⟩
    | false =>
      obtain ⟨s', hstep, hnot⟩ := not_isolated hinv hcareful
      exact absurd (hisolated s' hstep) hnot
  · exact ⟨fun s' hstep => (inv_step hinv hcareful hstep).isolated, fun s' =>
      inv_step hinv hcareful⟩

/-- The export of a deleted account is offered to the next one. -/
theorem second_owner_is_shown : ∃ s, Run.exec State.step .empty
      [.create "a@b".toList, .start 7 0 "a@b".toList, .claim 7, .complete 7, .delete "a@b".toList,
        .purge 0, .create "a@b".toList] = some s ∧
    (s.accounts = [⟨1, "a@b".toList, false⟩] ∧ getExport s "a@b".toList =
      some ⟨some .ready, some 7, some 7⟩ ∧
      s.exports.map (fun e => (e.id, e.owner, e.zip)) = [(7, 0, some 0)]) :=
  Run.exists_exec (by decide +kernel)

/-! ## Jobs side by side

`StartExport` looks for an active export and inserts a job with a statement each, a tick of the
runner claims, produces and completes or fails a job, and a process can end between any two
statements. -/

structure Jobs where
  tables : State
  /-- The accounts of the `StartExport` calls that have found no active export. -/
  starting : List Account
  /-- The jobs that live processes produce. -/
  producing : List Nat

inductive JobAction
  /-- `StartExport`, up to `LatestExport`. -/
  | look (address : List Char)
  /-- `CreateExport`. -/
  | insert (a : Account) (id now : Nat)
  /-- `ClaimPendingExport`. -/
  | claim (id : Nat)
  /-- The end of `RunOnce`; `ok` is that `produce` gets to `CompleteExport`.  With a cancelled
  context nothing may be written. -/
  | finish (id : Nat) (ok written : Bool)
  | sweep (id : Nat)
  /-- The processes end and are started again. -/
  | crash

/-- The jobs that `ClaimPendingExport` selects from.  It takes the oldest, or with `SKIP LOCKED`
another. -/
def State.claimable (s : State) (id : Nat) : Bool :=
  s.exports.any fun e => e.id = id && e.status = .pending

/-- `CompleteExport` or `FailExport`: a job without an account is not produced. -/
def lastWrite (id : Nat) (ok : Bool) (e : Export) : Action :=
  if ok && e.claimed.isSome then .complete id else .fail id

def State.advance (s : State) (act : Export → Action) : State :=
  { s with exports := s.exports.map fun e => e.advance (act e) }

def Jobs.step (w : Jobs) : JobAction → Option Jobs
  | .look address =>
      match w.tables.account address with
      | none => some w
      | some a =>
          if a.deleting || (w.tables.latestExport address).any Export.active then some w
          else some { w with starting := w.starting ++ [a] }
  | .insert a id now =>
      if a ∈ w.starting then
        some { w with
          starting := w.starting.erase a
          -- the table has no other constraint than its primary key
          tables.exports :=
            if w.tables.exports.any fun e => e.id = id then w.tables.exports
            else w.tables.exports ++ [job id now a] }
      else none
  | .claim id =>
      if w.tables.claimable id then
        some { w with
          tables := w.tables.advance fun _ => .claim id
          producing := id :: w.producing }
      else none
  | .finish id ok written =>
      if id ∈ w.producing then
        some { w with
          tables := if written then w.tables.advance (lastWrite id ok) else w.tables
          producing := w.producing.erase id }
      else none
  | .sweep id => some { w with tables := w.tables.advance fun _ => .sweep id }
  | .crash => some { w with starting := [], producing := [] }

/-- Each active export can be claimed or is being produced, and an address has at most one. -/
abbrev Served (w : Jobs) : Prop :=
  ∀ e ∈ w.tables.exports, e.active = true →
    (w.tables.claimable e.id = true ∨ e.id ∈ w.producing) ∧
      ∀ e' ∈ w.tables.exports, e'.active = true → e'.address = e.address → e' = e

/-- No call starts while one for the address has yet to insert, the clock is ahead of the exports of
the address, and no process ends between a claim and the last write for it. -/
def Jobs.careful (w : Jobs) : JobAction → Bool
  | .look address => w.starting.all fun a => a.address ≠ address
  | .insert a _ now => w.tables.exports.all fun e => e.address ≠ a.address || e.requestedAt < now
  | .finish _ _ written => written
  | .crash => w.producing.isEmpty
  | _ => true

/-- An active export is the latest of its address, and there is none while a call has yet to insert
one. -/
structure JobInv (w : Jobs) : Prop where
  running : ∀ e ∈ w.tables.exports, e.status = .running → e.id ∈ w.producing
  latest : ∀ e ∈ w.tables.exports, e.active = true → ∀ e' ∈ w.tables.exports,
    e'.address = e.address → e' = e ∨ e'.active = false ∧ e'.requestedAt < e.requestedAt
  starting : ∀ a ∈ w.starting, ∀ e ∈ w.tables.exports, e.address = a.address → e.active = false
  apart : w.starting.Pairwise fun a b => a.address ≠ b.address

variable {w w' : Jobs} {id : Nat} {acts : List JobAction}

/-- Only a claim makes a job run. -/
lemma of_advance_running (h : (e.advance act).status = .running) :
    e.status = .running ∨ act = .claim e.id := by
  cases act with
  | claim | complete | fail | sweep | purge =>
    simp only [Export.advance] at h
    split at h
    · simp_all
    · exact .inl h
  | _ => exact .inl h

lemma of_lastWrite_running {ok : Bool} (h : (e.advance (lastWrite id ok e)).status = .running) :
    e.status = .running ∧ e.id ≠ id := by
  unfold lastWrite at h
  split at h <;> simp only [Export.advance] at h <;> split at h <;> simp_all [Export.active]

lemma JobInv.served (h : JobInv w) : Served w := by
  refine fun e he hactive => ⟨?_, fun e' he' hactive' haddress => ?_⟩
  · rcases Bool.or_eq_true_iff.1 hactive with hpending | hrunning
    · exact .inl (any_eq_true.2 ⟨e, he, by simpa using hpending⟩)
    · exact .inr (h.running e he (of_decide_eq_true hrunning))
  · exact (h.latest e he hactive e' he' haddress).resolve_right (by simp [hactive'])

lemma JobInv.advance (h : JobInv w) {act : Export → Action} {producing : List Nat}
    (hrunning : ∀ e ∈ w.tables.exports, (e.advance (act e)).status = .running → e.id ∈ producing) :
    JobInv ⟨w.tables.advance act, w.starting, producing⟩ := by
  have hkeeps := fun e => advance_keeps e (act e)
  refine ⟨?_, ?_, fun a ha => ?_, h.apart⟩ <;> simp only [State.advance, forall_mem_map, hkeeps]
  · exact hrunning
  · intro e he hactive e' he' haddress
    have hbefore : e.active = true := by
      by_contra hnot
      simp_all
    rcases h.latest e he hbefore e' he' haddress with rfl | ⟨hnot, hlt⟩
    · exact .inl rfl
    · exact .inr ⟨(hkeeps e').2.2.2.2.2 hnot, hlt⟩
  · exact fun e he hae => (hkeeps e).2.2.2.2.2 (h.starting a ha e he hae)

/-- Where the latest export is not active, none is. -/
lemma JobInv.inactive (h : JobInv w)
    (hlatest : (w.tables.latestExport address).any Export.active = false)
    (he : e ∈ w.tables.exports) (haddress : e.address = address) : e.active = false := by
  refine Bool.eq_false_iff.2 fun hactive => ?_
  have hmem : e ∈ w.tables.exports.filter fun e => e.address = address :=
    mem_filter.2 ⟨he, decide_eq_true haddress⟩
  cases hd : w.tables.latestExport address with
  | none => exact absurd (argmax_eq_none.1 hd ▸ hmem) not_mem_nil
  | some d =>
    rw [hd] at hlatest
    obtain ⟨hdmem, hdaddress⟩ := of_latestExport hd
    rcases h.latest e he hactive d hdmem (hdaddress.trans haddress.symm) with rfl | ⟨-, hlt⟩
    · exact absurd hactive (Bool.eq_false_iff.1 hlatest)
    · exact absurd (le_of_mem_argmax hmem hd) (not_le.2 (Prod.Lex.toLex_lt_toLex.2 (.inl hlt)))

lemma jobInv_step {act : JobAction} (h : JobInv w) (hcareful : w.careful act = true)
    (hstep : w.step act = some w') : JobInv w' := by
  cases act with
  | look address =>
    simp only [Jobs.step] at hstep
    split at hstep
    · cases hstep
      exact h
    · rename_i a ha
      obtain ⟨-, rfl⟩ := of_account ha
      split at hstep <;> cases hstep
      · exact h
      · rename_i hnot
        have hlatest := (Bool.or_eq_false_iff.1 (Bool.eq_false_iff.2 hnot)).2
        refine ⟨h.running, h.latest,
          Run.forall_mem_concat h.starting fun e he hae => h.inactive hlatest he hae, ?_⟩
        refine pairwise_append.2 ⟨h.apart, pairwise_singleton _ _, fun b hb c hc => ?_⟩
        rw [mem_singleton.1 hc]
        simpa using all_eq_true.1 hcareful b hb
  | insert a id now =>
    obtain ⟨ha, ⟨⟩⟩ := Option.ite_none_right_eq_some.1 hstep
    have hapart := h.apart.sublist (erase_sublist (a := a))
    have hold : ∀ b ∈ w.starting.erase a, b ∈ w.starting ∧ a.address ≠ b.address := by
      intro b hb
      have hcons := h.apart.perm (perm_cons_erase ha) Ne.symm
      exact ⟨mem_of_mem_erase hb, (pairwise_cons.1 hcons).1 b hb⟩
    split
    · exact ⟨h.running, h.latest, fun b hb => h.starting b (hold b hb).1, hapart⟩
    · refine ⟨Run.forall_mem_concat h.running nofun, ?_, fun b hb => ?_, hapart⟩
      · refine Run.forall_mem_concat (fun e he hactive => ?_) fun _ => ?_ <;>
          refine Run.forall_mem_concat ?_ fun haddress => ?_
        · exact h.latest e he hactive
        · exact absurd hactive (Bool.eq_false_iff.1 (h.starting a ha e he haddress.symm))
        · intro e he haddress
          have hclock := all_eq_true.1 hcareful e he
          exact .inr ⟨h.starting a ha e he haddress, by simp_all [job]⟩
        · exact .inl rfl
      · obtain ⟨hb, hne⟩ := hold b hb
        exact Run.forall_mem_concat (h.starting b hb) fun heq => absurd heq hne
  | claim id =>
    obtain ⟨-, ⟨⟩⟩ := Option.ite_none_right_eq_some.1 hstep
    refine h.advance fun e he hr => ?_
    rcases of_advance_running hr with hrunning | hclaim
    · exact mem_cons_of_mem _ (h.running e he hrunning)
    · cases hclaim
      exact mem_cons_self
  | finish id ok written =>
    obtain ⟨-, ⟨⟩⟩ := Option.ite_none_right_eq_some.1 hstep
    cases hcareful
    refine h.advance fun e he hr => ?_
    obtain ⟨hrunning, hne⟩ := of_lastWrite_running hr
    exact (mem_erase_of_ne hne).2 (h.running e he hrunning)
  | sweep id =>
    cases hstep
    refine h.advance fun e he hr => ?_
    rcases of_advance_running hr with hrunning | hclaim
    · exact h.running e he hrunning
    · cases hclaim
  | crash =>
    cases hstep
    have hnone : w.producing = [] := isEmpty_iff.1 hcareful
    exact ⟨hnone ▸ h.running, h.latest, nofun, .nil⟩

/-- **Exports are served one at a time.**  In a careful run from tables without exports every
pending or running export can be claimed or is being produced, and an address has one at most. -/
theorem jobs_served {s : State} (hs : s.exports = [])
    (hcareful : Run.Guarded Jobs.step (fun w act => w.careful act = true) ⟨s, [], []⟩ acts)
    (h : Run.exec Jobs.step ⟨s, [], []⟩ acts = some w) : Served w := by
  have hinit : JobInv ⟨s, [], []⟩ := ⟨by simp [hs], by simp [hs], nofun, .nil⟩
  exact (Run.inv_exec (fun _ _ _ hc hi => jobInv_step hi hc) hinit hcareful h).served

def oneAccount : State := State.empty.add ['a']

def insertOne : Nat → Nat → JobAction := .insert ⟨0, ['a'], false⟩

/-- A job fails, the next one is swept, and the third is being produced. -/
theorem jobs_served_thirdRunning : ∃ w, Run.exec Jobs.step ⟨oneAccount, [], []⟩
      [.look ['a'], insertOne 7 0, .claim 7, .finish 7 false true, .look ['a'], insertOne 8 1,
        .claim 8, .finish 8 true true, .crash, .sweep 8, .look ['a'], insertOne 9 2, .claim 9] =
      some w ∧
    w.tables.exports.map (·.status) = [.failed, .expired, .running] ∧ Served w :=
  Run.exists_of_guarded (by decide +kernel) (by decide +kernel) fun _ hg h _ => jobs_served rfl hg h

/-- Two calls that overlap make two jobs, and a process that ends leaves one of them running. -/
theorem two_jobs_and_a_stuck_one : ∃ w, Run.exec Jobs.step ⟨oneAccount, [], []⟩
      [.look ['a'], .look ['a'], insertOne 7 0, insertOne 8 1, .claim 7, .crash] = some w ∧
    w.tables.exports.map (·.status) = [.running, .pending] ∧ w.producing = [] ∧ ¬ Served w :=
  Run.exists_exec (by decide +kernel)

end Moov.Exports
