import Mathlib.Data.List.Dedup
import Mathlib.Data.List.Sort
import Moov.Lib.Run

/-!
# The blob store

`internal/blob` (`blob.go`, `pins.go`), the tables `blobs` and `blob_refs` of migration 0002
and `DeleteAccount` of `store/accounts.go`, cut at every call of the file system and at every
SQL statement.

* a transaction (`Tx`) is READ COMMITTED: its statements see what is committed and what it
  has written itself; it holds the row locks it has taken until it ends, and its writes
  become visible when it commits;
* a process (`Proc`) is a `Put`, a caller's transaction, a `GC` or an `ExpirePins`, at the
  point it has reached;
* any process may go on, or die; the machine may lose its power, and with it the directory
  entries that were not synced.

A statement that would have to wait for a lock is not enabled.
-/

namespace Moov.Blob

/-! ## Tables -/

inductive OwnerKind
  | message
  | part
  | draft
  | pin
deriving DecidableEq

/-- A row of `blobs`; a hash is the number its bytes spell, so that the order of numbers is
`bytes.Compare`. -/
structure BlobRow where
  sha : Nat
  refcount : Nat
  zeroRefSince : Option Nat
deriving DecidableEq

/-- A row of `blob_refs`.  Every reference has an owner: only `AddRef` inserts. -/
structure RefRow where
  sha : Nat
  account : Nat
  kind : OwnerKind
  owner : Nat
  createdAt : Nat
deriving DecidableEq

/-- `Ref`. -/
structure Ref where
  hash : Nat
  accountID : Nat
  kind : OwnerKind
  ownerID : Nat
deriving DecidableEq

/-- A row of `messages`, by what its foreign keys point at. -/
structure MessageRow where
  account : Nat
  rawSha : Nat
deriving DecidableEq

structure Database where
  blobs : List BlobRow
  refs : List RefRow
  messages : List MessageRow
  accounts : List Nat
deriving DecidableEq

/-- The row of a hash. -/
def Database.rowAt (db : Database) (h : Nat) : Option BlobRow :=
  db.blobs.find? fun row => row.sha = h

/-- The references of a hash. -/
def Database.refsAt (db : Database) (h : Nat) : List RefRow :=
  db.refs.filter fun r => r.sha = h

/-- `DeleteAccount`, with the rows that go by `ON DELETE CASCADE`. -/
def Database.deleteAccount (db : Database) (account : Nat) : Database :=
  { db with
    accounts := db.accounts.filter (· ≠ account)
    refs := db.refs.filter fun r => r.account ≠ account
    messages := db.messages.filter fun m => m.account ≠ account }

/-! ## Statements -/

inductive Stmt
  /-- The `INSERT` of a message, which locks the key of its blob. -/
  | insertMessage (m : MessageRow)
  /-- `SELECT refcount FROM blobs WHERE sha256 = $1 FOR UPDATE`; without a row the call is an
  error, or over. -/
  | lock (h : Nat) (required : Bool)
  /-- The same of `collectOne`, with its conditions. -/
  | lockCollectable (h : Nat) (cutoff : Nat)
  | insertRef (r : Ref)
  | deleteRef (h : Nat) (kind : OwnerKind) (owner : Nat)
  /-- The `DELETE` of `expirePinsOf`, after which the call is over when there was none. -/
  | deletePins (h : Nat) (cutoff : Nat)
  | syncRefcount (h : Nat)
  | deleteBlob (h : Nat)
deriving DecidableEq

def addRef (r : Ref) : List Stmt :=
  [.lock r.hash true, .insertRef r, .syncRefcount r.hash]

/-- One blob of `AddRefs`. -/
def addRefGroup (refs : List Ref) (h : Nat) : List Stmt :=
  .lock h true :: ((refs.filter fun r => r.hash = h).map .insertRef ++ [.syncRefcount h])

/-- `AddRefs`: blob by blob, in the order of the hashes. -/
def addRefs (refs : List Ref) : List Stmt :=
  (((refs.map (·.hash)).dedup.insertionSort (· ≤ ·)).map (addRefGroup refs)).flatten

def removeRef (h : Nat) (kind : OwnerKind) (owner : Nat) : List Stmt :=
  [.lock h false, .deleteRef h kind owner, .syncRefcount h]

def expirePinsOf (h cutoff : Nat) : List Stmt :=
  [.lock h false, .deletePins h cutoff, .syncRefcount h]

def collectOne (h cutoff : Nat) : List Stmt :=
  [.lockCollectable h cutoff, .deleteBlob h]

/-! ## Transactions -/

/-- A transaction under way: what is left of its calls, the rows it has locked `FOR UPDATE`
and those it has locked `FOR KEY SHARE`, and what it has written. -/
structure Tx where
  now : Nat
  calls : List (List Stmt)
  locks : List Nat
  shares : List Nat
  inserted : List RefRow
  removed : List RefRow
  counts : List BlobRow
  collected : List Nat
  messages : List MessageRow

def Tx.begin (now : Nat) (calls : List (List Stmt)) : Tx :=
  ⟨now, calls, [], [], [], [], [], [], []⟩

/-- The references a statement of the transaction sees. -/
def Tx.refs (t : Tx) (db : Database) : List RefRow :=
  (db.refs.filter fun r => r ∉ t.removed) ++ t.inserted

def Tx.refsAt (t : Tx) (db : Database) (h : Nat) : List RefRow :=
  (t.refs db).filter fun r => r.sha = h

/-- The row of a hash as a statement of the transaction sees it. -/
def Tx.rowAt (t : Tx) (db : Database) (h : Nat) : Option BlobRow :=
  (db.rowAt h).map fun row => (t.counts.find? fun c => c.sha = h).getD row

/-- `DELETE FROM blob_refs WHERE …`. -/
def Tx.delete (t : Tx) (db : Database) (p : RefRow → Bool) : Tx :=
  { t with
    removed := t.removed ++ db.refs.filter p
    inserted := t.inserted.filter fun r => !p r }

/-- `UPDATE blobs SET refcount = c.n, zero_ref_since = …`. -/
def recount (row : BlobRow) (n now : Nat) : BlobRow :=
  { row with
    refcount := n
    zeroRefSince := if 0 < n then none else if row.zeroRefSince.isSome then row.zeroRefSince
    else some now }

/-- The condition of the GC on a row. -/
def BlobRow.collectable (row : BlobRow) (cutoff : Nat) : Bool :=
  row.refcount = 0 && row.zeroRefSince.any (· < cutoff)

inductive Outcome
  | next (t : Tx)
  /-- The call is over. -/
  | skip
  /-- The call is an error, and the transaction is rolled back. -/
  | fail

/-- One statement; `none` while it waits for another transaction. -/
def Tx.exec (t : Tx) (db : Database) (others : List Tx) : Stmt → Option Outcome
  | .insertMessage m =>
      if others.any fun o => m.rawSha ∈ o.locks then none
      else if m.account ∈ db.accounts ∧ (db.rowAt m.rawSha).isSome then
        some (.next { t with messages := t.messages ++ [m], shares := m.rawSha :: t.shares })
      else some .fail
  | .lock h required =>
      if others.any fun o => h ∈ o.locks ∨ h ∈ o.shares then none
      else if (db.rowAt h).isSome then some (.next { t with locks := h :: t.locks })
      else if required then some .fail else some .skip
  | .lockCollectable h cutoff =>
      if (db.rowAt h).any (·.collectable cutoff) then
        if others.any fun o => h ∈ o.locks ∨ h ∈ o.shares then none
        else some (.next { t with locks := h :: t.locks })
      else some .skip
  | .insertRef r =>
      if (t.refs db).any fun x => x.sha = r.hash ∧ x.kind = r.kind ∧ x.owner = r.ownerID then
        some (.next t)
      else if r.accountID ∈ db.accounts then
        some (.next { t with
          inserted := t.inserted ++ [⟨r.hash, r.accountID, r.kind, r.ownerID, t.now⟩] })
      else some .fail
  | .deleteRef h kind owner =>
      some (.next (t.delete db fun x => x.sha = h ∧ x.kind = kind ∧ x.owner = owner))
  | .deletePins h cutoff =>
      let expired : RefRow → Bool := fun x => x.sha = h ∧ x.kind = .pin ∧ x.createdAt < cutoff
      if (t.refs db).any expired then some (.next (t.delete db expired)) else some .skip
  | .syncRefcount h =>
      match t.rowAt db h with
      | none => some (.next t)
      | some row =>
          some (.next { t with counts := recount row (t.refsAt db h).length t.now :: t.counts })
  | .deleteBlob h =>
      if (t.rowAt db h).any fun row => row.refcount = 0 then
        if db.refs.any (fun r => r.sha = h) || db.messages.any (fun m => m.rawSha = h) then
          -- ON DELETE RESTRICT
          some .fail
        else some (.next { t with collected := h :: t.collected })
      else some (.next t)

def Tx.commit (t : Tx) (db : Database) : Database :=
  { db with
    blobs := (db.blobs.filter fun row => row.sha ∉ t.collected).map fun row =>
      (t.counts.find? fun c => c.sha = row.sha).getD row
    refs := t.refs db
    messages := db.messages ++ t.messages }

/-! ## Processes -/

/-- The calls of a caller's transaction. -/
inductive Call
  | insertMessage (m : MessageRow)
  | addRef (r : Ref)
  | addRefs (refs : List Ref)
  | removeRef (h : Nat) (kind : OwnerKind) (owner : Nat)
deriving DecidableEq

def Call.stmts : Call → List Stmt
  | .insertMessage m => [.insertMessage m]
  | .addRef r => Blob.addRef r
  | .addRefs refs => Blob.addRefs refs
  | .removeRef h kind owner => Blob.removeRef h kind owner

/-- `Put`, once its temporary file is written, synced and hashed. -/
inductive PutStage
  | stat
  | rename
  | syncDir
  | record
deriving DecidableEq

/-- What a process does after its transaction. -/
inductive After
  | done
  | gc (cutoff h : Nat) (queue : List Nat)
  | expire (cutoff : Nat) (queue : List Nat)

inductive Proc (Content : Type)
  | put (c : Content) (stage : PutStage)
  | tx (t : Tx) (after : After)
  | gcScan (limit : Nat)
  | gc (cutoff : Nat) (queue : List Nat)
  | unlink (cutoff h : Nat) (queue : List Nat)
  | expireScan (maxAge limit : Nat)
  | expire (cutoff : Nat) (queue : List Nat)
  | done

/-- A file of the sharded tree.  An entry that was not synced may be lost. -/
structure File (Content : Type) where
  name : Nat
  content : Content
  durable : Bool

structure World (Content : Type) where
  db : Database
  files : List (File Content)
  procs : List (Proc Content)
  clock : Nat
  grace : Nat

variable {Content : Type}

def World.empty (grace : Nat) : World Content :=
  ⟨⟨[], [], [], []⟩, [], [], 0, grace⟩

def World.fileAt (w : World Content) (h : Nat) : Option (File Content) :=
  w.files.find? fun f => f.name = h

def Proc.tx? : Proc Content → Option Tx
  | .tx t _ => some t
  | _ => none

/-- The transactions under way. -/
def txs (procs : List (Proc Content)) : List Tx :=
  procs.filterMap Proc.tx?

/-- The candidates of `GC`, oldest first. -/
def gcCandidates (db : Database) (cutoff limit : Nat) : List Nat :=
  (((db.blobs.filter (·.collectable cutoff)).insertionSort
    fun a b => a.zeroRefSince.getD 0 ≤ b.zeroRefSince.getD 0).take
      (if limit = 0 then 1000 else limit)).map (·.sha)

/-- The candidates of `ExpirePins`. -/
def pinCandidates (db : Database) (cutoff limit : Nat) : List Nat :=
  (((db.refs.filter fun r => r.kind = .pin ∧ r.createdAt < cutoff).map (·.sha)).dedup).take
    (if limit = 0 then 1000 else limit)

/-- What `GC` and `ExpirePins` do once their transaction is committed. -/
def afterCommit (t : Tx) : After → Proc Content
  | .done => .done
  | .gc cutoff h queue => if t.collected = [] then .gc cutoff queue else .unlink cutoff h queue
  | .expire cutoff queue => .expire cutoff queue

/-- The next step of a process beside the transactions `others`. -/
def advance (sha256 : Content → Nat) (w : World Content) (others : List Tx) :
    Proc Content → Option (World Content × Proc Content)
  | .put c .stat =>
      if (w.fileAt (sha256 c)).isSome then some (w, .put c .record) else some (w, .put c .rename)
  | .put c .rename =>
      -- over an entry that is synced, one of the two survives
      let durable := w.files.any fun f => f.name = sha256 c && f.durable
      some ({ w with
        files := ⟨sha256 c, c, durable⟩ :: w.files.filter fun f => f.name ≠ sha256 c },
        .put c .syncDir)
  | .put c .syncDir =>
      some ({ w with
        files := w.files.map fun f => if f.name = sha256 c then { f with durable := true } else f },
        .put c .record)
  | .put c .record =>
      if others.any fun o => sha256 c ∈ o.collected then none
      else if (w.db.rowAt (sha256 c)).isSome then some (w, .done)
      else some ({ w with
        db := { w.db with blobs := w.db.blobs ++ [⟨sha256 c, 0, some w.clock⟩] } }, .done)
  | .tx t after =>
      match t.calls with
      | [] => some ({ w with db := t.commit w.db }, afterCommit t after)
      | [] :: calls => some (w, .tx { t with calls := calls } after)
      | (s :: rest) :: calls =>
          match t.exec w.db others s with
          | none => none
          | some (.next t') => some (w, .tx { t' with calls := rest :: calls } after)
          | some .skip => some (w, .tx { t with calls := calls } after)
          | some .fail => some (w, .done)
  | .gcScan limit =>
      some (w, .gc (w.clock - w.grace) (gcCandidates w.db (w.clock - w.grace) limit))
  | .gc _ [] => some (w, .done)
  | .gc cutoff (h :: queue) =>
      some (w, .tx (.begin w.clock [collectOne h cutoff]) (.gc cutoff h queue))
  | .unlink cutoff h queue =>
      some ({ w with files := w.files.filter fun f => f.name ≠ h }, .gc cutoff queue)
  | .expireScan maxAge limit =>
      some (w, .expire (w.clock - maxAge) (pinCandidates w.db (w.clock - maxAge) limit))
  | .expire _ [] => some (w, .done)
  | .expire cutoff (h :: queue) =>
      some (w, .tx (.begin w.clock [expirePinsOf h cutoff]) (.expire cutoff queue))
  | .done => none

inductive Action (Content : Type)
  | put (c : Content)
  /-- A caller's transaction. -/
  | batch (calls : List Call)
  | gc (limit : Nat)
  | expirePins (maxAge limit : Nat)
  | go (i : Nat)
  /-- A process dies. -/
  | crash (i : Nat)
  | powerLoss
  | createAccount (account : Nat)
  | deleteAccount (account : Nat)
  | tick

/-- The transaction has locked the key of an account, or has written a reference of it. -/
def Tx.touches (t : Tx) (account : Nat) : Bool :=
  t.inserted.any (·.account = account) || t.removed.any (·.account = account) ||
    t.messages.any (·.account = account)

/-- The process that an action starts. -/
def started (w : World Content) : Action Content → Option (Proc Content)
  | .put c => some (.put c .stat)
  | .batch calls => some (.tx (.begin w.clock (calls.map Call.stmts)) .done)
  | .gc limit => some (.gcScan limit)
  | .expirePins maxAge limit => some (.expireScan maxAge limit)
  | _ => none

def step (sha256 : Content → Nat) (w : World Content) : Action Content → Option (World Content)
  | .go i =>
      match w.procs[i]? with
      | none => none
      | some p =>
          match advance sha256 w (txs (w.procs.set i .done)) p with
          | none => none
          | some (w', p') => some { w' with procs := w.procs.set i p' }
  | .crash i => some { w with procs := w.procs.set i .done }
  | .powerLoss => some { w with procs := [], files := w.files.filter (·.durable) }
  | .createAccount account =>
      some { w with db := { w.db with accounts := account :: w.db.accounts } }
  | .deleteAccount account =>
      if account ∈ w.db.accounts ∧ (txs w.procs).all fun t => !t.touches account then
        some { w with db := w.db.deleteAccount account }
      else none
  | .tick => some { w with clock := w.clock + 1 }
  | a =>
      match started w a with
      | none => none
      | some p => some { w with procs := w.procs ++ [p] }

end Moov.Blob
