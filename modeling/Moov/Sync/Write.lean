import Mathlib.Data.List.Pairwise
import Mathlib.Tactic.SplitIfs
import Moov.Store.Types

/-!
# The write executor: how often a write command is sent

`withMailbox` runs a callback with the account's cached connection holding a
mailbox selected, and repeats it once on a fresh connection when the cached
selection "looks dead".  The callbacks of `ApplyMove` and `ApplyAppendAt` send
a command that must not be sent twice (`MOVE`, `APPEND`), and go on with steps
that can fail in the very same way.

Everything outside the process is an input: whether the context is done,
whether a dial succeeds, what each command answers.  A command's `Answer` says
both what the client sees and whether the server carried the command out,
which are different things when the connection breaks in between.

* `withMailbox_once_iff` is the general result: a callback that sends at most
  one command is never repeated after sending it, except when the selection was
  cached and the callback sent its command and *then* failed with an error that
  `isConnectionDead` takes for an idle socket.
* `write_commands_once_iff` reads this off for the three callers.
-/

namespace Moov.Sync

/-- The errors of the write path, up to what `errors.Is` can tell apart. -/
inductive WriteErr
  | notConnected
  | mailboxStale
  | writeConflict
  | writeNotFound
  | noTrashMailbox
  | appendNotSupported
  | notSnoozed
  | context
  | other
deriving DecidableEq

/-- `isConnectionDead`: the errors taken to mean that the socket is gone. -/
def isConnectionDead : WriteErr → Bool
  | .notConnected => true
  | .mailboxStale => true
  | _ => false

/-! ## Commands and their answers -/

/-- The write commands of the executor. -/
inductive Cmd
  | move | append | expunge
deriving DecidableEq

/-- Sending the command twice does more than sending it once. -/
def Cmd.nonIdempotent : Cmd → Bool
  | .move => true
  | .append => true
  | .expunge => false

/-- A command that was written to the connection, and whether it took effect. -/
structure Sent where
  cmd : Cmd
  landed : Bool
deriving DecidableEq

/-- What happens to one command.  `unsent`: the client refused it before
writing anything.  `broken`: it was written and no success came back, whether
or not the server carried it out; the client library's own errors are none of
this package's sentinels.  `done`: the server answered OK. -/
inductive Answer (ρ : Type)
  | unsent (e : WriteErr)
  | broken (landed : Bool)
  | done (r : ρ)
deriving DecidableEq

/-- What the caller sees of an answer. -/
def Answer.result {ρ : Type} : Answer ρ → Except WriteErr ρ
  | .unsent e => .error e
  | .broken _ => .error .other
  | .done r => .ok r

/-- What an answer leaves in the record of commands sent. -/
def Answer.sent {ρ : Type} (c : Cmd) : Answer ρ → List Sent
  | .unsent _ => []
  | .broken landed => [⟨c, landed⟩]
  | .done _ => [⟨c, true⟩]

/-! ## The cached connection -/

open Answer

/-- `accountConn`: the account's connection and the mailbox it has open. -/
structure AccountConn where
  client : Bool
  selectedName : String
  selectedResult : SelectResult
deriving DecidableEq

def noSelection : SelectResult := ⟨0, 0, 0, 0, []⟩

namespace AccountConn

variable (ac : AccountConn)

/-- The remembered `SELECT` result, if this mailbox is the one open. -/
def selection (mailbox : String) : Option SelectResult :=
  if ac.client = false ∨ ac.selectedName = "" ∨ ac.selectedName ≠ mailbox then none
  else some ac.selectedResult

def remember (mailbox : String) (sel : SelectResult) : AccountConn :=
  { ac with selectedName := mailbox, selectedResult := sel }

def forgetSelection : AccountConn :=
  { ac with selectedName := "", selectedResult := noSelection }

/-- `ensure`, once a connection is there: the cached one or a fresh dial. -/
def ensured : AccountConn := { ac with client := true }

def discard : AccountConn :=
  { ac with client := false }.forgetSelection

end AccountConn

/-! ## `withMailbox` -/

/-- The outside world during one attempt: the context, the dial (asked only
when there is no connection), the `SELECT` (asked only when it is not cached)
and whatever the callback runs into. -/
structure Attempt (ε : Type) where
  ctxDone : Bool
  dial : Bool
  select : Except WriteErr SelectResult
  body : ε

/-- What a callback, or the whole call, leaves behind: the value it filled in,
its error, the connection, the commands it sent, and what had been sent by
each attempt that was given up and repeated. -/
structure Ran (ω : Type) where
  out : ω
  err : Option WriteErr
  ac : AccountConn
  sent : List Sent
  abandoned : List (List Sent)

/-- One turn of the loop either ends the call or goes round again. -/
inductive Turn (ω : Type)
  | stop (r : Ran ω)
  | again (out : ω) (lastErr : WriteErr) (ac : AccountConn) (sent : List Sent)

section WithMailbox

variable {ε ω : Type} (mailbox : String) (fn : AccountConn → SelectResult → ε → ω → Ran ω)

/-- The callback's turn, once a selection is there. -/
def runCallback (first cached : Bool) (ac : AccountConn) (sel : SelectResult) (env : ε)
    (out : ω) : Turn ω :=
  let r := fn ac sel env out
  match r.err with
  | none => .stop r
  | some e =>
      if cached && first && isConnectionDead e then .again r.out e r.ac.discard r.sent
      else .stop r

/-- One turn of the loop of `withMailbox`; `first` is `attempt == 0`. -/
def turn (first : Bool) (ac : AccountConn) (env : Attempt ε) (out : ω) : Turn ω :=
  if env.ctxDone then .stop ⟨out, some .context, ac, [], []⟩
  else if ac.client = false ∧ env.dial = false then .stop ⟨out, some .other, ac, [], []⟩
  else
    match ac.ensured.selection mailbox with
    | some sel => runCallback fn first true ac.ensured sel env.body out
    | none =>
        match env.select with
        | .error e =>
            if first then .again out e ac.ensured.discard []
            else .stop ⟨out, some e, ac.ensured.discard, [], []⟩
        | .ok sel =>
            runCallback fn first false (ac.ensured.remember mailbox sel) sel env.body out

/-- `withMailbox`: at most two turns. -/
def withMailbox (ac : AccountConn) (first second : Attempt ε) (out : ω) : Ran ω :=
  match turn mailbox fn true ac first out with
  | .stop r => r
  | .again out e ac sent =>
      match turn mailbox fn false ac second out with
      | .stop r => { r with sent := sent ++ r.sent, abandoned := [sent] }
      | .again out _ ac sent' => ⟨out, some e, ac, sent ++ sent', [sent, sent']⟩

end WithMailbox

/-! ## `ApplyMove` -/

/-- `WriteResult`: the message after a write, as the server reported it. -/
structure WriteResult where
  mailboxID : Nat
  uid : Nat
  flags : Nat
  keywords : List String
  expunged : Bool
deriving DecidableEq

def noResult : WriteResult := ⟨0, 0, 0, [], false⟩

/-- What a store read can fail with. -/
inductive StoreErr
  | notFound | other
deriving DecidableEq

/-- `target`: the row and its mailbox, for the account that owns them. -/
def target (accountID : Nat) (row : Except StoreErr MessageState)
    (mb : Except StoreErr MailboxRow) : Except WriteErr (MessageState × MailboxRow) :=
  match row with
  | .error .notFound => .error .writeNotFound
  | .error .other => .error .other
  | .ok st =>
      if st.accountID ≠ accountID ∨ st.deletedAt ≠ none then .error .writeNotFound
      else
        match mb with
        | .error _ => .error .other
        | .ok mb => .ok (st, mb)

/-- The folder a write is aimed at: the caller's own and selectable. -/
def ownFolder (accountID : Nat) (mb : Except StoreErr MailboxRow) : Except WriteErr MailboxRow :=
  match mb with
  | .error .notFound => .error .writeNotFound
  | .error .other => .error .other
  | .ok mb => if mb.accountID ≠ accountID ∨ mb.selectable = false then
    .error .writeNotFound
  else .ok mb

/-- `checkUIDValidity`: the row's UID still names the row's message. -/
def checkUIDValidity (sel : SelectResult) (st : MessageState) : Bool :=
  sel.uidValidity == st.uidValidity

/-- What the callback of `ApplyMove` runs into.  The store's statements are
told apart only by whether they succeed: a store error is never one of the
errors `isConnectionDead` names. -/
structure MoveEnv where
  move : Answer MoveResult
  markDeleted : Bool
  reselect : Except WriteErr SelectResult
  moveMessages : Bool
  readBack : Except WriteErr (Option FetchedFlags)
  reflectFlags : Bool

/-- The move landed but cannot be followed: the source row is tombstoned. -/
def tombstoneSource (st : MessageState) (tgt : MailboxRow) (env : MoveEnv) (ac : AccountConn)
    (sent : List Sent) (out : WriteResult) : Ran WriteResult :=
  if env.markDeleted then
    ⟨{ out with mailboxID := tgt.id, uid := 0, flags := st.flags, keywords := st.keywords },
      none, ac, sent, []⟩
  else ⟨out, some .other, ac, sent, []⟩

/-- The end of the callback: the store follows the move, then the read-back. -/
def reflectMove (st : MessageState) (tgt : MailboxRow) (destUID : Nat) (env : MoveEnv)
    (ac : AccountConn) (sent : List Sent) (out : WriteResult) : Ran WriteResult :=
  if env.moveMessages = false then ⟨out, some .other, ac, sent, []⟩
  else
    let out :=
      { out with mailboxID := tgt.id, uid := destUID, flags := st.flags, keywords := st.keywords }
    match env.readBack with
    | .error e => ⟨out, some e, ac, sent, []⟩
    | .ok none => ⟨out, none, ac, sent, []⟩
    | .ok (some msg) =>
        if env.reflectFlags then
          ⟨{ out with flags := msg.flags, keywords := msg.keywords }, none, ac, sent, []⟩
        else ⟨out, some .other, ac, sent, []⟩

/-- The steps after an answered `MOVE`. -/
def followMove (st : MessageState) (tgt : MailboxRow) (res : MoveResult) (env : MoveEnv)
    (ac : AccountConn) (sent : List Sent) (out : WriteResult) : Ran WriteResult :=
  match res.destUIDs.lookup st.uid with
  | none => tombstoneSource st tgt env ac sent out
  | some destUID =>
      match env.reselect with
      | .error e => ⟨out, some e, ac.forgetSelection, sent, []⟩
      | .ok dsel =>
          let ac := ac.remember tgt.name dsel
          -- the destination was recreated between the MOVE and this SELECT
          if res.destUIDValidity ≠ 0 ∧ res.destUIDValidity ≠ dsel.uidValidity then
            tombstoneSource st tgt env ac sent out
          else reflectMove st tgt destUID env ac sent out

/-- The callback of `ApplyMove`. -/
def moveBody (st : MessageState) (tgt : MailboxRow) (ac : AccountConn) (sel : SelectResult)
    (env : MoveEnv) (out : WriteResult) : Ran WriteResult :=
  if checkUIDValidity sel st = false then ⟨out, some .writeConflict, ac, [], []⟩
  else
    match env.move.result with
    | .error e => ⟨out, some e, ac, env.move.sent .move, []⟩
    | .ok res => followMove st tgt res env ac (env.move.sent .move) out

/-- The rows `ApplyMove` reads before it touches the connection. -/
structure MoveReads where
  row : Except StoreErr MessageState
  source : Except StoreErr MailboxRow
  target : Except StoreErr MailboxRow
  account : Bool

/-- `ApplyMove`. -/
def applyMove (accountID targetMailboxID : Nat) (reads : MoveReads) (ac : AccountConn)
    (first second : Attempt MoveEnv) : Ran WriteResult :=
  match target accountID reads.row reads.source with
  | .error e => ⟨noResult, some e, ac, [], []⟩
  | .ok (st, src) =>
      if st.mailboxID = targetMailboxID then
        ⟨⟨st.mailboxID, st.uid, st.flags, st.keywords, false⟩, none, ac, [], []⟩
      else
        match ownFolder accountID reads.target with
        | .error e => ⟨noResult, some e, ac, [], []⟩
        | .ok tgt =>
            if reads.account = false then ⟨noResult, some .other, ac, [], []⟩
            else withMailbox src.name (moveBody st tgt) ac first second noResult

/-! ## `ApplyAppendAt` and the wake -/

/-- `AppendedMessage`, with the identifiers the callers read. -/
structure AppendedMessage where
  messageID : Nat
  uid : Nat
deriving DecidableEq

/-- What the callback of `ApplyAppendAt` runs into; `reflect` is what
`reflectAppend` answers, which talks to the blob store and the database only. -/
structure AppendEnv where
  uidPlus : Bool
  append : Answer AppendResult
  readBack : Except WriteErr (Option FetchedFlags)
  reflect : Option AppendedMessage

/-- The steps after an answered `APPEND`. -/
def followAppend (res : AppendResult) (env : AppendEnv) (ac : AccountConn) (sent : List Sent)
    (out : AppendedMessage) : Ran AppendedMessage :=
  if res.uid = 0 then ⟨out, some .other, ac, sent, []⟩
  else
    match env.readBack with
    | .error e => ⟨out, some e, ac, sent, []⟩
    | .ok none => ⟨out, some .other, ac, sent, []⟩
    | .ok (some _) =>
        match env.reflect with
        | none => ⟨out, some .other, ac, sent, []⟩
        | some reflected => ⟨reflected, none, ac, sent, []⟩

/-- The callback of `ApplyAppendAt`. -/
def appendBody (ac : AccountConn) (_sel : SelectResult) (env : AppendEnv) (out : AppendedMessage) :
    Ran AppendedMessage :=
  if env.uidPlus = false then ⟨out, some .appendNotSupported, ac, [], []⟩
  else
    match env.append.result with
    | .error e => ⟨out, some e, ac, env.append.sent .append, []⟩
    | .ok res => followAppend res env ac (env.append.sent .append) out

/-- What `ApplyAppendAt` checks before it touches the connection. -/
structure AppendReads where
  blobs : Bool
  rawEmpty : Bool
  mailbox : Except StoreErr MailboxRow
  account : Bool

/-- `ApplyAppendAt`; `ApplyAppend` is the same call with the date left open. -/
def applyAppendAt (accountID : Nat) (reads : AppendReads) (ac : AccountConn)
    (first second : Attempt AppendEnv) : Ran AppendedMessage :=
  if reads.blobs = false ∨ reads.rawEmpty = true then ⟨⟨0, 0⟩, some .other, ac, [], []⟩
  else
    match ownFolder accountID reads.mailbox with
    | .error e => ⟨⟨0, 0⟩, some e, ac, [], []⟩
    | .ok mb =>
        if reads.account = false then ⟨⟨0, 0⟩, some .other, ac, [], []⟩
        else withMailbox mb.name appendBody ac first second ⟨0, 0⟩

/-- What the callback of `expungeFromSnoozed` runs into. -/
structure ExpungeEnv where
  expunge : Answer Unit
  markDeleted : Bool

/-- The callback of `expungeFromSnoozed`. -/
def expungeBody (st : MessageState) (ac : AccountConn) (sel : SelectResult) (env : ExpungeEnv)
    (out : Unit) : Ran Unit :=
  if checkUIDValidity sel st = false then ⟨out, some .writeConflict, ac, [], []⟩
  else
    match env.expunge.result with
    | .error e => ⟨out, some e, ac, env.expunge.sent .expunge, []⟩
    | .ok _ =>
        if env.markDeleted then ⟨out, none, ac, env.expunge.sent .expunge, []⟩
        else ⟨out, some .other, ac, env.expunge.sent .expunge, []⟩

/-- What `wakeMessage` reads before the append: the sleeping row and its
folder, whether that folder is `Snoozed`, the folder to wake into, the bytes. -/
structure WakeReads where
  row : Except StoreErr MessageState
  source : Except StoreErr MailboxRow
  inSnoozed : Bool
  origin : Except WriteErr MailboxRow
  raw : Bool
  append : AppendReads
  account : Bool

/-- `wakeMessage`: re-append first, and only then remove the sleeping copy; a
failure to remove it is logged and nothing else. -/
def wakeMessage (accountID : Nat) (reads : WakeReads) (ac : AccountConn)
    (first second : Attempt AppendEnv) (first' second' : Attempt ExpungeEnv) :
    Ran AppendedMessage :=
  if reads.append.blobs = false then ⟨⟨0, 0⟩, some .other, ac, [], []⟩
  else
    match target accountID reads.row reads.source with
    | .error e => ⟨⟨0, 0⟩, some e, ac, [], []⟩
    | .ok (st, src) =>
        if reads.inSnoozed = false then ⟨⟨0, 0⟩, some .notSnoozed, ac, [], []⟩
        else
          match reads.origin with
          | .error e => ⟨⟨0, 0⟩, some e, ac, [], []⟩
          | .ok origin =>
              if reads.raw = false then ⟨⟨0, 0⟩, some .other, ac, [], []⟩
              else
                let a := applyAppendAt accountID { reads.append with mailbox := .ok origin } ac
                  first second
                match a.err with
                | some e => { a with out := ⟨0, 0⟩, err := some e }
                | none =>
                    if reads.account = false then a
                    else
                      let x := withMailbox src.name (expungeBody st) a.ac first' second' ()
                      { a with ac := x.ac, sent := a.sent ++ x.sent,
                               abandoned := a.abandoned ++ x.abandoned }

/-! ## Sending a command once -/

/-- The commands in a record that must not be sent twice. -/
def writes (sent : List Sent) : List Sent := sent.filter (·.cmd.nonIdempotent)

/-- **Sent once.**  No such command is sent after one that took effect, and no
attempt is repeated that had already sent one. -/
def SentOnce {ω : Type} (r : Ran ω) : Prop :=
  (writes r.sent).Pairwise (fun a _ => a.landed = false) ∧ ∀ sent ∈ r.abandoned, writes sent = []

instance {ω : Type} (r : Ran ω) : Decidable (SentOnce r) := inferInstanceAs (Decidable (_ ∧ _))

@[simp] lemma writes_nil : writes [] = [] := rfl

lemma writes_append (l m : List Sent) : writes (l ++ m) = writes l ++ writes m :=
  List.filter_append l m

lemma sentOnce_of_silent {ω : Type} (out : ω) (err : Option WriteErr) (ac : AccountConn) :
    SentOnce ⟨out, err, ac, [], []⟩ := by
  simp [SentOnce]

lemma sentOnce_append_harmless {ω ω' : Type} {a : Ran ω} {x : Ran ω'} {ac : AccountConn}
    (hx : writes x.sent = [] ∧ ∀ sent ∈ x.abandoned, writes sent = []) :
    SentOnce { a with ac := ac, sent := a.sent ++ x.sent, abandoned := a.abandoned ++ x.abandoned }
      ↔ SentOnce a := by
  unfold SentOnce
  simp only [writes_append, hx.1, List.append_nil, List.mem_append]
  constructor
  · rintro ⟨h1, h2⟩
    exact ⟨h1, fun sent hm => h2 sent (Or.inl hm)⟩
  · rintro ⟨h1, h2⟩
    exact ⟨h1, fun sent hm => hm.elim (h2 sent) (hx.2 sent)⟩

lemma pairwise_of_length_le_one {l : List Sent} (h : l.length ≤ 1) :
    (writes l).Pairwise (fun a _ => a.landed = false) := by
  have hw : (writes l).length ≤ 1 := Nat.le_trans (List.length_filter_le _ l) h
  match hl : writes l with
  | [] => exact List.Pairwise.nil
  | [a] => exact List.pairwise_singleton _ a
  | a :: b :: t =>
      rw [hl] at hw
      simp at hw

section WithMailbox

variable {ε ω : Type} {mailbox : String} {fn : AccountConn → SelectResult → ε → ω → Ran ω}
  {ac ac' : AccountConn} {first cached : Bool} {env : Attempt ε} {out out' : ω} {r : Ran ω}
    {sel : SelectResult}
  {sent : List Sent} {e : WriteErr}

/-- The callback ran on a cached selection, sent a command that must not be
repeated, and failed with an error taken for a dead socket. -/
def RepeatsAfterSending (mailbox : String) (fn : AccountConn → SelectResult → ε → ω → Ran ω)
    (ac : AccountConn) (env : Attempt ε) (out : ω) : Prop :=
  env.ctxDone = false ∧ (ac.client = true ∨ env.dial = true) ∧
    ∃ sel e, ac.ensured.selection mailbox = some sel ∧
      (fn ac.ensured sel env.body out).err = some e ∧ isConnectionDead e = true ∧
      writes (fn ac.ensured sel env.body out).sent ≠ []

/-- A callback's turn goes round again only on a cached selection and a dead
socket, and takes with it what the callback sent. -/
lemma runCallback_eq_again
    {env : ε}
    (h : runCallback fn first cached ac sel env out = .again out' e ac' sent) :
    cached = true ∧ first = true ∧ isConnectionDead e = true ∧
      (fn ac sel env out).err = some e ∧ (fn ac sel env out).sent = sent := by
  simp only [runCallback] at h
  split at h
  · cases h
  rename_i e' he
  split at h <;> cases h
  rename_i hc
  simp only [Bool.and_eq_true] at hc
  exact ⟨hc.1.1, hc.1.2, hc.2, he, rfl⟩

lemma runCallback_eq_stop
    {env : ε} (h : runCallback fn first cached ac sel env out = .stop r) :
    r = fn ac sel env out := by
  simp only [runCallback] at h
  split at h
  · cases h
    rfl
  split at h <;> cases h
  rfl

/-- A turn goes round again either with nothing sent, because the `SELECT`
failed, or after a callback that was running on a cached selection. -/
lemma turn_eq_again (h : turn mailbox fn first ac env out = .again out' e ac' sent) :
    first = true ∧ (sent = [] ∨ (env.ctxDone = false ∧ (ac.client = true ∨ env.dial = true) ∧
      ∃ sel, ac.ensured.selection mailbox = some sel ∧
        (fn ac.ensured sel env.body out).err = some e ∧ isConnectionDead e = true ∧
        (fn ac.ensured sel env.body out).sent = sent)) := by
  unfold turn at h
  split at h
  · cases h
  split at h
  · cases h
  rename_i hctx hdial
  have hconn : ac.client = true ∨ env.dial = true := by
    cases hc : ac.client <;> cases hd : env.dial <;> simp_all
  split at h
  · rename_i sel hsel
    obtain ⟨-, hf, hd, he, hs⟩ := runCallback_eq_again h
    exact ⟨hf, .inr ⟨by simpa using hctx, hconn, sel, hsel, he, hd, hs⟩⟩
  split at h
  · split at h
    · cases h
      exact ⟨‹_›, .inl rfl⟩
    · cases h
  · exact absurd (runCallback_eq_again h).1 (by simp)

/-- A turn that ends the call does so before the callback, with nothing sent,
or with what the callback left. -/
lemma turn_eq_stop (h : turn mailbox fn first ac env out = .stop r) :
    (r.sent = [] ∧ r.abandoned = []) ∨ ∃ ac' sel, r = fn ac' sel env.body out := by
  unfold turn at h
  split at h
  · cases h
    exact .inl ⟨rfl, rfl⟩
  split at h
  · cases h
    exact .inl ⟨rfl, rfl⟩
  split at h
  · exact .inr ⟨_, _, runCallback_eq_stop h⟩
  split at h
  · split at h
    · cases h
    · cases h
      exact .inl ⟨rfl, rfl⟩
  · exact .inr ⟨_, _, runCallback_eq_stop h⟩

lemma sent_of_stop (P : List Sent → Prop) (hnil : P [])
    (hfn : ∀ ac sel env out, P (fn ac sel env out).sent ∧ (fn ac sel env out).abandoned = [])
    (h : turn mailbox fn first ac env out = .stop r) : P r.sent ∧ r.abandoned = [] := by
  rcases turn_eq_stop h with ⟨hs, ha⟩ | ⟨ac', sel, rfl⟩
  · exact ⟨hs ▸ hnil, ha⟩
  · exact hfn _ _ _ _

/-- The first turn does go round again after a repeatable failure. -/
lemma turn_again_of_repeats (h : RepeatsAfterSending mailbox fn ac env out) :
    ∃ out' e ac' sent, turn mailbox fn true ac env out = .again out' e ac' sent ∧
      writes sent ≠ [] := by
  obtain ⟨hctx, hconn, sel, e, hsel, herr, hdead, hw⟩ := h
  refine ⟨(fn ac.ensured sel env.body out).out, e, (fn ac.ensured sel env.body out).ac.discard, _,
    ?_, hw⟩
  have hdial : ¬(ac.client = false ∧ env.dial = false) := by
    rintro ⟨h1, h2⟩
    simp [h1, h2] at hconn
  unfold turn runCallback
  simp only [hctx, Bool.false_eq_true, if_false, if_neg hdial, hsel, herr, hdead, Bool.and_self,
    if_true]

/-- **The general result.**  A callback that sends at most one command per run
is sent once, unless it is repeated after sending. -/
theorem withMailbox_once_iff
    (hfn : ∀ ac sel env out, (fn ac sel env out).sent.length ≤ 1 ∧
      (fn ac sel env out).abandoned = [])
    (ac : AccountConn) (first second : Attempt ε) (out : ω) :
    SentOnce (withMailbox mailbox fn ac first second out) ↔
      ¬ RepeatsAfterSending mailbox fn ac first out := by
  constructor
  · intro honce hrep
    obtain ⟨out', e, ac', sent, hturn, hw⟩ := turn_again_of_repeats hrep
    -- whatever the second turn does, the first one is on record as given up
    have hmem : sent ∈ (withMailbox mailbox fn ac first second out).abandoned := by
      unfold withMailbox
      simp only [hturn]
      split <;> simp
    exact hw (honce.2 sent hmem)
  · intro hrep
    unfold withMailbox
    cases hturn : turn mailbox fn true ac first out with
    | stop =>
      obtain ⟨hs, ha⟩ := sent_of_stop (·.length ≤ 1) (Nat.zero_le 1) hfn hturn
      exact ⟨pairwise_of_length_le_one hs, by simp [ha]⟩
    | again out' e ac' sent =>
      have hsent : writes sent = [] := by
        rcases (turn_eq_again hturn).2 with rfl | ⟨hctx, hconn, sel, hsel, herr, hdead, rfl⟩
        · rfl
        · by_contra hw
          exact hrep ⟨hctx, hconn, sel, e, hsel, herr, hdead, hw⟩
      simp only
      cases hturn' : turn mailbox fn false ac' second out' with
      | stop =>
        obtain ⟨hs, -⟩ := sent_of_stop (·.length ≤ 1) (Nat.zero_le 1) hfn hturn'
        refine ⟨?_, by simp [hsent]⟩
        simp only [writes_append, hsent, List.nil_append]
        exact pairwise_of_length_le_one hs
      | again => exact absurd (turn_eq_again hturn').1 (by simp)

/-- A callback that only sends commands which may be repeated leaves none of
the others on record, however often it runs. -/
lemma withMailbox_harmless
    (hfn : ∀ ac sel env out, writes (fn ac sel env out).sent = [] ∧
      (fn ac sel env out).abandoned = [])
    (ac : AccountConn) (first second : Attempt ε) (out : ω) :
    writes (withMailbox mailbox fn ac first second out).sent = [] ∧
      ∀ sent ∈ (withMailbox mailbox fn ac first second out).abandoned, writes sent = [] := by
  have hagain : ∀ {first ac env out out' e ac' sent},
      turn mailbox fn first ac env out = .again out' e ac' sent → writes sent = [] := by
    intro first ac env out out' e ac' sent h
    rcases (turn_eq_again h).2 with rfl | ⟨-, -, sel, -, -, -, rfl⟩
    · rfl
    · exact (hfn _ _ _ _).1
  unfold withMailbox
  cases hturn : turn mailbox fn true ac first out with
  | stop =>
    obtain ⟨h1, h2⟩ := sent_of_stop (writes · = []) rfl hfn hturn
    exact ⟨h1, by simp [h2]⟩
  | again out' e ac' =>
    have h1 := hagain hturn
    simp only
    cases hturn' : turn mailbox fn false ac' second out' with
    | stop => simp [writes_append, h1, (sent_of_stop (writes · = []) rfl hfn hturn').1]
    | again => simp [writes_append, h1, hagain hturn']

end WithMailbox

/-! ## What each callback can do after its command -/

lemma Answer.sent_length_le {ρ : Type} (c : Cmd) (a : Answer ρ) : (a.sent c).length ≤ 1 := by
  cases a <;> simp [sent]

variable (st : MessageState)

variable (tgt : MailboxRow)

lemma followMove_record (res : MoveResult) (env : MoveEnv)
    (ac : AccountConn) (sent : List Sent) (out : WriteResult) :
    (followMove st tgt res env ac sent out).sent = sent ∧
      (followMove st tgt res env ac sent out).abandoned = [] := by
  unfold followMove tombstoneSource reflectMove
  repeat' split
  all_goals exact ⟨rfl, rfl⟩

lemma moveBody_record (ac : AccountConn)
    (sel : SelectResult) (env : MoveEnv) (out : WriteResult) :
    (moveBody st tgt ac sel env out).sent.length ≤ 1 ∧
      (moveBody st tgt ac sel env out).abandoned = [] := by
  unfold moveBody
  split_ifs
  · simp
  · split
    · exact ⟨sent_length_le _ _, rfl⟩
    · rw [(followMove_record _ _ _ _ _ _ _).1, (followMove_record _ _ _ _ _ _ _).2]
      exact ⟨sent_length_le _ _, rfl⟩

lemma appendBody_record (ac : AccountConn) (sel : SelectResult) (env : AppendEnv)
    (out : AppendedMessage) :
    (appendBody ac sel env out).sent.length ≤ 1 ∧ (appendBody ac sel env out).abandoned = [] := by
  unfold appendBody followAppend
  split_ifs
  · simp
  · split
    · exact ⟨sent_length_le _ _, rfl⟩
    · repeat' split
      all_goals exact ⟨sent_length_le _ _, rfl⟩

/-- The `MOVE` was answered OK and mapped, and then the `SELECT` of the
destination or the read-back failed with an error taken for a dead socket. -/
def MoveDiesAfterLanding (st : MessageState) (env : MoveEnv) : Prop :=
  ∃ res destUID, env.move = .done res ∧ res.destUIDs.lookup st.uid = some destUID ∧
    ((∃ e, env.reselect = .error e ∧ isConnectionDead e = true) ∨
      ∃ dsel e, env.reselect = .ok dsel ∧
        ¬(res.destUIDValidity ≠ 0 ∧ res.destUIDValidity ≠ dsel.uidValidity) ∧
        env.moveMessages = true ∧ env.readBack = .error e ∧ isConnectionDead e = true)

/-- The `APPEND` was answered with a UID, and then the read-back failed with an
error taken for a dead socket. -/
def AppendDiesAfterLanding (env : AppendEnv) : Prop :=
  ∃ res e, env.append = .done res ∧ res.uid ≠ 0 ∧ env.readBack = .error e ∧
    isConnectionDead e = true

lemma followMove_dies_iff (res : MoveResult)
    (env : MoveEnv) (ac : AccountConn) (sent : List Sent) (out : WriteResult)
    (hmove : env.move = .done res) :
    (∃ e, (followMove st tgt res env ac sent out).err = some e ∧ isConnectionDead e = true) ↔
      MoveDiesAfterLanding st env := by
  have hother : isConnectionDead .other = false := rfl
  unfold MoveDiesAfterLanding
  simp only [hmove, done.injEq]
  unfold followMove tombstoneSource reflectMove
  cases hl : res.destUIDs.lookup st.uid with
  | none =>
    cases env.markDeleted <;> simp [hl, hother]
  | some destUID =>
    cases hr : env.reselect with
    | error => simp [hl]
    | ok dsel =>
      by_cases hv : res.destUIDValidity ≠ 0 ∧ res.destUIDValidity ≠ dsel.uidValidity
      · cases env.markDeleted <;> simp [hl, hv, hother]
      · cases hm : env.moveMessages with
        | false => simp [hv, hother, hl]
        | true =>
          cases hb : env.readBack with
          | error e =>
            simp only [if_neg hv, Bool.true_eq_false, if_false]
            constructor
            · rintro ⟨e', he, hdead⟩
              injection he with he
              subst he
              exact ⟨res, destUID, rfl, hl, Or.inr ⟨dsel, e, rfl, hv, trivial, rfl, hdead⟩⟩
            · rintro ⟨res', destUID', rfl, -, ⟨e', he, -⟩ | ⟨dsel', e', -, -, -, he, hdead⟩⟩
              · cases he
              · injection he with he
                exact ⟨e, rfl, he ▸ hdead⟩
          | ok m =>
            cases m with
            | none => simp [hv, hl]
            | some => cases env.reflectFlags <;> simp [hv, hl, hother]

/-- The move callback sends and then looks dead exactly when it dies after its
command landed: an unsent command leaves no record, and the client library's
errors on a sent one are none of the sentinels. -/
lemma moveBody_dies_iff (ac : AccountConn)
    (sel : SelectResult) (env : MoveEnv) (out : WriteResult) :
    (∃ e, (moveBody st tgt ac sel env out).err = some e ∧ isConnectionDead e = true ∧
      writes (moveBody st tgt ac sel env out).sent ≠ []) ↔
      checkUIDValidity sel st = true ∧ MoveDiesAfterLanding st env := by
  unfold moveBody
  by_cases hv : checkUIDValidity sel st = false
  · simp [hv]
  simp only [hv, Bool.true_eq_false, if_false, true_and]
  cases hm : env.move with
  | unsent => simp [result, sent, MoveDiesAfterLanding, hm]
  | broken =>
    simp [result, sent, MoveDiesAfterLanding, hm, isConnectionDead]
  | done res =>
    have hw : writes (sent Cmd.move (.done res)) ≠ [] := by
      simp [sent, writes, Cmd.nonIdempotent]
    simp only [result, (followMove_record _ _ _ _ _ _ _).1, hw, ne_eq, not_false_eq_true, and_true]
    exact followMove_dies_iff st tgt res env ac _ out hm

lemma appendBody_dies_iff (ac : AccountConn) (sel : SelectResult) (env : AppendEnv)
    (out : AppendedMessage) :
    (∃ e, (appendBody ac sel env out).err = some e ∧ isConnectionDead e = true ∧
      writes (appendBody ac sel env out).sent ≠ []) ↔
      env.uidPlus = true ∧ AppendDiesAfterLanding env := by
  have hother : isConnectionDead .other = false := rfl
  unfold appendBody
  cases hp : env.uidPlus with
  | false => simp
  | true =>
    cases ha : env.append with
    | unsent => simp [result, sent, AppendDiesAfterLanding, ha]
    | broken =>
      simp [result, sent, AppendDiesAfterLanding, ha, isConnectionDead]
    | done res =>
      have hw : writes (sent Cmd.append (.done res)) ≠ [] := by
        simp [sent, writes, Cmd.nonIdempotent]
      simp only [result, followAppend, AppendDiesAfterLanding, ha, done.injEq]
      by_cases hu : res.uid = 0
      · simp [hu, hother]
      · cases hb : env.readBack with
        | error => simp [hu, hw]
        | ok m =>
          cases m with
          | none => simp [hu, hother]
          | some => cases env.reflect <;> simp [hu, hother]

/-! ## The three callers -/

/-- `ApplyMove` gets as far as its callback: the rows are there, the account
owns them, and the message is not in the target folder already. -/
def MoveStarts (accountID targetMailboxID : Nat) (reads : MoveReads) (st : MessageState)
    (src tgt : MailboxRow) : Prop :=
  target accountID reads.row reads.source = .ok (st, src) ∧ st.mailboxID ≠ targetMailboxID ∧
    ownFolder accountID reads.target = .ok tgt ∧ reads.account = true

/-- `ApplyAppendAt` gets as far as its callback. -/
def AppendStarts (accountID : Nat) (reads : AppendReads) (mb : MailboxRow) : Prop :=
  reads.blobs = true ∧ reads.rawEmpty = false ∧ ownFolder accountID reads.mailbox = .ok mb ∧
    reads.account = true

/-- The connection is up (or dialled) with the mailbox already selected, so
that the first attempt skips the `SELECT`. -/
def SelectionCached {ε : Type} (ac : AccountConn) (mailbox : String) (env : Attempt ε)
    (sel : SelectResult) : Prop :=
  env.ctxDone = false ∧ (ac.client = true ∨ env.dial = true) ∧
    ac.ensured.selection mailbox = some sel

/-- A move on a cached selection dies after its `MOVE` landed. -/
def MoveRepeats (accountID targetMailboxID : Nat) (reads : MoveReads) (ac : AccountConn)
    (first : Attempt MoveEnv) : Prop :=
  ∃ st src tgt sel, MoveStarts accountID targetMailboxID reads st src tgt ∧
    SelectionCached ac src.name first sel ∧ checkUIDValidity sel st = true ∧
    MoveDiesAfterLanding st first.body

/-- An append on a cached selection dies after its `APPEND` landed. -/
def AppendRepeats (accountID : Nat) (reads : AppendReads) (ac : AccountConn)
    (first : Attempt AppendEnv) : Prop :=
  ∃ mb sel, AppendStarts accountID reads mb ∧ SelectionCached ac mb.name first sel ∧
    first.body.uidPlus = true ∧ AppendDiesAfterLanding first.body

lemma repeatsAfterSending_iff {ε ω : Type} {mailbox : String}
    {fn : AccountConn → SelectResult → ε → ω → Ran ω} {D : SelectResult → ε → Prop}
    (hD : ∀ ac sel env out, (∃ e, (fn ac sel env out).err = some e ∧ isConnectionDead e = true ∧
      writes (fn ac sel env out).sent ≠ []) ↔ D sel env)
    (ac : AccountConn) (env : Attempt ε) (out : ω) :
    RepeatsAfterSending mailbox fn ac env out ↔
      ∃ sel, SelectionCached ac mailbox env sel ∧ D sel env.body := by
  constructor
  · rintro ⟨hctx, hconn, sel, e, hsel, herr, hdead, hw⟩
    exact ⟨sel, ⟨hctx, hconn, hsel⟩, (hD _ _ _ _).1 ⟨e, herr, hdead, hw⟩⟩
  · rintro ⟨sel, ⟨hctx, hconn, hsel⟩, hd⟩
    obtain ⟨e, herr, hdead, hw⟩ := (hD ac.ensured sel env.body out).2 hd
    exact ⟨hctx, hconn, sel, e, hsel, herr, hdead, hw⟩

lemma applyMove_once_iff (accountID targetMailboxID : Nat) (reads : MoveReads)
    (ac : AccountConn) (first second : Attempt MoveEnv) :
    SentOnce (applyMove accountID targetMailboxID reads ac first second) ↔
      ¬ MoveRepeats accountID targetMailboxID reads ac first := by
  unfold applyMove MoveRepeats MoveStarts
  cases ht : target accountID reads.row reads.source with
  | error => simp [sentOnce_of_silent]
  | ok p =>
    obtain ⟨st, src⟩ := p
    by_cases hm : st.mailboxID = targetMailboxID
    · simp only [hm, if_true, sentOnce_of_silent, true_iff]
      rintro ⟨st', src', tgt, sel, ⟨he, hne, -⟩, -⟩
      cases he
      exact hne hm
    cases ho : ownFolder accountID reads.target with
    | error => simp [hm, sentOnce_of_silent]
    | ok tgt =>
      cases ha : reads.account with
      | false => simp [hm, sentOnce_of_silent]
      | true =>
        simp only [if_neg hm, Bool.true_eq_false, if_false]
        rw [withMailbox_once_iff (moveBody_record st tgt), repeatsAfterSending_iff
          (moveBody_dies_iff st tgt)]
        refine not_congr ⟨?_, ?_⟩
        · rintro ⟨sel, hc, hv, hd⟩
          exact ⟨st, src, tgt, sel, ⟨rfl, hm, rfl, trivial⟩, hc, hv, hd⟩
        · rintro ⟨st', src', tgt', sel, ⟨he, -, he', -⟩, hc, hv, hd⟩
          cases he
          exact ⟨sel, hc, hv, hd⟩

variable (accountID : Nat)

lemma applyAppendAt_once_iff (reads : AppendReads) (ac : AccountConn)
    (first second : Attempt AppendEnv) :
    SentOnce (applyAppendAt accountID reads ac first second) ↔
      ¬ AppendRepeats accountID reads ac first := by
  unfold applyAppendAt AppendRepeats AppendStarts
  by_cases hb : reads.blobs = false ∨ reads.rawEmpty = true
  · simp only [hb, if_true, sentOnce_of_silent, true_iff]
    rintro ⟨mb, sel, ⟨h1, h2, -⟩, -⟩
    simp [h1, h2] at hb
  obtain ⟨h1, h2⟩ : reads.blobs = true ∧ reads.rawEmpty = false := by
    cases h : reads.blobs <;> cases h' : reads.rawEmpty <;> simp_all
  cases ho : ownFolder accountID reads.mailbox with
  | error => simp [hb, sentOnce_of_silent]
  | ok mb =>
    cases ha : reads.account with
    | false => simp [hb, sentOnce_of_silent]
    | true =>
      simp only [if_neg hb, Bool.true_eq_false, if_false]
      rw [withMailbox_once_iff appendBody_record, repeatsAfterSending_iff appendBody_dies_iff]
      refine not_congr ⟨?_, ?_⟩
      · rintro ⟨sel, hc, hp, hd⟩
        exact ⟨mb, sel, ⟨h1, h2, rfl, trivial⟩, hc, hp, hd⟩
      · rintro ⟨mb', sel, ⟨-, -, he, -⟩, hc, hp, hd⟩
        cases he
        exact ⟨sel, hc, hp, hd⟩

lemma expungeBody_harmless (ac : AccountConn) (sel : SelectResult)
    (env : ExpungeEnv) (out : Unit) :
    writes (expungeBody st ac sel env out).sent = [] ∧
      (expungeBody st ac sel env out).abandoned = [] := by
  have hx : ∀ a : Answer Unit, writes (a.sent .expunge) = [] := by
    intro a
    cases a <;> rfl
  unfold expungeBody
  repeat' split
  all_goals exact ⟨by first | rfl | exact hx _, rfl⟩

lemma expunge_harmless (mailbox : String) (st : MessageState) (ac : AccountConn)
    (first second : Attempt ExpungeEnv) :
    writes (withMailbox mailbox (expungeBody st) ac first second ()).sent = [] ∧
      ∀ sent ∈ (withMailbox mailbox (expungeBody st) ac first second ()).abandoned,
        writes sent = [] :=
  withMailbox_harmless (expungeBody_harmless st) ac first second ()

/-- A wake whose re-append dies after its `APPEND` landed. -/
def WakeRepeats (accountID : Nat) (reads : WakeReads) (ac : AccountConn)
    (first : Attempt AppendEnv) : Prop :=
  (∃ p, target accountID reads.row reads.source = .ok p) ∧ reads.inSnoozed = true ∧
    reads.raw = true ∧ ∃ origin, reads.origin = .ok origin ∧
      AppendRepeats accountID { reads.append with mailbox := .ok origin } ac first

lemma wakeMessage_once_iff (reads : WakeReads) (ac : AccountConn)
    (first second : Attempt AppendEnv) (first' second' : Attempt ExpungeEnv) :
    SentOnce (wakeMessage accountID reads ac first second first' second') ↔
      ¬ WakeRepeats accountID reads ac first := by
  unfold wakeMessage WakeRepeats
  cases hb : reads.append.blobs with
  | false => simp [sentOnce_of_silent, AppendRepeats, AppendStarts, hb]
  | true =>
    cases ht : target accountID reads.row reads.source with
    | error => simp [sentOnce_of_silent]
    | ok =>
      cases hs : reads.inSnoozed with
      | false => simp [sentOnce_of_silent]
      | true =>
        cases ho : reads.origin with
        | error => simp [sentOnce_of_silent]
        | ok origin =>
          cases hr : reads.raw with
          | false => simp [sentOnce_of_silent]
          | true =>
            have happ := applyAppendAt_once_iff accountID
              { reads.append with mailbox := .ok origin } ac first second
            simp only [Bool.true_eq_false, if_false, true_and, Except.ok.injEq, exists_eq',
              exists_eq_left']
            rw [← happ]
            -- the sleeping copy is removed by a command that may be repeated
            split
            · exact Iff.rfl
            · split_ifs
              · exact Iff.rfl
              · exact sentOnce_append_harmless (expunge_harmless _ _ _ _ _)

/-- **Write commands are sent once, and exactly when they are not.**  For every
failure of the connection or of a later step, `ApplyMove`, `ApplyAppendAt` and
the wake send their command no more once one has taken effect, unless the first
attempt ran on a cached selection, its command was answered OK, and a later
`SELECT` or `FETCH` of the same attempt failed with an error that
`isConnectionDead` takes for an idle socket. -/
theorem write_commands_once_iff (ac : AccountConn) :
    (∀ targetMailboxID reads first second,
      SentOnce (applyMove accountID targetMailboxID reads ac first second) ↔
        ¬ MoveRepeats accountID targetMailboxID reads ac first) ∧
    (∀ reads first second, SentOnce (applyAppendAt accountID reads ac first second) ↔
        ¬ AppendRepeats accountID reads ac first) ∧
    (∀ reads first second first' second',
      SentOnce (wakeMessage accountID reads ac first second first' second') ↔
        ¬ WakeRepeats accountID reads ac first) :=
  ⟨fun targetMailboxID reads first second =>
      applyMove_once_iff accountID targetMailboxID reads ac first second,
    fun reads first second => applyAppendAt_once_iff accountID reads ac first second,
    fun reads first second first' second' =>
      wakeMessage_once_iff accountID reads ac first second first' second'⟩

/-- A message of mailbox 1 about to be moved to mailbox 2. -/
def sampleRow : MessageState := ⟨7, 1, 1, 10, 3, 0, [], 0, none⟩

def sampleReads : MoveReads :=
  ⟨.ok sampleRow, .ok ⟨1, 1, "INBOX", .inbox, true⟩, .ok ⟨2, 1, "Archive", .archive, true⟩, true⟩

/-- One attempt at moving it, in which the `MOVE` is answered OK. -/
def sampleAttempt (copyUID : List (Nat × Nat)) (reselect : Except WriteErr SelectResult) :
    Attempt MoveEnv :=
  ⟨false, true, .ok ⟨3, 11, 5, 1, []⟩, ⟨.done ⟨4, copyUID⟩, true, reselect, true, .ok none, true⟩⟩

/-- The source is open, the `MOVE` is carried out, and the `SELECT` of the
destination answers `ErrMailboxStale` because another client recreated that
folder: the `MOVE` goes out a second time, on a UID that is gone. -/
theorem applyMove_sends_again : (applyMove 1 2 sampleReads ⟨true, "INBOX", ⟨3, 11, 5, 1, []⟩⟩
      (sampleAttempt [(10, 20)] (.error .mailboxStale)) (sampleAttempt [] (.error .other))).sent =
        [⟨.move, true⟩, ⟨.move, true⟩] ∧
    ¬ SentOnce (applyMove 1 2 sampleReads ⟨true, "INBOX", ⟨3, 11, 5, 1, []⟩⟩
      (sampleAttempt [(10, 20)] (.error .mailboxStale)) (sampleAttempt [] (.error .other))) := by
  decide

end Moov.Sync
