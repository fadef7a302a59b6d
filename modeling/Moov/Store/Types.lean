import Mathlib.Data.List.Basic

/-!
# Rows of the store and answers of the IMAP client

The records several parts of the engine pass around: the `message_state` and
`mailboxes` rows of `internal/store`, and the result types of `internal/imap`.
UIDs, UIDVALIDITY and MODSEQ values are natural numbers here; the code keeps
them in unsigned machine integers and `0` is its "not there" in all of them.
-/

namespace Moov

/-- The folder roles the write path and the outbox look mailboxes up by. -/
inductive Role
  | none | inbox | drafts | sent | trash | archive | junk
deriving DecidableEq

/-- One row of `message_state`: where a message lives and the flags it carries.
A tombstone is a row with `deletedAt` set. -/
structure MessageState where
  messageID : Nat
  accountID : Nat
  mailboxID : Nat
  uid : Nat
  uidValidity : Nat
  flags : Nat
  keywords : List String
  modSeqSeen : Nat
  deletedAt : Option Nat
deriving DecidableEq

/-- One row of `mailboxes`, with the fields the write path reads. -/
structure MailboxRow where
  id : Nat
  accountID : Nat
  name : String
  role : Role
  selectable : Bool
deriving DecidableEq

/-- What a `SELECT` answers. -/
structure SelectResult where
  uidValidity : Nat
  uidNext : Nat
  highestModSeq : Nat
  numMessages : Nat
  vanishedUIDs : List Nat
deriving DecidableEq

/-- What `MOVE` answers: the `COPYUID` pairs, empty when the server sent none
this client could pair. -/
structure MoveResult where
  destUIDValidity : Nat
  destUIDs : List (Nat × Nat)
deriving DecidableEq

/-- What `APPEND` answers: the `APPENDUID`, zero when the server sent none. -/
structure AppendResult where
  uid : Nat
  uidValidity : Nat
deriving DecidableEq

/-- The flag state of one message as a `FETCH` reads it. -/
structure FetchedFlags where
  uid : Nat
  flags : Nat
  keywords : List String
  modSeq : Nat
deriving DecidableEq

end Moov
