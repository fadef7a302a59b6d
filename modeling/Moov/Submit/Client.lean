import Moov.Store.Intents

/-!
# The SMTP client

`Send` (`submit/client.go`) runs one transaction and classifies its failure.  A
transaction is described here by what the network delivered to the client: the
reply to every command, or the error of a read or write.  `serverTook` is the
other side, what the server did with the message.  The two agree as long as the
reply to the end of DATA is read; when it is not (the connection breaks, the
timeout expires, a shutdown closes the socket) the client sees an error in
either case, and what the server did is a fact of its own, `takenUnread`.
-/

namespace Moov.Submit

open Moov.Store

/-- The protocol phases, for error classification. -/
inductive SmtpPhase
  | connect
  | ehlo
  | startTLS
  | auth
  | mail
  | rcpt
  | data
  | dataClose
  deriving DecidableEq

/-- The text of a phase in an error. -/
def SmtpPhase.text : SmtpPhase → String
  | .connect => "connect"
  | .ehlo => "ehlo"
  | .startTLS => "starttls"
  | .auth => "auth"
  | .mail => "mail"
  | .rcpt => "rcpt"
  | .data => "data"
  | .dataClose => "data-close"

/-- One classified failure.  `code` is 0 when the failure was not a reply; then
`cause` is the underlying error. -/
structure SmtpError where
  phase : SmtpPhase
  code : Nat
  msg : String
  cause : String
  deriving DecidableEq

/-- `Error.Error`. -/
def SmtpError.text (e : SmtpError) : String :=
  if e.code ≠ 0 then "submit: " ++ e.phase.text ++ ": " ++ toString e.code ++ " " ++ e.msg
  else "submit: " ++ e.phase.text ++ ": " ++ e.cause

/-- `Error.Permanent`: a 5yz refusal. -/
def SmtpError.permanent (e : SmtpError) : Bool :=
  decide (500 ≤ e.code) && decide (e.code < 600)

/-- What comes back on the wire: a reply line, or a broken exchange. -/
inductive WireReply
  | line (code : Nat) (msg : String)
  | broken (err : String)
  deriving DecidableEq

/-- The code check of `textproto.ReadResponse`: an expected code of one or two
digits matches a class of replies. -/
def codeMatches (expect code : Nat) : Bool :=
  if expect < 10 then decide (code / 100 = expect)
  else if expect < 100 then decide (code / 10 = expect)
  else decide (code = expect)

/-- One exchange: `session.cmd` and `smtpError`. -/
def exchange (phase : SmtpPhase) (expect : Nat) : WireReply → Option SmtpError
  | .line code msg => if codeMatches expect code then none else some ⟨phase, code, msg, ""⟩
  | .broken err => some ⟨phase, 0, "", err⟩

/-- `session.rcpt`: every recipient is tried, and the worst refusal is kept; a
permanent one beats a transient one.  A recipient without a reply is one whose
reply the connection did not deliver. -/
def rcpt : List String → List WireReply → Option SmtpError → Option SmtpError
  | [], _, worst => worst
  | addr :: tos, replies, worst =>
      match exchange .rcpt 25 (replies.headD (.broken "EOF")) with
      | none => rcpt tos replies.tail worst
      | some e =>
          let e' := { e with msg := "recipient <" ++ addr ++ ">: " ++ e.msg }
          match worst with
          | none => rcpt tos replies.tail (some e')
          | some w =>
              if e'.permanent && !w.permanent then rcpt tos replies.tail (some e')
              else rcpt tos replies.tail (some w)

/-- One transaction as the network delivers it.  `setup` holds the exchanges
before MAIL (greeting, EHLO, STARTTLS, AUTH) with the codes they expect, and
`streamed` the error of copying or terminating the message, if there was one. -/
structure SmtpTx where
  setup : List (SmtpPhase × Nat × WireReply)
  mail : WireReply
  rcpt : List WireReply
  data : WireReply
  streamed : Option String
  final : WireReply
  takenUnread : Bool
  deriving DecidableEq

/-- The exchanges before MAIL, in order, up to the first that fails. -/
def setupError : List (SmtpPhase × Nat × WireReply) → Option SmtpError
  | [] => none
  | (phase, expect, reply) :: rest =>
      match exchange phase expect reply with
      | some e => some e
      | none => setupError rest

/-- The failure, if any, before the first byte of the message is sent. -/
def preDataError (env : IntentEnvelope) (tx : SmtpTx) : Option SmtpError :=
  if env.mailFrom = "" then some ⟨.mail, 0, "", "empty MAIL FROM"⟩
  else if env.rcptTo = [] then some ⟨.rcpt, 0, "", "no recipients"⟩
  else
    (setupError tx.setup).or <|
    (exchange .mail 250 tx.mail).or <|
    (rcpt env.rcptTo tx.rcpt none).or <|
    exchange .data 354 tx.data

/-- `Send`, up to the point where the acceptance is handed to the caller: the
server's reply to the end of DATA, or a classified error. -/
def send (env : IntentEnvelope) (tx : SmtpTx) : Except SmtpError String :=
  match preDataError env tx with
  | some e => .error e
  | none =>
      match tx.streamed with
      | some err => .error ⟨.data, 0, "", err⟩
      | none =>
          match tx.final with
          | .broken err => .error ⟨.dataClose, 0, "", err⟩
          | .line code msg =>
              if codeMatches 250 code then .ok (toString code ++ " " ++ msg)
              else .error ⟨.dataClose, code, msg, ""⟩

/-- Did the server answer 250 to the end of DATA?  Before DATA is under way there
is nothing it could have accepted; a reply that was read says what it did. -/
def serverTook (env : IntentEnvelope) (tx : SmtpTx) : Bool :=
  match preDataError env tx with
  | some _ => false
  | none =>
      match tx.streamed, tx.final with
      | none, .line code _ => decide (code = 250)
      | _, _ => tx.takenUnread

/-- Every error of the transaction means that the message was not accepted. -/
def truthful (env : IntentEnvelope) (tx : SmtpTx) : Bool :=
  match send env tx with
  | .ok _ => true
  | .error _ => !serverTook env tx

/-- A transaction reported as accepted was accepted. -/
lemma serverTook_of_send_ok {env : IntentEnvelope} {tx : SmtpTx} {reply : String}
    (h : send env tx = .ok reply) : serverTook env tx = true := by
  unfold send at h
  unfold serverTook
  split at h
  · cases h
  · split at h
    · cases h
    · next hs =>
      split at h
      · cases h
      · next hf =>
        split at h
        · next hc => simpa [hs, hf, codeMatches] using hc
        · cases h

end Moov.Submit
