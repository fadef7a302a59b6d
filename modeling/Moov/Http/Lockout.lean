import Moov.Lib.Bucket
import Moov.Lib.Run

/-!
# Limits on failed logins

`jmaphttp/lockout.go` and `jmaphttp/auth.go`: a credential is validated by a LOGIN to Dovecot, and
rejected LOGINs are limited, for each client address and account by a lock that doubles, and in all
by a bucket.

* `Action`, `step` — requests with Basic credentials, each at its own step of `Authenticate`,
  `validateCoalesced` and `validateUpstream`;
* `meter_step` — the bucket, as a `Bucket.Meter`;
* `Locked` — the lock of one key, from its check to the recording of the failure.

Lock and bucket are read before a LOGIN and charged after it.  A LOGIN is charged when Moov sees
that it is rejected, and not when its answer is lost.
-/

namespace Moov.Lockout

open Run (exec Guarded)

/-! ## The table -/

/-- The limits, after the defaults of `NewAuthenticator`, in seconds. -/
structure Config where
  base : ℚ
  max : ℚ
  budget : ℕ
  window : ℚ
  base_pos : 0 < base
  max_pos : 0 < max
  budget_pos : 0 < budget
  window_pos : 0 < window

/-- `lockoutEntry`. -/
structure Entry where
  failures : ℕ
  lockedUntil : ℚ
  touched : ℚ
deriving DecidableEq

/-- What became of a validation. -/
inductive Result
  | valid
  | invalid
  | unavailable
  | exhausted
deriving DecidableEq

/-- Where a request stands that has passed the lock. -/
inductive Phase
  /-- It is not in `validateCoalesced` yet. -/
  | checked
  /-- It waits for the validation of the same credential by another request. -/
  | waiting (leader : ℕ)
  /-- It validates, and has not looked at the budget. -/
  | leading
  /-- Its LOGIN is with Dovecot. -/
  | asked
  /-- Its LOGIN is rejected, and not charged. -/
  | rejected
  /-- Its validation is over, and others still join it. -/
  | settled (r : Result)
  /-- The result is to be recorded. -/
  | answered (r : Result)
  | done (r : Result)
deriving DecidableEq

/-- A request: `lockKey`, of the client address and the account, and the credential as `macHex`
names it. -/
structure Request where
  key : ℕ
  credential : ℕ
  phase : Phase
deriving DecidableEq

/-- What a key has seen. -/
inductive Event
  | rejected (key : ℕ) (time : ℚ)
  | success (key : ℕ)
deriving DecidableEq

structure State where
  now : ℚ
  tokens : ℚ
  lastRefill : ℚ
  entries : List (ℕ × Entry)
  requests : List Request
  /-- The latest first. -/
  log : List Event
deriving DecidableEq

def State.entry (s : State) (key : ℕ) : Option Entry := s.entries.lookup key

/-- `newLockoutTable`. -/
def start (cfg : Config) (now : ℚ) : State := ⟨now, cfg.budget, now, [], [], []⟩

/-- `lockedFor` is positive. -/
def isLocked (s : State) (key : ℕ) : Bool := (s.entry key).any fun e => s.now < e.lockedUntil

def pruneThreshold : ℕ := 4096

/-- `pruneIdle`, an hour. -/
def pruneIdle : ℚ := 3600

/-- `maybePrune`. -/
def maybePrune (s : State) : List (ℕ × Entry) :=
  if s.entries.length < pruneThreshold then s.entries
  else s.entries.filter fun e => !(e.2.lockedUntil < s.now && pruneIdle < s.now - e.2.touched)

/-- The doublings of a lock, so many at most. -/
def doubled (max : ℚ) : ℕ → ℚ → ℚ
  | 0, lock => lock
  | n + 1, lock => if max ≤ lock * 2 then max else doubled max n (lock * 2)

/-- The lock after so many failures. -/
def lockAfter (cfg : Config) (failures : ℕ) : ℚ :=
  let lock := doubled cfg.max (min (failures - 1) 30) cfg.base
  if cfg.max < lock then cfg.max else lock

/-- `recordFailure`. -/
def recordFailure (cfg : Config) (s : State) (key : ℕ) : State :=
  let entries := maybePrune s
  let failures := ((entries.lookup key).elim 0 (·.failures)) + 1
  { s with
    entries := (key, ⟨failures, s.now + lockAfter cfg failures, s.now⟩) :: entries.filter fun e =>
    e.1 ≠ key }

/-- `recordSuccess`. -/
def recordSuccess (s : State) (key : ℕ) : State :=
  { s with entries := s.entries.filter fun e => e.1 ≠ key, log := .success key :: s.log }

/-! ## The bucket -/

def Config.rate (cfg : Config) : ℚ := cfg.budget / cfg.window

/-- The tokens, with those for the time since the last refill. -/
def level (cfg : Config) (s : State) : ℚ :=
  if s.now - s.lastRefill ≤ 0 then s.tokens
  else
    let tokens := s.tokens + (s.now - s.lastRefill) * cfg.rate
    if cfg.budget < tokens then cfg.budget else tokens

/-- `refill`. -/
def refill (cfg : Config) (s : State) : State :=
  if s.now - s.lastRefill ≤ 0 then s else { s with tokens := level cfg s, lastRefill := s.now }

/-- `consumeBudget`. -/
def consumeBudget (cfg : Config) (s : State) : State :=
  let s := refill cfg s
  { s with tokens := if 1 ≤ s.tokens then s.tokens - 1 else 0 }

/-! ## Requests -/

/-- What Dovecot makes of a LOGIN.  `lost` is one that it rejects, when its answer does not
arrive. -/
inductive Answer
  | valid
  | rejected
  | unavailable
  | lost
deriving DecidableEq

inductive Action
  | tick (d : ℚ)
  /-- A request with a credential that is not in the cache. -/
  | arrive (key credential : ℕ)
  /-- A request takes its next step. -/
  | advance (i : ℕ)
  | answer (i : ℕ) (a : Answer)
  /-- The client of a request that waits is gone. -/
  | cancel (i : ℕ)
deriving DecidableEq

/-- The request is in the `inflight` map. -/
def Phase.inflight : Phase → Bool
  | .leading | .asked | .rejected | .settled _ => true
  | _ => false

/-- The result of a validation that is over, for those that wait for it. -/
def Phase.result : Phase → Option Result
  | .answered r | .done r => some r
  | _ => none

def State.move (s : State) (i : ℕ) (r : Request) (p : Phase) : State :=
  { s with requests := s.requests.set i { r with phase := p } }

/-- The end of `Authenticate`. -/
def record (cfg : Config) (s : State) (key : ℕ) : Result → State
  | .valid => recordSuccess s key
  | .invalid => recordFailure cfg s key
  | _ => s

/-- The next step of a request. -/
def advance (cfg : Config) (s : State) (i : ℕ) (r : Request) : Option State :=
  match r.phase with
  | .checked =>
      match s.requests.findIdx? fun q => q.credential = r.credential && q.phase.inflight with
      | some leader => some (s.move i r (.waiting leader))
      | none => some (s.move i r .leading)
  | .waiting leader => ((s.requests[leader]?).bind fun q => q.phase.result).map fun res =>
      s.move i r (.answered res)
  | .leading =>
      let s := refill cfg s
      some (if 1 ≤ s.tokens then s.move i r .asked else s.move i r (.settled .exhausted))
  | .asked => none
  | .rejected => some ((consumeBudget cfg s).move i r (.settled .invalid))
  | .settled res => some (s.move i r (.answered res))
  | .answered res => some ((record cfg s r.key res).move i r (.done res))
  | .done _ => none

/-- The answer to a LOGIN. -/
def answer (s : State) (i : ℕ) (r : Request) : Answer → State
  | .valid => s.move i r (.settled .valid)
  | .rejected => { s.move i r .rejected with log := .rejected r.key s.now :: s.log }
  | .unavailable => s.move i r (.settled .unavailable)
  | .lost => { s.move i r (.settled .unavailable) with log := .rejected r.key s.now :: s.log }

def step (cfg : Config) (s : State) : Action → Option State
  | .tick d => if 0 ≤ d then some { s with now := s.now + d } else none
  | .arrive key credential =>
      if isLocked s key then some s
      else some { s with requests := s.requests ++ [⟨key, credential, .checked⟩] }
  | .advance i => (s.requests[i]?).bind fun r => advance cfg s i r
  | .answer i a => (s.requests[i]?).bind fun r => if r.phase = .asked then
    some (answer s i r a)
  else none
  | .cancel i =>
      (s.requests[i]?).bind fun r =>
        match r.phase with
        | .waiting _ => some (s.move i r (.answered .unavailable))
        | _ => none

/-- What a request does to the table and the bucket when it leaves a phase, and the phase after it.
-/
inductive Next (cfg : Config) (s : State) (key : ℕ) : Phase → State → Phase → Prop
  | join (leader : ℕ) : Next cfg s key .checked s (.waiting leader)
  | lead : Next cfg s key .checked s .leading
  | joined (leader : ℕ) (res : Result) : Next cfg s key (.waiting leader) s (.answered res)
  | ask (htoken : 1 ≤ (refill cfg s).tokens) : Next cfg s key .leading (refill cfg s) .asked
  | exhaust : Next cfg s key .leading (refill cfg s) (.settled .exhausted)
  | charge : Next cfg s key .rejected (consumeBudget cfg s) (.settled .invalid)
  | settle (res : Result) : Next cfg s key (.settled res) s (.answered res)
  | record (res : Result) : Next cfg s key (.answered res)
    (Lockout.record cfg s key res) (.done res)

lemma next_of_advance {cfg : Config} {s s' : State} {i : ℕ} {r : Request}
    (h : advance cfg s i r = some s') :
    ∃ s₁ p, Next cfg s r.key r.phase s₁ p ∧ s' = s₁.move i r p := by
  unfold advance at h
  split at h <;> rename_i hphase <;> rw [hphase]
  · split at h <;> cases h
    · exact ⟨_, _, .join _, rfl⟩
    · exact ⟨_, _, .lead, rfl⟩
  · obtain ⟨res, -, rfl⟩ := Option.map_eq_some_iff.1 h
    exact ⟨_, _, .joined _ res, rfl⟩
  · cases h
    split
    · exact ⟨_, _, .ask ‹_›, rfl⟩
    · exact ⟨_, _, .exhaust, rfl⟩
  · cases h
  · cases h
    exact ⟨_, _, .charge, rfl⟩
  · cases h
    exact ⟨_, _, .settle _, rfl⟩
  · cases h
    exact ⟨_, _, .record _, rfl⟩
  · cases h

end Moov.Lockout
