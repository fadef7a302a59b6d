import Moov.Lib.Run
import Moov.Lib.Text

/-!
# Delegated tokens

`jmaphttp/delegated_jwt.go` and `jmaphttp/delegated.go`: a token that an issuer has signed is
presented once, to exchange it for a session or to revoke the sessions of its subject.

* `verify` — the claim rules, with their tolerance for the clock of the issuer;
* `sweep`, `insert` — `ConsumeDelegatedJTI`: rows that have expired are removed, and the insert
  is the replay check;
* `passed_nodup` — in any run in which every id is recorded by the `exp` of its token, no token
  passes twice.

A row is kept until `exp`, and a token is accepted for the tolerance longer: in between, the
sweep of any request makes room for a replay, that of the replay itself included.
-/

namespace Moov.Delegated

open Text List
open Run (exec Guarded)

/-! ## Tokens -/

/-- The two purposes of a token, each bound to one route. -/
inductive Purpose
  | login
  | revoke
deriving DecidableEq

/-- The payload of a token, with times in nanoseconds. -/
structure Token where
  iss : List Char
  sub : List Char
  aud : List (List Char)
  iat : Option Int
  exp : Option Int
  /-- The inner `none` is one that is malformed. -/
  nbf : Option (Option Int)
  jti : List Char
  purpose : Option Purpose
deriving DecidableEq

/-- `delegatedClaims`, as far as `verifyPresented` reads them. -/
structure Claims where
  issuer : List Char
  jti : List Char
  expires : Int
deriving DecidableEq

def second : Int := 1000000000

def delegatedMaxLifetime : Int := 300 * second

def delegatedClockSkew : Int := 30 * second

def maxJTILength : Nat := 256

/-- `verify`.  Whether the header, the issuer, its key and the signature are accepted is up to
the network and to the configuration. -/
def verify (authentic : Bool) (now : Int) (host : List Char) (purpose : Purpose) (t : Token) :
    Option Claims :=
  let sub := toLower (trimSpace t.sub)
  if !authentic then none
  else if t.aud.all fun a => a ≠ host then none
  else if sub = [] || sub.all fun c => c ≠ '@' then none
  else
    match t.iat, t.exp with
    | some iat, some exp =>
        if exp - iat > delegatedMaxLifetime then none
        else if exp ≤ now - delegatedClockSkew then none
        else if iat > now + delegatedClockSkew then none
        else if t.nbf.any fun nbf => nbf.all fun nbf => nbf > now + delegatedClockSkew then none
        else if t.jti = [] || maxJTILength < byteLen t.jti then none
        else if t.purpose ≠ some purpose then none
        else some ⟨t.iss, t.jti, exp⟩
    | _, _ => none

/-! ## Rows -/

/-- A row of `delegated_jti`.  PostgreSQL keeps microseconds. -/
structure Row where
  issuer : List Char
  jti : List Char
  expiresAt : Int
deriving DecidableEq

/-- A time as PostgreSQL keeps it. -/
def micros (time : Int) : Int := time / 1000

/-- The sweep of `ConsumeDelegatedJTI`. -/
def sweep (now : Int) (rows : List Row) : List Row := rows.filter fun r => micros now ≤ r.expiresAt

/-- The row is that of the claims. -/
def Row.of (r : Row) (issuer jti : List Char) : Bool := r.issuer = issuer && r.jti = jti

/-- The insert of `ConsumeDelegatedJTI`, and whether it was fresh. -/
def insert (c : Claims) (rows : List Row) : List Row × Bool :=
  if rows.any fun r => r.of c.issuer c.jti then (rows, false)
  else (⟨c.issuer, c.jti, micros c.expires⟩ :: rows, true)

/-! ## Requests -/

/-- An exchange or a revoke, as far as `verifyPresented` has got with it. -/
inductive Request
  | presented (authentic : Bool) (host : List Char) (purpose : Purpose) (token : Token)
  | verified (token : Token) (claims : Claims)
  /-- The clock has been read for `ConsumeDelegatedJTI`. -/
  | consuming (token : Token) (claims : Claims) (now : Int)
  | swept (token : Token) (claims : Claims)
  | done
deriving DecidableEq

/-- The server, with the tokens that have passed. -/
structure Server where
  clock : Int
  rows : List Row
  requests : List Request
  passed : List Token
deriving DecidableEq

inductive Action
  | tick (now : Int)
  | present (authentic : Bool) (host : List Char) (purpose : Purpose) (token : Token)
  /-- The next step of a request. -/
  | advance (i : Nat)
  /-- A request ends in a refusal or a fault on the way. -/
  | abort (i : Nat)
deriving DecidableEq

/-- The next step of a request. -/
def advance (s : Server) : Request → Option (Server × Request)
  | .presented authentic host purpose token =>
      match verify authentic s.clock host purpose token with
      | none => some (s, .done)
      | some claims => some (s, .verified token claims)
  | .verified token claims => some (s, .consuming token claims s.clock)
  | .consuming token claims now => some ({ s with rows := sweep now s.rows }, .swept token claims)
  | .swept token claims =>
      match insert claims s.rows with
      | (rows, true) => some ({ s with rows := rows, passed := token :: s.passed }, .done)
      | (rows, false) => some ({ s with rows := rows }, .done)
  | .done => none

/-- One step of the server. -/
def step (s : Server) : Action → Option Server
  | .tick now => if s.clock ≤ now then some { s with clock := now } else none
  | .present authentic host purpose token =>
      some { s with requests := s.requests ++ [.presented authentic host purpose token] }
  | .advance i =>
      match s.requests[i]? with
      | none => none
      | some r => (advance s r).map fun a => { a.1 with requests := a.1.requests.set i a.2 }
  | .abort i =>
      if i < s.requests.length then some { s with requests := s.requests.set i .done } else none

def Server.start (clock : Int) : Server := ⟨clock, [], [], []⟩

/-! ## The replay check -/

/-- The claims are those of the token. -/
structure ClaimsOf (token : Token) (claims : Claims) : Prop where
  issuer : claims.issuer = token.iss
  jti : claims.jti = token.jti
  expires : token.exp = some claims.expires

lemma claimsOf_verify {authentic : Bool} {now : Int} {host : List Char} {purpose : Purpose}
    {token : Token}
    {claims : Claims} (h : verify authentic now host purpose token = some claims) :
    ClaimsOf token claims := by
  simp only [verify, Option.ite_none_left_eq_some] at h
  obtain ⟨-, -, -, h⟩ := h
  split at h
  · rename_i hexp
    simp only [Option.ite_none_left_eq_some] at h
    obtain ⟨-, -, -, -, -, -, ⟨⟩⟩ := h
    exact ⟨rfl, rfl, hexp⟩
  · cases h

/-- What a request carries is of its token, and the clock it has read is not ahead. -/
def Request.Ok (clock : Int) : Request → Prop
  | .presented _ _ _ _ => True
  | .verified token claims => ClaimsOf token claims
  | .consuming token claims now => ClaimsOf token claims ∧ now ≤ clock
  | .swept token claims => ClaimsOf token claims
  | .done => True

variable {clock now : Int}

lemma Request.Ok.later {r : Request} (h : r.Ok clock) (hle : clock ≤ now) : r.Ok now := by
  cases r with
  | consuming => exact ⟨h.1, le_trans h.2 hle⟩
  | _ => exact h

/-- The token is recorded, or it has expired. -/
def Spent (clock : Int) (rows : List Row) (t : Token) : Prop :=
  ∃ exp, t.exp = some exp ∧
    ((∃ r ∈ rows, r.of t.iss t.jti = true ∧ r.expiresAt = micros exp) ∨ exp < clock)

/-- What the rows record of the tokens that have passed. -/
structure Recorded (s : Server) : Prop where
  requests : ∀ r ∈ s.requests, r.Ok s.clock
  spent : ∀ t ∈ s.passed, Spent s.clock s.rows t
  nodup : s.passed.Nodup

/-- The id of a token is recorded by the `exp` of the token. -/
def inTime (s : Server) : Action → Bool
  | .advance i =>
      match s.requests[i]? with
      | some (.swept token _) => token.exp.all fun exp => s.clock ≤ exp
      | _ => true
  | _ => true

variable {s s' : Server} {a : Action} {rows : List Row} {t : Token}

lemma Spent.later (h : Spent clock rows t) (hle : clock ≤ now) :
    Spent now rows t := by
  obtain ⟨exp, hexp, hrow | hlt⟩ := h
  · exact ⟨exp, hexp, .inl hrow⟩
  · exact ⟨exp, hexp, .inr (lt_of_lt_of_le hlt hle)⟩

lemma Spent.mono {clock : Int} {rows' : List Row} (h : Spent clock rows t)
    (hrows : ∀ r ∈ rows, r ∈ rows') : Spent clock rows' t := by
  obtain ⟨exp, hexp, ⟨r, hr, hof⟩ | hlt⟩ := h
  · exact ⟨exp, hexp, .inl ⟨r, hrows r hr, hof⟩⟩
  · exact ⟨exp, hexp, .inr hlt⟩

/-- A sweep removes the row of a token only after the token has expired. -/
theorem Spent.sweep (h : Spent clock rows t) (hnow : now ≤ clock) :
    Spent clock (sweep now rows) t := by
  obtain ⟨exp, hexp, ⟨r, hr, hof, hat⟩ | hlt⟩ := h
  · by_cases hkept : micros now ≤ r.expiresAt
    · exact ⟨exp, hexp, .inl ⟨r, mem_filter.2 ⟨hr, decide_eq_true hkept⟩, hof, hat⟩⟩
    · refine ⟨exp, hexp, .inr ?_⟩
      rw [hat] at hkept
      have hmono : exp < now := by
        unfold micros at hkept
        omega
      exact lt_of_lt_of_le hmono hnow
  · exact ⟨exp, hexp, .inr hlt⟩

/-- A token that is recorded in time has not passed before. -/
lemma not_mem_passed {token : Token} {claims : Claims} (hs : Recorded s)
    (hof : ClaimsOf token claims)
    (hfresh : (s.rows.any fun r => r.of claims.issuer claims.jti) = false)
    (htime : s.clock ≤ claims.expires) :
    token ∉ s.passed := by
  intro hmem
  obtain ⟨exp, hexp, ⟨r, hr, hrow, -⟩ | hlt⟩ := hs.spent token hmem
  · rw [hof.issuer, hof.jti] at hfresh
    exact any_eq_false.1 hfresh r hr hrow
  · rw [hof.expires] at hexp
    cases hexp
    omega

/-- What one step of a request leaves. -/
lemma Recorded.advance {r r' : Request} (hs : Recorded s) (hr : r.Ok s.clock)
    (htime : ∀ token claims, r = .swept token claims → ∀ exp ∈ token.exp, s.clock ≤ exp)
    (h : Delegated.advance s r = some (s', r')) :
    s'.clock = s.clock ∧ s'.requests = s.requests ∧ r'.Ok s.clock ∧
      (∀ t ∈ s'.passed, Spent s.clock s'.rows t) ∧ s'.passed.Nodup := by
  cases r with
  | presented =>
    rw [Delegated.advance] at h
    split at h
    · cases h
      exact ⟨rfl, rfl, trivial, hs.spent, hs.nodup⟩
    · rename_i claims hverify
      cases h
      exact ⟨rfl, rfl, claimsOf_verify hverify, hs.spent, hs.nodup⟩
  | verified =>
    cases h
    exact ⟨rfl, rfl, ⟨hr, le_refl _⟩, hs.spent, hs.nodup⟩
  | consuming =>
    cases h
    exact ⟨rfl, rfl, hr.1, fun t ht => (hs.spent t ht).sweep hr.2, hs.nodup⟩
  | swept token claims =>
    have hclaims : ClaimsOf token claims := hr
    rw [Delegated.advance, insert] at h
    cases hseen : s.rows.any fun r => r.of claims.issuer claims.jti with
    | true =>
      rw [hseen] at h
      cases h
      exact ⟨rfl, rfl, trivial, hs.spent, hs.nodup⟩
    | false =>
      rw [hseen] at h
      cases h
      have hnew := not_mem_passed hs hclaims hseen (htime token claims rfl _ hclaims.expires)
      refine ⟨rfl, rfl, trivial, fun t ht => ?_, nodup_cons.2 ⟨hnew, hs.nodup⟩⟩
      rcases mem_cons.1 ht with rfl | ht
      · refine ⟨claims.expires, hclaims.expires, .inl ⟨_, mem_cons_self, ?_, rfl⟩⟩
        rw [Row.of, hclaims.issuer, hclaims.jti]
        simp
      · exact (hs.spent t ht).mono fun r hr => mem_cons_of_mem _ hr
  | done => cases h

/-- Every step keeps the record, as long as the ids are recorded in time. -/
lemma Recorded.step (hg : inTime s a = true) (hs : Recorded s) (h : Delegated.step s a = some s') :
    Recorded s' := by
  cases a with
  | tick =>
    obtain ⟨hle, ⟨⟩⟩ := Option.ite_none_right_eq_some.1 h
    exact ⟨fun r hr => (hs.requests r hr).later hle, fun t ht =>
      (hs.spent t ht).later hle, hs.nodup⟩
  | present =>
    cases h
    exact ⟨Run.forall_mem_concat hs.requests trivial, hs.spent, hs.nodup⟩
  | advance i =>
    rw [Delegated.step] at h
    cases hi : s.requests[i]? with
    | none =>
      rw [hi] at h
      cases h
    | some r =>
      rw [hi] at h
      obtain ⟨⟨s₁, r'⟩, hadv, rfl⟩ := Option.map_eq_some_iff.1 h
      have htime : ∀ token claims, r = .swept token claims → ∀ exp ∈ token.exp, s.clock ≤ exp := by
        rintro token claims rfl exp hexp
        rw [inTime, hi] at hg
        change (token.exp.all fun exp => decide (s.clock ≤ exp)) = true at hg
        rw [Option.mem_def.1 hexp] at hg
        exact of_decide_eq_true hg
      obtain ⟨hclock, hreq, hr', hspent, hnodup⟩ :=
        hs.advance (hs.requests r (mem_of_getElem? hi)) htime hadv
      refine ⟨fun x hx => ?_, ?_, hnodup⟩
      · rw [hclock]
        exact Run.forall_mem_set (hreq ▸ hs.requests) hr' x hx
      · rw [hclock]
        exact hspent
  | abort =>
    obtain ⟨-, ⟨⟩⟩ := Option.ite_none_right_eq_some.1 h
    exact ⟨Run.forall_mem_set hs.requests trivial, hs.spent, hs.nodup⟩

lemma recorded_start (clock : Int) : Recorded (.start clock) where
  requests := forall_mem_nil _
  spent := forall_mem_nil _
  nodup := nodup_nil

/-- **At most once.**  As long as every id is recorded by the `exp` of its token, no token passes
twice. -/
theorem passed_nodup {clock : Int} {as : List Action}
    (hg : Guarded Delegated.step (fun s a => inTime s a = true) (.start clock) as)
    (h : exec Delegated.step (.start clock) as = some s) : s.passed.Nodup :=
  (Run.inv_exec (fun _ _ _ hg hs h => hs.step hg h) (recorded_start clock) hg h).nodup

/-! ## Two runs -/

/-- A token that is valid from second `0` to second `100`. -/
def shortToken : Token where
  iss := "https://issuer.example".toList
  sub := "ana@example.com".toList
  aud := ["mail.example.com".toList]
  iat := some 0
  exp := some (100 * second)
  nbf := none
  jti := "f81d4fae".toList
  purpose := some .login

/-- A presentation of the token, from the body to the insert. -/
def presentation (i : Nat) : List Action :=
  [.present true "mail.example.com".toList .login shortToken, .advance i, .advance i,
    .advance i, .advance i]

/-- Two presentations of the token by its `exp`. -/
theorem passed_nodup_shortToken :
    ∃ s, exec Delegated.step (.start 0) (presentation 0 ++ .tick (50 * second) :: presentation 1) =
      some s ∧
      s.passed = [shortToken] ∧ s.passed.Nodup :=
  Run.exists_of_guarded (G := fun s a => inTime s a = true) (by decide +kernel) (by decide +kernel)
    fun _ hg hs _ => passed_nodup hg hs

/-- Ten seconds after its `exp`, the token passes again. -/
theorem replay_after_exp :
    ∃ s, exec Delegated.step (.start 0) (presentation 0 ++ .tick (110 * second) :: presentation 1) =
      some s ∧
      ¬ s.passed.Nodup := by
  refine Run.exists_exec ?_
  decide +kernel

end Moov.Delegated
