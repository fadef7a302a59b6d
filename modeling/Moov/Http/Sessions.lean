import Moov.Http.Replay

/-!
# Delegated sessions

`jmaphttp/delegated.go` and `store/delegated.go`: a session is created by an exchange, is renewed
into another one, and ends at its expiry, at a logout or at a revocation.

Every statement of the store is a step of its own.  A renewal reads the session, creates the next
one and then shortens the first; no row refers to another.

* `advance` — the requests: exchange, renew, logout, revocation, and any request with a bearer;
* `Sound` — no session that was cut off is accepted by a request that begins later, and none is
  accepted past the lifetime of its exchange.
-/

namespace Moov.Sessions

open List

open Delegated (micros second)
open Run (exec Guarded)

/-! ## Rows -/

/-- A row of `delegated_sessions`, in the microseconds of PostgreSQL, with the exchange it stems
from: the index of the row of that exchange, and its time in nanoseconds. -/
structure Session where
  accountID : Nat
  issuer : Nat
  expiresAt : Int
  absoluteExpiresAt : Int
  revoked : Bool
  origin : Nat
  exchangedAt : Int
deriving DecidableEq

/-- `RevokeDelegatedSessionsByIssuer` and `RevokeDelegatedSessionsForAccount`, with the number of
the sessions created before. -/
structure Revocation where
  accountID : Nat
  issuer : Option Nat
  before : Nat
deriving DecidableEq

/-- The session stems from an exchange before the revocation, and is in its scope. -/
def Revocation.cuts (v : Revocation) (r : Session) : Bool :=
  r.origin < v.before && r.accountID = v.accountID && v.issuer.all fun issuer => r.issuer = issuer

/-- The time of a row, as it is read. -/
def nanos (time : Int) : Int := time * 1000

/-- The checks of `resolveSession`. -/
def Session.live (r : Session) (now : Int) : Bool :=
  !r.revoked && now < nanos r.expiresAt && now < nanos r.absoluteExpiresAt

/-- `UPDATE … SET revoked_at`, of the sessions of an account. -/
def revoke (accountID : Nat) (issuer : Option Nat) (now : Int) (r : Session) : Session :=
  if r.accountID = accountID ∧ (issuer.all fun issuer => r.issuer = issuer) ∧
    micros now < r.expiresAt then
    { r with revoked := true }
  else r

/-- `SetDelegatedSessionExpiry`. -/
def setExpiry (time : Int) (r : Session) : Session :=
  if r.revoked then r else { r with expiresAt := micros time }

/-! ## Requests -/

/-- `DelegatedTTL` and `DelegatedMaxLifetime`. -/
structure Config where
  ttl : Int
  maxLife : Int

def delegatedRenewGrace : Int := 60 * second

/-- What a bearer is presented for. -/
inductive Use
  | request
  | renew
  | logout
deriving DecidableEq

/-- A request, as far as it has got.  The token of a session is known by the row it is of. -/
inductive Request
  /-- A verified exchange of an account that is admitted, and the clock it has read. -/
  | exchange (accountID issuer : Nat)
  | exchanged (accountID issuer : Nat) (time : Int)
  /-- The row of `issueSession`, and the session it renews. -/
  | issuing (row : Session) (old : Option (Nat × Session))
  | bearer (use : Use) (i : Nat)
  /-- The row of `GetDelegatedSession`, with the revocations up to then. -/
  | found (use : Use) (i : Nat) (row : Session) (revoked : List Revocation)
  | renewing (i : Nat) (row : Session)
  | renewed (i : Nat) (row : Session)
  | shortening (i : Nat) (time : Int)
  | loggingOut (i : Nat)
  | revoke (accountID : Nat) (issuer : Option Nat)
  | revoking (accountID : Nat) (issuer : Option Nat) (now : Int)
  | done
deriving DecidableEq

/-- A bearer that was accepted: its session, the time, and the revocations before the request. -/
structure Accepted where
  row : Session
  time : Int
  revoked : List Revocation
deriving DecidableEq

/-- The server. -/
structure Server where
  clock : Int
  rows : List Session
  requests : List Request
  revocations : List Revocation
  accepted : List Accepted
deriving DecidableEq

inductive Action
  | tick (now : Int)
  | arrive (accountID issuer : Nat)
  | present (use : Use) (i : Nat)
  | order (accountID : Nat) (issuer : Option Nat)
  | advance (k : Nat)
  /-- A request ends in a refusal or a fault on the way. -/
  | abort (k : Nat)
deriving DecidableEq

variable (cfg : Config) {clock now : Int} {i : Nat} {f : Nat → Session → Session}
  {revocations : List Revocation} {q q' : Request}

/-- The row of `issueSession`. -/
def issueSession (now : Int) (accountID issuer : Nat) (absolute : Int) (origin : Nat)
    (exchangedAt : Int) : Session where
  accountID := accountID
  issuer := issuer
  expiresAt := micros (if absolute < now + cfg.ttl then absolute else now + cfg.ttl)
  absoluteExpiresAt := micros absolute
  revoked := false
  origin := origin
  exchangedAt := exchangedAt

/-- The next step of a request. -/
def advance (s : Server) : Request → Option (Server × Request)
  | .exchange accountID issuer => some (s, .exchanged accountID issuer s.clock)
  | .exchanged accountID issuer time =>
      some (s, .issuing
        (issueSession cfg s.clock accountID issuer (time + cfg.maxLife) 0 time) none)
  | .issuing row none =>
      some ({ s with rows := s.rows ++ [{ row with origin := s.rows.length }] }, .done)
  | .issuing row (some (i, old)) => some ({ s with rows := s.rows ++ [row] }, .renewed i old)
  | .bearer use i =>
      match s.rows[i]? with
      | none => some (s, .done)
      | some row => some (s, .found use i row s.revocations)
  | .found use i row revoked =>
      if row.live s.clock then
        match use with
        | .request => some ({ s with accepted := ⟨row, s.clock, revoked⟩ :: s.accepted }, .done)
        | .renew =>
            some ({ s with accepted := ⟨row, s.clock, revoked⟩ :: s.accepted }, .renewing i row)
        | .logout => some (s, .loggingOut i)
      else some (s, .done)
  | .renewing i row =>
      some (s, .issuing
        (issueSession cfg s.clock row.accountID row.issuer (nanos row.absoluteExpiresAt) row.origin
        row.exchangedAt) (some (i, row)))
  | .renewed i row =>
      if s.clock + delegatedRenewGrace < nanos row.expiresAt then
        some (s, .shortening i (s.clock + delegatedRenewGrace))
      else some (s, .done)
  | .shortening i time => some ({ s with rows := s.rows.modify i (setExpiry time) }, .done)
  | .loggingOut i =>
      some ({ s with rows := s.rows.modify i fun r => { r with revoked := true } }, .done)
  | .revoke accountID issuer => some (s, .revoking accountID issuer s.clock)
  | .revoking accountID issuer now =>
      some ({ s with
        rows := s.rows.map (revoke accountID issuer now)
        revocations := ⟨accountID, issuer, s.rows.length⟩ :: s.revocations }, .done)
  | .done => none

/-- One step of the server. -/
def step (s : Server) : Action → Option Server
  | .tick now => if s.clock ≤ now then some { s with clock := now } else none
  | .arrive accountID issuer =>
      some { s with requests := s.requests ++ [.exchange accountID issuer] }
  | .present use i => some { s with requests := s.requests ++ [.bearer use i] }
  | .order accountID issuer => some { s with requests := s.requests ++ [.revoke accountID issuer] }
  | .advance k =>
      match s.requests[k]? with
      | none => none
      | some r => (advance cfg s r).map fun a => { a.1 with requests := a.1.requests.set k a.2 }
  | .abort k =>
      if k < s.requests.length then some { s with requests := s.requests.set k .done } else none

def Server.start (clock : Int) : Server := ⟨clock, [], [], [], []⟩

/-! ## What holds -/

/-- No session that was cut off is accepted by a request that begins later, and none is accepted
from the lifetime of its exchange on. -/
structure Sound (s : Server) : Prop where
  revoked : ∀ a ∈ s.accepted, ∀ v ∈ a.revoked, v.cuts a.row = false
  lifetime : ∀ a ∈ s.accepted, a.time < a.row.exchangedAt + cfg.maxLife

/-- The session that is being renewed has not ended when a renewal writes. -/
def renewsLive (s : Server) : Action → Bool
  | .advance k =>
      match s.requests[k]? with
      | some (.issuing _ (some (i, _))) => s.rows[i]?.any fun r => r.live s.clock
      | some (.shortening i _) => s.rows[i]?.any fun r => r.live s.clock
      | _ => true
  | _ => true

/-! ## Sessions that have ended -/

/-- The session is refused for good, as long as no expiry is moved. -/
def Ended (clock : Int) (r : Session) : Prop := r.revoked = true ∨ nanos r.expiresAt ≤ clock

/-- Two sessions of one exchange, or two states of one session. -/
structure Kin (r r' : Session) : Prop where
  accountID : r'.accountID = r.accountID
  issuer : r'.issuer = r.issuer
  origin : r'.origin = r.origin
  exchangedAt : r'.exchangedAt = r.exchangedAt

variable {cfg} {s s' : Server} {r r' row : Session} {v : Revocation} {a : Action}

lemma nanos_micros_le (time : Int) : nanos (micros time) ≤ time := by
  unfold nanos micros
  omega

lemma kin_refl (r : Session) : Kin r r := ⟨rfl, rfl, rfl, rfl⟩

lemma Kin.trans {r'' : Session} (h : Kin r r') (h' : Kin r' r'') : Kin r r'' :=
  ⟨h'.accountID.trans h.accountID, h'.issuer.trans h.issuer, h'.origin.trans h.origin,
    h'.exchangedAt.trans h.exchangedAt⟩

lemma Kin.symm (h : Kin r r') : Kin r' r :=
  ⟨h.accountID.symm, h.issuer.symm, h.origin.symm, h.exchangedAt.symm⟩

/-- A revocation cuts off all sessions of an exchange, or none. -/
lemma Kin.cuts (h : Kin r r') : v.cuts r' = v.cuts r := by
  rw [Revocation.cuts, h.accountID, h.issuer, h.origin, Revocation.cuts]

lemma Ended.later (h : Ended clock r) (hle : clock ≤ now) : Ended now r :=
  h.imp id fun hexp => le_trans hexp hle

lemma Ended.not_live (h : Ended clock r) : r.live clock = false := by
  unfold Session.live
  rcases h with hrev | hexp
  · rw [hrev]
    rfl
  · rw [decide_eq_false (not_lt.2 hexp)]
    simp

/-- `UPDATE … SET revoked_at` keeps what a session stems from. -/
lemma kin_revoke (accountID : Nat) (issuer : Option Nat) (now : Int) (r : Session) :
    Kin r (revoke accountID issuer now r) ∧
      (revoke accountID issuer now r).absoluteExpiresAt = r.absoluteExpiresAt := by
  unfold revoke
  split
  · exact ⟨⟨rfl, rfl, rfl, rfl⟩, rfl⟩
  · exact ⟨kin_refl r, rfl⟩

lemma kin_setExpiry (time : Int) (r : Session) :
    Kin r (setExpiry time r) ∧ (setExpiry time r).absoluteExpiresAt = r.absoluteExpiresAt := by
  unfold setExpiry
  split
  · exact ⟨kin_refl r, rfl⟩
  · exact ⟨⟨rfl, rfl, rfl, rfl⟩, rfl⟩

lemma Ended.revoke (h : Ended clock r) (accountID : Nat) (issuer : Option Nat) (now : Int) :
    Ended clock (revoke accountID issuer now r) := by
  unfold Sessions.revoke
  split
  · exact .inl rfl
  · exact h

/-- A session that a revocation cuts off has ended once it has run. -/
lemma ended_of_revoke (hnow : now ≤ clock) {before : Nat} {accountID : Nat} {issuer : Option Nat}
    (h : Revocation.cuts ⟨accountID, issuer, before⟩ r = true) :
    Ended clock (revoke accountID issuer now r) := by
  unfold Revocation.cuts at h
  rw [Bool.and_eq_true, Bool.and_eq_true, decide_eq_true_iff, decide_eq_true_iff] at h
  unfold revoke
  split
  · exact .inl rfl
  · rename_i hkept
    refine .inr (le_trans ?_ hnow)
    have hexp : r.expiresAt ≤ micros now := not_lt.1 fun hlt => hkept ⟨h.1.2, h.2, hlt⟩
    unfold nanos
    unfold micros at hexp
    omega

/-! ## The invariant -/

/-- What the rows say, and what was accepted. -/
structure Core (cfg : Config) (s : Server) : Prop where
  origin : ∀ (i : Nat) (r : Session), s.rows[i]? = some r → r.origin ≤ i
  lifetime : ∀ r ∈ s.rows, nanos r.absoluteExpiresAt ≤ r.exchangedAt + cfg.maxLife
  before : ∀ v ∈ s.revocations, v.before ≤ s.rows.length
  cut : ∀ v ∈ s.revocations, ∀ r ∈ s.rows, v.cuts r = true → Ended s.clock r
  sound : Sound cfg s

/-- The session of a request is one of the rows. -/
def Stems (s : Server) (i : Nat) (r : Session) : Prop := ∃ r₀, s.rows[i]? = some r₀ ∧ Kin r₀ r

/-- What a request carries. -/
def Request.Ok (cfg : Config) (s : Server) : Request → Prop
  | .issuing row none => nanos row.absoluteExpiresAt ≤ row.exchangedAt + cfg.maxLife
  | .issuing row (some (i, _)) =>
      nanos row.absoluteExpiresAt ≤ row.exchangedAt + cfg.maxLife ∧ Stems s i row
  | .found _ i row revoked =>
      nanos row.absoluteExpiresAt ≤ row.exchangedAt + cfg.maxLife ∧ Stems s i row ∧
        ∀ v ∈ revoked, v.cuts row = true → Ended s.clock row
  | .renewing i row => nanos row.absoluteExpiresAt ≤ row.exchangedAt + cfg.maxLife ∧ Stems s i row
  | .revoking _ _ now => now ≤ s.clock
  | _ => True

/-- Later: the clock has not gone back, and every row is still of its exchange. -/
structure Later (s s' : Server) : Prop where
  clock : s.clock ≤ s'.clock
  rows : ∀ (i : Nat) (r : Session), s.rows[i]? = some r → ∃ r', s'.rows[i]? = some r' ∧ Kin r r'

lemma Later.stems (h : Later s s') (hr : Stems s i r) : Stems s' i r := by
  obtain ⟨r₀, hr₀, hkin⟩ := hr
  obtain ⟨r₁, hr₁, hkin'⟩ := h.rows i r₀ hr₀
  exact ⟨r₁, hr₁, hkin'.symm.trans hkin⟩

lemma Later.ok (h : Later s s') (hq : q.Ok cfg s) : q.Ok cfg s' := by
  cases q with
  | issuing row old =>
    cases old with
    | none => exact hq
    | some => exact ⟨hq.1, h.stems hq.2⟩
  | found => exact ⟨hq.1, h.stems hq.2.1, fun v hv hcut => (hq.2.2 v hv hcut).later h.clock⟩
  | renewing => exact ⟨hq.1, h.stems hq.2⟩
  | revoking => exact le_trans hq h.clock
  | _ => trivial

/-- The same rows. -/
lemma later_of_rows (hclock : s.clock ≤ s'.clock) (hrows : s'.rows = s.rows) : Later s s' :=
  ⟨hclock, fun i r hr => ⟨r, by rw [hrows, hr], kin_refl r⟩⟩

lemma later_append (new : Session) (hclock : s'.clock = s.clock)
    (hrows : s'.rows = s.rows ++ [new]) : Later s s' := by
  refine ⟨le_of_eq hclock.symm, fun i r hr => ⟨r, ?_, kin_refl r⟩⟩
  rw [hrows, List.getElem?_append_left (List.getElem?_eq_some_iff.1 hr).1, hr]

/-- A new row. -/
lemma Core.append (hs : Core cfg s) {new : Session} (horigin : new.origin ≤ s.rows.length)
    (hlife : nanos new.absoluteExpiresAt ≤ new.exchangedAt + cfg.maxLife)
    (hcut : ∀ v ∈ s.revocations, v.cuts new = false) :
    Core cfg { s with rows := s.rows ++ [new] } := by
  refine ⟨fun i r hr => ?_, Run.forall_mem_concat hs.lifetime hlife, fun v hv =>
    ?_, fun v hv r hr hcuts => ?_, { hs.sound with }⟩
  · rcases Run.getElem?_append_cases hr with hr | ⟨rfl, rfl⟩
    · exact hs.origin i r hr
    · exact horigin
  · rw [length_append]
    exact le_trans (hs.before v hv) (Nat.le_add_right _ _)
  · rcases mem_append.1 hr with hr | hr
    · exact hs.cut v hv r hr hcuts
    · rw [mem_singleton.1 hr, hcut v hv] at hcuts
      cases hcuts

/-- An update of rows in their places. -/
structure Updates (s : Server) (revocations : List Revocation) (f : Nat → Session → Session) :
    Prop where
  kin : ∀ i r, Kin r (f i r) ∧ (f i r).absoluteExpiresAt = r.absoluteExpiresAt
  cut : ∀ i r, s.rows[i]? = some r → ∀ v ∈ revocations, v.cuts r = true → Ended s.clock (f i r)

lemma Core.update (hs : Core cfg s)
    (hf : Updates s revocations f) (hbefore : ∀ v ∈ revocations, v.before ≤ s.rows.length) :
    Core cfg { s with rows := s.rows.mapIdx f, revocations := revocations } := by
  have hrows : ∀ (i : Nat) (r' : Session), (s.rows.mapIdx f)[i]? = some r' → ∃ r, s.rows[i]? =
    some r ∧ f i r = r' := by
    intro i r' hr'
    rw [getElem?_mapIdx] at hr'
    exact Option.map_eq_some_iff.1 hr'
  have hmem : ∀ r' ∈ s.rows.mapIdx f, ∃ (i : Nat) (r : Session), s.rows[i]? = some r ∧
    f i r = r' := by
    intro r' hr'
    obtain ⟨i, hi⟩ := mem_iff_getElem?.1 hr'
    exact ⟨i, hrows i r' hi⟩
  refine ⟨fun i r' hr' => ?_, fun r' hr' => ?_, fun v hv => ?_, fun v hv r' hr' hcuts => ?_,
    { hs.sound with }⟩
  · obtain ⟨r, hr, rfl⟩ := hrows i r' hr'
    rw [(hf.kin i r).1.origin]
    exact hs.origin i r hr
  · obtain ⟨i, r, hr, rfl⟩ := hmem r' hr'
    rw [(hf.kin i r).2, (hf.kin i r).1.exchangedAt]
    exact hs.lifetime r (mem_of_getElem? hr)
  · rw [length_mapIdx]
    exact hbefore v hv
  · obtain ⟨i, r, hr, rfl⟩ := hmem r' hr'
    rw [(hf.kin i r).1.cuts] at hcuts
    exact hf.cut i r hr v hv hcuts

/-- A session that is live is not cut off. -/
lemma not_cut_of_live (hcut : v.cuts r = true → Ended s.clock r) (hlive : r.live s.clock = true) :
    v.cuts r = false := by
  cases hcuts : v.cuts r with
  | false => rfl
  | true =>
    rw [(hcut hcuts).not_live] at hlive
    cases hlive

/-- A change to one row, as an update. -/
def inPlace (i : Nat) (f : Session → Session) (j : Nat) (r : Session) : Session :=
  if j = i then f r else r

lemma modify_eq_mapIdx (i : Nat) (f : Session → Session) (rows : List Session) :
    rows.modify i f = rows.mapIdx (inPlace i f) := by
  refine ext_getElem? fun j => ?_
  rw [getElem?_modify, getElem?_mapIdx]
  cases rows[j]? with
  | none => simp
  | some =>
    by_cases hij : i = j
    · simp [inPlace, hij]
    · simp [inPlace, hij, Ne.symm hij]

lemma map_eq_mapIdx (f : Session → Session) (rows : List Session) :
    rows.map f = rows.mapIdx fun _ => f := by
  refine ext_getElem? fun j => ?_
  rw [getElem?_map, getElem?_mapIdx]

lemma kin_inPlace {f : Session → Session} (i : Nat)
    (hf : ∀ r, Kin r (f r) ∧ (f r).absoluteExpiresAt = r.absoluteExpiresAt) (j : Nat)
    (r : Session) :
    Kin r (inPlace i f j r) ∧ (inPlace i f j r).absoluteExpiresAt = r.absoluteExpiresAt := by
  unfold inPlace
  split
  · exact hf r
  · exact ⟨kin_refl r, rfl⟩

/-! ## Steps -/

/-- A step of a request whose session is live when it writes. -/
structure Kept (cfg : Config) (s s' : Server) (q' : Request) : Prop where
  core : Core cfg s'
  later : Later s s'
  requests : s'.requests = s.requests
  ok : q'.Ok cfg s'

lemma kept_same (hs : Core cfg s) (hq' : q'.Ok cfg s) : Kept cfg s s q' :=
  ⟨hs, later_of_rows (le_refl _) rfl, rfl, hq'⟩

lemma kept_update (hs : Core cfg s)
    (hf : Updates s revocations f) (hbefore : ∀ v ∈ revocations, v.before ≤ s.rows.length) :
    Kept cfg s { s with rows := s.rows.mapIdx f, revocations := revocations } .done := by
  refine ⟨hs.update hf hbefore, ⟨le_refl _, fun i r hr => ⟨f i r, ?_, (hf.kin i r).1⟩⟩, rfl,
    trivial⟩
  rw [getElem?_mapIdx, hr]
  rfl

lemma issueSession_lifetime (now : Int) (accountID issuer : Nat) {absolute : Int} (origin : Nat)
    {exchangedAt : Int}
    (h : absolute ≤ exchangedAt + cfg.maxLife) :
    nanos (issueSession cfg now accountID issuer absolute origin exchangedAt).absoluteExpiresAt ≤
      (issueSession cfg now accountID issuer absolute origin exchangedAt).exchangedAt +
        cfg.maxLife :=
  le_trans (nanos_micros_le absolute) h

/-- An acceptance is sound: what was read is not cut off, and not past its lifetime. -/
lemma Core.accept (hs : Core cfg s) {use : Use} {revoked : List Revocation}
    (hq : (Request.found use i row revoked).Ok cfg s) (hlive : row.live s.clock = true) :
    Core cfg { s with accepted := ⟨row, s.clock, revoked⟩ :: s.accepted } := by
  refine { hs with sound := ⟨fun a ha => ?_, fun a ha => ?_⟩ }
  · rcases mem_cons.1 ha with rfl | ha
    · exact fun v hv => not_cut_of_live (hq.2.2 v hv) hlive
    · exact hs.sound.revoked a ha
  · rcases mem_cons.1 ha with rfl | ha
    · unfold Session.live at hlive
      rw [Bool.and_eq_true, decide_eq_true_iff] at hlive
      exact lt_of_lt_of_le hlive.2 hq.1
    · exact hs.sound.lifetime a ha

/-- The row that a step of a renewal is about to write, or to write from. -/
def Request.renews : Request → Option Nat
  | .issuing _ (some (i, _)) => some i
  | .shortening i _ => some i
  | _ => none

section

variable (hs : Core cfg s)
include hs

/-- A renewal that inserts its session while the old one is live. -/
lemma Core.renew {old : Session} (hq : (Request.issuing row (some (i, old))).Ok cfg s)
    (hlive : ∀ r, s.rows[i]? = some r → r.live s.clock = true) :
    Core cfg { s with rows := s.rows ++ [row] } := by
  obtain ⟨hlife, r, hr, hkin⟩ := hq
  refine hs.append ?_ hlife fun v hv => ?_
  · rw [hkin.origin]
    exact le_trans (hs.origin i r hr) (le_of_lt (List.getElem?_eq_some_iff.1 hr).1)
  · rw [hkin.cuts]
    exact not_cut_of_live (hs.cut v hv r (mem_of_getElem? hr)) (hlive r hr)

lemma Core.shorten (time : Int)
    (hlive : ∀ r, s.rows[i]? = some r → r.live s.clock = true) :
    Updates s s.revocations (inPlace i (setExpiry time)) where
  kin := kin_inPlace i (kin_setExpiry time)
  cut j r hr v hv hcuts := by
    unfold inPlace
    split
    · rename_i hij
      rw [hij] at hr
      rw [not_cut_of_live (hs.cut v hv r (mem_of_getElem? hr)) (hlive r hr)] at hcuts
      cases hcuts
    · exact hs.cut v hv r (mem_of_getElem? hr) hcuts

lemma Core.logOut (i : Nat) :
    Updates s s.revocations (inPlace i fun r => { r with revoked := true }) where
  kin := kin_inPlace i fun _ => ⟨⟨rfl, rfl, rfl, rfl⟩, rfl⟩
  cut j r hr v hv hcuts := by
    unfold inPlace
    split
    · exact .inl rfl
    · exact hs.cut v hv r (mem_of_getElem? hr) hcuts

lemma Core.revoke (hnow : now ≤ s.clock) (accountID : Nat) (issuer : Option Nat) :
    Updates s (⟨accountID, issuer, s.rows.length⟩ :: s.revocations) fun _ =>
      Sessions.revoke accountID issuer now where
  kin _ r := kin_revoke accountID issuer now r
  cut i r hr v hv hcuts := by
    rcases mem_cons.1 hv with rfl | hv
    · exact ended_of_revoke hnow hcuts
    · exact (hs.cut v hv r (mem_of_getElem? hr) hcuts).revoke accountID issuer now

/-- What one step of a request leaves. -/
theorem Core.advance (hq : q.Ok cfg s)
    (hlive : ∀ i ∈ q.renews, ∀ r, s.rows[i]? = some r → r.live s.clock = true)
    (h : Sessions.advance cfg s q = some (s', q')) : Kept cfg s s' q' := by
  cases q with
  | exchange =>
    cases h
    exact kept_same hs trivial
  | exchanged =>
    cases h
    exact kept_same hs (issueSession_lifetime _ _ _ _ (le_refl _))
  | issuing row old =>
    cases old with
    | none =>
      cases h
      have hcut : ∀ v ∈ s.revocations, v.cuts { row with origin := s.rows.length } = false := by
        intro v hv
        have hnew := not_lt.2 (hs.before v hv)
        simp [Revocation.cuts, hnew]
      exact ⟨hs.append (le_refl _) hq hcut, later_append _ rfl rfl, rfl, trivial⟩
    | some old =>
      obtain ⟨i, old⟩ := old
      cases h
      exact ⟨hs.renew hq (hlive i rfl), later_append _ rfl rfl, rfl, trivial⟩
  | bearer =>
    rw [advance] at h
    split at h
    · cases h
      exact kept_same hs trivial
    · rename_i row hrow
      cases h
      have hmem := mem_of_getElem? hrow
      exact kept_same hs ⟨hs.lifetime row hmem, ⟨row, hrow, kin_refl row⟩, fun v hv hcuts =>
        hs.cut v hv row hmem hcuts⟩
  | found use =>
    simp only [advance] at h
    split at h
    · rename_i hrow
      cases use with
      | request =>
        cases h
        exact ⟨hs.accept hq hrow, later_of_rows (le_refl _) rfl, rfl, trivial⟩
      | renew =>
        cases h
        exact ⟨hs.accept hq hrow, later_of_rows (le_refl _) rfl, rfl, ⟨hq.1, hq.2.1⟩⟩
      | logout =>
        cases h
        exact kept_same hs trivial
    · cases h
      exact kept_same hs trivial
  | renewing =>
    cases h
    obtain ⟨hlife, r, hr, hkin⟩ := hq
    exact kept_same hs ⟨issueSession_lifetime _ _ _ _ hlife, ⟨r, hr, { hkin with }⟩⟩
  | renewed =>
    rw [advance] at h
    split at h
    · cases h
      exact kept_same hs trivial
    · cases h
      exact kept_same hs trivial
  | shortening i time =>
    rw [advance, modify_eq_mapIdx] at h
    cases h
    exact kept_update hs (hs.shorten time (hlive i rfl)) hs.before
  | loggingOut i =>
    rw [advance, modify_eq_mapIdx] at h
    cases h
    exact kept_update hs (hs.logOut i) hs.before
  | revoke =>
    cases h
    exact kept_same hs (le_refl s.clock)
  | revoking accountID issuer =>
    rw [advance, map_eq_mapIdx] at h
    cases h
    exact kept_update hs (hs.revoke hq accountID issuer) (forall_mem_cons.2 ⟨le_refl _, hs.before⟩)
  | done => cases h

end

/-- The invariant of a run. -/
structure Inv (cfg : Config) (s : Server) : Prop where
  core : Core cfg s
  requests : ∀ q ∈ s.requests, q.Ok cfg s

lemma Core.inv (hs : Core cfg s) {requests : List Request} (h : ∀ q ∈ requests, q.Ok cfg s) :
    Inv cfg { s with requests := requests } :=
  ⟨{ hs with sound := { hs.sound with } },
    fun q hq => (later_of_rows (s := s) (le_refl _) rfl).ok (h q hq)⟩

lemma renews_live (hg : renewsLive s a = true) {k : Nat} (ha : a = .advance k)
    (hk : s.requests[k]? = some q) :
    ∀ i ∈ q.renews, ∀ r, s.rows[i]? = some r → r.live s.clock = true := by
  subst ha
  intro i hi r hr
  have hrow : (s.rows[i]?.any fun r => r.live s.clock) = true := by
    rw [renewsLive, hk] at hg
    cases q with
    | issuing row old =>
      cases old with
      | none => cases hi
      | some =>
        cases hi
        exact hg
    | shortening =>
      cases hi
      exact hg
    | _ => cases hi
  rw [hr] at hrow
  exact hrow

lemma Inv.step (hg : renewsLive s a = true) (hs : Inv cfg s) (h : Sessions.step cfg s a = some s') :
    Inv cfg s' := by
  -- a request that arrives carries nothing yet
  have harrive : ∀ q : Request, q.Ok cfg s → Inv cfg { s with requests := s.requests ++ [q] } :=
    fun q hq =>
    hs.core.inv (Run.forall_mem_concat hs.requests hq)
  cases a with
  | tick now =>
    obtain ⟨hle, ⟨⟩⟩ := Option.ite_none_right_eq_some.1 h
    have hlater : Later s { s with clock := now } := later_of_rows hle rfl
    exact ⟨{ hs.core with
      cut := fun v hv r hr hcuts => (hs.core.cut v hv r hr hcuts).later hle, sound :=
      { hs.core.sound with } },
      fun q hq => hlater.ok (hs.requests q hq)⟩
  | arrive | present | order =>
    cases h
    exact harrive _ trivial
  | advance k =>
    rw [step] at h
    cases hk : s.requests[k]? with
    | none =>
      rw [hk] at h
      cases h
    | some q =>
      rw [hk] at h
      obtain ⟨⟨s₁, q'⟩, hadv, rfl⟩ := Option.map_eq_some_iff.1 h
      have hkept :=
        hs.core.advance (hs.requests q (mem_of_getElem? hk)) (renews_live hg rfl hk) hadv
      refine hkept.core.inv (Run.forall_mem_set (fun x hx => ?_) hkept.ok)
      rw [hkept.requests] at hx
      exact hkept.later.ok (hs.requests x hx)
  | abort =>
    obtain ⟨-, ⟨⟩⟩ := Option.ite_none_right_eq_some.1 h
    exact hs.core.inv (Run.forall_mem_set hs.requests trivial)

lemma inv_start (clock : Int) : Inv cfg (.start clock) := by
  refine ⟨⟨fun i r hr => ?_, ?_, ?_, ?_, ⟨?_, ?_⟩⟩, ?_⟩
  · simp [Server.start] at hr
  all_goals exact forall_mem_nil _

/-- As long as a renewal writes while its session is live, no session outlives a revocation that
came after its exchange, nor the lifetime of its exchange. -/
theorem sound_of_renewsLive {clock : Int} {as : List Action}
    (hg : Guarded (Sessions.step cfg) (fun s a => renewsLive s a = true) (.start clock) as)
    (h : exec (Sessions.step cfg) (.start clock) as = some s) : Sound cfg s :=
  (Run.inv_exec (fun _ _ _ hg hs h => hs.step hg h) (inv_start clock) hg h).core.sound

/-! ## Two runs -/

/-- An hour, and thirty days. -/
def usual : Config := ⟨3600 * second, 2592000 * second⟩

/-- An exchange of account `1` through issuer `7`, to its end. -/
def exchanging (k : Nat) : List Action := [.arrive 1 7, .advance k, .advance k, .advance k]

/-- A renewal of the first session, up to the insert. -/
def renewal (k : Nat) : List Action := [.present .renew 0, .advance k, .advance k, .advance k]

/-- A revocation of the account, to its end. -/
def ordering (k : Nat) : List Action := [.order 1 none, .advance k, .advance k]

/-- A request with a session. -/
def request (k i : Nat) : List Action := [.present .request i, .advance k, .advance k]

/-- A renewal, and a revocation after it: neither session is accepted. -/
def revokedAfter : List Action :=
  exchanging 0 ++ renewal 1 ++ [.advance 1, .advance 1, .advance 1] ++ ordering 2 ++
    request 3 0 ++ request 4 1

theorem sound_of_renewsLive_revokedAfter :
    ∃ s, exec (Sessions.step usual) (.start 0) revokedAfter = some s ∧ s.accepted.length = 1 ∧
      Sound usual s :=
  Run.exists_of_guarded (G := fun s a => renewsLive s a = true) (by decide +kernel)
    (by decide +kernel)
    fun _ hg hs _ => sound_of_renewsLive hg hs

/-- The account is revoked between the read and the insert of a renewal. -/
def revokedBetween : List Action :=
  exchanging 0 ++ renewal 1 ++ ordering 2 ++ [.advance 1] ++ request 3 1

/-- The session of the renewal is accepted after the revocation. -/
theorem renewal_outlives_revocation :
    ∃ s, exec (Sessions.step usual) (.start 0) revokedBetween = some s ∧ ¬ Sound usual s := by
  have hrun : (exec (step usual) (.start 0) revokedBetween).any
      (fun s => decide (∃ a ∈ s.accepted, ∃ v ∈ a.revoked, v.cuts a.row = true)) = true := by
        decide +kernel
  obtain ⟨s, hs, a, ha, v, hv, hcuts⟩ := Run.exists_exec hrun
  refine ⟨s, hs, fun hsound => ?_⟩
  rw [hsound.revoked a ha v hv] at hcuts
  cases hcuts

end Moov.Sessions
