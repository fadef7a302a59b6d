import Moov.Lib.Netip
import Moov.Lib.Text

/-!
# The image proxy

`jmaphttp/imgproxy.go`: a client has a URL signed, and the server fetches it, through a dialer that
vets every address it is about to connect to.

* `vetIP`, `dialVetted` — the vetting, and the dialing of what passes it;
* `fetch` — the connections of one fetch: of the signed URL, and of each redirect after it;
* `Public` — where a connection may go, by the address alone;
* `public_iff_of_vetted` — what the vetting misses: `Prefix.Contains` and `IsUnspecified` are false
  of an address with a zone.
-/

namespace Moov.ImageProxy

open Netip Text List

/-! ## Vetting -/

/-- `forbiddenPrefixes`. -/
def forbiddenPrefixes : List Prefix :=
  [.v4 (octets 100 64 0 0) 10,
    .v4 (octets 192 0 0 0) 24,
    .v4 (octets 192 0 2 0) 24,
    .v4 (octets 198 51 100 0) 24,
    .v4 (octets 203 0 113 0) 24,
    .v4 (octets 198 18 0 0) 15,
    .v4 (octets 192 88 99 0) 24,
    .v4 (octets 240 0 0 0) 4,
    .v6 0x0064ff9b000000000000000000000000#128 96,
    .v6 0x0064ff9b000100000000000000000000#128 48,
    .v6 0x20010db8000000000000000000000000#128 32,
    .v6 0x20020000000000000000000000000000#128 16,
    .v6 0x20010000000000000000000000000000#128 32]

/-- The errors of `vetIP`. -/
inductive Refusal
  | invalid
  | loopback
  | privateUse
  | linkLocal
  | unspecified
  | multicast
  | range (p : Prefix)
deriving DecidableEq

/-- `vetIP`. -/
def vetIP (addr : Addr) : Option Refusal :=
  let ip := addr.unmap
  if !ip.isValid then some .invalid
  else if ip.isLoopback then some .loopback
  else if ip.isPrivate then some .privateUse
  else if ip.isLinkLocalUnicast || ip.isLinkLocalMulticast then some .linkLocal
  else if ip.isUnspecified then some .unspecified
  else if ip.isMulticast || ip.isInterfaceLocalMulticast then some .multicast
  else (forbiddenPrefixes.find? fun p => p.contains ip).map .range

/-! ## Dialing -/

/-- A connection to an address. -/
structure Conn where
  addr : Addr
  port : List Char
deriving DecidableEq

/-- The ports that are allowed. -/
def webPort (port : List Char) : Bool := port = "80".toList || port = "443".toList

/-- `dialVetted`, up to the dialing: the candidates and the port.  The resolver is asked when the
host is not a literal. -/
def vetted (addr : List Char) (answer : Option (List Addr)) : Option (List Addr × List Char) :=
  match splitHostPort addr with
  | none => none
  | some (host, port) =>
      if !webPort port then none
      else
        match (match parseAddr host with | some ip => some [ip] | none => answer) with
        | none => none
        | some candidates =>
            if candidates.isEmpty || candidates.any (fun ip => vetIP ip ≠ none) then none
            else some (candidates, port)

/-- The loop that dials: the connections, and whether one is accepted. -/
def dialEach (accepts : Nat → Bool) (port : List Char) : (k : Nat) → List Addr → List Conn × Bool
  | _, [] => ([], false)
  | k, ip :: ips =>
      if accepts k then ([⟨ip, port⟩], true)
      else
        let rest := dialEach accepts port (k + 1) ips
        (⟨ip, port⟩ :: rest.1, rest.2)

/-- `dialVetted`. -/
def dialVetted (accepts : Nat → Bool) (addr : List Char) (answer : Option (List Addr)) :
    List Conn × Bool :=
  match vetted addr answer with
  | none => ([], false)
  | some (candidates, port) => dialEach accepts port 0 candidates

/-! ## URLs -/

/-- `url.URL`, as far as the proxy reads it. -/
structure URL where
  scheme : List Char
  host : List Char
  user : Bool
deriving DecidableEq

/-- `splitHostPort` of `net/url`: the last colon begins a port if only digits follow it. -/
def URL.split (u : URL) : List Char × List Char :=
  let (host, port) :=
    match cutLastColon u.host with
    | some (host, port) => if port.all Char.isDigit then (host, port) else (u.host, [])
    | none => (u.host, [])
  (if ['['].isPrefixOf host && [']'].isSuffixOf host then (host.drop 1).dropLast else host, port)

def URL.hostname (u : URL) : List Char := u.split.1

def URL.port (u : URL) : List Char := u.split.2

/-- `http` or `https`. -/
def URL.isWeb (u : URL) : Bool := u.scheme = "http".toList || u.scheme = "https".toList

/-- `checkPort`. -/
def checkPort (u : URL) : Bool := u.port = [] || webPort u.port

/-- What the proxy has from libraries, whatever it is. -/
structure Library where
  /-- `url.Parse`. -/
  parse : List Char → Option URL
  /-- The URL of `http.NewRequest`, of the text of a URL. -/
  request : URL → Option URL
  /-- The host of a URL as the transport spells it. -/
  toASCII : List Char → List Char
  /-- The signature of an encoded URL and an expiry. -/
  sign : List Char → Int → Nat

variable (lib : Library) {j via k : Nat} {accepts : Nat → Nat → Bool} {answer : Option (List Addr)}
  {c : Conn} {addr : List Char} {hops : List Hop}

/-- The address that the transport dials for a URL. -/
def canonicalAddr (u : URL) : List Char :=
  joinHostPort (lib.toASCII u.hostname)
    (if u.port ≠ [] then u.port else if u.scheme = "http".toList then "80".toList else "443".toList)

/-! ## Signing -/

/-- The query of a signed path; the URL is encoded and decoded again. -/
structure SignedPath where
  url : List Char
  expiry : Int
  signature : Nat
deriving DecidableEq

/-- `imageProxyTTL`, in seconds. -/
def imageProxyTTL : Int := 3600

def maxSignURLBytes : Nat := 2048

/-- `signedPathFor`. -/
def signedPathFor (now : Int) (raw : List Char) : Option SignedPath :=
  if maxSignURLBytes < byteLen raw then none
  else
    match lib.parse raw with
    | none => none
    | some u =>
        if !u.isWeb || u.host = [] || u.user || !checkPort u then none
        else if (parseAddr u.hostname).any fun ip => vetIP ip ≠ none then none
        else some ⟨raw, now + imageProxyTTL, lib.sign raw (now + imageProxyTTL)⟩

/-- `handleImageProxy`, up to the fetch. -/
def handleImageProxy (now : Int) (path : SignedPath) : Option URL :=
  if path.signature ≠ lib.sign path.url path.expiry then none
  else if path.expiry < now then none
  else
    match lib.parse path.url with
    | none => none
    | some target => if !target.isWeb || target.user || !checkPort target then
      none
    else lib.request target

/-! ## Fetching -/

/-- A request of the client: its URL, and the answers of the resolver to the dials that the
transport makes for it.  It makes none when it has a connection already. -/
structure Hop where
  url : URL
  lookups : List (Option (List Addr))
deriving DecidableEq

def maxImageRedirects : Nat := 5

/-- The client goes on to a request, after so many: `CheckRedirect`, and the transport's own
check. -/
def allowed (via : Nat) (u : URL) : Bool :=
  (via = 0 || (via < maxImageRedirects && u.isWeb && checkPort u)) && u.host ≠ []

/-- The dials of a request. -/
def dials (accepts : Nat → Nat → Bool) (addr : List Char) :
    (j : Nat) → List (Option (List Addr)) → List Conn × Bool
  | _, [] => ([], false)
  | j, answer :: answers =>
      let first := dialVetted (accepts j) addr answer
      let rest := dials accepts addr (j + 1) answers
      (first.1 ++ rest.1, first.2 || rest.2)

/-- The requests of a fetch, from one on: each dial of each of them may be accepted or not. -/
def follow (accepts : Nat → Nat → Nat → Bool) : (via : Nat) → List Hop → List Conn
  | _, [] => []
  | via, hop :: hops =>
      if !allowed via hop.url then []
      else
        let made := dials (accepts via) (canonicalAddr lib hop.url) 0 hop.lookups
        made.1 ++ if hop.lookups.isEmpty || made.2 then follow accepts (via + 1) hops else []

/-- A fetch: the URL, when it is signed and when it is fetched, whether there is room for it, the
lookups of its first request, and the redirects. -/
structure Fetch where
  raw : List Char
  signedAt : Int
  fetchedAt : Int
  busy : Bool
  lookups : List (Option (List Addr))
  redirects : List Hop

/-- The first request of a fetch, if there is one. -/
def firstRequest (f : Fetch) : Option URL :=
  if f.busy then none else (signedPathFor lib f.signedAt f.raw).bind fun path =>
    handleImageProxy lib f.fetchedAt path

/-- The connections of a fetch. -/
def fetch (accepts : Nat → Nat → Nat → Bool) (f : Fetch) : List Conn :=
  match firstRequest lib f with
  | none => []
  | some url => follow lib accepts 0 (⟨url, f.lookups⟩ :: f.redirects)

/-! ## Where a connection may go -/

/-- The ranges that are not public. -/
def nonPublic : List Prefix := loopback ++ privateUse ++ linkLocal ++ unspecified ++ multicast ++
      forbiddenPrefixes

/-- The address, without its zone, is in no such range. -/
def Public (a : Addr) : Prop := a.unmap.isValid = true ∧ ∀ p ∈ nonPublic, p.covers a.unmap = false

/-- The address has a zone, and is unspecified or in a forbidden range. -/
def Evasive (a : Addr) : Prop :=
  a.unmap.hasZone = true ∧ ∃ p ∈ unspecified ++ forbiddenPrefixes, p.covers a.unmap = true

/-- A check that refuses is not passed. -/
lemma ite_refused_eq_none_iff {b : Bool} {r : Refusal} {rest : Option Refusal} :
    (if b = true then some r else rest) = none ↔ b = false ∧ rest = none := by
  cases b with
  | true | false => simp

lemma any_covers_eq_false_iff (ranges : List Prefix) (a : Addr) :
    (ranges.any fun p => p.covers a) = false ↔ ∀ p ∈ ranges, p.covers a = false := by
  simp

lemma vetIP_eq_none_iff (a : Addr) : vetIP a = none ↔ a.unmap.isValid = true ∧
    (∀ p ∈ loopback ++ privateUse ++ linkLocal ++ multicast, p.covers a.unmap = false) ∧
    (a.unmap.hasZone = true ∨ ∀ p ∈ unspecified ++ forbiddenPrefixes,
      p.covers a.unmap = false) := by
  generalize hip : a.unmap = ip
  have hrange : (forbiddenPrefixes.find? fun p => p.contains ip).map Refusal.range = none ↔
      ip.hasZone = true ∨ ∀ p ∈ forbiddenPrefixes, p.covers ip = false := by
    rw [Option.map_eq_none_iff, find?_eq_none]
    cases hzone : ip.hasZone with
    | true | false => simp [Prefix.contains, hzone]
  have hunspecified : ip.isUnspecified = false ↔ ip.hasZone = true ∨ ∀ p ∈ unspecified,
    p.covers ip = false := by
    rw [isUnspecified_eq, Bool.and_eq_false_iff, any_covers_eq_false_iff]
    simp
  -- the narrow multicast predicates refuse nothing that the wide one does not
  have hscoped : ip.isMulticast = false → ip.isLinkLocalMulticast = false ∧
    ip.isInterfaceLocalMulticast = false := by
    intro hm
    rw [← Bool.or_eq_false_iff, Bool.eq_false_iff]
    intro hs
    rw [isMulticast_of_scoped ip hs] at hm
    cases hm
  have hlocal := any_covers_eq_false_iff linkLocal ip
  have hmulticast := any_covers_eq_false_iff multicast ip
  rw [← isLinkLocalUnicast_eq] at hlocal
  rw [← isMulticast_eq] at hmulticast
  simp only [vetIP, hip, ite_refused_eq_none_iff, hrange, hunspecified, Bool.or_eq_false_iff,
    Bool.not_eq_false', isLoopback_eq, isPrivate_eq, any_covers_eq_false_iff, forall_mem_append,
    ← hlocal, ← hmulticast, or_and_left]
  constructor
  · rintro ⟨hvalid, hloop, hpriv, ⟨hlink, -⟩, hun, ⟨hmulti, -⟩, hforbidden⟩
    exact ⟨hvalid, ⟨⟨⟨hloop, hpriv⟩, hlink⟩, hmulti⟩, hun, hforbidden⟩
  · rintro ⟨hvalid, ⟨⟨⟨hloop, hpriv⟩, hlink⟩, hmulti⟩, hun, hforbidden⟩
    exact ⟨hvalid, hloop, hpriv, ⟨hlink, (hscoped hmulti).1⟩, hun,
      ⟨hmulti, (hscoped hmulti).2⟩, hforbidden⟩

/-- Of the addresses that pass, those are not public that evade the vetting by their zone. -/
theorem public_iff_of_vetted {a : Addr} (h : vetIP a = none) : Public a ↔ ¬ Evasive a := by
  obtain ⟨hvalid, hnone, hzone⟩ := (vetIP_eq_none_iff a).1 h
  constructor
  · rintro ⟨-, hpublic⟩ ⟨-, p, hp, hcovers⟩
    have hmem : p ∈ nonPublic := by
      simp only [nonPublic, mem_append] at hp ⊢
      tauto
    rw [hpublic p hmem] at hcovers
    cases hcovers
  · intro hevasive
    refine ⟨hvalid, fun p hp => ?_⟩
    have hsplit : p ∈ loopback ++ privateUse ++ linkLocal ++ multicast ∨ p ∈ unspecified ++
      forbiddenPrefixes := by
      simp only [nonPublic, mem_append] at hp ⊢
      tauto
    rcases hsplit with hp | hp
    · exact hnone p hp
    · rcases hzone with hz | hz
      · exact Bool.eq_false_iff.2 fun hcovers => hevasive ⟨hz, p, hp, hcovers⟩
      · exact hz p hp

/-! ## The dials of a fetch -/

variable {candidates : List Addr} {answers : List (Option (List Addr))} {addr port : List Char}

lemma vetted_spec
    (h : vetted addr answer = some (candidates, port)) :
    webPort port = true ∧ candidates ≠ [] ∧ ∀ ip ∈ candidates, vetIP ip = none := by
  unfold vetted at h
  split at h
  · cases h
  · split at h
    · cases h
    · rename_i hport
      split at h
      · cases h
      · split at h
        · cases h
        · rename_i hvet
          cases h
          simp only [Bool.or_eq_true, any_eq_true, not_or, not_exists, not_and, decide_eq_true_eq,
            not_not] at hvet
          exact ⟨by simpa using hport, by simpa using hvet.1, hvet.2⟩

/-- Only candidates are dialed. -/
lemma mem_dialEach {accepts : Nat → Bool}
    (h : c ∈ (dialEach accepts port k candidates).1) : c.addr ∈ candidates ∧ c.port = port := by
  induction candidates generalizing k with
  | nil => simp [dialEach] at h
  | cons ip ips ih =>
    rw [dialEach] at h
    split at h
    · obtain rfl := mem_singleton.1 h
      exact ⟨mem_cons_self, rfl⟩
    · rcases mem_cons.1 h with rfl | h
      · exact ⟨mem_cons_self, rfl⟩
      · exact ⟨mem_cons_of_mem _ (ih h).1, (ih h).2⟩

/-- If none is accepted, every candidate is dialed. -/
lemma dialEach_refused :
    (dialEach (fun _ => false) port k candidates).1 = candidates.map fun ip => ⟨ip, port⟩ := by
  induction candidates generalizing k with
  | nil => rfl
  | cons ip ips ih => simp [dialEach, ih]

lemma mem_dials
    (h : c ∈ (dials accepts addr j answers).1) :
    ∃ answer ∈ answers, ∃ candidates, vetted addr answer = some (candidates, c.port) ∧
      c.addr ∈ candidates := by
  induction answers generalizing j with
  | nil => simp [dials] at h
  | cons answer answers ih =>
    rw [dials] at h
    rcases mem_append.1 h with h | h
    · cases hv : vetted addr answer with
      | none => simp [dialVetted, hv] at h
      | some v =>
        obtain ⟨candidates, port⟩ := v
        simp only [dialVetted, hv] at h
        obtain ⟨hmem, rfl⟩ := mem_dialEach h
        exact ⟨answer, mem_cons_self, candidates, hv, hmem⟩
    · obtain ⟨answer', hanswer, hdial⟩ := ih h
      exact ⟨answer', mem_cons_of_mem _ hanswer, hdial⟩

lemma mem_dials_refused {ip : Addr}
    (hanswer : answer ∈ answers)
    (hv : vetted addr answer = some (candidates, port)) (hip : ip ∈ candidates) :
    ⟨ip, port⟩ ∈ (dials (fun _ _ => false) addr j answers).1 := by
  induction answers generalizing j with
  | nil => simp at hanswer
  | cons a answers ih =>
    rw [dials]
    rcases mem_cons.1 hanswer with rfl | hanswer
    · refine mem_append_left _ ?_
      simp only [dialVetted, hv, dialEach_refused]
      exact mem_map_of_mem hip
    · exact mem_append_right _ (ih hanswer)

/-- If all are accepted, a request with a dial that passes the vetting is answered. -/
lemma dials_accepted
    (h : answers.any (fun answer => (vetted addr answer).isSome) = true) :
    (dials (fun _ _ => true) addr j answers).2 = true := by
  induction answers generalizing j with
  | nil => simp at h
  | cons answer answers ih =>
    rw [dials, Bool.or_eq_true]
    rw [any_cons, Bool.or_eq_true] at h
    rcases h with h | h
    · left
      cases hv : vetted addr answer with
      | none => simp [hv] at h
      | some v =>
        obtain ⟨candidates, port⟩ := v
        cases candidates with
        | nil => exact absurd rfl (vetted_spec hv).2.1
        | cons => simp [dialVetted, hv, dialEach]
    · exact .inr (ih h)

/-- A request is answered only if one of its dials passes the vetting. -/
lemma vetted_of_dials
    (h : (dials accepts addr j answers).2 = true) :
    answers.any (fun answer => (vetted addr answer).isSome) = true := by
  induction answers generalizing j with
  | nil => simp [dials] at h
  | cons answer answers ih =>
    rw [dials, Bool.or_eq_true] at h
    rw [any_cons, Bool.or_eq_true]
    rcases h with h | h
    · left
      cases hv : vetted addr answer with
      | none => simp [dialVetted, hv] at h
      | some => rfl
    · exact .inr (ih h)

/-! ## The requests of a fetch -/

/-- A request that can be answered: it reuses a connection, or one of its dials passes the
vetting. -/
def answerable (hop : Hop) : Bool :=
  hop.lookups.isEmpty || hop.lookups.any fun answer =>
    (vetted (canonicalAddr lib hop.url) answer).isSome

/-- The requests that the proxy lets pass, one after another, from one on. -/
def admitted : (via : Nat) → List Hop → List Hop
  | _, [] => []
  | via, hop :: hops =>
      if !allowed via hop.url then []
      else hop :: if answerable lib hop then admitted (via + 1) hops else []

/-- No request that the proxy lets pass has a candidate, among those that it dials, which evades the
vetting by its zone. -/
def Unevaded (hops : List Hop) : Prop :=
  ∀ hop ∈ hops, ∀ answer ∈ hop.lookups, ∀ candidates port,
    vetted (canonicalAddr lib hop.url) answer = some (candidates, port) →
      ∀ ip ∈ candidates, ¬ Evasive ip

variable {lib}

/-- Every connection is to a candidate of a request that the proxy lets pass. -/
lemma mem_follow {accepts : Nat → Nat → Nat → Bool}
    (h : c ∈ follow lib accepts via hops) :
    ∃ hop ∈ admitted lib via hops, ∃ answer ∈ hop.lookups, ∃ candidates,
      vetted (canonicalAddr lib hop.url) answer = some (candidates, c.port) ∧
      c.addr ∈ candidates := by
  induction hops generalizing via with
  | nil => simp [follow] at h
  | cons hop hops ih =>
    rw [follow] at h
    rw [admitted]
    split at h
    · simp at h
    · rename_i hallowed
      rw [if_neg hallowed]
      rcases mem_append.1 h with h | h
      · obtain ⟨answer, hanswer, hdial⟩ := mem_dials h
        exact ⟨hop, mem_cons_self, answer, hanswer, hdial⟩
      · split at h
        · rename_i hmade
          have hanswerable : answerable lib hop = true := by
            rw [Bool.or_eq_true] at hmade
            rw [answerable, Bool.or_eq_true]
            exact hmade.imp id vetted_of_dials
          obtain ⟨hop', hmem, hdial⟩ := ih h
          rw [if_pos hanswerable]
          exact ⟨hop', mem_cons_of_mem _ hmem, hdial⟩
        · simp at h

/-- Every candidate of a request that the proxy lets pass is dialed, if the requests before it are
accepted and its own dials are not. -/
lemma exists_mem_follow {hop : Hop} (h : hop ∈ admitted lib via hops) :
    ∃ k, via ≤ k ∧ ∀ answer ∈ hop.lookups, ∀ candidates port,
      vetted (canonicalAddr lib hop.url) answer = some (candidates, port) → ∀ ip ∈ candidates,
        ⟨ip, port⟩ ∈ follow lib (fun i _ _ => i ≠ k) via hops := by
  induction hops generalizing via with
  | nil => simp [admitted] at h
  | cons first hops ih =>
    rw [admitted] at h
    split at h
    · simp at h
    · rename_i hallowed
      rcases mem_cons.1 h with rfl | h
      · refine ⟨via, le_rfl, fun answer hanswer candidates port hv ip hip => ?_⟩
        rw [follow, if_neg hallowed]
        refine mem_append_left _ ?_
        simpa using mem_dials_refused (j := 0) hanswer hv hip
      · split at h
        · rename_i hanswerable
          obtain ⟨k, hk, hdial⟩ := ih h
          refine ⟨k, by omega, fun answer hanswer candidates port hv ip hip => ?_⟩
          rw [follow, if_neg hallowed]
          refine mem_append_right _ ?_
          have hne : decide (via ≠ k) = true := by simp; omega
          have hmade : (first.lookups.isEmpty || (dials (fun _ _ => decide (via ≠ k))
              (canonicalAddr lib first.url) 0 first.lookups).2) = true := by
            rw [hne, Bool.or_eq_true]
            rw [answerable, Bool.or_eq_true] at hanswerable
            exact hanswerable.imp id dials_accepted
          rw [if_pos hmade]
          exact hdial answer hanswer candidates port hv ip hip
        · simp at h

/-! ## A whole fetch -/

/-- The requests of a fetch that the proxy lets pass. -/
def requests (lib : Library) (f : Fetch) : List Hop :=
  match firstRequest lib f with
  | none => []
  | some url => admitted lib 0 (⟨url, f.lookups⟩ :: f.redirects)

/-- The connection goes to a web port of a public address. -/
def Conn.Allowed (c : Conn) : Prop := webPort c.port = true ∧ Public c.addr

/-- Whichever dials are accepted, each connection of a fetch goes to a web port of a public address,
if and only if no request that the proxy lets pass dials an unspecified or forbidden address with a
zone. -/
theorem fetch_allowed_iff (lib : Library) (f : Fetch) :
    (∀ accepts, ∀ c ∈ fetch lib accepts f, c.Allowed) ↔ Unevaded lib (requests lib f) := by
  unfold fetch requests
  cases firstRequest lib f with
  | none => simp [Unevaded]
  | some =>
    constructor
    · intro hall hop hhop answer hanswer candidates port hv ip hip
      obtain ⟨k, -, hdial⟩ := exists_mem_follow hhop
      have hpublic := (hall _ _ (hdial answer hanswer candidates port hv ip hip)).2
      exact (public_iff_of_vetted ((vetted_spec hv).2.2 ip hip)).1 hpublic
    · intro hnone accepts c hc
      obtain ⟨hop, hhop, answer, hanswer, candidates, hv, hmem⟩ := mem_follow hc
      obtain ⟨hport, -, hvet⟩ := vetted_spec hv
      exact ⟨hport, (public_iff_of_vetted (hvet _ hmem)).2
        (hnone hop hhop answer hanswer candidates c.port hv _ hmem)⟩

/-! ## A literal with a zone -/

/-- A library that reads a URL with a literal host as `net/url` does: `%25` is a percent sign. -/
def literals : Library where
  parse raw :=
    let host := (raw.drop 7).takeWhile (· ≠ '/')
    let address := host.takeWhile (· ≠ '%')
    some ⟨raw.take 4, address ++ if address = host then
      []
    else '%' :: host.drop (address.length + 3), false⟩
  request := some
  toASCII := id
  sign _ _ := 0

/-- The URL is fetched, without a redirect. -/
def literalFetch (raw : List Char) : Fetch := ⟨raw, 0, 0, false, [none], []⟩

/-- `10.0.0.1` behind NAT64, and the unspecified address, which is the host itself, are refused, and
are dialed when they are given a zone. -/
theorem zone_evades_vetting :
    fetch literals (fun _ _ _ => true) (literalFetch "http://[64:ff9b::a00:1]/".toList) = [] ∧
      fetch literals (fun _ _ _ => true) (literalFetch "http://[64:ff9b::a00:1%25eth0]/".toList) =
        [⟨.v6 0x0064ff9b00000000000000000a000001#128 "eth0".toList, "80".toList⟩] ∧
      fetch literals (fun _ _ _ => true) (literalFetch "http://[::]/".toList) = [] ∧
      fetch literals (fun _ _ _ => true) (literalFetch "http://[::%25lo]/".toList) =
        [⟨.v6 0#128 "lo".toList, "80".toList⟩] ∧
      ¬ Public (.v6 0x0064ff9b00000000000000000a000001#128 "eth0".toList) ∧
      ¬ Public (.v6 0#128 "lo".toList) := by
  refine ⟨by decide +kernel, by decide +kernel, by decide +kernel, by decide +kernel, fun h =>
    ?_, fun h => ?_⟩
  · exact absurd (h.2 (.v6 0x0064ff9b000000000000000000000000#128 96) (by decide)) (by decide)
  · exact absurd (h.2 (.v6 0#128 128) (by decide)) (by decide)

end Moov.ImageProxy
