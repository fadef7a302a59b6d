import Moov.Web.Outbox

/-!
# Drains of the offline outbox

Nothing claims an item: a drain lists, and puts `sending` when it comes to the item.

* `queued_stays` — in any run, an item that was queued is in the store, or was accepted, or
  was discarded;
* `Inv` — in a run in which no listing and no retry takes an item that another job has in its
  hands, and no tab is closed on an item that was accepted and is not removed yet, what a job
  may still send was not accepted, and no two jobs have the same item;
* `accepted_once` — so the server accepts each item at most once.
-/

namespace Moov.Web

open List

open Run (exec states Guarded)

/-! ## What a job has in its hands -/

/-- The ids that a job has to remove: they were accepted. -/
def owed : Job → List Nat
  | .mark sent _ _ => sent
  | .send sent _ _ => sent
  | .reply sent item .sent _ => sent ++ [item.id]
  | .reply sent _ (.failed _ _) _ => sent
  | .finish sent => sent
  | _ => []

/-- The ids that a job is going to put or to send. -/
def pending : Job → List Nat
  | .mark _ item rest => item.id :: rest.map (·.id)
  | .send _ item rest => item.id :: rest.map (·.id)
  | .reply _ _ .sent rest => rest.map (·.id)
  | .reply _ item (.failed _ _) rest => item.id :: rest.map (·.id)
  | .requeue stuck => stuck.map (·.id)
  | _ => []

def holdings (job : Job) : List Nat := owed job ++ pending job

variable (sent : List Nat) (items : List OutboxItem)

lemma owed_next : owed (next sent items) = sent := by
  cases items <;> rfl

lemma pending_next :
    pending (next sent items) = items.map (·.id) := by
  cases items <;> rfl

/-! ## Listings -/

variable {w w' : Browser} {rows : List OutboxItem} {r : OutboxItem} {account : String}
  {outcome : Outcome} {ids : List Nat}

/-- The items `reclaimStuck` is going to put. -/
def stuck (rows : List OutboxItem) (accountId : String) : List OutboxItem :=
  (list rows accountId).filter fun r => r.state = .sending

lemma list_subperm : ((list rows account).map (·.id)).Subperm (rows.map (·.id)) := by
  have hsorted : (list rows account).Perm ((rows.insertionSort fun a b => a.id ≤ b.id).filter
      fun r => r.accountId = account) := perm_insertionSort _ _
  have hrows : (rows.insertionSort fun a b => a.id ≤ b.id).Perm rows := perm_insertionSort _ _
  exact ((hsorted.map _).subperm.trans ((filter_sublist.map _).subperm)).trans (hrows.map _).subperm

lemma drainable_subperm : ((drainable items).map (·.id)).Subperm (items.map (·.id)) :=
  ((perm_insertionSort _ _).map _).subperm.trans (filter_sublist.map _).subperm

lemma nodup_of_subperm {l l' : List Nat} (h : l.Subperm l') (hl' : l'.Nodup) : l.Nodup := by
  obtain ⟨l₀, hperm, hsub⟩ := h
  exact hperm.nodup_iff.1 (hl'.sublist hsub)

/-! ## Nothing leaves the queue -/

/-- What a job owes was accepted, and what was queued is somewhere. -/
structure Kept (w : Browser) : Prop where
  owed : ∀ job ∈ w.jobs, ∀ id ∈ owed job, id ∈ w.accepted
  queued : ∀ id ∈ w.queued, (∃ r ∈ w.rows, r.id = id) ∨ id ∈ w.accepted ∨ id ∈ w.discarded

lemma exists_put {item : OutboxItem} {id : Nat} (h : ∃ r ∈ rows, r.id = id) :
    ∃ r ∈ put item rows, r.id = id := by
  obtain ⟨r, hr, rfl⟩ := h
  by_cases hid : r.id = item.id
  · exact ⟨item, mem_put.2 (.inl rfl), hid.symm⟩
  · exact ⟨r, mem_put.2 (.inr ⟨hr, hid⟩), rfl⟩

lemma exists_remove (id : Nat) {x : Nat} (h : ∃ r ∈ rows, r.id = x) :
    (∃ r ∈ remove id rows, r.id = x) ∨ x = id := by
  obtain ⟨r, hr, rfl⟩ := h
  by_cases hid : r.id = id
  · exact .inr hid
  · exact .inl ⟨r, mem_remove.2 ⟨hr, hid⟩, rfl⟩

/-- What the advance of one job does to what is kept. -/
structure Advanced (w : Browser) (job : Job) (w' : Browser) (job' : Job) : Prop where
  queued : w'.queued = w.queued
  accepted : ∀ id ∈ w.accepted, id ∈ w'.accepted
  owed : ∀ id ∈ Web.owed job', id ∈ Web.owed job ∨ id ∈ w'.accepted
  rows : ∀ id, (∃ r ∈ w.rows, r.id = id) →
    (∃ r ∈ w'.rows, r.id = id) ∨ id ∈ Web.owed job ∨ id ∈ w'.discarded
  discarded : ∀ id ∈ w.discarded, id ∈ w'.discarded

lemma advanced_of_advance {job job' : Job}
    (h : advance w outcome job = some (w', job')) : Advanced w job w' job' := by
  have hsame : ∀ {job'' : Job}, (∀ id ∈ owed job'', id ∈ owed job) → Advanced w job w job'' :=
    fun howed => ⟨rfl, fun _ h => h, fun id hid => .inl (howed id hid), fun _ h => .inl h,
      fun _ h => h⟩
  have hput : ∀ {job'' : Job} (item : OutboxItem), (∀ id ∈ owed job'', id ∈ owed job) →
      Advanced w job { w with rows := put item w.rows } job'' :=
    fun item howed => ⟨rfl, fun _ h => h, fun id hid => .inl (howed id hid),
      fun _ h => .inl (exists_put h), fun _ h => h⟩
  cases job with
  | drain =>
    simp only [advance] at h
    split at h
    · cases h
      exact hsame (forall_mem_nil _)
    · cases h
      exact hsame fun id hid => by rw [owed_next] at hid; exact absurd hid not_mem_nil
  | mark | retry =>
    cases h
    exact hput _ fun id hid => hid
  | send =>
    cases outcome with
    | accepted =>
      cases h
      refine ⟨rfl, fun _ h => mem_cons_of_mem _ h, fun id hid => ?_, fun _ h => .inl h,
        fun _ h => h⟩
      rcases mem_append.1 hid with hsent | hnew
      · exact .inl hsent
      · rw [mem_singleton.1 hnew]
        exact .inr mem_cons_self
    | refused | threw =>
      cases h
      exact hsame fun id hid => hid
  | reply sent item attempt =>
    cases attempt with
    | sent =>
      cases h
      exact hsame fun id hid => by rwa [owed_next] at hid
    | failed =>
      cases h
      refine hput _ fun id hid => ?_
      split at hid
      · rwa [owed_next] at hid
      · exact hid
  | finish sent =>
    cases sent with
    | nil =>
      cases h
      exact hsame fun id hid => hid
    | cons x =>
      cases h
      refine ⟨rfl, fun _ h => h, fun id hid => .inl (mem_cons_of_mem _ hid), fun id h => ?_,
        fun _ h => h⟩
      rcases exists_remove x h with hrow | rfl
      · exact .inl hrow
      · exact .inr (.inl mem_cons_self)
  | reclaim =>
    cases h
    exact hsame fun id hid => hid
  | requeue items =>
    cases items with
    | nil =>
      cases h
      exact hsame fun id hid => hid
    | cons =>
      cases h
      exact hput _ fun id hid => hid
  | discard x =>
    cases h
    refine ⟨rfl, fun _ h => h, fun id hid => .inl hid, fun id h => ?_,
      fun _ h => mem_cons_of_mem _ h⟩
    rcases exists_remove x h with hrow | rfl
    · exact .inl hrow
    · exact .inr (.inr mem_cons_self)
  | done => cases h

lemma Kept.step {a : Action} (hw : Kept w) (h : step w a = some w') : Kept w' := by
  cases stepped_of_step h with
  | enqueue =>
    refine ⟨hw.owed, fun id hid => ?_⟩
    rcases mem_cons.1 hid with rfl | hid
    · exact .inl ⟨_, mem_put.2 (.inl rfl), rfl⟩
    · rcases hw.queued id hid with hrow | hgone
      · exact .inl (exists_put hrow)
      · exact .inr hgone
  | start hjob =>
    refine ⟨fun job hjob' id hid => ?_, hw.queued⟩
    rcases mem_append.1 hjob' with hold | hnew
    · exact hw.owed job hold id hid
    · rw [mem_singleton.1 hnew] at hid
      rcases hjob with ⟨_, rfl⟩ | ⟨_, rfl⟩ | ⟨_, rfl⟩ | ⟨_, rfl⟩ <;> exact absurd hid not_mem_nil
  | go hjob hadvance =>
    have hadv := advanced_of_advance hadvance
    have howed := hw.owed _ (mem_of_getElem? hjob)
    refine ⟨fun job hjob' id hid => ?_, fun id hid => ?_⟩
    · rcases mem_or_eq_of_mem_set hjob' with hold | rfl
      · exact hadv.accepted id (hw.owed job hold id hid)
      · rcases hadv.owed id hid with hold | hnew
        · exact hadv.accepted id (howed id hold)
        · exact hnew
    · rcases hw.queued id (hadv.queued ▸ hid) with hrow | hacc | hdis
      · rcases hadv.rows id hrow with hrow | hgone | hdis
        · exact .inl hrow
        · exact .inr (.inl (hadv.accepted id (howed id hgone)))
        · exact .inr (.inr hdis)
      · exact .inr (.inl (hadv.accepted id hacc))
      · exact .inr (.inr (hadv.discarded id hdis))
  | close =>
    refine ⟨fun job hjob id hid => ?_, hw.queued⟩
    rcases mem_or_eq_of_mem_set hjob with hold | rfl
    · exact hw.owed job hold id hid
    · exact absurd hid not_mem_nil

lemma Kept.empty : Kept .empty :=
  ⟨forall_mem_nil _, forall_mem_nil _⟩

/-! ## Nothing is sent twice -/

/-- No job but the `i`-th has one of the ids in its hands. -/
def alone (w : Browser) (i : Nat) (ids : List Nat) : Bool :=
  (w.jobs.set i .done).all fun job => ids.all fun id => id ∉ holdings job

/-- A listing takes, and a retry puts back, only what no other job has in its hands, and the
retry only what is still in the store; a tab is not closed on an item that was accepted and
is not removed yet. -/
def orderly (w : Browser) : Action → Bool
  | .go i _ =>
      match w.jobs[i]? with
      | some (.drain account) => alone w i ((drainable (list w.rows account)).map (·.id))
      | some (.reclaim account) => alone w i ((stuck w.rows account).map (·.id))
      | some (.retry item) => alone w i [item.id] && w.rows.any fun r => r.id = item.id
      | _ => true
  | .close i =>
      match w.jobs[i]? with
      | some job => owed job = []
      | none => true
  | _ => true

/-- The hands of one job: no id twice, and nothing that is still to be sent was accepted. -/
structure Sound (w : Browser) (job : Job) : Prop where
  nodup : (holdings job).Nodup
  fresh : ∀ id ∈ pending job, id ∉ w.accepted
  known : ∀ id ∈ holdings job, id ∈ w.queued

structure Inv (w : Browser) : Prop where
  key : (w.rows.map (·.id)).Nodup
  once : w.accepted.Nodup
  sound : ∀ job ∈ w.jobs, Sound w job
  apart : ∀ (i j : Nat) a b, w.jobs[i]? = some a → w.jobs[j]? = some b → i ≠ j →
    ∀ id ∈ holdings a, id ∉ holdings b
  settled : ∀ r ∈ w.rows, r.id ∈ w.accepted → ∃ job ∈ w.jobs, r.id ∈ owed job
  accepted : ∀ id ∈ w.accepted, id ∈ w.queued
  rows : ∀ r ∈ w.rows, r.id ∈ w.queued

lemma alone_iff {i : Nat} : alone w i ids = true ↔
      ∀ (j : Nat) job, w.jobs[j]? = some job → i ≠ j → ∀ id ∈ ids, id ∉ holdings job := by
  simp only [alone, all_eq_true, decide_eq_true_eq]
  constructor
  · intro h j job hj hij id hid
    exact h job (Run.mem_set_of_ne hj hij) id hid
  · intro h job hjob id hid
    obtain ⟨j, hj⟩ := mem_iff_getElem?.1 hjob
    rcases Run.getElem?_set_cases hj with ⟨-, rfl⟩ | ⟨hij, hj⟩
    · exact not_mem_nil
    · exact h j job hj hij id hid

lemma key_put {item : OutboxItem} (h : (rows.map (·.id)).Nodup) :
    ((put item rows).map (·.id)).Nodup := by
  rw [put, map_cons, nodup_cons]
  refine ⟨fun hin => ?_, h.sublist (filter_sublist.map _)⟩
  obtain ⟨r, hr, hid⟩ := mem_map.1 hin
  exact (by simpa using (mem_filter.1 hr).2 : r.id ≠ item.id) hid

variable {i : Nat} {job job' : Job} {discarded : List Nat}

/-- What is in the hands of a job after a step it had before, or nobody had it. -/
def Takes (w : Browser) (i : Nat) (job job' : Job) : Prop :=
  ∀ id ∈ holdings job', id ∈ holdings job ∨
    ∀ (j : Nat) other, w.jobs[j]? = some other → i ≠ j → id ∉ holdings other

lemma Inv.apart_set (h : Inv w) (hjob : w.jobs[i]? = some job) (htakes : Takes w i job job') :
    ∀ (j k : Nat) a b, (w.jobs.set i job')[j]? = some a → (w.jobs.set i job')[k]? = some b →
      j ≠ k → ∀ id ∈ holdings a, id ∉ holdings b := by
  refine Run.apart_set (fun a b hab id hid hid' => hab id hid' hid) h.apart
    fun k b hik hb id hid => ?_
  rcases htakes id hid with hold | hfree
  · exact h.apart i k job b hjob hb hik id hold
  · exact hfree k b hb hik

/-- A job goes on and nothing is accepted: what it has in its hands stays sound, and the rows
it writes are rows that were there, or of items that were not accepted. -/
lemma Inv.move (h : Inv w) (hjob : w.jobs[i]? = some job) (htakes : Takes w i job job')
    (hsound : Sound w job') {rows : List OutboxItem}
    (hkey : (rows.map (·.id)).Nodup)
    (hrows : ∀ r ∈ rows, (r.id ∈ w.queued ∧ r.id ∉ w.accepted) ∨
      (∃ r' ∈ w.rows, r'.id = r.id) ∧ (r.id ∈ owed job → r.id ∈ owed job')) :
    Inv { w with rows := rows, discarded := discarded, jobs := w.jobs.set i job' } where
  key := hkey
  once := h.once
  sound := fun other hother => by
    rcases mem_or_eq_of_mem_set hother with hold | rfl
    · exact ⟨(h.sound other hold).nodup, (h.sound other hold).fresh, (h.sound other hold).known⟩
    · exact { hsound with }
  apart := h.apart_set hjob htakes
  settled := fun r hr hacc => by
    rcases hrows r hr with ⟨-, hnot⟩ | ⟨⟨r', hr', hid⟩, howed⟩
    · exact absurd hacc hnot
    · exact Run.exists_mem_set hjob howed (hid ▸ h.settled r' hr' (hid ▸ hacc))
  accepted := h.accepted
  rows := fun r hr => by
    rcases hrows r hr with ⟨hq, -⟩ | ⟨⟨r', hr', hid⟩, -⟩
    · exact hq
    · exact hid ▸ h.rows r' hr'

/-- The server accepts the item that a drain is sending. -/
lemma Inv.accept {sent : List Nat} {item : OutboxItem} {rest : List OutboxItem} (h : Inv w)
    (hjob : w.jobs[i]? = some (.send sent item rest)) :
    Inv { w with accepted := item.id :: w.accepted,
                 jobs := w.jobs.set i (.reply sent item .sent rest) } := by
  have hsound := h.sound _ (mem_of_getElem? hjob)
  have hin : item.id ∈ holdings (.send sent item rest) :=
    mem_append_right _ mem_cons_self
  have hsame : holdings (.reply sent item .sent rest) = holdings (.send sent item rest) := by
    simp [holdings, owed, pending]
  have htakes : Takes w i (.send sent item rest) (.reply sent item .sent rest) :=
    fun id hid => .inl (hsame ▸ hid)
  refine ⟨h.key, nodup_cons.2 ⟨hsound.fresh _ mem_cons_self, h.once⟩, ?_,
    h.apart_set hjob htakes, ?_, ?_, h.rows⟩
  · intro other hother
    obtain ⟨j, hj⟩ := mem_iff_getElem?.1 hother
    rcases Run.getElem?_set_cases hj with ⟨-, rfl⟩ | ⟨hij, hj⟩
    · refine ⟨hsame ▸ hsound.nodup, fun id hid hacc => ?_, hsame ▸ hsound.known⟩
      rcases mem_cons.1 hacc with rfl | hacc
      · have hnodup := (nodup_append.1 hsound.nodup).2.1
        exact (nodup_cons.1 hnodup).1 hid
      · exact hsound.fresh id (mem_cons_of_mem _ hid) hacc
    · have hother' := h.sound other (mem_of_getElem? hj)
      refine ⟨hother'.nodup, fun id hid hacc => ?_, hother'.known⟩
      rcases mem_cons.1 hacc with rfl | hacc
      · exact h.apart i j _ _ hjob hj hij _ hin (mem_append_right _ hid)
      · exact hother'.fresh id hid hacc
  · intro r hr hacc
    rcases List.mem_cons.1 hacc with hid | hacc
    · exact ⟨_, List.mem_set (List.getElem?_eq_some_iff.1 hjob).1 _,
        hid ▸ List.mem_append_right _ List.mem_cons_self⟩
    · exact Run.exists_mem_set hjob (mem_append_left _) (h.settled r hr hacc)
  · exact forall_mem_cons.2 ⟨hsound.known _ hin, h.accepted⟩

/-- A job whose hands only get emptier. -/
structure Lighter (job job' : Job) : Prop where
  holdings : (holdings job').Sublist (holdings job)
  pending : ∀ id ∈ pending job', id ∈ pending job

lemma Lighter.takes (h : Lighter job job') : Takes w i job job' :=
  fun _ hid => .inl (h.holdings.subset hid)

lemma Lighter.sound (h : Lighter job job') (hsound : Sound w job) : Sound w job' :=
  ⟨hsound.nodup.sublist h.holdings, fun id hid => hsound.fresh id (h.pending id hid),
    fun id hid => hsound.known id (h.holdings.subset hid)⟩

lemma Lighter.done : Lighter job .done :=
  ⟨nil_sublist _, forall_mem_nil _⟩

section
variable (h : Inv w) (hjob : w.jobs[i]? = some job)
include h hjob

/-- A job that writes nothing. -/
lemma Inv.pass (hlight : Lighter job job')
    (howed : ∀ id ∈ owed job, id ∈ owed job') : Inv { w with jobs := w.jobs.set i job' } :=
  h.move hjob hlight.takes (hlight.sound (h.sound _ (mem_of_getElem? hjob))) h.key
    fun r hr => .inr ⟨⟨r, hr, rfl⟩, howed r.id⟩

/-- A job that puts an item it may still send. -/
lemma Inv.put (hlight : Lighter job job')
    (howed : ∀ id ∈ owed job, id ∈ owed job') {item : OutboxItem} (hitem : item.id ∈ pending job) :
    Inv { w with rows := put item w.rows, jobs := w.jobs.set i job' } := by
  have hsound := h.sound _ (mem_of_getElem? hjob)
  refine h.move hjob hlight.takes (hlight.sound hsound) (key_put h.key) fun r hr => ?_
  rcases mem_put.1 hr with rfl | ⟨hr, -⟩
  · exact .inl ⟨hsound.known _ (mem_append_right _ hitem), hsound.fresh _ hitem⟩
  · exact .inr ⟨⟨r, hr, rfl⟩, howed r.id⟩

/-- A job that removes an item. -/
lemma Inv.remove (hlight : Lighter job job') {x : Nat}
    (howed : ∀ id ∈ owed job, id ≠ x → id ∈ owed job') :
    Inv { w with rows := remove x w.rows, discarded := discarded, jobs := w.jobs.set i job' } := by
  refine h.move hjob hlight.takes (hlight.sound (h.sound _ (mem_of_getElem? hjob)))
    (h.key.sublist (filter_sublist.map _)) fun r hr => ?_
  obtain ⟨hr, hne⟩ := mem_remove.1 hr
  exact .inr ⟨⟨r, hr, rfl⟩, fun hin => howed r.id hin hne⟩

/-- A listing: rows that no other job has in its hands were not accepted. -/
lemma Inv.listing (hempty : holdings job = [])
    (hids : ids.Subperm (w.rows.map (·.id))) (halone : alone w i ids = true)
    (howed : owed job' = []) (hpending : pending job' = ids) :
    Inv { w with jobs := w.jobs.set i job' } := by
  have hfree := alone_iff.1 halone
  have hheld : holdings job' = ids := by rw [holdings, howed, hpending, nil_append]
  have hrow : ∀ id ∈ ids, ∃ r ∈ w.rows, r.id = id := fun id hid =>
    mem_map.1 (hids.subset hid)
  have hnothing : ∀ id, id ∉ owed job := fun id hid => by
    have hin : id ∈ holdings job := mem_append_left _ hid
    rw [hempty] at hin
    exact absurd hin not_mem_nil
  refine h.move hjob
    (fun id hid => .inr fun j other hj hij => hfree j other hj hij id (hheld ▸ hid))
    ⟨hheld ▸ nodup_of_subperm hids h.key, fun id hid hacc => ?_, fun id hid => ?_⟩ h.key
    fun r hr => .inr ⟨⟨r, hr, rfl⟩, fun hin => absurd hin (hnothing _)⟩
  · rw [hpending] at hid
    obtain ⟨r, hr, rfl⟩ := hrow id hid
    obtain ⟨other, hother, hin⟩ := h.settled r hr hacc
    obtain ⟨j, hj⟩ := mem_iff_getElem?.1 hother
    by_cases hij : i = j
    · subst hij
      cases hjob.symm.trans hj
      exact hnothing _ hin
    · exact hfree j other hj hij _ hid (mem_append_left _ hin)
  · obtain ⟨r, hr, rfl⟩ := hrow id (hheld ▸ hid)
    exact h.rows r hr

/-- An orderly advance of one job. -/
lemma Inv.advance (hord : orderly w (.go i outcome) = true)
    (hadv : advance w outcome job = some (w', job')) :
    Inv { w' with jobs := w.jobs.set i job' } := by
  simp only [orderly, hjob] at hord
  cases job with
  | drain =>
    simp only [Web.advance] at hadv
    split at hadv
    · cases hadv
      exact h.pass hjob .done fun id hid => hid
    · cases hadv
      exact h.listing hjob rfl ((drainable_subperm _).trans list_subperm) hord (owed_next _ _)
        (pending_next _ _)
  | mark sent item rest =>
    cases hadv
    have hlight : Lighter (.mark sent item rest) (.send sent (markSending item) rest) :=
      ⟨.refl _, fun _ hid => hid⟩
    exact @Inv.put w i _ _ h hjob hlight (fun _ hid => hid) (markSending item) mem_cons_self
  | send =>
    cases outcome with
    | accepted =>
      cases hadv
      exact h.accept hjob
    | refused | threw =>
      cases hadv
      exact h.pass hjob ⟨.refl _, fun _ hid => hid⟩ fun _ hid => hid
  | reply sent item attempt rest =>
    cases attempt with
    | sent =>
      cases hadv
      refine h.pass hjob ⟨?_, fun _ hid => ?_⟩ fun _ hid => ?_
      · rw [holdings, owed_next, pending_next]
        exact .refl _
      · rwa [pending_next] at hid
      · rwa [owed_next]
    | failed error permanent =>
      cases hadv
      -- terminal or not, the drain lets go of the item
      have hlight : ∀ job'' : Job, owed job'' = sent → (pending job'').Sublist (rest.map (·.id)) →
          Lighter (.reply sent item (.failed error permanent) rest) job'' := by
        intro job'' howed hpending
        refine ⟨?_, fun id hid => mem_cons_of_mem _ (hpending.subset hid)⟩
        rw [holdings, howed]
        exact (List.Sublist.refl _).append (hpending.cons _)
      split
      · refine h.put hjob (hlight _ (owed_next _ _) ?_) (fun _ hid => ?_) mem_cons_self
        · rw [pending_next]
        · rwa [owed_next]
      · exact h.put hjob (hlight (.finish sent) rfl (nil_sublist _)) (fun _ hid => hid)
          mem_cons_self
  | finish sent =>
    cases sent with
    | nil =>
      cases hadv
      exact h.pass hjob .done fun _ hid => hid
    | cons x sent =>
      cases hadv
      have hlight : Lighter (.finish (x :: sent)) (.finish sent) :=
        ⟨.cons _ (.refl _), fun _ hid => hid⟩
      exact h.remove hjob hlight fun id hid hne => (mem_cons.1 hid).resolve_left hne
  | reclaim =>
    cases hadv
    exact h.listing hjob rfl ((filter_sublist.map _).subperm.trans list_subperm) hord rfl rfl
  | requeue items =>
    cases items with
    | nil =>
      cases hadv
      exact h.pass hjob .done fun _ hid => hid
    | cons item items =>
      cases hadv
      have hlight : Lighter (.requeue (item :: items)) (.requeue items) :=
        ⟨.cons _ (.refl _), fun _ hid => mem_cons_of_mem _ hid⟩
      exact h.put hjob hlight (fun _ hid => hid) mem_cons_self
  | retry item =>
    cases hadv
    obtain ⟨-, hrow⟩ := Bool.and_eq_true_iff.1 hord
    obtain ⟨r', hr', hid⟩ := any_eq_true.1 hrow
    have hlight : Lighter (.retry item) (.drain item.accountId) :=
      ⟨.refl _, fun _ hid => hid⟩
    refine h.move hjob hlight.takes (hlight.sound (h.sound _ (mem_of_getElem? hjob)))
      (key_put h.key) fun r hr => ?_
    rcases mem_put.1 hr with rfl | ⟨hr, -⟩
    · exact .inr ⟨⟨r', hr', of_decide_eq_true hid⟩, fun hin => hin⟩
    · exact .inr ⟨⟨r, hr, rfl⟩, fun hin => hin⟩
  | discard =>
    cases hadv
    exact h.remove hjob .done fun _ hid _ => hid
  | done => cases hadv

end

lemma Inv.step {a : Action} (hord : orderly w a = true) (h : Inv w) (ha : step w a = some w') :
    Inv w' := by
  cases stepped_of_step ha with
  | @enqueue item hnew hstate =>
    refine ⟨key_put h.key, h.once, fun job hjob => ?_, h.apart, fun r hr hacc => ?_,
      fun id hid => mem_cons_of_mem _ (h.accepted id hid), fun r hr => ?_⟩
    · have hs := h.sound job hjob
      exact ⟨hs.nodup, hs.fresh, fun id hid => mem_cons_of_mem _ (hs.known id hid)⟩
    · rcases mem_put.1 hr with rfl | ⟨hr, -⟩
      · exact absurd (h.accepted _ hacc) hnew
      · exact h.settled r hr hacc
    · rcases mem_put.1 hr with rfl | ⟨hr, -⟩
      · exact mem_cons_self
      · exact mem_cons_of_mem _ (h.rows r hr)
  | @start _ job hjob =>
    have hempty : holdings job = [] := by
      rcases hjob with ⟨_, rfl⟩ | ⟨_, rfl⟩ | ⟨_, rfl⟩ | ⟨_, rfl⟩ <;> rfl
    have hpending : pending job = [] := (append_eq_nil_iff.1 hempty).2
    refine ⟨h.key, h.once, fun other hother => ?_, ?_, fun r hr hacc => ?_, h.accepted, h.rows⟩
    · rcases mem_append.1 hother with hold | hnew
      · exact ⟨(h.sound other hold).nodup, (h.sound other hold).fresh, (h.sound other hold).known⟩
      · rw [mem_singleton.1 hnew]
        exact ⟨hempty ▸ nodup_nil, fun id hid => absurd (hpending ▸ hid) not_mem_nil,
          fun id hid => absurd (hempty ▸ hid) not_mem_nil⟩
    · -- the new job has nothing in its hands
      exact Run.apart_append (fun a b hab id hid hid' => hab id hid' hid) h.apart
        fun _ id hid => absurd (hempty ▸ hid) not_mem_nil
    · obtain ⟨other, hother, howed⟩ := h.settled r hr hacc
      exact ⟨other, mem_append_left _ hother, howed⟩
  | go hjob hadvance => exact h.advance hjob hord hadvance
  | @close i hi =>
    have hjob : w.jobs[i]? = some w.jobs[i] := getElem?_eq_getElem hi
    simp only [orderly, hjob, decide_eq_true_eq] at hord
    exact h.pass hjob .done fun id hid => absurd (hord ▸ hid) not_mem_nil

lemma Inv.empty : Inv .empty where
  key := nodup_nil
  once := nodup_nil
  sound := forall_mem_nil _
  apart := fun _ _ _ _ ha => by cases ha
  settled := forall_mem_nil _
  accepted := forall_mem_nil _
  rows := forall_mem_nil _

/-! ## Every run -/

/-- In any run at all, what was queued is in the store, or was accepted, or was discarded. -/
theorem queued_stays {actions : List Action} (h : w ∈ states step .empty actions) :
    ∀ id ∈ w.queued, (∃ r ∈ w.rows, r.id = id) ∨ id ∈ w.accepted ∨ id ∈ w.discarded :=
  (Run.inv_of_mem_states (G := fun _ _ => True) (fun _ _ _ _ hw hs => hw.step hs) Kept.empty
    (Run.guarded_of_forall fun _ _ => trivial) w h).queued

/-- **The outbox.**  In every state of a run whose listings, retries and closes are orderly,
the server has accepted each item at most once, and what was queued is in the store, or was
accepted, or was discarded. -/
theorem accepted_once {actions : List Action}
    (hord : Guarded step (fun w a => orderly w a = true) .empty actions)
    (hw : w ∈ states step .empty actions) :
    w.accepted.Nodup ∧
      ∀ id ∈ w.queued, (∃ r ∈ w.rows, r.id = id) ∨ id ∈ w.accepted ∨ id ∈ w.discarded :=
  ⟨(Run.inv_of_mem_states (fun _ _ _ hord hw hs => hw.step hord hs) Inv.empty hord w hw).once,
    queued_stays hw⟩

/-! ### Two drains -/

def sampleItem : OutboxItem where
  id := 1
  accountId := "a"
  state := .queued
  queuedAt := 0
  attempts := 0
  lastError := none

/-- A tab is closed before it sends, the next one puts the item back, and its drain overlaps
with that of an item which is queued meanwhile. -/
def overlapping : List Action :=
  [.enqueue sampleItem, .drain "a", .go 0 .accepted, .go 0 .accepted, .close 0,
    .reclaim "a", .go 1 .accepted, .go 1 .accepted, .drain "a", .go 2 .accepted, .go 2 .accepted,
    .enqueue { sampleItem with id := 2 }, .drain "a", .go 3 .accepted, .go 3 .accepted,
    .go 2 .accepted, .go 3 .accepted, .go 2 .accepted, .go 3 .accepted, .go 2 .accepted,
    .go 3 .accepted]

theorem accepted_once_overlapping : ∃ w ∈ states step .empty overlapping,
    w.rows = [] ∧ w.accepted = [2, 1] ∧ w.accepted.Nodup := by
  refine ⟨⟨[], [.done, .requeue [], .finish [], .finish []], [2, 1], [2, 1], []⟩, ?_, rfl, rfl, ?_⟩
  · exact mem_of_getElem? (i := 20) rfl
  · exact (@accepted_once _ overlapping (by decide +kernel) (mem_of_getElem? (i := 20) rfl)).1

/-- Two drains list before either of them puts `sending`. -/
theorem two_drains_send_twice : ∃ w ∈ states step .empty
        [.enqueue sampleItem, .drain "a", .drain "a", .go 0 .accepted, .go 1 .accepted,
          .go 0 .accepted, .go 0 .accepted, .go 1 .accepted, .go 1 .accepted],
      w.accepted = [1, 1] :=
  ⟨_, mem_of_getElem? (i := 8) rfl, rfl⟩

-- a tab closed between the acceptance and the removal does the same
example : ∃ w ∈ states step .empty
        [.enqueue sampleItem, .drain "a", .go 0 .accepted, .go 0 .accepted, .go 0 .accepted,
          .close 0, .reclaim "a", .go 1 .accepted, .go 1 .accepted, .drain "a", .go 2 .accepted,
          .go 2 .accepted, .go 2 .accepted],
      w.accepted = [1, 1] :=
  ⟨_, mem_of_getElem? (i := 12) rfl, rfl⟩

end Moov.Web
