import Moov.Lib.Versioned

/-!
# The message rows of one mailbox

The rows of `message_state` that belong to one mailbox, and the statements of
`store/messages.go` the sync engine runs on them.  Every one of these statements
names the mailbox in its `WHERE`, or the primary keys it has just read from
there, so the rows of one mailbox are a table of their own.

A `Table` carries the two constraints of the schema: the unique index on the
UIDs and the primary key.  What a statement does to one row is said by
`Table.update`, and what an insert does by `Table.insert`; everything the later
modules need to know about the statements is a fact about the row at a UID,
`rowAt`.
-/

namespace Moov.Store

open List

/-- The flags of a message: the bits of the system flags, and the keywords. -/
structure FlagState where
  flags : Nat
  keywords : List String
  deriving DecidableEq

/-- One row: `deleted` is `deleted_at IS NOT NULL`, the mark of a tombstone. -/
structure Row where
  messageID : Nat
  uid : Nat
  state : FlagState
  deleted : Bool
  deriving DecidableEq

/-- The rows of one mailbox. -/
structure Table where
  rows : List Row
  uid_nodup : (rows.map Row.uid).Nodup
  id_nodup : (rows.map Row.messageID).Nodup
  deriving DecidableEq

namespace Table

/-- The table of a mailbox nothing was stored of. -/
def empty : Table := ⟨[], List.nodup_nil, List.nodup_nil⟩

variable (t : Table) {f : Row → Row}

/-- `MessageStatesByUID` for one UID: tombstones are included. -/
def rowAt (u : Nat) : Option Row := t.rows.find? fun r => decide (r.uid = u)

/-- There is a row with this UID, tombstone or not. -/
def has (u : Nat) : Bool := (t.rowAt u).isSome

/-- There is a row with this UID and it is not a tombstone. -/
def live (u : Nat) : Bool := (t.rowAt u).any fun r => !r.deleted

/-- An `UPDATE`: it changes rows, not which rows there are. -/
def update (f : Row → Row) (hu : ∀ r, (f r).uid = r.uid)
    (hi : ∀ r, (f r).messageID = r.messageID) : Table where
  rows := t.rows.map f
  uid_nodup := by
    have : Row.uid ∘ f = Row.uid := funext hu
    simpa [List.map_map, this] using t.uid_nodup
  id_nodup := by
    have : Row.messageID ∘ f = Row.messageID := funext hi
    simpa [List.map_map, this] using t.id_nodup

/-- The `SET` of `MarkDeleted` on one row. -/
def tombstone (uids : List Nat) (r : Row) : Row :=
  if r.uid ∈ uids then { r with deleted := true } else r

/-- `MarkDeleted`. -/
def markDeleted (uids : List Nat) : Table :=
  t.update (tombstone uids)
    (fun r => by unfold tombstone; split <;> rfl) (fun r => by unfold tombstone; split <;> rfl)

/-- One element of the argument of `UpdateFlags`. -/
structure FlagUpdate where
  messageID : Nat
  state : FlagState
  deriving DecidableEq

/-- The `SET` of one statement of `UpdateFlags` on one row. -/
def setFlags (u : FlagUpdate) (r : Row) : Row :=
  if r.messageID = u.messageID then { r with state := u.state } else r

/-- One statement of `UpdateFlags`. -/
def updateFlag (u : FlagUpdate) : Table :=
  t.update (setFlags u)
    (fun r => by unfold setFlags; split <;> rfl) (fun r => by unfold setFlags; split <;> rfl)

/-- `UpdateFlags`: the statements of the batch, in one transaction. -/
def updateFlags (updates : List FlagUpdate) : Table := updates.foldl updateFlag t

/-- One row of `InsertMessages`: `ON CONFLICT (mailbox_id, uidvalidity, uid) DO
NOTHING`.  The primary key comes from the sequence, so it is never taken. -/
def insert (r : Row) : Table :=
  if h : r.uid ∉ t.rows.map Row.uid ∧ r.messageID ∉ t.rows.map Row.messageID then
    { rows := t.rows ++ [r]
      uid_nodup := by
        simpa [List.nodup_append, t.uid_nodup] using fun a ha => by
          have := h.1
          simp only [List.mem_map, not_exists, not_and] at this
          exact this a ha
      id_nodup := by
        simpa [List.nodup_append, t.id_nodup] using fun a ha => by
          have := h.2
          simp only [List.mem_map, not_exists, not_and] at this
          exact this a ha }
  else t

/-- `InsertMessages` of rows whose keys are the next values of the sequence. -/
def insertMessages : Table → Nat → List (Nat × FlagState) → Table
  | t, _, [] => t
  | t, id, (u, st) :: rest => insertMessages (t.insert ⟨id, u, st, false⟩) (id + 1) rest

/-- The sequence has passed every key of the table. -/
def freshFrom (id : Nat) : Bool := t.rows.all fun r => decide (r.messageID < id)

/-! ### `MoveMessages` -/

/-- The row with this primary key. -/
def rowOf (id : Nat) : Option Row := t.rows.find? fun r => decide (r.messageID = id)

/-- The rows of the mailbox after the row with this key has left it. -/
def dropMessage (id : Nat) : Table where
  rows := t.rows.filter fun r => decide (r.messageID ≠ id)
  uid_nodup := (List.Sublist.map _ List.filter_sublist).nodup t.uid_nodup
  id_nodup := (List.Sublist.map _ List.filter_sublist).nodup t.id_nodup

/-- `MoveMessages` of one message, over the tables of the mailbox `src` and the mailbox
`dst` it is moved to: the row keeps all but its mailbox and UID, its tombstone too.
A key nobody has matches no row; a UID another row has is refused by the unique
index, and the transaction fails. -/
def moveMessages (src dst : Table) (id uid : Nat) : Option (Table × Table) :=
  match src.rowOf id with
  | some r =>
      if dst.has uid then none else some (src.dropMessage id, dst.insert { r with uid := uid })
  | none =>
      match dst.rowOf id with
      | none => some (src, dst)
      | some r =>
          if r.uid = uid then some (src, dst)
          else if dst.has uid then none
          else some (src, (dst.dropMessage id).insert { r with uid := uid })

/-! ## The row at a UID -/

section RowAt

variable {t : Table} {u v id : Nat} {r : Row} {uids : List Nat} {ws : List FlagUpdate}

/-- The unique index: the row at a UID is the one row that has it. -/
lemma rowAt_eq_some : t.rowAt u = some r ↔ r ∈ t.rows ∧ r.uid = u :=
  Versioned.find?_key_eq_some t.uid_nodup

lemma rowAt_of_mem (hr : r ∈ t.rows) : t.rowAt r.uid = some r := rowAt_eq_some.2 ⟨hr, rfl⟩

lemma uid_of_rowAt (h : t.rowAt u = some r) : r.uid = u := (rowAt_eq_some.1 h).2

/-- The primary key: two rows with one key are the same row. -/
lemma eq_of_messageID {r' : Row} (hr : r ∈ t.rows) (hr' : r' ∈ t.rows)
    (h : r.messageID = r'.messageID) : r = r' :=
  inj_on_of_nodup_map t.id_nodup hr hr' h

lemma has_eq_true : t.has u = true ↔ ∃ r, t.rowAt u = some r := Option.isSome_iff_exists

lemma has_eq_false : t.has u = false ↔ t.rowAt u = none := by simp [has]

lemma live_eq_true : t.live u = true ↔ ∃ r, t.rowAt u = some r ∧ r.deleted = false := by
  unfold live
  cases t.rowAt u <;> simp

lemma has_of_live (h : t.live u = true) : t.has u = true := by
  obtain ⟨r, hr, -⟩ := live_eq_true.1 h
  exact has_eq_true.2 ⟨r, hr⟩

/-- A table is its rows. -/
lemma ext_rows {t' : Table} (h : t.rows = t'.rows) : t = t' := by
  cases t'
  cases h
  rfl

@[simp] lemma rowAt_update {hu hi} :
    (t.update f hu hi).rowAt u = (t.rowAt u).map f := by
  unfold rowAt update
  rw [find?_map]
  have : (fun r => decide (r.uid = u)) ∘ f = fun r => decide (r.uid = u) := by
    funext r
    simp [hu r]
  rw [this]

lemma rowAt_markDeleted :
    (t.markDeleted uids).rowAt u = (t.rowAt u).map (tombstone uids) := rowAt_update

lemma rowAt_updateFlag {w : FlagUpdate} :
    (t.updateFlag w).rowAt u = (t.rowAt u).map (setFlags w) := rowAt_update

@[simp] lemma has_markDeleted : (t.markDeleted uids).has u = t.has u := by
  simp [has, rowAt_markDeleted]

/-- A row stays live under `MarkDeleted` when its UID is not named. -/
lemma live_markDeleted : (t.markDeleted uids).live u = (t.live u && decide (u ∉ uids)) := by
  unfold live
  rw [rowAt_markDeleted]
  cases h : t.rowAt u with
  | none => rfl
  | some r =>
    have hu : r.uid = u := uid_of_rowAt h
    by_cases hm : u ∈ uids <;> simp [tombstone, hu, hm]

/-! ## Flag updates -/

/-- What the updates make of one row: the last one that names its key. -/
lemma rowAt_updateFlags :
    (t.updateFlags ws).rowAt u = (t.rowAt u).map fun r => ws.foldl (fun r w => setFlags w r) r := by
  unfold updateFlags
  induction ws generalizing t with
  | nil => simp
  | cons w ws ih =>
    rw [foldl_cons, ih, rowAt_updateFlag, Option.map_map]
    rfl

lemma setFlags_deleted (w : FlagUpdate) (r : Row) : (setFlags w r).deleted = r.deleted := by
  unfold setFlags
  split <;> rfl

lemma setFlags_messageID (w : FlagUpdate) (r : Row) : (setFlags w r).messageID = r.messageID := by
  unfold setFlags
  split <;> rfl

lemma setFlags_uid (w : FlagUpdate) (r : Row) : (setFlags w r).uid = r.uid := by
  unfold setFlags
  split <;> rfl

/-- The updates leave a row's identity and its tombstone alone. -/
lemma foldl_setFlags_keeps (ws : List FlagUpdate) (r : Row) :
    (ws.foldl (fun r w => setFlags w r) r).deleted = r.deleted ∧
      (ws.foldl (fun r w => setFlags w r) r).messageID = r.messageID := by
  induction ws generalizing r with
  | nil => exact ⟨rfl, rfl⟩
  | cons w ws ih =>
    exact ⟨(ih _).1.trans (setFlags_deleted w r), (ih _).2.trans (setFlags_messageID w r)⟩

/-- A row none of the updates names keeps its flags, and a row they all agree
on gets what they say. -/
lemma foldl_setFlags_state {st : FlagState}
    (hws : ∀ w ∈ ws, w.messageID = r.messageID → w.state = st) :
    (ws.foldl (fun r w => setFlags w r) r).state = r.state ∧ (∀ w ∈ ws, w.messageID ≠ r.messageID) ∨
      (ws.foldl (fun r w => setFlags w r) r).state = st := by
  induction ws generalizing r with
  | nil => exact .inl ⟨rfl, by simp⟩
  | cons w ws ih =>
    have hid := setFlags_messageID w r
    have hws' : ∀ w' ∈ ws, w'.messageID = (setFlags w r).messageID → w'.state = st := by
      intro w' hw' h
      exact hws w' (mem_cons_of_mem _ hw') (h.trans hid)
    rcases ih hws' with ⟨h, hnone⟩ | h
    · by_cases hw : w.messageID = r.messageID
      · refine .inr (h.trans ?_)
        simp [setFlags, hw, hws w mem_cons_self hw]
      · refine .inl ⟨h.trans ?_, ?_⟩
        · simp [setFlags, Ne.symm hw]
        · intro w' hw'
          rcases mem_cons.1 hw' with rfl | hw'
          · exact hw
          · exact hid ▸ hnone w' hw'
    · exact .inr h

@[simp] lemma has_updateFlags : (t.updateFlags ws).has u = t.has u := by
  simp [has, rowAt_updateFlags]

@[simp] lemma live_updateFlags :
    (t.updateFlags ws).live u = t.live u := by
  unfold live
  rw [rowAt_updateFlags]
  cases t.rowAt u with
  | none => rfl
  | some r => simp [(foldl_setFlags_keeps ws r).1]

/-! ## Inserts -/

lemma freshFrom_eq_true : t.freshFrom id = true ↔ ∀ r ∈ t.rows, r.messageID < id := by
  simp [freshFrom]

/-- An update gives out no keys. -/
lemma freshFrom_update {hu hi} (hid : t.freshFrom id = true) :
    (t.update f hu hi).freshFrom id = true := by
  refine freshFrom_eq_true.2 fun r hr => ?_
  obtain ⟨r', hr', rfl⟩ := mem_map.1 hr
  rw [hi r']
  exact freshFrom_eq_true.1 hid r' hr'

lemma freshFrom_markDeleted (hid : t.freshFrom id = true) :
    (t.markDeleted uids).freshFrom id = true := freshFrom_update hid

lemma freshFrom_updateFlags (hid : t.freshFrom id = true) :
    (t.updateFlags ws).freshFrom id = true := by
  induction ws generalizing t with
  | nil => exact hid
  | cons w ws ih => exact ih (freshFrom_update hid)

/-- A row whose UID is taken is not inserted. -/
lemma insert_of_has (h : t.has r.uid = true) : t.insert r = t := by
  obtain ⟨r', hr'⟩ := has_eq_true.1 h
  have hmem : r.uid ∈ t.rows.map Row.uid :=
    mem_map.2 ⟨r', (rowAt_eq_some.1 hr').1, uid_of_rowAt hr'⟩
  unfold insert
  rw [dif_neg]
  exact fun hn => hn.1 hmem

/-- A row that is new by both keys is appended. -/
lemma insert_rows_of_new (hu : t.has r.uid = false)
    (hid : ∀ r' ∈ t.rows, r'.messageID ≠ r.messageID) : (t.insert r).rows = t.rows ++ [r] := by
  have hu' : r.uid ∉ t.rows.map Row.uid := by simpa [rowAt] using has_eq_false.1 hu
  have hid' : r.messageID ∉ t.rows.map Row.messageID := by
    intro hm
    obtain ⟨r', hr', he⟩ := mem_map.1 hm
    exact hid r' hr' he
  unfold insert
  rw [dif_pos ⟨hu', hid'⟩]

/-- A row whose UID is free is inserted. -/
lemma insert_rows (h : t.has r.uid = false) (hid : t.freshFrom r.messageID = true) :
    (t.insert r).rows = t.rows ++ [r] :=
  insert_rows_of_new h fun r' hr' => Nat.ne_of_lt (freshFrom_eq_true.1 hid r' hr')

/-- The row at a UID after an insert. -/
lemma rowAt_insert (hid : t.freshFrom r.messageID = true) :
    (t.insert r).rowAt u = (t.rowAt u).or (if r.uid = u then some r else none) := by
  cases h : t.has r.uid with
  | true =>
    rw [insert_of_has h]
    by_cases hu : r.uid = u
    · obtain ⟨r', hr'⟩ := has_eq_true.1 h
      rw [← hu, hr']
      rfl
    · simp [hu]
  | false =>
    unfold rowAt
    rw [insert_rows h hid, find?_append]
    by_cases hu : r.uid = u <;> simp [hu]

lemma freshFrom_insert (hid : t.freshFrom r.messageID = true) :
    (t.insert r).freshFrom (r.messageID + 1) = true := by
  have ht := freshFrom_eq_true.1 hid
  refine freshFrom_eq_true.2 fun r' hr' => ?_
  cases h : t.has r.uid with
  | true =>
    rw [insert_of_has h] at hr'
    have := ht r' hr'
    omega
  | false =>
    rw [insert_rows h hid, mem_append, mem_singleton] at hr'
    rcases hr' with hr' | rfl
    · have := ht r' hr'
      omega
    · omega

variable {new : List (Nat × FlagState)}

/-- An insert leaves every row that is there as it is. -/
lemma rowAt_insertMessages_of_some (hid : t.freshFrom id = true) (h : t.rowAt u = some r) :
    (t.insertMessages id new).rowAt u = some r := by
  induction new generalizing t id with
  | nil => exact h
  | cons p new ih =>
    have hins : (t.insert ⟨id, p.1, p.2, false⟩).rowAt u = some r := by
      rw [rowAt_insert hid, h]
      rfl
    exact ih (freshFrom_insert (r := ⟨id, p.1, p.2, false⟩) hid) hins

/-- A row that was not there before is one of the new ones, live, and with a key
the sequence had not given out. -/
lemma rowAt_insertMessages_new (hid : t.freshFrom id = true) (h : t.rowAt u = none)
    (hr : (t.insertMessages id new).rowAt u = some r) :
    (u, r.state) ∈ new ∧ r.deleted = false ∧ id ≤ r.messageID := by
  induction new generalizing t id with
  | nil => simp [insertMessages, h] at hr
  | cons p new ih =>
    have hfresh : (t.insert ⟨id, p.1, p.2, false⟩).freshFrom (id + 1) = true :=
      freshFrom_insert (r := ⟨id, p.1, p.2, false⟩) hid
    cases hins : (t.insert ⟨id, p.1, p.2, false⟩).rowAt u with
    | none =>
      obtain ⟨hm, hd, hk⟩ := ih hfresh hins hr
      exact ⟨mem_cons_of_mem _ hm, hd, by omega⟩
    | some =>
      rw [insertMessages, rowAt_insertMessages_of_some hfresh hins] at hr
      cases hr
      rw [rowAt_insert hid, h] at hins
      by_cases hu : p.1 = u
      · simp only [hu, if_true, Option.none_or, Option.some.injEq] at hins
        subst hins
        subst hu
        exact ⟨mem_cons_self, rfl, Nat.le_refl _⟩
      · simp [hu] at hins

lemma rowOf_eq_some : t.rowOf id = some r ↔ r ∈ t.rows ∧ r.messageID = id :=
  Versioned.find?_key_eq_some t.id_nodup

lemma mem_dropMessage : r ∈ (t.dropMessage id).rows ↔ r ∈ t.rows ∧ r.messageID ≠ id := by
  simp [dropMessage]

/-- The rows after an insert are rows from before or new ones. -/
lemma mem_insertMessages (hid : t.freshFrom id = true) (hr : r ∈ (t.insertMessages id new).rows) :
    r ∈ t.rows ∨ (r.uid, r.state) ∈ new ∧ r.deleted = false := by
  have hat := rowAt_of_mem hr
  cases h : t.rowAt r.uid with
  | some =>
    rw [rowAt_insertMessages_of_some hid h] at hat
    cases hat
    exact .inl (rowAt_eq_some.1 h).1
  | none =>
    obtain ⟨hm, hd, -⟩ := rowAt_insertMessages_new hid h hat
    exact .inr ⟨hm, hd⟩

/-- Every new UID has a row afterwards. -/
lemma has_insertMessages (hid : t.freshFrom id = true) :
    (t.insertMessages id new).has u = (t.has u || decide (u ∈ new.map Prod.fst)) := by
  induction new generalizing t id with
  | nil => simp [insertMessages]
  | cons p new ih =>
    have hins : (t.insert ⟨id, p.1, p.2, false⟩).has u = (t.has u || decide (p.1 = u)) := by
      unfold has
      rw [rowAt_insert hid]
      cases t.rowAt u <;> by_cases hp : p.1 = u <;> simp [hp]
    rw [insertMessages, ih (freshFrom_insert (r := ⟨id, p.1, p.2, false⟩) hid), hins, Bool.or_assoc]
    congr 1
    by_cases hp : p.1 = u
    · simp [hp]
    · have hp' : ¬u = p.1 := fun h => hp h.symm
      simp [hp, hp']

/-- An insert revives no tombstone: what is live afterwards was live, or was not
there. -/
lemma live_insertMessages (hid : t.freshFrom id = true) : (t.insertMessages id new).live u =
      (t.live u || (!t.has u && decide (u ∈ new.map Prod.fst))) := by
  cases h : t.rowAt u with
  | some r =>
    have hr : (t.insertMessages id new).rowAt u = some r := rowAt_insertMessages_of_some hid h
    simp [live, has, h, hr]
  | none =>
    have hh : (t.insertMessages id new).has u = (t.has u || decide (u ∈ new.map Prod.fst)) :=
      has_insertMessages hid
    cases hr : (t.insertMessages id new).rowAt u with
    | none =>
      simp only [has, hr, h, Option.isSome_none, Bool.false_or] at hh
      simp [live, has, h, hr, ← hh]
    | some =>
      obtain ⟨hm, hd, -⟩ := rowAt_insertMessages_new hid h hr
      have : u ∈ new.map Prod.fst := mem_map.2 ⟨_, hm, rfl⟩
      simp [live, has, h, hr, hd, this]

end RowAt

end Table

end Moov.Store
