import Mathlib.Data.List.Infix
import Mathlib.Data.List.Nodup

/-!
# Renaming a mailbox with everything below it

`store.RenameMailbox` knows the hierarchy only through the names: a mailbox lies below
another when its name begins with the other's name and delimiter.  The subtree is selected
by `LIKE` with an escaped pattern and rewritten by cutting that many characters off, and the
unique constraint is checked row by row while the `UPDATE` runs.  What comes out is the
tree with one path prefix replaced, or an error and the tree as it was
(`renameMailbox_replaces_prefix`).
-/

namespace Moov.Rename

open List

/-! ## PostgreSQL's text functions -/

/-- `text LIKE pattern`, with the backslash as the escape character. -/
def like : (pattern text : List Char) → Bool
  | [], t => t.isEmpty
  | '\\' :: c :: p, t => t.head? = some c && like p t.tail
  | '%' :: p, t => t.tails.any (like p)
  | '_' :: p, t => !t.isEmpty && like p t.tail
  | c :: p, t => t.head? = some c && like p t.tail

/-- `right(s, n)`: the last `n` characters, or all but the first `-n`. -/
def right (s : List Char) : Int → List Char
  | .ofNat n => s.drop (s.length - n)
  | .negSucc n => s.drop (n + 1)

/-- `strings.ReplaceAll` of one character. -/
def replaceAll (c : Char) (by' s : List Char) : List Char :=
  s.flatMap fun d => if d = c then by' else [d]

/-- `likeEscape`. -/
def likeEscape (s : List Char) : List Char :=
  replaceAll '_' ['\\', '_'] (replaceAll '%' ['\\', '%'] (replaceAll '\\' ['\\', '\\'] s))

lemma likeEscape_cons (c : Char) (s : List Char) :
    likeEscape (c :: s) = (if c = '\\' ∨ c = '%' ∨ c = '_' then ['\\', c] else [c]) ++
      likeEscape s := by
  by_cases hb : c = '\\'
  · subst hb; rfl
  · by_cases hp : c = '%'
    · subst hp; rfl
    · by_cases hu : c = '_'
      · subst hu; rfl
      · simp [likeEscape, replaceAll, hb, hp, hu]

/-- An escaped text with `%` after it matches what begins with the text. -/
lemma like_likeEscape (p t : List Char) : like (likeEscape p ++ ['%']) t = true ↔ p <+: t := by
  induction p generalizing t with
  | nil =>
    have hnil : like ['%'] t = true := any_eq_true.2 ⟨[], (mem_tails _ _).2 t.nil_suffix, rfl⟩
    exact iff_of_true hnil t.nil_prefix
  | cons c p ih =>
    have hstep : like (likeEscape (c :: p) ++ ['%']) t =
        (t.head? = some c && like (likeEscape p ++ ['%']) t.tail) := by
      rw [likeEscape_cons]
      split
      · rfl
      · next h =>
        obtain ⟨hb, hp, hu⟩ : c ≠ '\\' ∧ c ≠ '%' ∧ c ≠ '_' := by simpa [not_or] using h
        rw [append_assoc, singleton_append, like] <;> simp [hb, hp, hu]
    cases t with
    | nil => simp [hstep]
    | cons d => simp [hstep, ih, cons_prefix_cons, @eq_comm _ c d]

lemma right_append (p s : List Char) (hp : p ≠ []) : right (p ++ s) (-p.length) = s := by
  cases p with
  | nil => exact absurd rfl hp
  | cons c p => exact @drop_left _ (c :: p) _

/-! ## The table -/

/-- A row of `mailboxes`, as far as a rename looks at it. -/
structure Mailbox where
  id : Nat
  accountID : Nat
  name : List Char
  delimiter : List Char
  deriving DecidableEq

/-- The constraint `mailboxes_account_name_key`, for two rows. -/
def Apart (a b : Mailbox) : Prop := a.accountID = b.accountID → a.name ≠ b.name

instance : DecidableRel Apart :=
  fun a b => inferInstanceAs (Decidable (a.accountID = b.accountID → _))

lemma Apart.symm {a b : Mailbox} (h : Apart a b) : Apart b a :=
  fun hacc hname => h hacc.symm hname.symm

/-- The table, with its primary key and its unique constraint. -/
structure Table where
  rows : List Mailbox
  ids : (rows.map Mailbox.id).Nodup
  names : rows.Pairwise Apart

variable (sel : Mailbox → Bool) (set : Mailbox → List Char) {t t' : Table} {newName : List Char}

/-- `UPDATE mailboxes SET name = set WHERE sel`: the rows one after the other, each checked
against the rows as they are at that moment; `none` is a unique violation. -/
def updateRows : (done todo : List Mailbox) → Option (List Mailbox)
  | done, [] => some done
  | done, r :: todo =>
      if sel r then
        if (done ++ todo).any fun o => o.accountID = r.accountID && o.name = set r then none
        else updateRows (done ++ [{ r with name := set r }]) todo
      else updateRows (done ++ [r]) todo

/-- What an `UPDATE` makes of a row. -/
def written (r : Mailbox) : Mailbox := if sel r then { r with name := set r } else r

@[simp] lemma written_id (r : Mailbox) : (written sel set r).id = r.id := by
  unfold written
  split <;> rfl

lemma updateRows_eq_some {done todo rows : List Mailbox}
    (hnames : (done ++ todo).Pairwise Apart) (h : updateRows sel set done todo = some rows) :
    rows = done ++ todo.map (written sel set) ∧ rows.Pairwise Apart := by
  induction todo generalizing done with
  | nil =>
    cases h
    exact ⟨by simp, by simpa using hnames⟩
  | cons r todo ih =>
    -- either way the row goes over to the ones done, in the form that is written
    have hnext {r' : Mailbox} (hr' : written sel set r = r')
        (hnames' : (done ++ [r'] ++ todo).Pairwise Apart)
        (h' : updateRows sel set (done ++ [r']) todo = some rows) :
        rows = done ++ (r :: todo).map (written sel set) ∧ rows.Pairwise Apart := by
      simpa [hr'] using ih hnames' h'
    simp only [updateRows] at h
    split at h
    · next hs =>
      obtain ⟨hfree, h⟩ := Option.ite_none_left_eq_some.1 h
      refine hnext (if_pos hs) ?_ h
      obtain ⟨hdone, htodo⟩ : (∀ o ∈ done, o.accountID = r.accountID → o.name ≠ set r) ∧
          ∀ o ∈ todo, o.accountID = r.accountID → o.name ≠ set r := by simpa using hfree
      rw [append_assoc, singleton_append, pairwise_middle Apart.symm, pairwise_cons]
      rw [pairwise_middle Apart.symm, pairwise_cons] at hnames
      refine ⟨fun o ho hacc hname => ?_, hnames.2⟩
      rcases mem_append.1 ho with ho | ho
      · exact hdone o ho hacc.symm hname.symm
      · exact htodo o ho hacc.symm hname.symm
    · next hs => exact hnext (if_neg hs) (by simpa using hnames) h

/-- The statement on the table; a violation leaves no table to go on with. -/
def Table.update (t : Table) : Option Table :=
  match h : updateRows sel set [] t.rows with
  | none => none
  | some rows =>
      have hrows := @updateRows_eq_some sel set [] _ _ t.names h
      some ⟨rows, by
        have hid : Mailbox.id ∘ written sel set = Mailbox.id := funext (written_id sel set)
        rw [hrows.1, List.nil_append, List.map_map, hid]
        exact t.ids, hrows.2⟩

lemma Table.update_rows (h : t.update sel set = some t') :
    t'.rows = t.rows.map (written sel set) := by
  unfold Table.update at h
  split at h
  · cases h
  · next hrows =>
    cases h
    exact (@updateRows_eq_some sel set [] _ _ t.names hrows).1

/-! ## The rename -/

open Mailbox

/-- What `RenameMailbox` reports: an empty name, no such mailbox of the account, and the unique
violations of its two statements. -/
inductive RenameError
  | emptyName (id : Nat)
  | notFound (id : Nat)
  | children (id : Nat)
  | mailbox (id : Nat)
  deriving DecidableEq

/-- `InTx`: an error rolls everything back. -/
def inTx (t : Table) (f : Table → Except RenameError (Table × Nat)) :
    Table × Except RenameError Nat :=
  match f t with
  | .error e => (t, .error e)
  | .ok (t', n) => (t', .ok n)

/-- The delimiter a rename works with. -/
def Mailbox.delim (m : Mailbox) : List Char := if m.delimiter = [] then ['/'] else m.delimiter

/-- What the name of every mailbox below `m` begins with. -/
def Mailbox.path (m : Mailbox) : List Char := m.name ++ m.delim

/-- The transaction of `RenameMailbox`. -/
def renameTx (account id : Nat) (newName : List Char) (t : Table) :
    Except RenameError (Table × Nat) :=
  let self (r : Mailbox) : Bool := r.id = id && r.accountID = account
  match t.rows.find? self with
  | none => .error (.notFound id)
  | some m =>
      if m.name = newName then .ok (t, 0)
      else
        let below (r : Mailbox) : Bool :=
          r.accountID = account && like (likeEscape m.path ++ ['%']) r.name
        match t.update below fun r => newName ++ m.delim ++ right r.name (-m.path.length) with
        | none => .error (.children id)
        | some t₁ =>
            match t₁.update self fun _ => newName with
            | none => .error (.mailbox id)
            | some t₂ =>
                if t₁.rows.countP self = 0 then .error (.notFound id)
                else .ok (t₂, t.rows.countP below + t₁.rows.countP self)

/-- `RenameMailbox`: the table afterwards, and the number of rows changed. -/
def renameMailbox (t : Table) (account id : Nat) (newName : List Char) :
    Table × Except RenameError Nat :=
  if newName = [] then (t, .error (.emptyName id)) else inTx t (renameTx account id newName)

/-- The row `r` of a tree in which `m` and what lies below it have moved to `newName`. -/
def Mailbox.moved (m : Mailbox) (newName : List Char) (r : Mailbox) : Mailbox :=
  if r.id = m.id then { r with name := newName }
  else if r.accountID = m.accountID ∧ m.path <+: r.name then
    { r with name := newName ++ r.name.drop m.name.length }
  else r

lemma Mailbox.path_ne_nil (m : Mailbox) : m.path ≠ [] := by
  unfold path delim
  split <;> simp_all

/-- A mailbox does not lie below itself. -/
lemma Mailbox.not_path_prefix (m : Mailbox) : ¬ m.path <+: m.name := by
  intro h
  have hlen := h.length_le
  have hpos : 0 < m.delim.length := by unfold delim; split <;> simp_all [length_pos_iff]
  simp only [path, length_append] at hlen
  omega

/-- A row with the key of `m` is `m`. -/
lemma Table.eq_of_id {m r : Mailbox} (hm : m ∈ t.rows) (hr : r ∈ t.rows) (h : r.id = m.id) :
    r = m :=
  inj_on_of_nodup_map t.ids hr hm h

/-- Moving to its own name changes nothing. -/
lemma moved_own_name {m r : Mailbox} (hm : m ∈ t.rows) (hr : r ∈ t.rows) :
    m.moved m.name r = r := by
  unfold moved
  split
  · next hid => rw [Table.eq_of_id hm hr hid]
  · split
    · next h =>
      obtain ⟨rest, hrest⟩ := (prefix_append _ _).trans h.2
      rw [← hrest, drop_left, hrest]
    · rfl

/-- The two statements of the rename, one after the other, move a row. -/
lemma moved_eq {m r : Mailbox} (hm : m ∈ t.rows) (hr : r ∈ t.rows) :
    written (fun r => r.id = m.id && r.accountID = m.accountID) (fun _ => newName)
      (written (fun r => r.accountID = m.accountID && like (likeEscape m.path ++ ['%']) r.name)
        (fun r => newName ++ m.delim ++ right r.name (-m.path.length)) r) = m.moved newName r := by
  by_cases hid : r.id = m.id
  · obtain rfl := Table.eq_of_id hm hr hid
    simp [written, moved, like_likeEscape, r.not_path_prefix]
  · by_cases hb : r.accountID = m.accountID ∧ m.path <+: r.name
    · obtain ⟨rest, hrest⟩ := hb.2
      have hdrop : r.name.drop m.name.length = m.delim ++ rest := by
        rw [← hrest, path, append_assoc, drop_left]
      have hright : right r.name (-m.path.length) = rest :=
        hrest ▸ right_append _ rest m.path_ne_nil
      simp [written, moved, hid, like_likeEscape, hb, hdrop, hright]
    · simp [written, moved, hid, like_likeEscape, hb]

lemma renameTx_rows {account id n : Nat} (h : renameTx account id newName t = .ok (t', n)) :
    ∃ m ∈ t.rows, m.id = id ∧ m.accountID = account ∧ t'.rows = t.rows.map (m.moved newName) := by
  simp only [renameTx] at h
  split at h
  · cases h
  · next m hm =>
    have hmem := mem_of_find?_eq_some hm
    obtain ⟨rfl, rfl⟩ : m.id = id ∧ m.accountID = account := by simpa using find?_some hm
    refine ⟨m, hmem, rfl, rfl, ?_⟩
    split at h
    · next hname =>
      cases h
      subst hname
      exact (map_congr_left fun r hr => moved_own_name hmem hr).trans (map_id _) |>.symm
    · split at h
      · cases h
      · next t₁ h₁ =>
        split at h
        · cases h
        · next t₂ h₂ =>
          split at h <;> cases h
          rw [Table.update_rows _ _ h₂, Table.update_rows _ _ h₁, map_map]
          exact map_congr_left fun r hr => moved_eq hmem hr

/-- **A rename replaces one path prefix, or nothing.**  Every name, delimiter and new name is
allowed, metacharacters of `LIKE` and targets below the mailbox itself included. -/
theorem renameMailbox_replaces_prefix (t : Table) (account id : Nat) (newName : List Char) :
    (∃ e, renameMailbox t account id newName = (t, .error e)) ∨
      ∃ m ∈ t.rows, m.id = id ∧ m.accountID = account ∧ ∃ t' n,
        renameMailbox t account id newName = (t', .ok n) ∧ t'.rows = t.rows.map (m.moved newName) ∧
          t'.rows.Pairwise Apart := by
  unfold renameMailbox
  split
  · exact .inl ⟨_, rfl⟩
  · unfold inTx
    cases h : renameTx account id newName t with
    | error e => exact .inl ⟨e, rfl⟩
    | ok p =>
      obtain ⟨m, hm, hid, hacc, hrows⟩ := renameTx_rows h
      exact .inr ⟨m, hm, hid, hacc, p.1, p.2, rfl, hrows, p.1.names⟩

end Moov.Rename
