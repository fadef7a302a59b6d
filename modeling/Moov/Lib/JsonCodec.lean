import Moov.Lib.Json

/-!
# Typed JSON

What `encoding/json` makes of Go types: how a value of a type is written, and how JSON is read into
a value that is already there.

* `Codec` — a type, with what is left out when it is empty;
* `Tag`, `record` — structs, field by field; keys are matched without regard to case;
* `Codec.Lawful` — what is written is read back, or it is left out and was there already;
* `lawful_record` — a struct is read back if each of its fields is;
* `keysHave_record` — the keys that are written are those of the tags.
-/

namespace Moov.Json

open List

/-- How a type is written, and read into a value. -/
structure Codec (β : Type) where
  /-- The JSON, unless it is left out. -/
  write : β → Option Value
  read : Value → β → Option β

variable {α β : Type} {c : Codec β} {zero : β} {set : β → α → α} {empty : β → Bool} {get : α → β}

/-- What is written of `x` is read back over `a`; where nothing is written, `a` is `x` already. -/
structure Codec.Lawful (c : Codec β) (x a : β) : Prop where
  written : ∀ v, c.write x = some v → c.read v a = some x
  omitted : c.write x = none → x = a

/-! ## Basic types -/

/-- `string`; `null` changes nothing. -/
def readText : Value → List Char → Option (List Char)
  | .null, a => some a
  | .str s, _ => some s
  | _, _ => none

/-- `bool`. -/
def readBool : Value → Bool → Option Bool
  | .null, a => some a
  | .bool b, _ => some b
  | _, _ => none

/-- `int64`: a literal that is a whole number in its range. -/
def readInt64 : Value → Int64 → Option Int64
  | .null, a => some a
  | .num n, _ =>
      (readInt n.lit).bind fun i =>
        if -9223372036854775808 ≤ i ∧ i < 9223372036854775808 then some (Int64.ofInt i) else none
  | _, _ => none

def text : Codec (List Char) := ⟨fun s => some (.str s), readText⟩

def bool : Codec Bool := ⟨fun b => some (.bool b), readBool⟩

def int64 : Codec Int64 := ⟨fun n => some (.num (.ofInt n.toInt)), readInt64⟩

/-- `omitempty`: a value that is empty is left out. -/
def Codec.omitting (c : Codec β) (empty : β → Bool) : Codec β :=
  { c with write := fun x => if empty x then none else c.write x }

/-- A pointer: `null` is `nil`, and what is pointed to is read over. -/
def pointer (c : Codec β) (zero : β) : Codec (Option β) where
  write x := x.bind c.write
  read v a :=
    match v with
    | .null => some none
    | v => (c.read v (a.getD zero)).map some

/-- A slice: `null` is `nil`, and every item is read into a zero value. -/
def slice (c : Codec β) (zero : β) : Codec (List β) where
  write xs := some (.arr (xs.filterMap c.write))
  read v _ :=
    match v with
    | .null => some []
    | .arr vs => vs.mapM fun v => c.read v zero
    | _ => none

@[simp] lemma lawful_text (s a : List Char) : text.Lawful s a where
  written v h := by
    cases h
    rfl
  omitted h := by cases h

@[simp] lemma lawful_bool (b a : Bool) : bool.Lawful b a where
  written v h := by
    cases h
    rfl
  omitted h := by cases h

@[simp] lemma lawful_int64 (n a : Int64) : int64.Lawful n a where
  written v h := by
    cases h
    have hlo := Int64.le_toInt n
    have hhi := Int64.toInt_lt n
    have hrange : -9223372036854775808 ≤ n.toInt ∧ n.toInt < 9223372036854775808 := by omega
    simp only [int64, readInt64, readInt_ofInt, Option.bind_some, if_pos hrange, Int64.ofInt_toInt]
  omitted h := by cases h

lemma lawful_omitting {x a : β} (h : c.Lawful x a)
    (hempty : empty x = true → x = a) : (c.omitting empty).Lawful x a where
  written v hv := by
    rw [Codec.omitting] at hv
    dsimp only at hv
    split at hv
    · cases hv
    · exact h.written v hv
  omitted hv := by
    rw [Codec.omitting] at hv
    dsimp only at hv
    split at hv
    · rename_i he
      exact hempty he
    · exact h.omitted hv

lemma lawful_pointer {x : Option β} (hnull : ∀ y, c.write y ≠ some .null)
    (hsome : ∀ y, c.write y ≠ none) (h : ∀ y ∈ x, c.Lawful y zero) :
    (pointer c zero).Lawful x none where
  written v hv := by
    obtain ⟨y, rfl, hy⟩ := Option.bind_eq_some_iff.1 hv
    have hread := (h y rfl).written v hy
    have hne : v ≠ .null := fun heq => hnull y (heq ▸ hy)
    cases v with
    | null => exact absurd rfl hne
    | _ => simp only [pointer, Option.getD_none, hread, Option.map_some]
  omitted hv := by
    cases x with
    | none => rfl
    | some y => exact absurd hv (hsome y)

lemma lawful_slice {xs a : List β} (hsome : ∀ y, c.write y ≠ none)
    (h : ∀ x ∈ xs, c.Lawful x zero) : (slice c zero).Lawful xs a where
  written v hv := by
    cases hv
    show (xs.filterMap c.write).mapM (fun v => c.read v zero) = some xs
    induction xs with
    | nil => rfl
    | cons x xs ih =>
      obtain ⟨v, hv⟩ := Option.ne_none_iff_exists'.1 (hsome x)
      have hread := (h x mem_cons_self).written v hv
      have hrest := ih fun y hy => h y (mem_cons_of_mem _ hy)
      rw [filterMap_cons_some hv, mapM_cons, hread, hrest]
      rfl
  omitted hv := by cases hv

/-! ## Structs -/

/-- A key without its case: `ſ` and the Kelvin sign fold to letters too. -/
def foldChar (c : Char) : Char :=
  if 'A' ≤ c ∧ c ≤ 'Z' then Char.ofNat (c.toNat + 32)
  else if c.toNat = 0x212A then 'k'
  else if c.toNat = 0x17F then 's'
  else c

def foldKey (k : List Char) : List Char := k.map foldChar

/-- A field of a struct, with its tag; `copy x a` is `a` with the field of `x`. -/
structure Tag (α : Type) where
  key : List Char
  write : α → Option Value
  read : Value → α → Option α
  copy : α → α → α

variable {fields fs : List (Tag α)} {key k : List Char}

/-- The field of a type. -/
def Codec.field (c : Codec β) (key : List Char) (get : α → β) (set : β → α → α) : Tag α where
  key := key
  write x := c.write (get x)
  read v a := (c.read v (get a)).map fun b => set b a
  copy x a := set (get x) a

/-- The field of a key. -/
def fieldOf (fields : List (Tag α)) (key : List Char) : Option (Tag α) :=
  fields.find? fun f => foldKey f.key = foldKey key

/-- The members of an object that are written. -/
def writeMembers (fields : List (Tag α)) (x : α) : List (List Char × Value) :=
  fields.filterMap fun f => (f.write x).map fun v => (f.key, v)

/-- The members of an object, read over a value one after the other; a key that is no field is
skipped. -/
def readMembers (fields : List (Tag α)) : List (List Char × Value) → α → Option α
  | [], a => some a
  | (k, v) :: ms, a =>
      match fieldOf fields k with
      | some f => (f.read v a).bind (readMembers fields ms)
      | none => readMembers fields ms a

def readRecord (fields : List (Tag α)) : Value → α → Option α
  | .null, a => some a
  | .obj ms, a => readMembers fields ms a
  | _, _ => none

/-- A struct. -/
def record (fields : List (Tag α)) : Codec α :=
  ⟨fun x => some (.obj (writeMembers fields x)), readRecord fields⟩

/-- The fields are read back one after the other, over what the fields before them have left, and
make up the value. -/
def Rebuilds (x : α) : List (Tag α) → α → Prop
  | [], a => a = x
  | f :: fs, a =>
      (∀ v, f.write x = some v → f.read v a = some (f.copy x a)) ∧
        (f.write x = none → f.copy x a = a) ∧
        Rebuilds x fs (f.copy x a)

@[simp] lemma rebuilds_nil (x a : α) : Rebuilds x [] a ↔ a = x := .rfl

@[simp] lemma rebuilds_field {x a : α}
    (h : c.Lawful (get x) (get a)) (hset : set (get a) a = a) :
    Rebuilds x (c.field key get set :: fs) a ↔ Rebuilds x fs (set (get x) a) := by
  refine ⟨fun hfs => hfs.2.2, fun hfs => ⟨?_, ?_, hfs⟩⟩
  · intro v hv
    have hread := h.written v hv
    simp only [Codec.field, hread, Option.map_some]
  · intro hv
    have heq := h.omitted hv
    simp only [Codec.field, heq, hset]

lemma fieldOf_key (hkeys : (fields.map fun f => foldKey f.key).Nodup) {f : Tag α}
    (hf : f ∈ fields) : fieldOf fields f.key = some f := by
  induction fields with
  | nil => cases hf
  | cons g fields ih =>
    obtain ⟨hg, hrest⟩ := nodup_cons.1 hkeys
    rcases mem_cons.1 hf with rfl | hmem
    · simp [fieldOf]
    · have hne : foldKey g.key ≠ foldKey f.key := fun heq =>
        hg (mem_map.2 ⟨f, hmem, heq.symm⟩)
      have hfind := ih hrest hmem
      rw [fieldOf] at hfind ⊢
      rw [find?_cons_of_neg (by simpa using hne), hfind]

lemma readMembers_writeMembers {fields : List (Tag α)} {x a : α}
    (hkeys : ∀ f ∈ fs, fieldOf fields f.key = some f) (h : Rebuilds x fs a) :
    readMembers fields (writeMembers fs x) a = some x := by
  induction fs generalizing a with
  | nil =>
    cases h
    rfl
  | cons f fs ih =>
    obtain ⟨hwritten, homitted, hfs⟩ := h
    have hrest := ih (fun g hg => hkeys g (mem_cons_of_mem _ hg)) hfs
    cases hw : f.write x with
    | none =>
      rw [writeMembers, filterMap_cons_none (by simp [hw])]
      rwa [homitted hw] at hrest
    | some v =>
      rw [writeMembers, filterMap_cons_some (b := (f.key, v)) (by simp [hw]), readMembers,
        hkeys f mem_cons_self]
      simp only [hwritten v hw, Option.bind_some]
      exact hrest

/-- A struct is read back if each of its fields is. -/
theorem lawful_record {x a : α} (hkeys : (fields.map fun f => foldKey f.key).Nodup)
    (h : Rebuilds x fields a) : (record fields).Lawful x a where
  written v hv := by
    cases hv
    exact readMembers_writeMembers (fun f hf => fieldOf_key hkeys hf) h
  omitted hv := by cases hv

/-! ## Keys -/

lemma mem_keysItems {xs : List Value} : k ∈ keysItems xs ↔ ∃ x ∈ xs, k ∈ keys x := by
  induction xs with
  | nil => simp [keysItems]
  | cons x xs ih => simp [keysItems, ih]

lemma mem_keysMembers {ms : List (List Char × Value)} :
    k ∈ keysMembers ms ↔ ∃ m ∈ ms, k = m.1 ∨ k ∈ keys m.2 := by
  induction ms with
  | nil => simp [keysMembers]
  | cons m ms ih => simp [keysMembers, ih, or_assoc]

/-- The keys that are written of a type all have a property. -/
def Codec.KeysHave (c : Codec β) (P : List Char → Prop) : Prop :=
  ∀ x v, c.write x = some v → ∀ k ∈ keys v, P k

variable {P : List Char → Prop}

@[simp] lemma keysHave_text : text.KeysHave P := fun x v h k hk => by
  cases h
  cases hk

@[simp] lemma keysHave_bool : bool.KeysHave P := fun x v h k hk => by
  cases h
  cases hk

@[simp] lemma keysHave_int64 : int64.KeysHave P := fun x v h k hk => by
  cases h
  cases hk

lemma Codec.KeysHave.omitting (h : c.KeysHave P) : (c.omitting empty).KeysHave P := by
  intro x v hv
  rw [Codec.omitting] at hv
  dsimp only at hv
  split at hv
  · cases hv
  · exact h x v hv

@[simp] lemma Codec.KeysHave.pointer (h : c.KeysHave P) : (pointer c zero).KeysHave P := by
  intro x v hv
  obtain ⟨y, -, hy⟩ := Option.bind_eq_some_iff.1 hv
  exact h y v hy

lemma Codec.KeysHave.slice (h : c.KeysHave P) : (slice c zero).KeysHave P := by
  intro xs v hv k hk
  cases hv
  obtain ⟨x, hx, hkx⟩ := mem_keysItems.1 hk
  obtain ⟨y, -, hy⟩ := mem_filterMap.1 hx
  exact h y x hy k hkx

/-- The key of a field and those that are written of it. -/
def Tag.KeysHave (f : Tag α) (P : List Char → Prop) : Prop :=
  P f.key ∧ ∀ x v, f.write x = some v → ∀ k ∈ keys v, P k

@[simp] lemma Codec.KeysHave.field (h : c.KeysHave P)
    (hkey : P key) : (c.field key get set).KeysHave P := ⟨hkey, fun x v hv => h (get x) v hv⟩

theorem keysHave_record (h : fields.Forall (·.KeysHave P)) : (record fields).KeysHave P := by
  rw [forall_iff_forall_mem] at h
  intro x v hv k hk
  cases hv
  obtain ⟨m, hm, hkm⟩ := mem_keysMembers.1 hk
  obtain ⟨f, hf, hfm⟩ := mem_filterMap.1 hm
  obtain ⟨w, hw, rfl⟩ := Option.map_eq_some_iff.1 hfm
  rcases hkm with rfl | hkw
  · exact (h f hf).1
  · exact (h f hf).2 x w hw k hkw

end Moov.Json
