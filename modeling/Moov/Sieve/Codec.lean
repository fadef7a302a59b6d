import Moov.Lib.JsonCodec
import Moov.Sieve.Model

/-!
# The metadata of the managed script

The struct tags of `sieve/model.go`: the model as the JSON header of the script has it.  The
external body is not in it.

* `scriptFields` and its kin — the tags, one line for one;
* `readBack` — what is written of a model is read back, but for the external body.
-/

namespace Moov.Sieve

open Json Option

open Json (Codec Tag Value record pointer slice Rebuilds rebuilds_field)

/-! ## Time -/

/-- The year of an instant, as `Format` writes it. -/
def Time.yearText (t : Time) : List Char :=
  if t.year < 0 then '-' :: Decimal.pad 4 t.year.natAbs else Decimal.pad 4 t.year.natAbs

/-- `Format("2006-01-02")`. -/
def Time.date (t : Time) : List Char :=
  t.yearText ++ '-' :: (Decimal.pad 2 t.month ++ '-' :: Decimal.pad 2 t.day)

/-- `Format("15:04:05")`. -/
def Time.clock (t : Time) : List Char :=
  Decimal.pad 2 t.hour ++ ':' :: (Decimal.pad 2 t.minute ++ ':' :: Decimal.pad 2 t.second)

/-- RFC 3339, of whole seconds UTC. -/
def Time.rfc3339 (t : Time) : List Char := t.date ++ 'T' :: (t.clock ++ ['Z'])

/-- `MarshalJSON` returns no error. -/
def Time.marshals (t : Time) : Bool := 0 ≤ t.year && t.year ≤ 9999

/-- A numeral of a width, and the character after it. -/
def readPart (width : Nat) (c : Char) (s : List Char) : Option (Nat × List Char) :=
  match Decimal.readPad width s with
  | some (n, d :: r) => if d = c then some (n, r) else none
  | _ => none

/-- An instant, if the parts of it are in their ranges. -/
def Time.ofParts (year month day hour minute second : Nat) : Option Time :=
  if h : (1 ≤ month ∧ month ≤ 12) ∧ (1 ≤ day ∧ day ≤ daysIn month year) ∧
    (hour < 24 ∧ minute < 60 ∧ second < 60) then
    some ⟨year, month, day, hour, minute, second, h.1, h.2.1, h.2.2⟩
  else none

/-- An instant of whole seconds UTC in RFC 3339. -/
def Time.parse (s : List Char) : Option Time :=
  (readPart 4 '-' s).bind fun y => (readPart 2 '-' y.2).bind fun mo =>
    (readPart 2 'T' mo.2).bind fun d =>
    (readPart 2 ':' d.2).bind fun h => (readPart 2 ':' h.2).bind fun mi =>
      (readPart 2 'Z' mi.2).bind fun se =>
      if se.2.isEmpty then Time.ofParts y.1 mo.1 d.1 h.1 mi.1 se.1 else none

def readTime : Value → Time → Option Time
  | .null, a => some a
  | .str s, _ => Time.parse s
  | _, _ => none

/-- `time.Time`; `omitempty` leaves out no struct. -/
def time : Codec Time := ⟨fun t => some (.str t.rfc3339), readTime⟩

lemma readPart_pad {width n : Nat} {c : Char} (hw : 0 < width) (h : n < 10 ^ width)
    (r : List Char) :
    readPart width c (Decimal.pad width n ++ c :: r) = some (n, r) := by
  simp [readPart, Decimal.readPad_pad hw h]

lemma Time.parse_rfc3339 {t : Time} (h : t.marshals = true) : Time.parse t.rfc3339 = some t := by
  rw [Time.marshals, Bool.and_eq_true, decide_eq_true_iff, decide_eq_true_iff] at h
  obtain ⟨y, hy⟩ := Int.eq_ofNat_of_zero_le h.1
  have hyear : t.yearText = Decimal.pad 4 y := by
    rw [Time.yearText, if_neg (by omega), hy, Int.natAbs_natCast]
  obtain ⟨hhour, hminute, hsecond⟩ := t.clock_range
  have hday := t.day_range.2
  have hdays : daysIn t.month t.year ≤ 31 := by
    unfold daysIn
    split_ifs <;> omega
  have hmonth := t.month_range.2
  simp only [Time.parse, Time.rfc3339, Time.date, Time.clock, hyear, List.append_assoc,
    List.cons_append]
  rw [readPart_pad (by decide) (by omega), bind_some, readPart_pad (by decide) (by omega),
    bind_some, readPart_pad (by decide) (by omega), bind_some, readPart_pad (by decide)
    (by omega), bind_some,
    readPart_pad (by decide) (by omega), bind_some, readPart_pad (by decide) (by omega), bind_some]
  obtain ⟨year, month, day, hour, minute, second, hm, hd, hc⟩ := t
  subst hy
  exact dif_pos ⟨hm, hd, hc⟩

lemma lawful_time {t : Time} (h : t.marshals = true) (a : Time) : time.Lawful t a where
  written v hv := by
    cases hv
    exact Time.parse_rfc3339 h
  omitted hv := by cases hv

/-! ## The struct tags -/

def omitText : Codec (List Char) := Json.text.omitting List.isEmpty
def omitTexts : Codec (List (List Char)) := (slice Json.text []).omitting List.isEmpty
def omitInt64 : Codec Int64 := Json.int64.omitting fun n => n = 0
def omitBool : Codec Bool := Json.bool.omitting fun b => !b

def criteriaFields : List (Tag Criteria) :=
  [omitTexts.field "from".toList (·.from_) fun v c => { c with from_ := v },
    omitTexts.field "to".toList (·.to_) fun v c => { c with to_ := v },
    omitTexts.field "subject".toList (·.subject) fun v c => { c with subject := v },
    omitInt64.field "sizeOver".toList (·.sizeOver) fun v c => { c with sizeOver := v },
    omitInt64.field "sizeUnder".toList (·.sizeUnder) fun v c => { c with sizeUnder := v },
    (pointer Json.bool false).field "hasAttachment".toList (·.hasAttachment) fun v c =>
    { c with hasAttachment := v }]

def actionsFields : List (Tag Actions) :=
  [omitText.field "moveTo".toList (·.moveTo) fun v a => { a with moveTo := v },
    omitTexts.field "labels".toList (·.labels) fun v a => { a with labels := v },
    omitBool.field "markRead".toList (·.markRead) fun v a => { a with markRead := v },
    omitBool.field "star".toList (·.star) fun v a => { a with star := v },
    omitText.field "forward".toList (·.forward) fun v a => { a with forward := v },
    omitBool.field "delete".toList (·.delete) fun v a => { a with delete := v },
    omitBool.field "stop".toList (·.stop) fun v a => { a with stop := v }]

def ruleFields : List (Tag Rule) :=
  [Json.text.field "id".toList (·.id) fun v r => { r with id := v },
    omitText.field "name".toList (·.name) fun v r => { r with name := v },
    Json.text.field "type".toList (·.type) fun v r => { r with type := v },
    Json.bool.field "enabled".toList (·.enabled) fun v r => { r with enabled := v },
    (record criteriaFields).field "criteria".toList (·.criteria) fun v r =>
    { r with criteria := v },
    (record actionsFields).field "actions".toList (·.actions) fun v r => { r with actions := v }]

def vacationFields : List (Tag Vacation) :=
  [Json.bool.field "enabled".toList (·.enabled) fun v x => { x with enabled := v },
    time.field "fromDate".toList (·.fromDate) fun v x => { x with fromDate := v },
    time.field "toDate".toList (·.toDate) fun v x => { x with toDate := v },
    omitText.field "subject".toList (·.subject) fun v x => { x with subject := v },
    omitText.field "textBody".toList (·.textBody) fun v x => { x with textBody := v },
    omitText.field "htmlBody".toList (·.htmlBody) fun v x => { x with htmlBody := v }]

def forwardAllFields : List (Tag ForwardAll) :=
  [Json.bool.field "enabled".toList (·.enabled) fun v f => { f with enabled := v },
    omitText.field "address".toList (·.address) fun v f => { f with address := v },
    omitText.field "disposition".toList (·.disposition) fun v f => { f with disposition := v }]

def scriptFields : List (Tag Script) :=
  [Json.int64.field "version".toList (·.version) fun v s => { s with version := v },
    ((slice (record ruleFields) .zero).omitting List.isEmpty).field "rules".toList
    (·.rules) fun v s =>
      { s with rules := v },
    (pointer (record vacationFields) .zero).field "vacation".toList (·.vacation) fun v s =>
    { s with vacation := v },
    (pointer (record forwardAllFields) .zero).field "forwardAll".toList (·.forwardAll) fun v s =>
      { s with forwardAll := v },
    omitTexts.field "externalRequires".toList (·.externalRequires) fun v s =>
    { s with externalRequires := v },
    omitText.field "externalSource".toList (·.externalSource) fun v s =>
    { s with externalSource := v }]

/-- The metadata of a model. -/
def Script.toJson (s : Script) : Value := .obj (Json.writeMembers scriptFields s)

/-- `json.Marshal` returns no error: it does for a date that has no four digits for its year. -/
def Script.marshals (s : Script) : Bool :=
  s.vacation.all fun v => v.fromDate.marshals && v.toDate.marshals

/-- `json.Unmarshal` into a new model. -/
def Script.ofJson (v : Value) : Option Script := Json.readRecord scriptFields v .zero

/-! ## Reading back -/

@[simp] lemma lawful_omitText (s : List Char) : omitText.Lawful s [] :=
  lawful_omitting (lawful_text s []) fun h => List.isEmpty_iff.1 h

@[simp] lemma lawful_omitTexts (l : List (List Char)) : omitTexts.Lawful l [] :=
  lawful_omitting (lawful_slice nofun fun s _ => lawful_text s []) fun h =>
    List.isEmpty_iff.1 h

@[simp] lemma lawful_omitInt64 (n : Int64) : omitInt64.Lawful n 0 :=
  lawful_omitting (lawful_int64 n 0) fun h => of_decide_eq_true h

@[simp] lemma lawful_omitBool (b : Bool) : omitBool.Lawful b false :=
  lawful_omitting (lawful_bool b false) fun h => by simpa using h

@[simp] lemma lawful_criteria (c : Criteria) : (record criteriaFields).Lawful c .zero := by
  have hattachment (o : Option Bool) : (pointer Json.bool false).Lawful o none :=
    lawful_pointer nofun nofun fun b _ => lawful_bool b false
  exact lawful_record (by decide) (by simp [criteriaFields, Criteria.zero, hattachment])

@[simp] lemma lawful_actions (a : Actions) : (record actionsFields).Lawful a .zero :=
  lawful_record (by decide) (by simp [actionsFields, Actions.zero])

lemma lawful_rule (r : Rule) : (record ruleFields).Lawful r .zero :=
  lawful_record (by decide) (by simp [ruleFields, Rule.zero])

lemma lawful_vacation {v : Vacation} (hfrom : v.fromDate.marshals = true)
    (hto : v.toDate.marshals = true) :
    (record vacationFields).Lawful v .zero :=
  lawful_record (by decide)
    (by simp [vacationFields, Vacation.zero, lawful_time hfrom, lawful_time hto])

lemma lawful_forwardAll (f : ForwardAll) : (record forwardAllFields).Lawful f .zero :=
  lawful_record (by decide) (by simp [forwardAllFields, ForwardAll.zero])

/-- A model without its external body is read back from its metadata. -/
theorem readBack {s : Script} (h : s.marshals = true) :
    Script.ofJson s.toJson = some { s with externalBody := [] } := by
  have hrules : ((slice (record ruleFields) .zero).omitting List.isEmpty).Lawful s.rules [] :=
    lawful_omitting (lawful_slice nofun fun r _ => lawful_rule r) fun h => List.isEmpty_iff.1 h
  have hvacation : (pointer (record vacationFields) .zero).Lawful s.vacation none := by
    refine lawful_pointer nofun nofun fun v hv => ?_
    rw [mem_def] at hv
    have hdates : v.fromDate.marshals = true ∧ v.toDate.marshals = true := by
      simpa [Script.marshals, hv] using h
    exact lawful_vacation hdates.1 hdates.2
  have hforward : (pointer (record forwardAllFields) .zero).Lawful s.forwardAll none :=
    lawful_pointer nofun nofun fun f _ => lawful_forwardAll f
  have hlawful : (record scriptFields).Lawful { s with externalBody := [] } .zero :=
    lawful_record (by decide) (by simp [scriptFields, Script.zero, hrules, hvacation, hforward])
  exact hlawful.written _ rfl

/-! ## Keys -/

/-- A key without the character that markers begin with. -/
def Unhashed (k : List Char) : Prop := '#' ∉ Json.escapeGuarded k

instance (k : List Char) : Decidable (Unhashed k) :=
  inferInstanceAs (Decidable ('#' ∉ Json.escapeGuarded k))

@[simp] lemma keysHave_omitText : omitText.KeysHave Unhashed := keysHave_text.omitting
@[simp] lemma keysHave_omitTexts : omitTexts.KeysHave Unhashed := keysHave_text.slice.omitting
@[simp] lemma keysHave_omitInt64 : omitInt64.KeysHave Unhashed := keysHave_int64.omitting
@[simp] lemma keysHave_omitBool : omitBool.KeysHave Unhashed := keysHave_bool.omitting

@[simp] lemma keysHave_time : time.KeysHave Unhashed := fun x v h k hk => by
  cases h
  cases hk

@[simp] lemma keysHave_criteria : (record criteriaFields).KeysHave Unhashed :=
  keysHave_record (by simp +decide [criteriaFields])

@[simp] lemma keysHave_actions : (record actionsFields).KeysHave Unhashed :=
  keysHave_record (by simp +decide [actionsFields])

lemma keysHave_rule : (record ruleFields).KeysHave Unhashed :=
  keysHave_record (by simp +decide [ruleFields])

@[simp] lemma keysHave_vacation : (record vacationFields).KeysHave Unhashed :=
  keysHave_record (by simp +decide [vacationFields])

@[simp] lemma keysHave_forwardAll : (record forwardAllFields).KeysHave Unhashed :=
  keysHave_record (by simp +decide [forwardAllFields])

/-- No key of the metadata has the character that markers begin with. -/
lemma unhashed_keys (s : Script) : ∀ k ∈ Json.keys s.toJson, '#' ∉ Json.escapeGuarded k := by
  have hkeys : (record scriptFields).KeysHave Unhashed :=
    keysHave_record (by simp +decide [scriptFields, keysHave_rule.slice.omitting])
  exact hkeys s _ rfl

end Moov.Sieve
