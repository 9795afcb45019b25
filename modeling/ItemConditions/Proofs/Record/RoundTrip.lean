import ItemConditions.Proofs.Condition
import ItemConditions.Proofs.Record.Reading
import ItemConditions.Record.Printer

/-!
# Records and their JSON text

A list of records is read from its JSON text with nothing changed but the amounts, each of which
comes back as what its own text is read as. An amount that is not finite is written as null, and the
list is not read at all.

## Main definitions

* `Binary64.rereadAmount`, `Condition.reread`, `Record.reread`: what is read from the JSON text of
  an amount, a condition and a record
* `Record.KeepsAmount`: the amount is read back

## Main results

* `Record.names_fields`: what is written for a kind is read for it
* `Record.ofText_fields`: one record
* `Record.readList_compact`, `Record.readList_pretty`: a list of records
* `Record.reread_eq_ok_iff`: nothing but the amount is read as something else
-/

namespace ItemConditions

open Json (Fields)

/-- **The amount that is read from the JSON text of an amount**; one that is not finite is written
as null. -/
def Binary64.rereadAmount (a : Binary64) : Except Record.Fault Binary64 :=
  if a.isFinite then Record.ofJson a.reread else .error (.wrongType .null "f64")

theorem Binary64.rereadAmount_eq_ok_iff {a b : Binary64} :
    a.rereadAmount = .ok b ↔ a.isFinite ∧ a.reread = .ok b := by
  unfold rereadAmount
  split_ifs with h
  · cases a.reread <;> simp [Record.ofJson, h]
  · simp [h]

/-- **The condition that is read from the JSON text of a condition**: its amount may be another. -/
def Condition.reread (c : Condition) : Except Record.Fault Condition :=
  if c.isStructured then c.amount.rereadAmount.map fun a => c.setAmount a else .ok c

namespace Record

/-- **The record that is read from the JSON text of a record.** -/
def reread (r : Record) : Except Fault Record :=
  r.condition.reread.map fun c => { r with condition := c }

/-- The fields of a record's mapping. -/
def fields (r : Record) : Fields :=
  (("kind".toList, .string r.kind.name.toList) :: r.condition.fields)
    ++ ([("raw_text".toList, .string r.rawText), ("is_action".toList, .bool r.isAction)]
      ++ r.comparator.fields)

theorem listToValue_eq (rs : List Record) :
    listToValue rs = Json.ofMappings (rs.map fields) := by
  have hone (r : Record) : r.toValue = .mapping r.fields := by
    simp [toValue, fields]
  simp [listToValue, Json.ofMappings, hone, Function.comp_def]

/-! ## The fields -/

theorem isPlain_toValue (a : Binary64) : a.toValue.IsPlain := by
  unfold Binary64.toValue
  split_ifs with h
  · exact h
  · trivial

/-- A name that is not one of those that all records have. -/
def IsOther (name : Text) : Prop :=
  name ≠ "raw_text".toList ∧ name ≠ "is_action".toList ∧ name ≠ "comparator".toList

instance (name : Text) : Decidable (IsOther name) := by
  unfold IsOther
  infer_instance

/-- The fields that are written for a kind are those that are read for it. -/
theorem names_fields (c : Condition) :
    c.fields.map Prod.fst = (formFields c.kind).map String.toList := by
  cases c <;> rfl

theorem isOther_of_mem_fields {c : Condition} {e : Text × Value} (he : e ∈ c.fields) :
    IsOther e.1 := by
  have hall (k : Kind) : ∀ name ∈ (formFields k).map String.toList, IsOther name := by
    cases k <;> decide
  refine hall c.kind e.1 ?_
  rw [← names_fields]
  exact List.mem_map_of_mem he

theorem isPlain_of_mem_fields {c : Condition} {e : Text × Value} (he : e ∈ c.fields) :
    e.2.IsPlain := by
  have hall : ∀ e ∈ c.fields, e.2.IsPlain := by
    cases c <;> simp [Condition.fields, ItemMatch.fields, isPlain_toValue]
  exact hall e he

theorem exists_text_of_mem_fields {c : Comparator} {e : Text × Value} (he : e ∈ c.fields) :
    ∃ s, e.2 = .string s := by
  cases c with
  | ge => simp [Comparator.fields] at he
  | le | eq | gt | lt =>
    rw [List.mem_singleton.mp he]
    exact ⟨_, rfl⟩

theorem isReadable_fields (r : Record) : IsReadable r.fields where
  ne_nil := List.cons_ne_nil _ _
  isField e he := by
    have hstring (name s : Text) : IsField (name, .string s) := ⟨trivial, fun _ => ⟨s, rfl⟩⟩
    simp only [fields, List.mem_append, List.mem_cons, List.not_mem_nil, or_false] at he
    rcases he with (rfl | he) | (rfl | rfl) | he
    · exact hstring _ _
    · exact ⟨isPlain_of_mem_fields he, fun h => absurd h (isOther_of_mem_fields he).2.2⟩
    · exact hstring _ _
    · exact ⟨trivial, fun h => absurd h (show "is_action".toList ≠ "comparator".toList by decide)⟩
    · obtain ⟨s, hs⟩ := exists_text_of_mem_fields he
      obtain ⟨name, v⟩ := e
      obtain rfl : v = .string s := hs
      exact hstring name s

/-! ## One record -/

/-- A field with its value as it is read. -/
def rereadField (e : Text × Value) : Except Fault (Text × Value) :=
  (ofJson e.2.reread).map fun v => (e.1, v)

/-- The fields of the kind are gathered as they are read. -/
theorem foldlM_take_others {m : Fields} (hm : ∀ e ∈ m, IsOther e.1) (draft : Draft) :
    m.foldlM Draft.take draft = (m.mapM rereadField).map fun m' =>
      { draft with others := m'.reverse ++ draft.others } := by
  induction m generalizing draft with
  | nil => rfl
  | cons e m ih =>
    obtain ⟨⟨hraw, haction, hcomparator⟩, hm⟩ := List.forall_mem_cons.mp hm
    have htake : draft.take e = (rereadField e).map fun e' =>
        { draft with others := e' :: draft.others } := by
      simp only [Draft.take, Draft.vacant, Draft.put, rereadField, hraw, haction, hcomparator,
        false_and, if_false]
      cases e.2.reread <;> rfl
    rw [List.foldlM_cons, htake, List.mapM_cons]
    cases rereadField e with
    | error e => rfl
    | ok e' =>
      simp only [Except.map, bind, Except.bind]
      rw [ih hm]
      cases m.mapM rereadField with
      | error e => rfl
      | ok m' => simp [Except.map, pure, Except.pure]

/-- The fields that all records have are put in their places. -/
theorem foldlM_take_shared (rawText : Text) (isAction : Bool) (c : Comparator)
    (others : List (Text × Value)) :
    ([("raw_text".toList, Value.string rawText), ("is_action".toList, .bool isAction)]
        ++ c.fields).foldlM Draft.take { others := others }
      = .ok ⟨some rawText, some isAction, if c = .ge then none else some c, others⟩ := by
  cases c <;> rfl

theorem rereadField_string (name s : Text) :
    rereadField (name, .string s) = .ok (name, .string s) := rfl

theorem rereadField_bool (name : Text) (b : Bool) :
    rereadField (name, .bool b) = .ok (name, .bool b) := rfl

/-- What is read from the text of an amount: null, a number, or nothing. -/
theorem rereadField_amount (name : Text) (a : Binary64) :
    (rereadField (name, a.toValue) = .ok (name, .null) ∧
      a.rereadAmount = .error (.wrongType .null "f64")) ∨
    (∃ y, rereadField (name, a.toValue) = .ok (name, .number (.real y)) ∧
      a.rereadAmount = .ok y) ∨
    (∃ e, rereadField (name, a.toValue) = .error e ∧ a.rereadAmount = .error e) := by
  unfold Binary64.toValue Binary64.rereadAmount
  split_ifs with h
  · rw [rereadField, Value.reread]
    cases a.reread with
    | error e => exact Or.inr (Or.inr ⟨_, rfl, rfl⟩)
    | ok y => exact Or.inr (Or.inl ⟨y, rfl, rfl⟩)
  · exact Or.inl ⟨rfl, rfl⟩

/-- The kind is found in front of the other fields. -/
theorem conditionOf_kind {m : Fields} (hm : ∀ e ∈ m, e.1 ≠ "kind".toList) (k : Kind) :
    conditionOf (("kind".toList, .string k.name.toList) :: m)
      = m.foldlM (Form.put k) {} >>= Form.condition k := by
  have hothers : splitKind m (some k) = .ok (k, m) := by
    induction m with
    | nil => rfl
    | cons e m ih =>
      obtain ⟨he, hm⟩ := List.forall_mem_cons.mp hm
      rw [splitKind, if_neg he, ih hm]
      rfl
  have hkind : kindOf (.string k.name.toList) = .ok k := by cases k <;> rfl
  have hsplit : splitKind (("kind".toList, .string k.name.toList) :: m) none = .ok (k, m) := by
    simp only [splitKind, if_true, Option.isSome_none, Bool.false_eq_true, if_false, hkind, hothers]
  rw [conditionOf, hsplit]
  rfl

/-- The condition of the gathered fields. -/
theorem conditionOf_fields (c : Condition) :
    ((("kind".toList, .string c.kind.name.toList) :: c.fields).mapM rereadField >>= conditionOf)
      = c.reread := by
  rcases rereadField_amount "amount".toList c.amount with ⟨h, h'⟩ | ⟨y, h, h'⟩ | ⟨e, h, h'⟩ <;>
  · cases c <;>
    · simp only [Condition.amount] at h h'
      simp only [Condition.fields, ItemMatch.fields, List.mapM_cons, List.mapM_nil,
        rereadField_string, rereadField_bool, h, bind, Except.bind, pure, Except.pure,
        Condition.reread, Condition.isStructured, Condition.amount, h', if_true,
        Bool.false_eq_true, if_false]
      first
        | rfl
        | rw [conditionOf_kind (by simp)]
          rfl

/-- The text of a record is read as the record, up to its amount. -/
theorem ofText_fields (r : Record) : ofText r.fields = r.reread := by
  have hother : ∀ e ∈ ("kind".toList, .string r.kind.name.toList) :: r.condition.fields,
      IsOther e.1 := by
    rw [List.forall_mem_cons]
    exact ⟨show IsOther "kind".toList by decide, fun e he => isOther_of_mem_fields he⟩
  have hcondition := conditionOf_fields r.condition
  rw [ofText, fields, List.foldlM_append, foldlM_take_others hother, reread, ← hcondition]
  simp only [kind]
  cases (("kind".toList, .string r.condition.kind.name.toList) :: r.condition.fields).mapM
      rereadField with
  | error e => rfl
  | ok m =>
    simp only [Except.map, bind, Except.bind, foldlM_take_shared, List.append_nil, Draft.record,
      List.reverse_reverse]
    cases conditionOf m with
    | error e => rfl
    | ok c =>
      obtain ⟨condition, rawText, isAction, comparator⟩ := r
      cases comparator <;> rfl

/-! ## Lists -/

/-- A list in a layout is read record by record, with blanks behind it or not. -/
theorem readList_layout {l : Json.Layout} (hl : l.IsProper) (rs : List Record) {r : Text}
    (hr : Json.IsBlank r) : readList (l.sequence (rs.map fields) ++ r) = rs.mapM reread := by
  have hreadable : ∀ m ∈ rs.map fields, IsReadable m := by
    intro m hm
    obtain ⟨r, -, rfl⟩ := List.mem_map.mp hm
    exact isReadable_fields r
  rw [readList_sequence hl hreadable hr, List.mapM_map]
  exact congrArg (List.mapM · rs) (funext ofText_fields)

theorem isFlat_of_mem {rs : List Record} {m : Fields} (hm : m ∈ rs.map fields) : Json.IsFlat m := by
  obtain ⟨r, -, rfl⟩ := List.mem_map.mp hm
  exact (isReadable_fields r).isFlat

/-- **The compact text of a list** is read record by record. -/
theorem readList_compact (rs : List Record) :
    readList (Json.compact (listToValue rs)) = rs.mapM reread := by
  have hread := readList_layout Json.Layout.isProper_dense rs Json.isBlank_nil
  rwa [List.append_nil, ← Json.compact_sequence fun m hm => isFlat_of_mem hm,
    ← listToValue_eq] at hread

/-- **The text with one item a line** is read record by record, with blanks behind it or not. -/
theorem readList_pretty (rs : List Record) {r : Text} (hr : Json.IsBlank r) :
    readList (Json.pretty (listToValue rs) ++ r) = rs.mapM reread := by
  have hread := readList_layout Json.Layout.isProper_lines rs hr
  rwa [← Json.pretty_sequence fun m hm => isFlat_of_mem hm, ← listToValue_eq] at hread

/-! ## What comes back -/

/-- The record whose amount is read back. -/
def KeepsAmount (r : Record) : Prop :=
  r.isStructured → r.amount.isFinite ∧ r.amount.reread = .ok r.amount

variable {r s : Record}

/-- **Nothing but the amount** is read as something else. -/
theorem reread_eq_ok_iff : r.reread = .ok s ↔
    s = r.setAmount s.amount ∧
      (r.isStructured → r.amount.isFinite ∧ r.amount.reread = .ok s.amount) := by
  cases hr : r.isStructured with
  | false =>
    have hsame (a : Binary64) : r.setAmount a = r := by
      rw [setAmount, Condition.setAmount_of_raw hr]
    have hread : r.reread = .ok r := by
      rw [reread, Condition.reread, show r.condition.isStructured = false from hr]
      rfl
    simp only [hread, hsame, Except.ok.injEq, Bool.false_eq_true, false_implies, and_true]
    exact eq_comm
  | true =>
    have hread : r.reread = r.amount.rereadAmount.map fun a => r.setAmount a := by
      rw [reread, Condition.reread, show r.condition.isStructured = true from hr, if_pos rfl]
      change Except.map _ (r.amount.rereadAmount.map _) = _
      cases r.amount.rereadAmount <;> rfl
    have hamount (a : Binary64) : (r.setAmount a).amount = a := Condition.amount_setAmount hr a
    rw [forall_prop_of_true rfl, ← Binary64.rereadAmount_eq_ok_iff, hread]
    cases r.amount.rereadAmount with
    | error e => simp [Except.map]
    | ok a =>
      simp only [Except.map, Except.ok.injEq]
      constructor
      · rintro rfl
        rw [hamount]
        exact ⟨rfl, rfl⟩
      · rintro ⟨hs, rfl⟩
        exact hs.symm

theorem reread_self_iff : r.reread = .ok r ↔ r.KeepsAmount := by
  have hself : r = r.setAmount r.amount := by
    rw [setAmount, amount, Condition.setAmount_amount]
  rw [reread_eq_ok_iff, ← hself]
  simp [KeepsAmount]

/-- A list is read if each of its items is. -/
theorem mapM_eq_ok_iff {α β ε : Type} {f : α → Except ε β} {xs : List α} {ys : List β} :
    xs.mapM f = .ok ys ↔ List.Forall₂ (fun x y => f x = .ok y) xs ys := by
  induction xs generalizing ys with
  | nil =>
    rw [List.mapM_nil, List.forall₂_nil_left_iff]
    exact ⟨fun h => (Except.ok.inj h).symm, fun h => congrArg Except.ok h.symm⟩
  | cons x xs ih =>
    have hstep : (x :: xs).mapM f = .ok ys
        ↔ ∃ y rest, f x = .ok y ∧ xs.mapM f = .ok rest ∧ ys = y :: rest := by
      rw [List.mapM_cons]
      cases f x with
      | error e => simp [bind, Except.bind]
      | ok y =>
        cases xs.mapM f with
        | error e => simp [bind, Except.bind]
        | ok rest => simp [bind, Except.bind, pure, Except.pure, eq_comm]
    simp only [hstep, ih, List.forall₂_cons_left_iff]

end Record

end ItemConditions
