import ItemConditions.Proofs.Json.Layout
import ItemConditions.Record.Reader

/-!
# Records read from a layout

The reader of records goes over a text piece by piece. On a sequence of mappings that is laid out
with any blanks it does what the fields say, one after the other: each value is read, and put into
the draft of its record.

## Main definitions

* `Record.Draft.take`: a field that is read and put into a draft
* `Record.ofText`: the record that the text of some fields is read as

## Main results

* `Record.readList_sequence`: the records of a laid out sequence
-/

namespace ItemConditions.Record

open Json (Layout Fields IsBlank IsFlat Ends)

/-- **A field is read and put into a draft.** -/
def Draft.take (draft : Draft) (field : Text × Value) : Except Fault Draft := do
  draft.vacant field.1
  let v ← ofJson field.2.reread
  draft.put field.1 v

/-- **The record that the text of some fields is read as.** -/
def ofText (m : Fields) : Except Fault Record := do
  let draft ← m.foldlM Draft.take {}
  draft.record

/-- A field that is written for a record: a plain value, and a text for a comparator. -/
structure IsField (e : Text × Value) : Prop where
  isPlain : e.2.IsPlain
  comparator : e.1 = "comparator".toList → ∃ s, e.2 = .string s

/-- A mapping that is written for a record. -/
structure IsReadable (m : Fields) : Prop where
  ne_nil : m ≠ []
  isField : ∀ e ∈ m, IsField e

variable {l : Layout} {gap r : Text} {m : Fields} {e : Text × Value}

theorem IsReadable.isFlat (h : IsReadable m) : IsFlat m := fun e he => (h.isField e he).isPlain

/-! ## One field -/

/-- A plain value is no container, so that it is read. -/
theorem scalar_plain {v : Value} (hv : v.IsPlain) (hgap : IsBlank gap) (hr : Ends r)
    (expected : String) :
    scalar expected (gap ++ (Json.ofScalar v ++ r)) = (ofJson v.reread).map fun w => (w, r) := by
  obtain ⟨c, s, hcs, hc⟩ := Json.exists_ofScalar_eq_cons hv
  have hskip : Json.skipSpace (gap ++ (Json.ofScalar v ++ r)) = c :: (s ++ r) := by
    rw [Json.skipSpace_append hgap, hcs, List.cons_append, Json.skipSpace_cons hc.isSpace]
  have hread := Json.valueWithin_plain hv Json.isBlank_nil hr 0
  rw [List.nil_append, hcs, List.cons_append] at hread
  rw [scalar, hskip]
  split
  · next heq => exact absurd (List.cons.inj heq).1 hc.ne_bracket
  · next heq => exact absurd (List.cons.inj heq).1 hc.ne_brace
  · rw [hread]
    cases v.reread <;> rfl

theorem readComparator_quote (hgap : IsBlank gap) (s r : Text) :
    readComparator (gap ++ (Json.quote s ++ r)) = (comparatorOfSign s).map fun c => (c, r) := by
  rw [readComparator, Json.skipSpace_append hgap, Json.quote_append, Json.skipSpace_cons rfl]
  simp only [Json.string_quote, ofJson, bind, Except.bind]
  cases comparatorOfSign s <;> rfl

/-- The value of a field is read and put into the draft. -/
theorem readField_entry (he : IsField e) (hgap : IsBlank gap) (hr : Ends r) (draft : Draft) :
    readField draft e.1 (':' :: (gap ++ (Json.ofScalar e.2 ++ r)))
      = (draft.take e).map fun draft => (draft, r) := by
  obtain ⟨name, v⟩ := e
  obtain ⟨hplain, hcomparator⟩ := he
  simp only at hplain hcomparator
  have hput : ((ofJson v.reread).map fun w => (w, r)) >>= (fun read => do
        let draft ← draft.put name read.1
        return (draft, read.2))
      = (ofJson v.reread >>= draft.put name).map fun draft => (draft, r) := by
    cases ofJson v.reread with
    | error e => rfl
    | ok w =>
      simp only [Except.map, bind, Except.bind]
      cases draft.put name w <;> rfl
  cases hvacant : draft.vacant name with
  | error e => simp [readField, Draft.take, hvacant, bind, Except.bind, Except.map]
  | ok vacant =>
    have htake : draft.take (name, v) = ofJson v.reread >>= draft.put name := by
      simp only [Draft.take, hvacant]
      rfl
    rw [htake, ← hput, readField, hvacant, Json.colon_cons]
    simp only [bind, Except.bind, ofJson]
    split_ifs with hname
    · obtain ⟨s, rfl⟩ := hcomparator hname
      subst hname
      have hreread : (Value.string s).reread = .ok (.string s) := rfl
      have hsign : draft.put "comparator".toList (.string s)
          = (comparatorOfSign s).map fun c => { draft with comparator := some c } := rfl
      rw [Json.ofScalar, readComparator_quote hgap, hreread]
      simp only [Except.map, hsign]
      cases comparatorOfSign s <;> rfl
    · rw [scalar_plain hplain hgap hr]
      rfl
    · rw [scalar_plain hplain hgap hr]
      rfl
    · rw [Json.valueWithin_plain hplain hgap hr]
      cases v.reread <;> rfl

theorem entry_append (l : Layout) (e : Text × Value) (r : Text) :
    l.entry e ++ r = Json.quote e.1 ++ ':' :: (l.colon ++ (Json.ofScalar e.2 ++ r)) := by
  simp [Layout.entry]

/-- One field is read, and what stands behind it tells whether more follow. -/
theorem readFields_entry (hl : l.IsProper) (he : IsField e) (hgap : IsBlank gap) (hr : Ends r)
    (fuel : ℕ) (draft : Draft) :
    readFields (fuel + 1) draft (gap ++ (l.entry e ++ r))
      = draft.take e >>= fun draft =>
        match Json.skipSpace r with
        | ',' :: t => readFields fuel draft t
        | '\x7d' :: t => return (draft, t)
        | _ => throw .malformed := by
  rw [readFields, entry_append, Json.key_quote hgap]
  simp only [ofJson, bind, Except.bind]
  rw [readField_entry he hl.colon hr]
  cases draft.take e <;> rfl

/-! ## Fields, records and lists -/

/-- The fields of a mapping are taken in their order, up to the closing brace. -/
theorem readFields_entries (hl : l.IsProper) (hm : ∀ f ∈ e :: m, IsField f) (hgap : IsBlank gap)
    {fuel : ℕ} (hfuel : m.length < fuel) (draft : Draft) (r : Text) :
    readFields fuel draft (gap ++ (l.entry e ++ (l.moreEntries m ++ r)))
      = ((e :: m).foldlM Draft.take draft).map fun draft => (draft, r) := by
  induction m generalizing e gap fuel draft with
  | nil =>
    obtain ⟨fuel, rfl⟩ := Nat.exists_eq_succ_of_ne_zero (Nat.ne_zero_of_lt hfuel)
    have he : IsField e := hm e List.mem_cons_self
    have hclose : Json.skipSpace (l.moreEntries [] ++ r) = '\x7d' :: r := by
      rw [Layout.moreEntries, List.append_assoc, Json.skipSpace_append hl.entries]
      rfl
    rw [readFields_entry hl he hgap (Json.ends_moreEntries hl [] r), hclose,
      List.foldlM_cons]
    cases draft.take e <;> rfl
  | cons e' m ih =>
    obtain ⟨fuel, rfl⟩ := Nat.exists_eq_succ_of_ne_zero (Nat.ne_zero_of_lt hfuel)
    have he : IsField e := hm e List.mem_cons_self
    have hcomma : Json.skipSpace (l.moreEntries (e' :: m) ++ r)
        = ',' :: (l.key ++ (l.entry e' ++ (l.moreEntries m ++ r))) := by
      rw [Layout.moreEntries, List.cons_append, Json.skipSpace_cons rfl]
      simp
    rw [readFields_entry hl he hgap (Json.ends_moreEntries hl (e' :: m) r), hcomma,
      List.foldlM_cons]
    cases draft.take e with
    | error e => rfl
    | ok draft =>
      exact ih (fun f hf => hm f (List.mem_cons_of_mem e hf)) hl.key
        (Nat.lt_of_succ_lt_succ hfuel) draft

/-- A mapping is read as a record. -/
theorem readRecord_mapping (hl : l.IsProper) (hm : IsReadable m) (hgap : IsBlank gap) (r : Text) :
    readRecord (gap ++ (l.mapping m ++ r)) = (ofText m).map fun record => (record, r) := by
  obtain ⟨e, m, rfl⟩ := List.exists_cons_of_ne_nil hm.ne_nil
  obtain ⟨u, hu⟩ : ∃ u, l.entry e ++ (l.moreEntries m ++ r) = '"' :: u :=
    ⟨_, by rw [entry_append, Json.quote_append]⟩
  have hlength : m.length < (l.entry e ++ (l.moreEntries m ++ r)).length + 1 := by
    have := Json.length_le_moreEntries l m
    simp only [List.length_append]
    omega
  have hfields := readFields_entries hl hm.isField Json.isBlank_nil hlength {} r
  have hopen : Json.skipSpace (gap ++ (l.mapping (e :: m) ++ r))
      = '\x7b' :: (l.key ++ (l.entry e ++ (l.moreEntries m ++ r))) := by
    rw [Json.skipSpace_append hgap, Layout.mapping, List.cons_append,
      Json.skipSpace_cons rfl]
    simp
  have hskip : Json.skipSpace (l.key ++ '"' :: u) = '"' :: u := by
    rw [Json.skipSpace_append hl.key, Json.skipSpace_cons rfl]
  rw [hu] at hfields hopen
  rw [List.nil_append] at hfields
  rw [readRecord, hopen, ofText]
  simp only [hskip]
  split
  · next heq => exact absurd (List.cons.inj heq).1 (by decide)
  · rw [hfields]
    cases (e :: m).foldlM Draft.take {} with
    | error e => rfl
    | ok draft =>
      simp only [Except.map, bind, Except.bind]
      cases draft.record <;> rfl

/-- The items of a sequence are read in their order, up to the closing bracket. -/
theorem readRecords_items (hl : l.IsProper) {m : Fields} {ms : List Fields}
    (hms : ∀ m' ∈ m :: ms, IsReadable m') (hgap : IsBlank gap) {fuel : ℕ}
    (hfuel : ms.length < fuel) (r : Text) :
    readRecords fuel (gap ++ (l.mapping m ++ (l.moreItems ms ++ r)))
      = ((m :: ms).mapM ofText).map fun records => (records, r) := by
  induction ms generalizing m gap fuel with
  | nil =>
    obtain ⟨fuel, rfl⟩ := Nat.exists_eq_succ_of_ne_zero (Nat.ne_zero_of_lt hfuel)
    have hclose : Json.skipSpace (l.moreItems [] ++ r) = ']' :: r := by
      rw [Layout.moreItems, List.append_assoc, Json.skipSpace_append hl.items]
      rfl
    rw [readRecords, readRecord_mapping hl (hms m List.mem_cons_self) hgap, List.mapM_cons]
    cases ofText m with
    | error e => rfl
    | ok record =>
      simp only [Except.map, bind, Except.bind, hclose]
      rfl
  | cons m' ms ih =>
    obtain ⟨fuel, rfl⟩ := Nat.exists_eq_succ_of_ne_zero (Nat.ne_zero_of_lt hfuel)
    have hcomma : Json.skipSpace (l.moreItems (m' :: ms) ++ r)
        = ',' :: (l.item ++ (l.mapping m' ++ (l.moreItems ms ++ r))) := by
      rw [Layout.moreItems, List.cons_append, Json.skipSpace_cons rfl]
      simp
    have hrest := ih (fun m hm => hms m (List.mem_cons_of_mem _ hm)) hl.item
      (Nat.lt_of_succ_lt_succ hfuel)
    rw [readRecords, readRecord_mapping hl (hms m List.mem_cons_self) hgap, List.mapM_cons]
    cases ofText m with
    | error e => rfl
    | ok record =>
      simp only [Except.map, bind, Except.bind, hcomma, hrest]
      cases (m' :: ms).mapM ofText <;> rfl

/-- **A sequence of mappings is read as its records**, with blanks behind it or not. -/
theorem readList_sequence (hl : l.IsProper) {ms : List Fields} (hms : ∀ m ∈ ms, IsReadable m)
    (hr : IsBlank r) : readList (l.sequence ms ++ r) = ms.mapM ofText := by
  have hfinished : Json.finished r = .ok () := if_pos (Json.skipSpace_blank hr)
  cases ms with
  | nil =>
    have hread : readList ("[]".toList ++ r) = (do ofJson (Json.finished r); return []) := rfl
    rw [Layout.sequence, hread, hfinished]
    rfl
  | cons m ms =>
    obtain ⟨u, hu⟩ : ∃ u, l.mapping m ++ (l.moreItems ms ++ r) = '\x7b' :: u := by
      obtain ⟨e, m, rfl⟩ := List.exists_cons_of_ne_nil (hms m List.mem_cons_self).ne_nil
      exact ⟨_, by rw [Layout.mapping, List.cons_append]⟩
    have hlength : ms.length < (l.mapping m ++ (l.moreItems ms ++ r)).length + 1 := by
      have := Json.length_le_moreItems l ms
      simp only [List.length_append]
      omega
    have hrecords := readRecords_items hl hms Json.isBlank_nil hlength r
    have hopen : Json.skipSpace (l.sequence (m :: ms) ++ r)
        = '[' :: (l.item ++ (l.mapping m ++ (l.moreItems ms ++ r))) := by
      rw [Layout.sequence, List.cons_append, Json.skipSpace_cons rfl]
      simp
    have hskip : Json.skipSpace (l.item ++ '\x7b' :: u) = '\x7b' :: u := by
      rw [Json.skipSpace_append hl.item, Json.skipSpace_cons rfl]
    rw [hu] at hrecords hopen
    rw [List.nil_append] at hrecords
    rw [readList, hopen]
    simp only [hskip]
    split
    · next heq => exact absurd (List.cons.inj heq).1 (by decide)
    · rw [hrecords]
      cases (m :: ms).mapM ofText with
      | error e => rfl
      | ok records =>
        simp only [Except.map, bind, Except.bind, hfinished]
        rfl

end ItemConditions.Record
