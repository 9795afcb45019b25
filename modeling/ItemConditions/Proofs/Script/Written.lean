import ItemConditions.Proofs.Script.RoundTrip

/-!
# What is found of a written script

Records that are written as a script are found one by one, but not always once each. A placeholder
that holds a joint falls apart, and its clause with it. A placeholder that holds both kinds of
quotes is not written: the text of the record stands in its place, and a new record has none.

## Main definitions

* `Script.Vanishes`, `Script.Splits`: the records that are not found, or found more than once

## Main results

* `Script.clauses_compose_of_joint`: a clause falls apart with its placeholder
* `Script.found_eq_nil_iff`, `Script.one_lt_length_found_iff`: what becomes of a record
* `Slot.written_records_found`: what is found of a list of records
-/

namespace ItemConditions

namespace Clause

theorem isQuote_of_quote? {expression : Text} {q : Char} (h : quote? expression = some q) :
    IsQuote q := by
  unfold quote? at h
  split_ifs at h
  · exact .inr (Option.some.inj h).symm
  · exact .inl (Option.some.inj h).symm

end Clause

namespace Script

open Clause (joint IsQuote compose)

/-- **A clause falls apart with its placeholder**: something is left on both sides, the quotes at
least. -/
theorem clauses_compose_of_joint {q : Char} (hq : IsQuote q) {expression : Text}
    (h : joint <:+: expression) (x : Binary64) :
    ∃ first middle last, clauses (compose q expression x) = first :: (middle ++ [last]) := by
  have hne : q ≠ '&' := by rcases hq with rfl | rfl <;> decide
  have hclause : compose q expression x
      = (Clause.start ++ [q]) ++ (expression ++ q :: (") >= ".toList ++ x.toPlain)) := by
    simp only [compose, List.append_assoc, List.cons_append, List.nil_append]
  have hopen : '&' ∉ Clause.start ++ [q] := by
    rw [List.mem_append, List.mem_singleton, not_or]
    exact ⟨by decide, hne.symm⟩
  have hclose : pieces (q :: (") >= ".toList ++ x.toPlain)) = [q :: (") >= ".toList ++ x.toPlain)] :=
    pieces_eq_singleton <| Clause.joint_not_infix <|
      List.not_mem_cons_of_ne_of_not_mem hne.symm (Clause.ampersand_notMem_comparison x)
  generalize ") >= ".toList ++ x.toPlain = comparison at hclause hclose
  obtain ⟨pre, last, hpieces, hmore⟩ := exists_pieces_append expression
  cases pre with
  | nil => exact absurd h (pieces_eq_singleton_iff.mp hpieces).2
  | cons piece pre =>
    have hall : pieces (compose q expression x)
        = (Clause.start ++ [q] ++ piece) :: (pre ++ [last ++ q :: comparison]) := by
      rw [hclause, pieces_append hopen, hmore hne hclose]
      rfl
    have hfirst : Text.trim (Clause.start ++ [q] ++ piece) ≠ [] :=
      Text.trim_ne_nil (c := q) (by simp) hq.isBlank
    have hlast : Text.trim (last ++ q :: comparison) ≠ [] :=
      Text.trim_ne_nil (c := q) (by simp) hq.isBlank
    refine ⟨Text.trim (Clause.start ++ [q] ++ piece), (pre.map Text.trim).filter (· ≠ []),
      Text.trim (last ++ q :: comparison), ?_⟩
    rw [clauses, hall, List.map_cons, List.filter_cons_of_pos (by simpa using hfirst),
      List.map_append, List.filter_append, List.map_singleton,
      List.filter_cons_of_pos (by simpa using hlast), List.filter_nil]

/-! ## The records that are found -/

/-- **A record that is not found**: its placeholder cannot be quoted, and its text is blank. -/
def Vanishes (r : Record) : Prop :=
  ∃ e, Placeholder.expression? r.condition = some e ∧ Clause.quote? e = none ∧
    clauses r.rawText = []

/-- **A record that is found more than once**: its placeholder can be quoted and falls apart, or it
cannot and the text of the record falls apart. -/
def Splits (r : Record) : Prop :=
  ∃ e, Placeholder.expression? r.condition = some e ∧
    (Clause.quote? e ≠ none ∧ joint <:+: e ∨
      Clause.quote? e = none ∧ 1 < (clauses r.rawText).length)

/-- What is found of a record: by whether its placeholder can be quoted, and falls apart. -/
theorem length_found {r : Record} {e : Text} (he : Placeholder.expression? r.condition = some e) :
    (Clause.quote? e = none ∧ (found r).length = (clauses r.rawText).length) ∨
    (Clause.quote? e ≠ none ∧ ¬ joint <:+: e ∧ (found r).length = 1) ∨
    (Clause.quote? e ≠ none ∧ joint <:+: e ∧ 1 < (found r).length) := by
  rw [found, List.length_map]
  cases hquote : Clause.quote? e with
  | none => exact .inl ⟨rfl, by rw [Clause.write_eq_rawText he hquote]⟩
  | some q =>
    have hq := Clause.isQuote_of_quote? hquote
    rw [Clause.write_eq_compose he hquote]
    by_cases hjoint : joint <:+: e
    · obtain ⟨first, middle, last, hclauses⟩ := clauses_compose_of_joint hq hjoint r.amount
      refine .inr (.inr ⟨Option.some_ne_none q, hjoint, ?_⟩)
      rw [hclauses, List.length_cons, List.length_append, List.length_singleton]
      omega
    · refine .inr (.inl ⟨Option.some_ne_none q, hjoint, ?_⟩)
      rw [clauses_eq_singleton (Clause.isPiece_compose hq hjoint r.amount), List.length_singleton]

theorem found_eq_nil_iff {r : Record} (h : r.isStructured) : found r = [] ↔ Vanishes r := by
  obtain ⟨e, he⟩ := Clause.isStructured_iff.mp h
  have hvanishes : Vanishes r ↔ Clause.quote? e = none ∧ clauses r.rawText = [] := by
    simp [Vanishes, he]
  rw [hvanishes, ← List.length_eq_zero_iff, ← List.length_eq_zero_iff]
  rcases length_found he with ⟨hquote, hlength⟩ | ⟨hquote, -, hlength⟩ | ⟨hquote, -, hlength⟩
  · simp [hquote, hlength]
  · simp [hquote, hlength]
  · simp only [hquote, false_and, iff_false]
    omega

theorem one_lt_length_found_iff {r : Record} (h : r.isStructured) :
    1 < (found r).length ↔ Splits r := by
  obtain ⟨e, he⟩ := Clause.isStructured_iff.mp h
  have hsplits : Splits r ↔ Clause.quote? e ≠ none ∧ joint <:+: e ∨
      Clause.quote? e = none ∧ 1 < (clauses r.rawText).length := by
    simp [Splits, he]
  rw [hsplits]
  rcases length_found he with ⟨hquote, hlength⟩ | ⟨hquote, hjoint, hlength⟩ |
    ⟨hquote, hjoint, hlength⟩
  · simp [hquote, hlength]
  · simp [hquote, hjoint, hlength]
  · simp [hquote, hjoint, hlength]

end Script

namespace Slot

open Script (found Vanishes Splits)

/-- **What is found of a list of structured records** that is written as a script: every record for
itself, and once, unless its placeholder cannot be quoted or holds a joint. -/
theorem written_records_found {rs : List Record} (h : ∀ r ∈ rs, r.isStructured) :
    ∃ ss, read? .script (encode .script rs).toValue? = some ss ∧ ss = rs.flatMap found ∧
      (∀ r ∈ rs, (found r = [] ↔ Vanishes r) ∧ (1 < (found r).length ↔ Splits r)) ∧
      ((∀ r ∈ rs, ¬ Vanishes r ∧ ¬ Splits r) → ss.length = rs.length) := by
  have hfound : ∀ r ∈ rs, (found r = [] ↔ Vanishes r) ∧ (1 < (found r).length ↔ Splits r) :=
    fun r hr => ⟨Script.found_eq_nil_iff (h r hr), Script.one_lt_length_found_iff (h r hr)⟩
  refine ⟨_, read?_encode_script_eq_flatMap rs, rfl, hfound, fun hstands => ?_⟩
  have hone : ∀ r ∈ rs, (found r).length = 1 := by
    intro r hr
    obtain ⟨hvanishes, hsplits⟩ := hstands r hr
    rw [← (hfound r hr).1, ← List.length_eq_zero_iff] at hvanishes
    rw [← (hfound r hr).2] at hsplits
    omega
  rw [List.length_flatMap, List.map_congr_left hone]
  simp

/-- A new record of an item with a name. -/
def newItem (name : Text) : Record := { condition := .neigeItems ⟨name, ['a'], .ofNat 1, true⟩ }

/-- A name with both kinds of quotes, and a name with a joint. -/
theorem written_records_found_names :
    let quoted := newItem "It's \"it\"".toList
    let joined := newItem "Salt && Pepper".toList
    ∃ ss, read? .script (encode .script [quoted, joined]).toValue? = some ss ∧
      ss = [quoted, joined].flatMap found ∧ found quoted = [] ∧ 1 < (found joined).length := by
  intro quoted joined
  have hstructured : ∀ r ∈ [quoted, joined], r.isStructured := by
    simp [quoted, joined, newItem, Record.isStructured, Condition.isStructured]
  have hvanishes : Vanishes quoted := ⟨_, rfl, by decide +kernel, rfl⟩
  have hsplits : Splits joined := ⟨_, rfl, .inl ⟨by decide +kernel, by decide +kernel⟩⟩
  obtain ⟨ss, hread, hss, hfound, -⟩ := written_records_found hstructured
  exact ⟨ss, hread, hss, (hfound quoted (by simp)).1.mpr hvanishes,
    (hfound joined (by simp)).2.mpr hsplits⟩

/-- Conditions get lost or fall apart: an item whose name holds both kinds of quotes is not
found when it is new, and an item whose name holds a joint is found as two pieces of kept text. -/
theorem new_items_lost :
    let quoted := newItem "It's \"it\"".toList
    let joined := newItem "Salt && Pepper".toList
    (quoted.isStructured ∧ quoted.amount.isFinite ∧
      read? .script (encode .script [quoted]).toValue? = some []) ∧
    joined.isStructured ∧ joined.amount.isFinite ∧
      read? .script (encode .script [joined]).toValue? = some [
        .kept "vars(\"%checkitem_amount_nameequals:Salt".toList,
        .kept "Pepper,nbtstrings:NeigeItems..id=a%\") >= 1".toList] := by
  decide +kernel

end Slot

end ItemConditions
