import ItemConditions.Proofs.Script.RoundTrip

/-!
# Warnings of a script

The conditions of a script are written with one comparator, and every condition that was read with
another one is told of. No condition of a script has a placeholder that cannot be quoted.

## Main definitions

* `Clause.replaced`: the warning of a comparator that is not written

## Main results

* `Clause.quote?_ne_none_of_mem_read`: every placeholder of a script can be quoted
* `Clause.warning?_of_mem_read`: which condition of a script is told of
* `Slot.comparators_told`: the warnings are those of the comparators that change
-/

namespace ItemConditions

namespace Clause

variable {t : Text} {r : Record}

/-- **Every placeholder of a script can be quoted.** -/
theorem quote?_ne_none_of_mem_read (h : r ∈ Script.read t) {expression : Text}
    (hexpression : Placeholder.expression? r.condition = some expression) :
    quote? expression ≠ none := by
  rcases (Script.isWritable_of_mem_read h).1.cases with
    ⟨_, hraw, -⟩ | ⟨expression', q, hexpression', -, -, hq, -⟩
  · simp [hraw, Placeholder.expression?] at hexpression
  · obtain rfl := Option.some.inj (hexpression.symm.trans hexpression')
    simp [hq]

/-- Text that is kept has the comparator that is written. -/
theorem comparator_eq_ge_of_mem_read (h : r ∈ Script.read t)
    (hexpression : Placeholder.expression? r.condition = none) : r.comparator = .ge := by
  rw [Script.read_eq_map_clauses] at h
  obtain ⟨clause, -, rfl⟩ := List.mem_map.mp h
  have hkept : (read clause).isStructured = false := by
    by_contra hstructured
    obtain ⟨e, he⟩ := isStructured_iff.mp (Bool.not_eq_false _ ▸ hstructured)
    simp [he] at hexpression
  rw [read_eq_kept hkept]
  rfl

/-- The warning of a comparator that is not written. -/
def replaced (r : Record) : Warning := .comparatorReplaced r.rawText r.comparator

/-- **Which condition of a script is told of**: one with another comparator than is written. -/
theorem warning?_of_mem_read (h : r ∈ Script.read t) :
    warning? r = if r.comparator = .ge then none else some (replaced r) := by
  unfold warning?
  split
  · next hnone => rw [if_pos (comparator_eq_ge_of_mem_read h hnone)]
  · next expression hexpression =>
    rw [if_neg (quote?_ne_none_of_mem_read h hexpression), replaced]

end Clause

namespace Slot

open Clause (replaced reread)

/-- Where those conditions are told of that have another comparator than is written, the warnings
are those of the records that are read back with another comparator. -/
theorem warnings_eq_of_forall {rs : List Record} (h : ∀ r ∈ rs, Clause.warning? r
      = if r.comparator = .ge then none else some (replaced r)) :
    warnings .script rs = ((rs.zip (rs.map reread)).filter fun p =>
      p.2.comparator ≠ p.1.comparator).map fun p => replaced p.1 := by
  induction rs with
  | nil => rfl
  | cons r rs ih =>
    obtain ⟨hr, hrs⟩ := List.forall_mem_cons.mp h
    have hmore := ih hrs
    have hcomparator : (reread r).comparator = .ge := rfl
    rw [warnings, Script.warnings] at hmore ⊢
    by_cases hge : r.comparator = .ge
    · rw [if_pos hge] at hr
      rw [List.filterMap_cons_none hr, List.map_cons, List.zip_cons_cons,
        List.filter_cons_of_neg (by simp [hcomparator, hge]), hmore]
    · rw [if_neg hge] at hr
      rw [List.filterMap_cons_some hr, List.map_cons, List.zip_cons_cons,
        List.filter_cons_of_pos (by simp [hcomparator, Ne.symm hge]), List.map_cons, hmore]

/-- **No comparator changes without a warning.** What is written for the conditions of a script is
read as equally many conditions. The warnings are one for each condition that is read with another
comparator than before, in order; that a placeholder cannot be quoted is never among them. -/
theorem comparators_told (t : Text) :
    ∃ ss, read? .script (encode .script (Script.read t)).toValue? = some ss ∧
      ss.length = (Script.read t).length ∧
      warnings .script (Script.read t) = (((Script.read t).zip ss).filter fun p =>
        p.2.comparator ≠ p.1.comparator).map (fun p =>
          .comparatorReplaced p.1.rawText p.1.comparator) ∧
      ∀ r ∈ Script.read t, ∀ e ∈ Placeholder.expression? r.condition, Clause.quote? e ≠ none := by
  obtain ⟨ss, hread, -, hreread⟩ := read?_encode_script (Script.read t)
  obtain rfl := hreread fun r hr => (Script.isWritable_of_mem_read hr).1
  exact ⟨_, hread, List.length_map _, warnings_eq_of_forall fun r hr =>
    Clause.warning?_of_mem_read hr, fun r hr e he => Clause.quote?_ne_none_of_mem_read hr he⟩

/-- A clause with another comparator, one with the comparator that is written, and kept text. -/
theorem comparators_told_less :
    let t := "js: vars('%player_level%') < 10 && vars(\"%player_level%\") >= 2 && a > 1".toList
    ∃ ss, read? .script (encode .script (Script.read t)).toValue? = some ss ∧ ss.length = 3 ∧
      warnings .script (Script.read t)
        = [.comparatorReplaced "vars('%player_level%') < 10".toList .lt] ∧
      Clause.quote? "%player_level%".toList ≠ none := by
  intro t
  have hlength : (Script.read t).length = 3 := by decide +kernel
  have hwarnings : warnings .script (Script.read t)
      = [.comparatorReplaced "vars('%player_level%') < 10".toList .lt] := by decide +kernel
  have hlevel : ∃ r ∈ Script.read t,
      Placeholder.expression? r.condition = some "%player_level%".toList := by decide +kernel
  obtain ⟨ss, hread, hss, -, hquote⟩ := comparators_told t
  obtain ⟨r, hr, hexpression⟩ := hlevel
  exact ⟨ss, hread, hss.trans hlength, hwarnings, hquote r hr _ hexpression⟩

end Slot

end ItemConditions
