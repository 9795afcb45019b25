import ItemConditions.Slot
import ItemConditions.Proofs.Script.Pieces

/-!
# Scripts read back

A script that is read and written is read as the same conditions, and from then on its text stays.
Exactly the lists of conditions that clauses can express survive being written.

## Main definitions

* `Script.found`: what is found of a record that is written

## Main results

* `Script.isWritable_of_mem_read`: every condition of a script can be written
* `Script.read_eq_flatMap_found`: every record is found for itself in what is written
* `Script.read_of_write?`: what is written is read back
* `Slot.script_stable`: after one pass a script is a fixed point
* `Slot.script_survives_iff`: which lists of conditions survive being written
-/

namespace ItemConditions

namespace Script

open Clause (IsWritable IsExpressible reread)

/-! ## Reading -/

theorem read_eq_map_clauses (t : Text) :
    read t = (clauses ((mark.isPrefixOf? (Text.trim t)).getD (Text.trim t))).map Clause.read := rfl

/-- Every condition of a script can be written, and its amount is a number. -/
theorem isWritable_of_mem_read {t : Text} {r : Record} (h : r ∈ read t) :
    IsWritable r.condition ∧ r.amount ≠ .nan := by
  rw [read_eq_map_clauses] at h
  obtain ⟨clause, hclause, rfl⟩ := List.mem_map.mp h
  exact Clause.isWritable_read (isPiece_of_mem_clauses hclause)

/-! ## Writing -/

/-- The layout of a script: the mark, blanks, and the joined clauses. -/
theorem write?_layout {rs : List Record} {e : Text} (h : write? rs = some e) :
    ∃ lead, (lead = [' '] ∨ lead = "\n  ".toList) ∧
      e = mark ++ (lead ++ List.intercalate separator (rs.map Clause.write)) := by
  unfold write? at h
  split at h
  · simp at h
  · next clause hclauses =>
    refine ⟨[' '], Or.inl rfl, ?_⟩
    rw [hclauses, List.intercalate_singleton]
    exact (Option.some.inj h).symm
  · refine ⟨"\n  ".toList, Or.inr rfl, ?_⟩
    rw [← List.append_assoc]
    exact (Option.some.inj h).symm

theorem write?_eq_none_iff {rs : List Record} : write? rs = none ↔ rs = [] := by
  unfold write?
  split
  · next h => simpa using h
  · next h =>
    simp only [reduceCtorEq, false_iff]
    rintro rfl
    simp at h
  · next h _ =>
    simp only [reduceCtorEq, false_iff]
    rintro rfl
    exact h rfl

theorem ne_nil_of_write? {rs : List Record} {e : Text} (h : write? rs = some e) : e ≠ [] := by
  obtain ⟨lead, -, rfl⟩ := write?_layout h
  simp [mark]

theorem write?_congr {rs ss : List Record} (h : rs.map Clause.write = ss.map Clause.write) :
    write? rs = write? ss := by
  rw [write?, write?, h]

/-- What stands behind the mark is all that is read, even where the script ends in blanks. -/
theorem read_mark_append (body : Text) : read (mark ++ body) = (clauses body).map Clause.read := by
  have hmark : mark = ['j', 's', ':'] := rfl
  have htrim : Text.trim (mark ++ body) = mark ++ Text.trimEnd body := by
    rw [Text.trim, Text.trimStart_eq_self (by simp [hmark, Text.isBlank]),
      Text.trimEnd_append (by simp [hmark, Text.isBlank])]
  rw [read_eq_map_clauses, htrim, Text.isPrefixOf?_append, Option.getD_some, clauses_trimEnd]

/-- **What is found of a record** that is written to a script. -/
def found (r : Record) : List Record := (clauses (Clause.write r)).map Clause.read

/-- Every record is found for itself, whatever is written for it and around it. -/
theorem read_eq_flatMap_found {rs : List Record} {e : Text} (he : write? rs = some e) :
    read e = rs.flatMap found := by
  obtain ⟨lead, hlead, rfl⟩ := write?_layout he
  have hblank : ∀ t, clauses (lead ++ t) = clauses t := by
    intro t
    rcases hlead with rfl | rfl
    · exact clauses_cons_blank rfl t
    · exact (clauses_cons_blank rfl _).trans
        ((clauses_cons_blank rfl _).trans (clauses_cons_blank rfl t))
  rw [read_mark_append, hblank, clauses_intercalate, List.flatMap_map, List.map_flatMap]
  rfl

theorem found_eq_singleton {r : Record} (h : IsWritable r.condition) : found r = [reread r] := by
  rw [found, clauses_eq_singleton (Clause.isPiece_write h), List.map_singleton, Clause.read_write h]

theorem flatMap_found {rs : List Record} (h : ∀ r ∈ rs, IsWritable r.condition) :
    rs.flatMap found = rs.map reread := by
  rw [List.flatMap_congr fun r hr => found_eq_singleton (h r hr)]
  exact List.flatMap_pure_eq_map reread rs

/-- **What is written is read back.** -/
theorem read_of_write? {rs : List Record} {e : Text} (h : ∀ r ∈ rs, IsWritable r.condition)
    (he : write? rs = some e) : read e = rs.map reread := by
  rw [read_eq_flatMap_found he, flatMap_found h]

/-- What is read back is written the same. -/
theorem write?_map_reread {rs : List Record} (h : ∀ r ∈ rs, IsWritable r.condition) :
    write? (rs.map reread) = write? rs := by
  refine write?_congr ?_
  rw [List.map_map]
  exact List.map_congr_left fun r hr => Clause.write_reread (h r hr)

/-! ## What survives -/

/-- Conditions that can be written and are read back with the same amount can be expressed. -/
theorem isExpressible_of_reread {r : Record} (h : IsWritable r.condition)
    (hreread : (reread r).condition.setAmount .zero = r.condition.setAmount .zero) :
    IsExpressible r.condition := by
  refine ⟨h, ?_⟩
  by_contra hfinite
  have hkept : (reread r).condition = .raw (Clause.write r) := if_neg hfinite
  have hstructured := congrArg Condition.isStructured hreread
  rw [hkept, Condition.isStructured_setAmount, Condition.isStructured_setAmount] at hstructured
  cases hr : r.condition with
  | raw t =>
    rw [hr] at hfinite
    exact hfinite rfl
  | _ => simp [hr, Condition.isStructured] at hstructured

end Script

namespace Slot

open Clause (IsWritable IsExpressible reread)
open Script (found)

/-- **After one pass a script is a fixed point.** The second reading has the conditions of the first
one; a clause whose number was too large for a finite amount is kept text from then on. -/
theorem script_stable (t : Text) :
    (Script.read t = [] → encode .script (Script.read t) = .script none) ∧
      (Script.read t ≠ [] → ∃ e, encode .script (Script.read t) = .script (some e) ∧
        Script.read e = (Script.read t).map reread ∧
        encode .script (Script.read e) = .script (some e)) ∧
      ∀ r ∈ Script.read t, r.amount ≠ .nan := by
  have hwritable : ∀ r ∈ Script.read t, IsWritable r.condition := fun r hr =>
    (Script.isWritable_of_mem_read hr).1
  refine ⟨fun hnil => ?_, fun hne => ?_, fun r hr => (Script.isWritable_of_mem_read hr).2⟩
  · rw [hnil]
    rfl
  · cases he : Script.write? (Script.read t) with
    | none => exact absurd (Script.write?_eq_none_iff.mp he) hne
    | some e =>
      have hread := Script.read_of_write? hwritable he
      refine ⟨e, congrArg Encoded.script he, hread, ?_⟩
      rw [hread, encode, Script.write?_map_reread hwritable, he]

/-- What is read from what is written as a script, record by record. -/
theorem read?_encode_script_eq_flatMap (rs : List Record) :
    read? .script (encode .script rs).toValue? = some (rs.flatMap found) := by
  rw [encode]
  cases he : Script.write? rs with
  | none =>
    rw [Script.write?_eq_none_iff.mp he]
    rfl
  | some e => exact congrArg some (Script.read_eq_flatMap_found he)

/-- What is read from what is written as a script. Where every condition can be written, it is
known record by record. -/
theorem read?_encode_script (rs : List Record) :
    ∃ ss, read? .script (encode .script rs).toValue? = some ss ∧
      (∀ s ∈ ss, IsWritable s.condition) ∧
      ((∀ r ∈ rs, IsWritable r.condition) → ss = rs.map reread) := by
  refine ⟨_, read?_encode_script_eq_flatMap rs, fun s hs => ?_, Script.flatMap_found⟩
  obtain ⟨r, -, hfound⟩ := List.mem_flatMap.mp hs
  obtain ⟨clause, hclause, rfl⟩ := List.mem_map.mp hfound
  exact (Clause.isWritable_read (Script.isPiece_of_mem_clauses hclause)).1

/-- Conditions that are read back up to their amounts can be expressed. -/
theorem isExpressible_of_map_eq {rs ss : List Record} (hss : ∀ s ∈ ss, IsWritable s.condition)
    (hreread : (∀ r ∈ rs, IsWritable r.condition) → ss = rs.map reread)
    (h : ss.map (fun s => s.condition.setAmount .zero)
      = rs.map fun r => r.condition.setAmount .zero) :
    ∀ r ∈ rs, IsExpressible r.condition := by
  have hwritable : ∀ r ∈ rs, IsWritable r.condition := by
    intro r hr
    have hmem := List.mem_map_of_mem (f := fun r : Record => r.condition.setAmount .zero) hr
    rw [← h] at hmem
    obtain ⟨s, hs, heq⟩ := List.mem_map.mp hmem
    rw [← Clause.isWritable_setAmount _ .zero, ← heq, Clause.isWritable_setAmount]
    exact hss s hs
  rw [hreread hwritable, List.map_map, List.map_inj_left] at h
  exact fun r hr => Script.isExpressible_of_reread (hwritable r hr) (h r hr)

/-- **Exactly the conditions that clauses can express survive being written** as a script, whatever
the texts, comparators and marks of the records are. -/
theorem script_survives_iff (rs : List Record) :
    ∃ ss, read? .script (encode .script rs).toValue? = some ss ∧
      (ss.map Record.condition = rs.map Record.condition ↔
        ∀ r ∈ rs, IsExpressible r.condition) ∧
      (List.Forall₂ (fun s r : Record => s.condition.same r.condition) ss rs ↔
        ∀ r ∈ rs, IsExpressible r.condition) := by
  obtain ⟨ss, hread, hss, hreread⟩ := read?_encode_script rs
  have hsame (h : ∀ r ∈ rs, IsExpressible r.condition) : ss = rs.map reread :=
    hreread fun r hr => (h r hr).1
  have hcondition {r : Record} (h : IsExpressible r.condition) :
      (reread r).condition = r.condition := if_pos h.2
  refine ⟨ss, hread, ⟨fun h => ?_, fun h => ?_⟩, fun h => ?_, fun h => ?_⟩
  · refine isExpressible_of_map_eq hss hreread ?_
    have hmap := congrArg (List.map (Condition.setAmount .zero)) h
    rwa [List.map_map, List.map_map] at hmap
  · rw [hsame h, List.map_map]
    exact List.map_congr_left fun r hr => hcondition (h r hr)
  · refine isExpressible_of_map_eq hss hreread ?_
    rw [← List.forall₂_eq_eq_eq, List.forall₂_map_left_iff, List.forall₂_map_right_iff]
    exact h.imp fun s r hsr => Condition.setAmount_eq_of_same hsr
  · rw [hsame h, List.forall₂_map_left_iff, List.forall₂_same]
    intro r hr
    rw [hcondition (h r hr)]
    exact Condition.same_self (Binary64.ne_nan_of_isFinite (h r hr).2)

end Slot

end ItemConditions
