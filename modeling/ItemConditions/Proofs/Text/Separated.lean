import ItemConditions.Text
import Mathlib.Data.List.Basic

/-!
# Texts that fall apart

A text falls apart at a separating character into pieces that do not hold it, and texts that do not
hold it are the pieces of what they are joined to.

## Main results

* `Text.splitOn_append`: a text falls apart at a separating character
* `Text.splitOn_intercalate`: joined texts are found again
* `Text.notMem_of_mem_splitOn`: no piece holds the separating character
* `Text.head?_eq_iff_of_splitOn`: what the first piece tells
-/

namespace ItemConditions.Text

variable {sep : Char} {s t piece : Text} {pieces : List Text}

/-- The pieces are those of the library's splitting. -/
theorem splitOn_eq (sep : Char) (t : Text) : splitOn sep t = List.splitOn sep t := by
  induction t with
  | nil => rw [splitOn, List.splitOn_nil]
  | cons c t ih =>
    obtain ⟨piece, pieces, hpieces⟩ := List.exists_cons_of_ne_nil (splitOn_ne_nil sep t)
    rw [splitOn, List.splitOn_cons_eq_if_modifyHead, ← ih, hpieces]
    simp only [beq_iff_eq, List.modifyHead_cons]

theorem splitOn_eq_singleton (h : sep ∉ s) : splitOn sep s = [s] := by
  rw [splitOn_eq, List.splitOn_eq_singleton h]

/-- **A text falls apart at a separating character.** -/
theorem splitOn_append (sep : Char) (s r : Text) :
    splitOn sep (s ++ sep :: r) = splitOn sep s ++ splitOn sep r := by
  rw [splitOn_eq, splitOn_eq, splitOn_eq]
  exact List.splitOnP_append_cons s r (beq_self_eq_true sep)

/-- A piece in front of a separating character. -/
theorem splitOn_append_cons (h : sep ∉ s) (r : Text) :
    splitOn sep (s ++ sep :: r) = s :: splitOn sep r := by
  rw [splitOn_append, splitOn_eq_singleton h, List.singleton_append]

/-- **Texts without the separating character** are the pieces of what they are joined to. -/
theorem splitOn_intercalate {ss : List Text} (hne : ss ≠ []) (h : ∀ s ∈ ss, sep ∉ s) :
    splitOn sep (List.intercalate [sep] ss) = ss := by
  rw [splitOn_eq, List.splitOn_intercalate sep h hne]

theorem notMem_of_mem_splitOn (h : piece ∈ splitOn sep t) : sep ∉ piece := by
  induction t generalizing piece with
  | nil =>
    obtain rfl := List.mem_singleton.mp h
    exact List.not_mem_nil
  | cons c t ih =>
    obtain ⟨first, more, hpieces⟩ := List.exists_cons_of_ne_nil (splitOn_ne_nil sep t)
    rw [splitOn, hpieces] at h
    rw [hpieces] at ih
    split_ifs at h with hc
    · rcases List.mem_cons.mp h with rfl | h
      · exact List.not_mem_nil
      · exact ih h
    · rcases List.mem_cons.mp h with rfl | h
      · rw [List.mem_cons, not_or]
        exact ⟨Ne.symm hc, ih List.mem_cons_self⟩
      · exact ih (List.mem_cons_of_mem _ h)

/-- **A text starts with the separating character** if its first piece is empty and not the only
one. -/
theorem head?_eq_iff_of_splitOn (h : splitOn sep t = piece :: pieces) :
    t.head? = some sep ↔ piece = [] ∧ pieces ≠ [] := by
  cases t with
  | nil =>
    obtain ⟨rfl, rfl⟩ := List.cons.inj h
    simp
  | cons c t =>
    obtain ⟨first, more, hpieces⟩ := List.exists_cons_of_ne_nil (splitOn_ne_nil sep t)
    rw [splitOn, hpieces] at h
    split_ifs at h with hc
    · obtain ⟨rfl, rfl⟩ := List.cons.inj h
      simp [hc]
    · obtain ⟨rfl, rfl⟩ := List.cons.inj h
      simp [hc]

end ItemConditions.Text
