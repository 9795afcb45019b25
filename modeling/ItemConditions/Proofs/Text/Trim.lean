import ItemConditions.Text.Blank
import Mathlib.Data.List.DropRight

/-!
# Texts without blanks at their ends

What trimming takes away and when it takes nothing.

## Main definitions

* `Text.IsTrimmed`: a text without blanks at its two ends

## Main results

* `Text.isTrimmed_trim`, `Text.trim_eq_self`: the trimmed texts are the results of trimming
* `Text.trim_cons_blank`, `Text.trim_concat_blank`: a blank at an end does not matter
* `Text.exists_blanks`: what is trimmed away at the start
-/

namespace ItemConditions.Text

/-- **No blank stands at the two ends.** -/
def IsTrimmed (t : Text) : Prop :=
  (∀ c ∈ t.head?, isBlank c = false) ∧ ∀ c ∈ t.getLast?, isBlank c = false

theorem isBlank_of_isDigit {c : Char} (h : c.isDigit) : isBlank c = false := by
  obtain ⟨hlow, hhigh⟩ : 48 ≤ c.toNat ∧ c.toNat ≤ 57 := Char.isDigit_iff_toNat.mp h
  simp only [isBlank, Bool.or_eq_false_iff, Bool.and_eq_false_iff, decide_eq_false_iff_not,
    beq_eq_false_iff_ne]
  omega

theorem trimEnd_eq (t : Text) : trimEnd t = t.rdropWhile isBlank := rfl

theorem trimStart_cons_blank {c : Char} (hc : isBlank c) (t : Text) :
    trimStart (c :: t) = trimStart t := List.dropWhile_cons_of_pos hc

@[simp] theorem trimStart_cons {c : Char} (hc : isBlank c = false) (t : Text) :
    trimStart (c :: t) = c :: t := List.dropWhile_cons_of_neg (by simp [hc])

theorem trimStart_eq_self {t : Text} (h : ∀ c ∈ t.head?, isBlank c = false) :
    trimStart t = t := by
  cases t with
  | nil => rfl
  | cons c t => exact trimStart_cons (h c rfl) t

/-- Blanks in front are trimmed away, as far as the first other character. -/
theorem trimStart_append_cons {blanks : Text} {c : Char} (hblanks : ∀ d ∈ blanks, isBlank d)
    (hc : isBlank c = false) (t : Text) : trimStart (blanks ++ c :: t) = c :: t := by
  rw [trimStart, List.dropWhile_append_of_pos hblanks]
  exact trimStart_cons hc t

/-- **What is trimmed away at the start** are blanks. -/
theorem exists_blanks (t : Text) :
    ∃ blanks, (∀ c ∈ blanks, isBlank c) ∧ t = blanks ++ trimStart t :=
  ⟨t.takeWhile isBlank, fun _ hc => List.mem_takeWhile_imp hc,
    List.takeWhile_append_dropWhile.symm⟩

theorem trimEnd_concat_blank {c : Char} (hc : isBlank c) (t : Text) :
    trimEnd (t ++ [c]) = trimEnd t := List.rdropWhile_concat_pos _ _ _ hc

theorem trimEnd_eq_self {t : Text} (h : ∀ c ∈ t.getLast?, isBlank c = false) :
    trimEnd t = t := by
  rw [trimEnd_eq, List.rdropWhile_eq_self_iff]
  intro hne
  simpa using h _ (List.getLast?_eq_some_getLast hne)

/-- Only what stands behind a text without a blank at its end is trimmed away. -/
theorem trimEnd_append {s : Text} (h : ∀ c ∈ s.getLast?, isBlank c = false) (t : Text) :
    trimEnd (s ++ t) = s ++ trimEnd t := by
  induction t using List.reverseRecOn with
  | nil => rw [List.append_nil, trimEnd_eq_self h, trimEnd_eq, List.rdropWhile_nil, List.append_nil]
  | append_singleton t c ih =>
    rw [← List.append_assoc]
    by_cases hc : isBlank c
    · rw [trimEnd_concat_blank hc, trimEnd_concat_blank hc, ih]
    · rw [trimEnd_eq, trimEnd_eq, List.rdropWhile_concat_neg _ _ _ hc,
        List.rdropWhile_concat_neg _ _ _ hc, List.append_assoc]

theorem trim_cons_blank {c : Char} (hc : isBlank c) (t : Text) : trim (c :: t) = trim t := by
  rw [trim, trimStart_cons_blank hc, trim]

theorem trim_concat_blank {c : Char} (hc : isBlank c) (t : Text) : trim (t ++ [c]) = trim t := by
  unfold trim trimStart
  rw [List.dropWhile_append]
  split_ifs with h
  · rw [List.isEmpty_iff.mp h, List.dropWhile_cons_of_pos hc, List.dropWhile_nil]
  · exact trimEnd_concat_blank hc _

theorem trim_eq_self {t : Text} (h : IsTrimmed t) : trim t = t := by
  rw [trim, trimStart_eq_self h.1, trimEnd_eq_self h.2]

/-- **What trimming leaves is trimmed.** -/
theorem isTrimmed_trim (t : Text) : IsTrimmed (trim t) := by
  constructor
  · intro c hc
    have hprefix : trim t <+: trimStart t := List.rdropWhile_prefix _ _
    have hhead := List.head?_dropWhile_not isBlank t
    obtain ⟨r, hr⟩ := hprefix
    cases ht : trim t with
    | nil => simp [ht] at hc
    | cons d s =>
      obtain rfl : d = c := by simpa [ht] using hc
      rw [show t.dropWhile isBlank = d :: s ++ r by rw [← ht, hr, trimStart]] at hhead
      simpa using hhead
  · intro c hc
    have hne : (trimStart t).rdropWhile isBlank ≠ [] := by
      rintro h
      rw [trim, trimEnd_eq, h] at hc
      simp at hc
    have hlast := List.rdropWhile_last_not isBlank (trimStart t) hne
    rw [trim, trimEnd_eq, List.getLast?_eq_some_getLast hne] at hc
    obtain rfl := Option.mem_some_iff.mp hc
    simpa using hlast

/-- A text with another character than blanks is not trimmed away. -/
theorem trim_ne_nil {t : Text} {c : Char} (hmem : c ∈ t) (hc : isBlank c = false) :
    trim t ≠ [] := by
  obtain ⟨blanks, hblanks, ht⟩ := exists_blanks t
  intro hnil
  rw [trim, trimEnd_eq, List.rdropWhile_eq_nil_iff] at hnil
  rw [ht] at hmem
  have hblank : isBlank c := (List.mem_append.mp hmem).elim (hblanks c) (hnil c)
  simp [hc] at hblank

theorem trimStart_suffix (t : Text) : trimStart t <:+ t := List.dropWhile_suffix _

theorem trim_infix (t : Text) : trim t <:+: t :=
  (List.rdropWhile_prefix _ _).isInfix.trans (trimStart_suffix t).isInfix

end ItemConditions.Text
