import ItemConditions.Text
import Mathlib.Data.List.Infix

/-!
# Marks in texts

Where a mark can stand in a text that is put together from parts, and what a cut at its first
occurrence finds. A mark whose first character does not come again cannot reach from one part into
the next, so a cut finds the mark that was put there.

## Main results

* `Text.getD_isPrefixOf?_eq_iff`, `Text.getD_isSuffixOf?_eq_iff`: a mark taken off an end
* `Text.infix_append_cons`: a character outside the mark keeps two parts apart
* `Text.takeWhile_append_cons`, `Text.dropWhile_append_cons`, `Text.append_cons_inj`: where a run
  of characters ends
* `Text.cut?_append`: the cut at a mark that was put there
* `Text.not_infix_of_cut?`: no mark stands before the cut
-/

namespace ItemConditions.Text

/-! ## Marks at the ends -/

theorem isPrefixOf?_eq_none_iff {p t : Text} : p.isPrefixOf? t = none ↔ ¬ p <+: t := by
  constructor
  · rintro h ⟨r, rfl⟩
    simp at h
  · intro h
    rw [Option.eq_none_iff_forall_ne_some]
    intro r hr
    exact h ⟨r, (eq_append_of_isPrefixOf? hr).symm⟩

theorem isPrefixOf?_cons_of_ne {c d : Char} (h : c ≠ d) (p t : Text) :
    (c :: p).isPrefixOf? (d :: t) = none := by
  simp [isPrefixOf?_cons_cons, h]

/-- Of two texts neither of which begins the other, none begins a continuation of the other. -/
theorem isPrefixOf?_append_eq_none {p s : Text} (h : ¬ p <+: s) (h' : ¬ s <+: p) (t : Text) :
    p.isPrefixOf? (s ++ t) = none := by
  rw [isPrefixOf?_eq_none_iff]
  intro hprefix
  rcases List.prefix_or_prefix_of_prefix hprefix (List.prefix_append s t) with hp | hs
  · exact h hp
  · exact h' hs

@[simp] theorem isSuffixOf?_append (t s : Text) : s.isSuffixOf? (t ++ s) = some t := by
  simp [List.isSuffixOf?]

theorem eq_append_of_isSuffixOf? {s t r : Text} (h : s.isSuffixOf? t = some r) : t = r ++ s := by
  obtain ⟨u, hu, rfl⟩ := Option.map_eq_some_iff.1 h
  have := congrArg List.reverse (eq_append_of_isPrefixOf? hu)
  simpa using this

section

variable {mark t rest : Text}

theorem isSuffixOf?_eq_none_iff : mark.isSuffixOf? t = none ↔ ¬ mark <:+ t := by
  constructor
  · rintro h ⟨r, rfl⟩
    simp at h
  · intro h
    rw [Option.eq_none_iff_forall_ne_some]
    intro r hr
    exact h ⟨r, (eq_append_of_isSuffixOf? hr).symm⟩

/-- A mark taken off the start, if it stands there. -/
theorem getD_isPrefixOf?_eq_iff : (mark.isPrefixOf? t).getD t = rest ↔
    ∃ opening, t = opening ++ rest ∧ (opening = mark ∨ opening = [] ∧ ¬ mark <+: t) := by
  constructor
  · rintro rfl
    cases h : mark.isPrefixOf? t with
    | none => exact ⟨[], rfl, Or.inr ⟨rfl, isPrefixOf?_eq_none_iff.mp h⟩⟩
    | some r => exact ⟨mark, eq_append_of_isPrefixOf? h, Or.inl rfl⟩
  · rintro ⟨opening, rfl, rfl | ⟨rfl, h⟩⟩
    · rw [isPrefixOf?_append, Option.getD_some]
    · rw [isPrefixOf?_eq_none_iff.mpr h, Option.getD_none, List.nil_append]

/-- A mark taken off the end, if it stands there. -/
theorem getD_isSuffixOf?_eq_iff : (mark.isSuffixOf? t).getD t = rest ↔
    ∃ closing, t = rest ++ closing ∧ (closing = mark ∨ closing = [] ∧ ¬ mark <:+ rest) := by
  constructor
  · rintro rfl
    cases h : mark.isSuffixOf? t with
    | none => exact ⟨[], by simp, Or.inr ⟨rfl, isSuffixOf?_eq_none_iff.mp h⟩⟩
    | some r => exact ⟨mark, eq_append_of_isSuffixOf? h, Or.inl rfl⟩
  · rintro ⟨closing, rfl, rfl | ⟨rfl, h⟩⟩
    · rw [isSuffixOf?_append, Option.getD_some]
    · rw [List.append_nil, isSuffixOf?_eq_none_iff.mpr h, Option.getD_none]

end

/-! ## Marks inside -/

/-- A character outside the mark keeps two parts apart: the mark lies in one of them. -/
theorem infix_append_cons {mark a b : Text} {c : Char} (hc : c ∉ mark)
    (h : mark <:+: a ++ c :: b) : mark <:+: a ∨ mark <:+: b := by
  obtain ⟨u, v, h⟩ := h
  rcases List.append_eq_append_iff.mp h with ⟨w, rfl, -⟩ | ⟨w, hw, hb⟩
  · exact Or.inl ⟨u, w, rfl⟩
  rcases List.cons_eq_append_iff.mp hb with ⟨rfl, -⟩ | ⟨w, rfl, rfl⟩
  · exact Or.inl ⟨u, [], by simpa using hw⟩
  rcases List.append_eq_append_iff.mp hw with ⟨x, rfl, hx⟩ | ⟨x, rfl, hx⟩
  · exact absurd (hx ▸ List.mem_append_right x List.mem_cons_self) hc
  · rcases List.cons_eq_append_iff.mp hx with ⟨rfl, rfl⟩ | ⟨y, rfl, rfl⟩
    · exact absurd List.mem_cons_self hc
    · exact Or.inr ⟨y, v, rfl⟩

/-- A mark that stands in a text between two characters outside it stands in the text. -/
theorem infix_of_enclosed {mark t : Text} {c d : Char} (hmark : mark ≠ []) (hc : c ∉ mark)
    (hd : d ∉ mark) (h : mark <:+: c :: t ++ [d]) : mark <:+: t := by
  rcases infix_append_cons hd h with h | h
  · rcases infix_append_cons (a := []) hc h with h | h
    · exact absurd (List.infix_nil.mp h) hmark
    · exact h
  · exact absurd (List.infix_nil.mp h) hmark

/-! ## The first character outside a class -/

/-- A run of characters of a class ends at the first one outside it. -/
theorem takeWhile_append_cons {p : Char → Bool} {s : Text} {c : Char} (hs : ∀ d ∈ s, p d)
    (hc : p c = false) (t : Text) : (s ++ c :: t).takeWhile p = s := by
  rw [List.takeWhile_append_of_pos hs, List.takeWhile_cons_of_neg (by simp [hc]), List.append_nil]

theorem dropWhile_append_cons {p : Char → Bool} {s : Text} {c : Char} (hs : ∀ d ∈ s, p d)
    (hc : p c = false) (t : Text) : (s ++ c :: t).dropWhile p = c :: t := by
  rw [List.dropWhile_append_of_pos hs, List.dropWhile_cons_of_neg (by simp [hc])]

/-- **Where a run of characters ends is told by the class**, so a text falls apart there in one
way. -/
theorem append_cons_inj {p : Char → Bool} {s s' t t' : Text} {c c' : Char} (hs : ∀ d ∈ s, p d)
    (hs' : ∀ d ∈ s', p d) (hc : p c = false) (hc' : p c' = false)
    (h : s ++ c :: t = s' ++ c' :: t') : s = s' ∧ c = c' ∧ t = t' := by
  have htake := takeWhile_append_cons hs hc t
  rw [h, takeWhile_append_cons hs' hc' t'] at htake
  obtain rfl : s' = s := htake
  exact ⟨rfl, List.cons.inj (List.append_cancel_left h)⟩

/-! ## Cuts -/

/-- **No mark stands before the cut.** -/
theorem not_infix_of_cut? {mark t before after : Text} (hmark : mark ≠ [])
    (h : cut? mark t = some (before, after)) : ¬ mark <:+: before := by
  induction t generalizing before with
  | nil => simp [cut?, hmark] at h
  | cons c r ih =>
    have hwhole := eq_append_of_cut? h
    rw [cut?] at h
    split at h
    · obtain ⟨rfl, -⟩ := Prod.mk.inj (Option.some.inj h)
      exact fun hinfix => hmark (List.infix_nil.mp hinfix)
    · next hp =>
      obtain ⟨⟨b, a⟩, hb, heq⟩ := Option.map_eq_some_iff.1 h
      obtain ⟨rfl, rfl⟩ := Prod.mk.inj heq
      rw [List.infix_cons_iff, not_or]
      refine ⟨fun hprefix => isPrefixOf?_eq_none_iff.mp hp ?_, ih hb⟩
      rw [hwhole, List.append_assoc]
      exact hprefix.trans (List.prefix_append _ _)

/-- A text without a character that begins another text ends before it. -/
theorem prefix_of_prefix_append {m a b : Text} {c : Char} (hc : c ∉ m)
    (h : m <+: a ++ c :: b) : m <+: a := by
  obtain ⟨r, h⟩ := h
  rcases List.append_eq_append_iff.mp h with ⟨w, rfl, -⟩ | ⟨w, rfl, hw⟩
  · exact List.prefix_append _ _
  · rcases List.cons_eq_append_iff.mp hw with ⟨rfl, -⟩ | ⟨x, rfl, -⟩
    · simp
    · simp at hc

/-- **The cut at a mark that was put there.** The mark's first character does not come again, so no
earlier occurrence can reach into it. -/
theorem cut?_append {c : Char} {m before : Text} (hc : c ∉ m)
    (hbefore : ¬ (c :: m) <:+: before) (after : Text) :
    cut? (c :: m) (before ++ c :: m ++ after) = some (before, after) := by
  induction before with
  | nil =>
    have h : (c :: m).isPrefixOf? (c :: (m ++ after)) = some after := isPrefixOf?_append _ _
    simp [cut?, h]
  | cons d before ih =>
    rw [List.infix_cons_iff, not_or] at hbefore
    have hnone : (c :: m).isPrefixOf? (d :: (before ++ c :: m ++ after)) = none := by
      rw [isPrefixOf?_eq_none_iff, List.cons_prefix_cons]
      rintro ⟨rfl, hm⟩
      rw [List.append_assoc, List.cons_append] at hm
      exact hbefore.1 (List.cons_prefix_cons.mpr ⟨rfl, prefix_of_prefix_append hc hm⟩)
    rw [List.cons_append, List.cons_append, cut?, hnone, ih hbefore.2]
    rfl

end ItemConditions.Text
