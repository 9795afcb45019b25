import ItemConditions.Script
import ItemConditions.Proofs.Clause
import ItemConditions.Proofs.Text.Trim

/-!
# The pieces of a script

A script falls apart at every double ampersand, and the pieces that are not blank are its clauses.
Texts that are joined the way clauses are written fall apart where they were joined, whatever they
are themselves.

## Main definitions

* `Script.clauses`: the pieces that are not blank, trimmed

## Main results

* `Script.joint_not_infix_of_mem_pieces`: no piece falls apart further
* `Script.exists_pieces_append`: the pieces of a text that goes on
* `Script.isPiece_of_mem_clauses`: a clause stands as one piece
* `Script.clauses_intercalate`: joined texts have the clauses of each
-/

namespace ItemConditions.Script

open Clause (joint IsPiece)

/-! ## Pieces -/

theorem joint_prefix_iff {c : Char} {r : Text} :
    joint <+: c :: r ↔ c = '&' ∧ ∃ s, r = '&' :: s := by
  have hjoint : joint = ['&', '&'] := rfl
  rw [hjoint, List.cons_prefix_cons]
  constructor
  · rintro ⟨rfl, s, rfl⟩
    exact ⟨rfl, s, rfl⟩
  · rintro ⟨rfl, s, rfl⟩
    exact ⟨rfl, s, rfl⟩

theorem pieces_ne_nil (t : Text) : pieces t ≠ [] := by
  unfold pieces
  split
  · exact List.cons_ne_nil _ _
  · split <;> exact List.cons_ne_nil _ _
  · exact List.cons_ne_nil _ _

theorem pieces_joint (r : Text) : pieces (joint ++ r) = [] :: pieces r := by
  have hjoint : joint ++ r = '&' :: '&' :: r := rfl
  rw [hjoint, pieces]

/-- A character that starts no joint belongs to the first piece. -/
theorem pieces_cons {c : Char} {r : Text} (h : ¬ joint <+: c :: r) :
    pieces (c :: r) = (pieces r).modifyHead (c :: ·) := by
  rw [pieces]
  · cases hr : pieces r with
    | nil => exact absurd hr (pieces_ne_nil r)
    | cons piece more => rfl
  · intro s hc hr
    exact h (joint_prefix_iff.mpr ⟨hc, s, hr⟩)

/-- A text without an ampersand belongs to the first piece of what it stands in front of. -/
theorem pieces_append {s : Text} (h : '&' ∉ s) (t : Text) :
    pieces (s ++ t) = (pieces t).modifyHead (s ++ ·) := by
  induction s with
  | nil => cases h : pieces t <;> simp [h]
  | cons c s ih =>
    obtain ⟨hc, hs⟩ := not_or.mp (List.mem_cons.not.mp h)
    have hcons : ¬ joint <+: c :: (s ++ t) := fun hjoint => hc (joint_prefix_iff.mp hjoint).1.symm
    rw [List.cons_append, pieces_cons hcons, ih hs, List.modifyHead_modifyHead]
    rfl

/-- The induction on the pieces of a text: it ends, falls apart, or goes on with a character of
the first piece. -/
theorem pieces_induction {P : Text → Prop} (nil : P []) (apart : ∀ r, P r → P (joint ++ r))
    (cons : ∀ c r, ¬ joint <+: c :: r → P r → P (c :: r)) (t : Text) : P t := by
  induction t using pieces.induct with
  | case1 r ih => exact apart r ih
  | case2 c r _ hr => exact absurd hr (pieces_ne_nil r)
  | case3 c r hne _ _ _ ih =>
    refine cons c r (fun h => ?_) ih
    obtain ⟨hc, s, hr⟩ := joint_prefix_iff.mp h
    exact hne s hc hr
  | case4 => exact nil

/-- The first piece is what the text starts with. -/
theorem prefix_of_head?_pieces {t piece : Text} (h : piece ∈ (pieces t).head?) : piece <+: t := by
  induction t using pieces_induction generalizing piece with
  | nil =>
    obtain rfl : [] = piece := by simpa [pieces] using h
    exact List.prefix_rfl
  | apart r =>
    obtain rfl : [] = piece := by simpa [pieces_joint] using h
    exact List.nil_prefix
  | cons c r hr ih =>
    rw [pieces_cons hr, List.head?_modifyHead] at h
    obtain ⟨p, hp, rfl⟩ := Option.map_eq_some_iff.1 h
    exact List.cons_prefix_cons.mpr ⟨rfl, ih hp⟩

/-- No piece falls apart further. -/
theorem joint_not_infix_of_mem_pieces {t piece : Text} (h : piece ∈ pieces t) :
    ¬ joint <:+: piece := by
  induction t using pieces_induction generalizing piece with
  | nil =>
    obtain rfl : piece = [] := by simpa [pieces] using h
    decide
  | apart r ih =>
    rw [pieces_joint] at h
    rcases List.mem_cons.mp h with rfl | h
    · decide
    · exact ih h
  | cons c r hr ih =>
    obtain ⟨p, more, hp⟩ := List.exists_cons_of_ne_nil (pieces_ne_nil r)
    rw [pieces_cons hr, hp, List.modifyHead_cons] at h
    rcases List.mem_cons.mp h with rfl | h
    · rw [List.infix_cons_iff, not_or]
      have hprefix : p <+: r := prefix_of_head?_pieces (by simp [hp])
      refine ⟨fun hjoint => hr (hjoint.trans ?_), ih (by simp [hp])⟩
      exact List.cons_prefix_cons.mpr ⟨rfl, hprefix⟩
    · exact ih (by simp [hp, h])

theorem pieces_eq_singleton {t : Text} (h : ¬ joint <:+: t) : pieces t = [t] := by
  induction t with
  | nil => rfl
  | cons c r ih =>
    rw [List.infix_cons_iff, not_or] at h
    rw [pieces_cons h.1, ih h.2]
    rfl

/-- No joint starts where none started before the text went on. -/
theorem joint_not_prefix_append {c d : Char} (hd : d ≠ '&') {r : Text} (h : ¬ joint <+: c :: r)
    (s : Text) : ¬ joint <+: c :: (r ++ d :: s) := by
  rw [joint_prefix_iff] at h ⊢
  rintro ⟨rfl, s', hs⟩
  cases r with
  | nil => exact hd (List.cons.inj hs).1
  | cons c' r => exact h ⟨rfl, r, by rw [(List.cons.inj hs).1]⟩

/-- **A text that goes on** with another character than an ampersand: so does its last piece. -/
theorem exists_pieces_append (t : Text) : ∃ pre last, pieces t = pre ++ [last] ∧
    ∀ {d : Char} {s first : Text} {more : List Text}, d ≠ '&' → pieces (d :: s) = first :: more →
      pieces (t ++ d :: s) = pre ++ (last ++ first) :: more := by
  induction t using pieces_induction with
  | nil => exact ⟨[], [], rfl, fun _ hs => hs⟩
  | apart r ih =>
    obtain ⟨pre, last, hr, hmore⟩ := ih
    refine ⟨[] :: pre, last, by rw [pieces_joint, hr, List.cons_append], fun hd hs => ?_⟩
    rw [List.append_assoc, pieces_joint, hmore hd hs, List.cons_append]
  | cons c r hc ih =>
    obtain ⟨pre, last, hr, hmore⟩ := ih
    cases pre with
    | nil =>
      refine ⟨[], c :: last, by rw [pieces_cons hc, hr]; rfl, fun hd hs => ?_⟩
      rw [List.cons_append, pieces_cons (joint_not_prefix_append hd hc _), hmore hd hs]
      rfl
    | cons piece pre =>
      refine ⟨(c :: piece) :: pre, last, by rw [pieces_cons hc, hr]; rfl, fun hd hs => ?_⟩
      rw [List.cons_append, pieces_cons (joint_not_prefix_append hd hc _), hmore hd hs]
      rfl

/-- Joining the pieces gives the text back. -/
theorem intercalate_pieces (t : Text) : List.intercalate joint (pieces t) = t := by
  induction t using pieces_induction with
  | nil => rfl
  | apart r ih =>
    rw [pieces_joint, List.intercalate_cons_of_ne_nil (pieces_ne_nil r), ih, List.nil_append]
  | cons c r hc ih =>
    obtain ⟨piece, more, hr⟩ := List.exists_cons_of_ne_nil (pieces_ne_nil r)
    rw [hr] at ih
    rw [pieces_cons hc, hr, List.modifyHead_cons]
    cases more with
    | nil => rw [← ih, List.intercalate_singleton, List.intercalate_singleton]
    | cons => rw [← ih, List.intercalate_cons_cons, List.intercalate_cons_cons]; rfl

/-- A text that is one piece is one without a joint. -/
theorem pieces_eq_singleton_iff {t piece : Text} :
    pieces t = [piece] ↔ piece = t ∧ ¬ joint <:+: t := by
  constructor
  · intro h
    have hpiece : piece = t := by simpa [h] using intercalate_pieces t
    exact ⟨hpiece, hpiece ▸ joint_not_infix_of_mem_pieces (h ▸ List.mem_singleton_self piece)⟩
  · rintro ⟨rfl, h⟩
    exact pieces_eq_singleton h

/-! ## Clauses -/

/-- **The clauses of a script** without its mark: the pieces that are not blank, trimmed. -/
def clauses (t : Text) : List Text := ((pieces t).map Text.trim).filter (· ≠ [])

/-- **A clause stands as one piece.** -/
theorem isPiece_of_mem_clauses {t clause : Text} (h : clause ∈ clauses t) : IsPiece clause := by
  obtain ⟨hmem, hne⟩ := List.mem_filter.mp h
  obtain ⟨piece, hpiece, rfl⟩ := List.mem_map.mp hmem
  refine ⟨by simpa using hne, Text.isTrimmed_trim piece, fun hjoint => ?_⟩
  exact joint_not_infix_of_mem_pieces hpiece (hjoint.trans (Text.trim_infix piece))

theorem clauses_cons_blank {c : Char} (hc : Text.isBlank c) (t : Text) :
    clauses (c :: t) = clauses t := by
  have hcons : ¬ joint <+: c :: t := by
    rw [joint_prefix_iff]
    rintro ⟨rfl, -⟩
    exact absurd hc (by decide)
  obtain ⟨piece, more, ht⟩ := List.exists_cons_of_ne_nil (pieces_ne_nil t)
  rw [clauses, clauses, pieces_cons hcons, ht, List.modifyHead_cons, List.map_cons, List.map_cons,
    Text.trim_cons_blank hc]

theorem clauses_eq_singleton {clause : Text} (h : IsPiece clause) : clauses clause = [clause] := by
  simp [clauses, pieces_eq_singleton h.joint_not_infix, Text.trim_eq_self h.isTrimmed, h.ne_nil]

theorem clauses_concat_blank {c : Char} (hc : Text.isBlank c) (t : Text) :
    clauses (t ++ [c]) = clauses t := by
  have hne : c ≠ '&' := by
    rintro rfl
    exact absurd hc (by decide)
  obtain ⟨pre, last, ht, hmore⟩ := exists_pieces_append t
  have hblank : pieces [c] = [[c]] :=
    pieces_eq_singleton (Clause.joint_not_infix (by simpa using hne.symm))
  rw [clauses, clauses, hmore hne hblank, ht, List.map_append, List.map_append, List.map_singleton,
    List.map_singleton, Text.trim_concat_blank hc]

/-- Blanks at the end of a script do not matter. -/
theorem clauses_trimEnd (t : Text) : clauses (Text.trimEnd t) = clauses t := by
  induction t using List.reverseRecOn with
  | nil => rfl
  | append_singleton t c ih =>
    by_cases hc : Text.isBlank c
    · rw [Text.trimEnd_concat_blank hc, clauses_concat_blank hc, ih]
    · rw [Text.trimEnd_eq_self (by simpa using hc)]

/-- A script falls apart at every separator, whatever stands on its two sides: the blank before
the joint keeps it apart from an ampersand. -/
theorem clauses_append_separator (t r : Text) :
    clauses (t ++ separator ++ r) = clauses t ++ clauses r := by
  obtain ⟨pre, last, ht, hmore⟩ := exists_pieces_append t
  have hjoint : pieces (' ' :: (joint ++ '\n' :: ' ' :: ' ' :: r))
      = [' '] :: pieces ('\n' :: ' ' :: ' ' :: r) := by
    rw [pieces_cons (by simp [joint_prefix_iff]), pieces_joint, List.modifyHead_cons]
  have hseparator : separator = ' ' :: (joint ++ ['\n', ' ', ' ']) := rfl
  have hsplit : t ++ separator ++ r = t ++ ' ' :: (joint ++ '\n' :: ' ' :: ' ' :: r) := by
    rw [hseparator, List.append_assoc, List.cons_append, List.append_assoc]
    rfl
  have hblank : clauses ('\n' :: ' ' :: ' ' :: r) = clauses r := by
    rw [clauses_cons_blank rfl, clauses_cons_blank rfl, clauses_cons_blank rfl]
  rw [hsplit, ← hblank, clauses, clauses, clauses, hmore (by decide) hjoint, ht, ← List.filter_append,
    List.map_append, List.map_append, List.map_cons, Text.trim_concat_blank rfl,
    List.map_singleton, List.append_assoc, List.singleton_append]

/-- **Joined texts have the clauses of each**, in order. -/
theorem clauses_intercalate (ts : List Text) :
    clauses (List.intercalate separator ts) = ts.flatMap clauses := by
  induction ts with
  | nil => rfl
  | cons t ts ih =>
    cases ts with
    | nil => rw [List.intercalate_singleton, List.flatMap_singleton]
    | cons t' ts =>
      rw [List.intercalate_cons_cons, clauses_append_separator, ih, ← List.flatMap_cons]

end ItemConditions.Script
