/-!
# Text

A text is a list of characters, so that the laws of lists apply to it. This module holds the cuts
that the readers of this library share: at the first mark, at every separating character, and the
replacement of the first mark. Blank and digit classes live in `Text.Blank` and `Text.Digit`.

## Main definitions

* `Text.cut?`: the two sides of the first occurrence of a mark
* `Text.replaceFirst`: the text with the first occurrence of a mark replaced
* `Text.splitOn`: the pieces between the occurrences of a character

## Main results

* `Text.eq_append_of_cut?`: a cut loses nothing but the mark
* `Text.intercalate_splitOn`: joining the pieces gives the text back
-/

namespace ItemConditions

/-- A text: its characters in order. -/
abbrev Text := List Char

namespace Text

/-- **The first occurrence of a mark**: what stands before it and what stands after it. -/
def cut? (mark : Text) : Text → Option (Text × Text)
  | [] => if mark = [] then some ([], []) else none
  | c :: r =>
    match mark.isPrefixOf? (c :: r) with
    | some after => some ([], after)
    | none => (cut? mark r).map fun (before, after) => (c :: before, after)

theorem isPrefixOf?_nil {α : Type} [BEq α] (t : List α) : [].isPrefixOf? t = some t := by
  cases t <;> rfl

theorem isPrefixOf?_cons_nil {α : Type} [BEq α] (c : α) (p : List α) :
    (c :: p).isPrefixOf? [] = none := rfl

theorem isPrefixOf?_cons_cons {α : Type} [BEq α] (c d : α) (p t : List α) :
    (c :: p).isPrefixOf? (d :: t) = if c == d then p.isPrefixOf? t else none := rfl

theorem eq_append_of_isPrefixOf? {p t r : Text} (h : p.isPrefixOf? t = some r) : t = p ++ r := by
  induction p generalizing t with
  | nil => simpa [isPrefixOf?_nil, eq_comm] using h
  | cons c p ih =>
    cases t with
    | nil => simp [isPrefixOf?_cons_nil] at h
    | cons d t =>
      by_cases hcd : c = d
      · subst hcd
        simp only [isPrefixOf?_cons_cons, beq_self_eq_true, ↓reduceIte] at h
        simp [ih h]
      · simp [isPrefixOf?_cons_cons, hcd] at h

@[simp] theorem isPrefixOf?_append (p r : Text) : p.isPrefixOf? (p ++ r) = some r := by
  induction p with
  | nil => simp [isPrefixOf?_nil]
  | cons c p ih => simp [isPrefixOf?_cons_cons, ih]

/-- A cut loses nothing but the mark. -/
theorem eq_append_of_cut? {mark t before after : Text}
    (h : cut? mark t = some (before, after)) : t = before ++ mark ++ after := by
  induction t generalizing before after with
  | nil =>
    by_cases hm : mark = [] <;> simp [cut?, hm] at h
    simp [h, hm]
  | cons c r ih =>
    rw [cut?] at h
    split at h
    · next rest hp =>
      obtain ⟨rfl, rfl⟩ := Prod.mk.inj (Option.some.inj h)
      simpa using eq_append_of_isPrefixOf? hp
    · obtain ⟨⟨b, a⟩, hb, heq⟩ := Option.map_eq_some_iff.1 h
      obtain ⟨rfl, rfl⟩ := Prod.mk.inj heq
      simp [ih hb]

/-- The text with the first occurrence of `old`, if there is one, replaced by `new`. -/
def replaceFirst (old new t : Text) : Text :=
  match cut? old t with
  | some (before, after) => before ++ new ++ after
  | none => t

/-- **The pieces between the occurrences of a character**, in order; a text without the character
is its own single piece. -/
def splitOn (sep : Char) : Text → List Text
  | [] => [[]]
  | c :: r =>
    if c = sep then [] :: splitOn sep r
    else match splitOn sep r with
      | [] => [[c]]
      | piece :: pieces => (c :: piece) :: pieces

theorem splitOn_ne_nil (sep : Char) (t : Text) : splitOn sep t ≠ [] := by
  cases t with
  | nil => simp [splitOn]
  | cons c r =>
    rw [splitOn]
    split
    · simp
    · split <;> simp

/-- Joining the pieces with the separating character gives the text back. -/
theorem intercalate_splitOn (sep : Char) (t : Text) :
    List.intercalate [sep] (splitOn sep t) = t := by
  induction t with
  | nil => simp [splitOn, List.intercalate]
  | cons c r ih =>
    rw [splitOn]
    obtain ⟨piece, pieces, hr⟩ := List.exists_cons_of_ne_nil (splitOn_ne_nil sep r)
    rw [hr] at ih ⊢
    split
    · next h =>
      subst h
      simp [List.intercalate, List.intersperse] at ih ⊢
      exact ih
    · cases pieces <;> simp_all [List.intercalate]

/-- A text of `n` copies of a character. -/
def repeated (n : Nat) (c : Char) : Text := List.replicate n c

/-- The decimal numeral of a natural number, without leading zeros. -/
def ofNat (n : Nat) : Text := Nat.toDigits 10 n

/-- The decimal numeral of an integer, with a minus sign for a negative one. -/
def ofInt : Int → Text
  | .ofNat n => ofNat n
  | .negSucc n => '-' :: ofNat (n + 1)

/-- The number that a non-empty list of decimal digits denotes; `none` for anything else. -/
def toNat? (t : Text) : Option Nat :=
  if t ≠ [] ∧ t.all Char.isDigit then
    some (t.foldl (fun n c => 10 * n + (c.toNat - '0'.toNat)) 0)
  else none

/-- The value of a hexadecimal digit. -/
def hexValue? (c : Char) : Option Nat :=
  if c.isDigit then some (c.toNat - '0'.toNat)
  else if 'a' ≤ c ∧ c ≤ 'f' then some (c.toNat - 'a'.toNat + 10)
  else if 'A' ≤ c ∧ c ≤ 'F' then some (c.toNat - 'A'.toNat + 10)
  else none

end Text

end ItemConditions
