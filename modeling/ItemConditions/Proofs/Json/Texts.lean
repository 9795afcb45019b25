import ItemConditions.Proofs.Fallible
import ItemConditions.Proofs.Json.Quoted
import Mathlib.Data.List.Basic

/-!
# Sequences of texts as JSON

A sequence of texts is read back from its compact text, whatever characters the texts hold. However
a sequence of texts is spelled, its spelling is longer than the texts joined by a character: each of
them stands in quotes, and no escape is shorter than the character that it denotes.

## Main results

* `Json.readTexts?_compact`: a sequence of texts is read back
* `Json.length_intercalate_lt`: a sequence of texts is shorter when it is joined
-/

namespace ItemConditions.Json

variable {t r s : Text} {ss : List Text} {fuel depth : Nat}

/-! ## Reading back -/

theorem mapM_eq_some_iff {f : Value → Option Text} (hf : ∀ x s, f x = some s ↔ x = .string s)
    {xs : List Value} : xs.mapM f = some ss ↔ xs = ss.map .string := by
  induction xs generalizing ss with
  | nil => cases ss <;> simp
  | cons x xs ih =>
    rw [List.mapM_cons]
    simp only [Option.bind_eq_bind, Option.bind_eq_some_iff, hf, ih]
    cases ss with
    | nil => simp
    | cons s ss => simp [and_comm]

/-- A text holds a sequence of texts if it is read as one. -/
theorem readTexts?_eq_some_iff : readTexts? t = some ss ↔ read t = .ok (Value.ofTexts ss) := by
  unfold readTexts?
  split
  · next xs hread =>
    rw [mapM_eq_some_iff (fun x s => by cases x <;> simp), hread, Value.ofTexts]
    simp
  · next hne =>
    simp only [reduceCtorEq, false_iff]
    exact hne (ss.map .string)

theorem value_quote (fuel depth : Nat) (s r : Text) :
    value (fuel + 1) depth (quote s ++ r) = .ok (.string s, r) := by
  have hskip : skipSpace (quote s ++ r) = '"' :: (s.flatMap escape ++ '"' :: r) := by
    rw [quote_append]
    rfl
  rw [value, hskip]
  simp only [if_true, string_quote]
  rfl

/-- The items after the first are read one by one. -/
theorem items_texts (h : ss.length < fuel) (depth : Nat) (r : Text) :
    items fuel depth (compactItems (ss.map .string) ++ r) = .ok (ss.map .string, r) := by
  induction ss generalizing fuel with
  | nil =>
    obtain ⟨fuel, rfl⟩ := Nat.exists_eq_succ_of_ne_zero (Nat.ne_of_gt h)
    rw [items]
    rfl
  | cons s ss ih =>
    rw [List.length_cons] at h
    obtain ⟨fuel, rfl⟩ : ∃ n, fuel = n + 2 := ⟨fuel - 2, by omega⟩
    have hskip : skipSpace (compactItems ((s :: ss).map .string) ++ r)
        = ',' :: (quote s ++ (compactItems (ss.map .string) ++ r)) := by
      rw [List.map_cons, compactItems, List.cons_append, List.append_assoc]
      rfl
    rw [items, hskip]
    have hmore := ih (show ss.length < fuel + 1 by omega)
    simp only [value_quote, hmore, bind, Except.bind]
    rfl

/-- A sequence of texts is read as a value. -/
theorem value_texts (h : ss.length < fuel) (depth : Nat) (r : Text) :
    value (fuel + 1) (depth + 1) (compact (Value.ofTexts ss) ++ r)
      = .ok (Value.ofTexts ss, r) := by
  cases ss with
  | nil =>
    have hskip : skipSpace (compact (Value.ofTexts []) ++ r) = '[' :: ']' :: r := rfl
    rw [value, hskip]
    rfl
  | cons s ss =>
    rw [List.length_cons] at h
    obtain ⟨fuel, rfl⟩ : ∃ n, fuel = n + 1 := ⟨fuel - 1, by omega⟩
    have hskip : skipSpace (compact (Value.ofTexts (s :: ss)) ++ r)
        = '[' :: (quote s ++ (compactItems (ss.map .string) ++ r)) := by
      rw [Value.ofTexts, List.map_cons, compact, List.cons_append, List.append_assoc]
      rfl
    have hitem : skipSpace (quote s ++ (compactItems (ss.map .string) ++ r))
        = '"' :: (s.flatMap escape ++ '"' :: (compactItems (ss.map .string) ++ r)) := by
      rw [quote_append]
      rfl
    have hitems := items_texts (show ss.length < fuel + 1 by omega) depth r
    rw [value, hskip]
    simp only
    rw [if_neg (by decide), if_pos trivial]
    simp only [hitem]
    rw [value_quote]
    simp only [bind, Except.bind, hitems]
    rfl

theorem length_lt_compactItems (xs : List Value) : xs.length < (compactItems xs).length := by
  induction xs with
  | nil => simp [compactItems]
  | cons x xs ih =>
    simp only [compactItems, List.length_cons, List.length_append]
    omega

/-- **A sequence of texts is read back.** -/
theorem readTexts?_compact (ss : List Text) : readTexts? (compact (Value.ofTexts ss)) = some ss := by
  have hlength : ss.length < 2 * (compact (Value.ofTexts ss)).length + 1 := by
    cases ss with
    | nil => simp
    | cons s ss =>
      have := length_lt_compactItems (ss.map .string)
      simp only [Value.ofTexts, List.map_cons, compact, List.length_cons, List.length_append,
        List.length_map] at this ⊢
      omega
  have hvalue := value_texts hlength 126 []
  rw [List.append_nil] at hvalue
  rw [readTexts?_eq_some_iff, read, valueWithin, depthLimit, hvalue]
  rfl

/-! ## The length of a spelling -/

theorem length_of_unit? {n : Nat} (h : unit? t = some (n, r)) : r.length < t.length := by
  unfold unit? at h
  split at h
  · simp only [Option.bind_eq_bind, Option.bind_eq_some_iff, Option.pure_def] at h
    obtain ⟨_, -, _, -, _, -, _, -, h⟩ := h
    obtain ⟨-, rfl⟩ := Prod.mk.inj (Option.some.inj h)
    simp only [List.length_cons]
    omega
  · simp at h

theorem length_of_lowHalf {high : Nat} {c : Char} (h : lowHalf high t = .ok (c, r)) :
    r.length < t.length := by
  unfold lowHalf at h
  split at h
  · split at h
    · next hunit =>
      split_ifs at h
      obtain ⟨-, rfl⟩ := Prod.mk.inj (Except.ok.inj h)
      have := length_of_unit? hunit
      simp only [List.length_cons]
      omega
    · simp at h
  · simp at h

/-- An escape takes a character at least. -/
theorem length_of_escaped {c : Char} (h : escaped t = .ok (c, r)) : r.length < t.length := by
  unfold escaped at h
  split at h
  case h_9 rest =>
    split at h
    · simp at h
    · next code r' hunit =>
      have hlength := length_of_unit? hunit
      rw [List.length_cons]
      split_ifs at h
      · have := length_of_lowHalf h
        omega
      · obtain ⟨-, rfl⟩ := Prod.mk.inj (Except.ok.inj h)
        omega
  all_goals simp only [Except.ok.injEq, Prod.mk.injEq, reduceCtorEq] at h
  all_goals
    obtain ⟨-, rfl⟩ := h
    simp

/-- A text in quotes is no longer than its spelling, of which the closing quote is a part. -/
theorem length_of_stringBody (h : stringBody fuel t = .ok (s, r)) :
    s.length + r.length < t.length := by
  induction fuel generalizing t s with
  | zero => simp [stringBody] at h
  | succ fuel ih =>
    cases t with
    | nil => simp [stringBody] at h
    | cons c t =>
      rw [stringBody] at h
      split_ifs at h
      · obtain ⟨rfl, rfl⟩ := Prod.mk.inj (Except.ok.inj h)
        simp
      · split at h
        · simp at h
        · next d r' hescaped =>
          obtain ⟨⟨s', _⟩, hbody, heq⟩ := ok_of_map h
          obtain ⟨rfl, rfl⟩ := Prod.mk.inj heq
          have := ih hbody
          have := length_of_escaped hescaped
          simp only [List.length_cons]
          omega
      · obtain ⟨⟨s', _⟩, hbody, heq⟩ := ok_of_map h
        obtain ⟨rfl, rfl⟩ := Prod.mk.inj heq
        have := ih hbody
        simp only [List.length_cons]
        omega

theorem eq_of_word {spelling : Text} {v w : Value} (h : word spelling v t = .ok (w, r)) :
    w = v := by
  unfold word at h
  split at h
  · exact (Prod.mk.inj (Except.ok.inj h)).1.symm
  · simp at h

/-- How a text or a sequence is read: a text in quotes, or items in brackets. -/
theorem cases_of_value {v : Value} (h : value fuel depth t = .ok (v, r)) :
    (∃ q s, skipSpace t = '"' :: q ∧ string q = .ok (s, r) ∧ v = .string s) ∨
    (∃ q n d, skipSpace t = '[' :: q ∧
      ((skipSpace q = ']' :: r ∧ v = .sequence []) ∨ ∃ x xs q', value n d q = .ok (x, q') ∧
        items n d q' = .ok (xs, r) ∧ v = .sequence (x :: xs))) ∨
    (∀ s, v ≠ .string s) ∧ ∀ xs, v ≠ .sequence xs := by
  obtain ⟨fuel, rfl⟩ : ∃ n, fuel = n + 1 := by
    cases fuel with
    | zero => simp [value] at h
    | succ fuel => exact ⟨fuel, rfl⟩
  rw [value] at h
  split at h
  · simp at h
  · next c q hskip =>
    split_ifs at h with hquote hbracket hbrace
    · obtain ⟨⟨s, _⟩, hstring, heq⟩ := ok_of_map h
      obtain ⟨rfl, rfl⟩ := Prod.mk.inj heq
      exact .inl ⟨q, s, by rw [hskip, hquote], hstring, rfl⟩
    · refine .inr (.inl ?_)
      split at h
      · simp at h
      · next d =>
        refine ⟨q, fuel, d, by rw [hskip, hbracket], ?_⟩
        split at h
        · next r' hclose =>
          obtain ⟨rfl, rfl⟩ := Prod.mk.inj (Except.ok.inj h)
          exact .inl ⟨hclose, rfl⟩
        · obtain ⟨⟨x, q'⟩, hvalue, h⟩ := ok_of_bind h
          obtain ⟨⟨xs, r'⟩, hitems, h⟩ := ok_of_bind h
          obtain ⟨rfl, rfl⟩ := Prod.mk.inj (Except.ok.inj h)
          exact .inr ⟨x, xs, q', hvalue, hitems, rfl⟩
    · refine .inr (.inr ?_)
      split at h
      · simp at h
      · split at h
        · obtain ⟨rfl, -⟩ := Prod.mk.inj (Except.ok.inj h)
          simp
        · obtain ⟨_, -, h⟩ := ok_of_bind h
          obtain ⟨_, -, h⟩ := ok_of_bind h
          obtain ⟨rfl, -⟩ := Prod.mk.inj (Except.ok.inj h)
          simp
    · obtain rfl := eq_of_word h
      simp
    · obtain rfl := eq_of_word h
      simp
    · obtain rfl := eq_of_word h
      simp
    · obtain ⟨_, -, heq⟩ := ok_of_map h
      obtain ⟨rfl, -⟩ := Prod.mk.inj heq
      simp

/-- How the items behind the first are read: a closing bracket, or a comma and an item. -/
theorem cases_of_items {xs : List Value} (h : items fuel depth t = .ok (xs, r)) :
    (skipSpace t = ']' :: r ∧ xs = []) ∨ ∃ n q x ys q', fuel = n + 1 ∧ skipSpace t = ',' :: q ∧
      value n depth q = .ok (x, q') ∧ items n depth q' = .ok (ys, r) ∧ xs = x :: ys := by
  cases fuel with
  | zero => simp [items] at h
  | succ fuel =>
    rw [items] at h
    split at h
    · next q hskip =>
      obtain ⟨rfl, rfl⟩ := Prod.mk.inj (Except.ok.inj h)
      exact .inl ⟨hskip, rfl⟩
    · next q hskip =>
      obtain ⟨⟨x, q'⟩, hvalue, h⟩ := ok_of_bind h
      obtain ⟨⟨ys, r'⟩, hitems, h⟩ := ok_of_bind h
      obtain ⟨rfl, rfl⟩ := Prod.mk.inj (Except.ok.inj h)
      exact .inr ⟨fuel, q, x, ys, q', rfl, hskip, hvalue, hitems, rfl⟩
    · simp at h
    · simp at h

theorem length_skipSpace_le (t : Text) : (skipSpace t).length ≤ t.length :=
  (List.dropWhile_suffix isSpace).length_le

/-- A text is shorter than its spelling as a value. -/
theorem length_of_value (h : value fuel depth t = .ok (.string s, r)) :
    s.length + r.length + 2 ≤ t.length := by
  rcases cases_of_value h with ⟨q, s', hskip, hstring, heq⟩ | ⟨_, _, _, -, h⟩ | ⟨h, -⟩
  · obtain rfl := Value.string.inj heq
    have hspace := length_skipSpace_le t
    have hbody := length_of_stringBody hstring
    rw [hskip, List.length_cons] at hspace
    omega
  · simp at h
  · exact absurd rfl (h s)

/-- The room that some texts take when each is followed by one character. -/
def room : List Text → Nat
  | [] => 0
  | s :: ss => s.length + 1 + room ss

theorem length_of_items (h : items fuel depth t = .ok (ss.map .string, r)) :
    room ss + r.length < t.length := by
  induction ss generalizing fuel t with
  | nil =>
    have hspace := length_skipSpace_le t
    rcases cases_of_items h with ⟨hclose, -⟩ | ⟨_, _, _, _, _, -, -, -, -, heq⟩
    · rw [hclose, List.length_cons] at hspace
      rw [room]
      omega
    · simp at heq
  | cons s ss ih =>
    have hspace := length_skipSpace_le t
    rcases cases_of_items h with ⟨-, heq⟩ | ⟨n, q, x, xs, q', -, hskip, hvalue, hitems, heq⟩
    · simp at heq
    · obtain ⟨rfl, rfl⟩ := List.cons.inj heq
      have hitem := length_of_value hvalue
      have hmore := ih hitems
      rw [hskip, List.length_cons] at hspace
      rw [room]
      omega

/-- Texts take less room than their spelling as a sequence. -/
theorem length_of_texts (h : value fuel depth t = .ok (Value.ofTexts ss, r)) :
    room ss + r.length < t.length := by
  have hspace := length_skipSpace_le t
  rcases cases_of_value h with ⟨_, _, -, -, h⟩ | ⟨q, n, d, hskip, h⟩ | ⟨-, h⟩
  · simp [Value.ofTexts] at h
  · rw [hskip, List.length_cons] at hspace
    have hinner := length_skipSpace_le q
    rcases h with ⟨hclose, heq⟩ | ⟨x, xs, q', hvalue, hitems, heq⟩
    · obtain rfl : ss = [] := List.map_eq_nil_iff.mp (Value.sequence.inj heq)
      rw [hclose, List.length_cons] at hinner
      rw [room]
      omega
    · obtain ⟨s, ss, rfl, rfl, rfl⟩ := List.map_eq_cons_iff.mp (Value.sequence.inj heq)
      have hitem := length_of_value hvalue
      have hmore := length_of_items hitems
      rw [room]
      omega
  · exact absurd rfl (h _)

theorem length_intercalate_le (c : Char) (ss : List Text) :
    (List.intercalate [c] ss).length ≤ room ss := by
  induction ss with
  | nil => simp
  | cons s ss ih =>
    cases ss with
    | nil => simp [room]
    | cons s' ss =>
      rw [List.intercalate_cons_cons, List.length_append, List.length_append]
      rw [List.length_singleton, room]
      omega

/-- **A sequence of texts is shorter when it is joined** than any spelling of it. -/
theorem length_intercalate_lt (h : readTexts? t = some ss) (c : Char) :
    (List.intercalate [c] ss).length < t.length := by
  obtain ⟨⟨v, rest⟩, hvalue, hread⟩ := ok_of_bind (readTexts?_eq_some_iff.mp h)
  obtain ⟨_, -, hread⟩ := ok_of_bind hread
  obtain rfl : v = Value.ofTexts ss := Except.ok.inj hread
  have hroom := length_of_texts hvalue
  have hjoined := length_intercalate_le c ss
  omega

end ItemConditions.Json
