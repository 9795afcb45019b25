import ItemConditions.Json.Printer
import ItemConditions.Json.Reader
import ItemConditions.Proofs.Binary64.Numeral
import ItemConditions.Proofs.Value.Index

/-!
# Document numerals read

A number is read up to the first character that cannot belong to one. The numeral that is written
for a finite number has digits before a point, digits behind it, and an exponent, of which one of
the last two may be missing; it is read as a whole, and the number that its digits spell is the
answer.

## Main definitions

* `Json.Ends`: a text that does not go on with a number
* `Json.Parts`: the parts of a numeral
* `Json.Parts.IsProper`, `Json.Parts.decimal`: those of a document numeral, and what they spell

## Main results

* `Json.number_append`: what stands behind a number does not matter
* `Json.unsignedNumber_text`: a numeral is read by its parts
* `Json.exists_parts`: the parts of the numeral of a finite number
-/

namespace ItemConditions

namespace Json

/-! ## The end of a number -/

/-- A character that may stand inside a number. -/
def isNumberChar (c : Char) : Bool := c.isDigit || ['.', 'e', 'E', '+', '-'].contains c

/-- **A text that does not go on with a number.** -/
def Ends (r : Text) : Prop := ∀ c, r.head? = some c → isNumberChar c = false

variable {r : Text}

theorem ends_cons {c : Char} (h : isNumberChar c = false) (r : Text) : Ends (c :: r) := by
  intro d hd
  obtain rfl := Option.some.inj hd
  exact h

theorem Ends.cases (h : Ends r) : r = [] ∨ ∃ c r', r = c :: r' ∧ c.isDigit = false ∧ c ≠ '.' ∧
    c ≠ 'e' ∧ c ≠ 'E' ∧ c ≠ '+' ∧ c ≠ '-' := by
  cases r with
  | nil => exact Or.inl rfl
  | cons c r =>
    have hc := h c rfl
    simp only [isNumberChar, Bool.or_eq_false_iff, List.contains_eq_mem, List.mem_cons,
      List.not_mem_nil, or_false, decide_eq_false_iff_not, not_or] at hc
    exact Or.inr ⟨c, r, rfl, hc⟩

/-- The digits in front end where they ended before. -/
theorem digits_append (hr : Ends r) (t : Text) :
    (t ++ r).takeWhile Char.isDigit = t.takeWhile Char.isDigit ∧
      (t ++ r).dropWhile Char.isDigit = t.dropWhile Char.isDigit ++ r := by
  induction t with
  | nil => obtain rfl | ⟨c, r, rfl, hc, -⟩ := hr.cases <;> simp_all
  | cons c t ih =>
    cases hc : c.isDigit with
    | false => simp [hc]
    | true => simpa [hc] using ih

theorem fraction_append (hr : Ends r) (t : Text) :
    fraction (t ++ r) = (fraction t).map fun (places, rest) => (places, rest ++ r) := by
  have hother {c : Char} (hc : c ≠ '.') (s : Text) : fraction (c :: s) = .ok (none, c :: s) := by
    rw [fraction]
    rintro s' ⟨⟩
    exact hc rfl
  cases t with
  | nil =>
    obtain rfl | ⟨c, r, rfl, -, hc, -⟩ := hr.cases
    · rfl
    · rw [List.nil_append, hother hc]
      rfl
  | cons c t =>
    by_cases hc : c = '.'
    · subst hc
      obtain ⟨htake, hdrop⟩ := digits_append hr t
      rw [List.cons_append, fraction, fraction, htake, hdrop]
      cases t.takeWhile Char.isDigit <;> rfl
    · rw [List.cons_append, hother hc, hother hc]
      rfl

theorem splitSign_append (hr : Ends r) (t : Text) :
    Numeral.splitSign (t ++ r) = ((Numeral.splitSign t).1, (Numeral.splitSign t).2 ++ r) := by
  cases t with
  | nil =>
    obtain rfl | ⟨c, r, rfl, -, -, -, -, hplus, hminus⟩ := hr.cases
    · rfl
    · rw [List.nil_append, Numeral.splitSign_cons hplus hminus]
      rfl
  | cons c t =>
    by_cases hplus : c = '+'
    · subst hplus
      rfl
    · by_cases hminus : c = '-'
      · subst hminus
        rfl
      · rw [List.cons_append, Numeral.splitSign_cons hplus hminus,
          Numeral.splitSign_cons hplus hminus, List.cons_append]

theorem exponent_append (hr : Ends r) (t : Text) :
    exponent (t ++ r) = (exponent t).map fun (shift, rest) => (shift, rest ++ r) := by
  cases t with
  | nil =>
    obtain rfl | ⟨c, r, rfl, -, -, he, hE, -⟩ := hr.cases
    · rfl
    · simp [exponent, he, hE, Except.map]
  | cons c t =>
    rw [List.cons_append, exponent, exponent]
    split_ifs with he
    · obtain ⟨htake, hdrop⟩ := digits_append hr (Numeral.splitSign t).2
      simp only [splitSign_append hr, htake, hdrop]
      cases (Numeral.splitSign t).2.takeWhile Char.isDigit <;> rfl
    · rfl

theorem unsignedNumber_append (hr : Ends r) (negative : Bool) (t : Text) :
    unsignedNumber negative (t ++ r)
      = (unsignedNumber negative t).map fun (n, rest) => (n, rest ++ r) := by
  obtain ⟨htake, hdrop⟩ := digits_append hr t
  rw [unsignedNumber, unsignedNumber, htake, hdrop, fraction_append hr]
  simp only
  split_ifs
  · rfl
  · rfl
  · cases fraction (t.dropWhile Char.isDigit) with
    | error e => rfl
    | ok answer =>
      simp only [Except.map, bind, Except.bind, exponent_append hr]
      cases exponent answer.2 with
      | error e => rfl
      | ok answer' =>
        simp only
        cases numberOfDigits? negative (t.takeWhile Char.isDigit) answer.1 answer'.1 <;> rfl

/-- **What stands behind a number** does not matter to it. -/
theorem number_append (hr : Ends r) (t : Text) :
    number (t ++ r) = (number t).map fun (n, rest) => (n, rest ++ r) := by
  have hother {c : Char} (hc : c ≠ '-') (s : Text) :
      number (c :: s) = unsignedNumber false (c :: s) := by
    rw [number]
    rintro s' ⟨⟩
    exact hc rfl
  cases t with
  | nil =>
    obtain rfl | ⟨c, r, rfl, -, -, -, -, -, hc⟩ := hr.cases
    · rfl
    · rw [List.nil_append, hother hc, ← List.nil_append (c :: r), unsignedNumber_append hr]
      rfl
  | cons c t =>
    by_cases hc : c = '-'
    · subst hc
      exact unsignedNumber_append hr true t
    · rw [List.cons_append, hother hc, hother hc, ← List.cons_append, unsignedNumber_append hr]

/-! ## The parts of a numeral -/

/-- **The parts of a numeral**: digits before the point, digits behind it, and an exponent. Without
digits behind it there is no point. -/
structure Parts where
  whole : Text
  places : Text := []
  shift? : Option Int := none

namespace Parts

/-- The digits behind a point, if there is one. -/
def places? (p : Parts) : Option Text := if p.places = [] then none else some p.places

/-- The point and the digits behind it. -/
def fractionText (p : Parts) : Text := if p.places = [] then [] else '.' :: p.places

/-- The exponent with its letter and its sign. -/
def shiftText (p : Parts) : Text :=
  match p.shift? with
  | none => []
  | some k => 'e' :: ((if 0 ≤ k then ['+'] else []) ++ Text.ofInt k)

/-- The numeral. -/
def text (p : Parts) : Text := p.whole ++ (p.fractionText ++ p.shiftText)

/-- The decimal that the digits spell. -/
def decimal (p : Parts) : Decimal :=
  ⟨Numeral.digitsValue 0 (p.whole ++ p.places), p.shift?.getD 0 - p.places.length⟩

/-- **The parts of a document numeral**: digits without a leading zero, and a point or an
exponent. -/
structure IsProper (p : Parts) : Prop where
  whole_ne_nil : p.whole ≠ []
  whole_digits : ∀ c ∈ p.whole, c.isDigit
  length_whole : p.whole.head? = some '0' → p.whole.length = 1
  places_digits : ∀ c ∈ p.places, c.isDigit
  isReal : p.places ≠ [] ∨ p.shift? ≠ none

end Parts

theorem takeWhile_digits {s : Text} (hs : ∀ c ∈ s, c.isDigit) {t : Text}
    (ht : ∀ c, t.head? = some c → c.isDigit = false) :
    (s ++ t).takeWhile Char.isDigit = s ∧ (s ++ t).dropWhile Char.isDigit = t := by
  cases t with
  | nil =>
    rw [List.append_nil]
    exact ⟨List.takeWhile_eq_self_iff.mpr hs, List.dropWhile_eq_nil_iff.mpr hs⟩
  | cons c t =>
    exact ⟨Text.takeWhile_append_cons hs (ht c rfl) t, Text.dropWhile_append_cons hs (ht c rfl) t⟩

variable {p : Parts}

theorem isDigit_of_head?_shiftText {c : Char} (h : p.shiftText.head? = some c) :
    c.isDigit = false ∧ c ≠ '.' := by
  rw [Parts.shiftText] at h
  split at h
  · simp at h
  · obtain rfl := Option.some.inj h
    decide

theorem fraction_text (hp : p.IsProper) :
    fraction (p.fractionText ++ p.shiftText) = .ok (p.places?, p.shiftText) := by
  by_cases hnil : p.places = []
  · rw [Parts.fractionText, Parts.places?, if_pos hnil, if_pos hnil, List.nil_append]
    cases hshift : p.shiftText with
    | nil => rfl
    | cons c r =>
      rw [fraction]
      rintro s ⟨⟩
      exact (isDigit_of_head?_shiftText (p := p) (by rw [hshift]; rfl)).2 rfl
  · obtain ⟨htake, hdrop⟩ := takeWhile_digits hp.places_digits
      fun c hc => (isDigit_of_head?_shiftText hc).1
    rw [Parts.fractionText, Parts.places?, if_neg hnil, if_neg hnil, List.cons_append, fraction,
      htake, hdrop]
    cases hplaces : p.places with
    | nil => exact absurd hplaces hnil
    | cons c r => rfl

theorem exponent_text (p : Parts) : exponent p.shiftText = .ok (p.shift?, []) := by
  have hdigits (n : ℕ) : (Text.ofNat n).takeWhile Char.isDigit = Text.ofNat n ∧
      (Text.ofNat n).dropWhile Char.isDigit = [] :=
    ⟨List.takeWhile_eq_self_iff.mpr fun _ => Numeral.isDigit_of_mem_ofNat,
      List.dropWhile_eq_nil_iff.mpr fun _ => Numeral.isDigit_of_mem_ofNat⟩
  rw [Parts.shiftText]
  rcases hshift : p.shift? with _ | n | n
  · rfl
  · obtain ⟨htake, hdrop⟩ := hdigits n
    have hvalue := Numeral.digitsValue_ofNat n
    have hsplit : Numeral.splitSign ((if (0 : ℤ) ≤ Int.ofNat n then ['+'] else [])
        ++ Text.ofInt (Int.ofNat n)) = (false, Text.ofNat n) := by
      rw [if_pos (show (0 : ℤ) ≤ Int.ofNat n from Int.natCast_nonneg n)]
      rfl
    simp only [exponent, true_or, if_true, hsplit, htake, hdrop]
    cases hn : Text.ofNat n with
    | nil => exact absurd hn (Numeral.ofNat_ne_nil n)
    | cons c r => simp [← hn, hvalue]
  · obtain ⟨htake, hdrop⟩ := hdigits (n + 1)
    have hvalue := Numeral.digitsValue_ofNat (n + 1)
    have hsplit : Numeral.splitSign ((if (0 : ℤ) ≤ Int.negSucc n then ['+'] else [])
        ++ Text.ofInt (Int.negSucc n)) = (true, Text.ofNat (n + 1)) := by
      rw [if_neg (by omega)]
      rfl
    simp only [exponent, true_or, if_true, hsplit, htake, hdrop]
    cases hn : Text.ofNat (n + 1) with
    | nil => exact absurd hn (Numeral.ofNat_ne_nil _)
    | cons c r =>
      simp only [← hn, hvalue]
      rfl

/-- **A numeral is read by its parts**, to its end. -/
theorem unsignedNumber_text (hp : p.IsProper) (negative : Bool) :
    unsignedNumber negative p.text = match numberOfDigits? negative p.whole p.places? p.shift? with
      | some n => .ok (n, [])
      | none => .error .outOfRange := by
  have hend : ∀ c, (p.fractionText ++ p.shiftText).head? = some c → c.isDigit = false := by
    intro c hc
    rw [Parts.fractionText] at hc
    split_ifs at hc
    · exact (isDigit_of_head?_shiftText hc).1
    · obtain rfl := Option.some.inj hc
      rfl
  obtain ⟨htake, hdrop⟩ := takeWhile_digits hp.whole_digits hend
  have hlead : ¬ (p.whole.head? = some '0' ∧ p.whole.length ≠ 1) :=
    fun h => h.2 (hp.length_whole h.1)
  rw [unsignedNumber, Parts.text, htake, hdrop]
  simp only [if_neg hp.whole_ne_nil, if_neg hlead, fraction_text hp, exponent_text, bind,
    Except.bind]
  cases numberOfDigits? negative p.whole p.places? p.shift? <;> rfl

/-! ## The numerals that are written -/

theorem head?_ofNat {n : ℕ} (hn : n ≠ 0) : (Text.ofNat n).head? ≠ some '0' := by
  intro h
  obtain ⟨c, hc⟩ := List.length_eq_one_iff.mp (Text.length_ofNat_of_head? h)
  rw [hc] at h
  obtain rfl := Option.some.inj h
  have hvalue := Numeral.digitsValue_ofNat n
  rw [hc] at hvalue
  exact hn hvalue.symm

/-- Parts for a text: the numeral is the text, and it spells a decimal of the same value. -/
def Parts.Spell (p : Parts) (t : Text) (d : Decimal) : Prop :=
  p.IsProper ∧ p.text = t ∧ p.decimal.toRat = d.toRat

variable {d : Decimal}

/-- A whole number gets a point and a zero behind it. -/
theorem exists_parts_whole (hd : d.digits ≠ 0) {zeros : ℕ} (hexponent : d.exponent = zeros) :
    ∃ p : Parts, p.Spell (Binary64.positional d ++ ".0".toList) d := by
  refine ⟨⟨Text.ofNat d.digits ++ Text.repeated zeros '0', ['0'], none⟩,
    ⟨?_, ?_, ?_, ?_, ?_⟩, ?_, ?_⟩
  · simp [Numeral.ofNat_ne_nil]
  · intro c hc
    rcases List.mem_append.mp hc with hc | hc
    · exact Numeral.isDigit_of_mem_ofNat hc
    · exact Numeral.isDigit_of_mem_zeros hc
  · intro h
    rw [List.head?_append_of_ne_nil _ (Numeral.ofNat_ne_nil _)] at h
    exact absurd h (head?_ofNat hd)
  · simp
  · simp
  · have hpositional : Binary64.positional d = Text.ofNat d.digits ++ Text.repeated zeros '0' := by
      simp [Binary64.positional, hexponent]
    rw [hpositional]
    simp [Parts.text, Parts.fractionText, Parts.shiftText]
  · rw [Parts.decimal, Decimal.toRat, Decimal.toRat, hexponent, Numeral.digitsValue_append,
      Numeral.digitsValue_append, Numeral.digitsValue_ofNat, Numeral.digitsValue_zeros]
    simp [Numeral.digitsValue]
    ring

/-- Digits with a point among them or in front of them. -/
theorem exists_parts_point (hd : d.digits ≠ 0) {n : ℕ} (hexponent : d.exponent = Int.negSucc n) :
    ∃ p : Parts, p.Spell (Binary64.positional d) d := by
  have hdigit : ∀ c ∈ Text.ofNat d.digits, c.isDigit := fun _ => Numeral.isDigit_of_mem_ofNat
  have hvalue : d.toRat = (d.digits : ℚ) * 10 ^ (-(n + 1 : ℕ) : ℤ) := by
    rw [Decimal.toRat, hexponent, Int.negSucc_eq]
    push_cast
    rfl
  simp only [Binary64.positional, hexponent]
  split_ifs with h
  · refine ⟨⟨(Text.ofNat d.digits).take ((Text.ofNat d.digits).length - (n + 1)),
      (Text.ofNat d.digits).drop ((Text.ofNat d.digits).length - (n + 1)), none⟩,
      ⟨?_, ?_, ?_, ?_, ?_⟩, ?_, ?_⟩
    · simp only [ne_eq, List.take_eq_nil_iff, not_or]
      exact ⟨by omega, Numeral.ofNat_ne_nil _⟩
    · exact fun c hc => hdigit c (List.mem_of_mem_take hc)
    · intro hhead
      rw [List.head?_take, if_neg (by omega)] at hhead
      exact absurd hhead (head?_ofNat hd)
    · exact fun c hc => hdigit c (List.mem_of_mem_drop hc)
    · left
      simp only [ne_eq, List.drop_eq_nil_iff]
      omega
    · have hne : (Text.ofNat d.digits).drop ((Text.ofNat d.digits).length - (n + 1)) ≠ [] := by
        simp only [ne_eq, List.drop_eq_nil_iff]
        omega
      simp [Parts.text, Parts.fractionText, Parts.shiftText, hne]
    · rw [hvalue, Parts.decimal, Decimal.toRat, List.take_append_drop, Numeral.digitsValue_ofNat,
        List.length_drop, Nat.sub_sub_self h.le]
      simp
  · refine ⟨⟨['0'], Text.repeated (n + 1 - (Text.ofNat d.digits).length) '0'
      ++ Text.ofNat d.digits, none⟩, ⟨?_, ?_, ?_, ?_, ?_⟩, ?_, ?_⟩
    · simp
    · simp
    · simp
    · intro c hc
      rcases List.mem_append.mp hc with hc | hc
      · exact Numeral.isDigit_of_mem_zeros hc
      · exact hdigit c hc
    · simp [Numeral.ofNat_ne_nil]
    · simp [Parts.text, Parts.fractionText, Parts.shiftText, Numeral.ofNat_ne_nil]
    · have hlength : (Text.repeated (n + 1 - (Text.ofNat d.digits).length) '0'
          ++ Text.ofNat d.digits).length = n + 1 := by
        rw [List.length_append, Text.repeated, List.length_replicate]
        omega
      rw [hvalue, Parts.decimal, Decimal.toRat, hlength, Numeral.digitsValue_append,
        Numeral.digitsValue_append, show Numeral.digitsValue 0 ['0'] = 0 from rfl,
        Numeral.digitsValue_zeros, Nat.mul_zero, Numeral.digitsValue_ofNat]
      simp

/-- One digit before the point, and the exponent of that digit. -/
theorem exists_parts_scientific (d : Decimal) :
    ∃ p : Parts, p.Spell (Binary64.scientific true d) d := by
  obtain ⟨first, more, hdigits⟩ := List.exists_cons_of_ne_nil (Numeral.ofNat_ne_nil d.digits)
  have hdigit : ∀ c ∈ first :: more, c.isDigit :=
    fun _ hc => Numeral.isDigit_of_mem_ofNat (hdigits ▸ hc)
  refine ⟨⟨[first], more, some (d.exponent + (first :: more).length - 1)⟩,
    ⟨?_, ?_, ?_, ?_, ?_⟩, ?_, ?_⟩
  · simp
  · intro c hc
    rw [List.mem_singleton.mp hc]
    exact hdigit first List.mem_cons_self
  · simp
  · exact fun c hc => hdigit c (List.mem_cons_of_mem first hc)
  · simp
  · simp only [Parts.text, Parts.fractionText, Parts.shiftText, Binary64.scientific, hdigits]
    cases more <;> simp
  · have hexponent : d.exponent + (first :: more).length - 1 - more.length = d.exponent := by
      rw [List.length_cons]
      omega
    rw [Parts.decimal, Decimal.toRat, Decimal.toRat, List.singleton_append, ← hdigits,
      Numeral.digitsValue_ofNat, hdigits, Option.getD_some, hexponent]

/-- **The parts of the numeral of a finite number**, behind its sign. -/
theorem exists_parts (e : Fin 2047) (f : Fin Binary64.fractions) :
    ∃ p : Parts, p.IsProper ∧ p.decimal.toRat = (Binary64.shortest .even e f).toRat ∧
      ∀ negative, ofNumber (.real (.finite negative e f))
        = Binary64.signText negative ++ p.text := by
  obtain ⟨d, hd⟩ : ∃ d, d = Binary64.shortest .even e f := ⟨_, rfl⟩
  have hspell : ∃ p : Parts, p.Spell (if d.digits = 0 then "0.0".toList
      else if -5 < d.exponent + (Text.ofNat d.digits).length
          ∧ d.exponent + (Text.ofNat d.digits).length ≤ 16 then
        if 0 ≤ d.exponent then Binary64.positional d ++ ".0".toList else Binary64.positional d
      else Binary64.scientific true d) d := by
    split_ifs with hzero hplain hwhole
    · refine ⟨⟨['0'], ['0'], none⟩, ⟨by simp, by simp, by simp, by simp, by simp⟩, rfl, ?_⟩
      simp [Parts.decimal, Decimal.toRat, Numeral.digitsValue, hzero]
    · obtain ⟨zeros, hzeros⟩ := Int.eq_ofNat_of_zero_le hwhole
      exact exists_parts_whole hzero hzeros
    · obtain ⟨n, hn⟩ := Int.eq_negSucc_of_lt_zero (Int.not_le.mp hwhole)
      exact exists_parts_point hzero hn
    · exact exists_parts_scientific d
  obtain ⟨p, hp, htext, hvalue⟩ := hspell
  subst hd
  refine ⟨p, hp, hvalue, fun negative => ?_⟩
  rw [htext]
  rfl

end Json

end ItemConditions
