import ItemConditions.Proofs.Binary64.Numeral

/-!
# The spellings of numbers

Which texts are read as numbers, and as which ones. The readers look for a run of digits, a point
and another run; here a spelling is described by its characters: digits and at most one point, with
at least one digit, behind a sign where one is allowed. It is read as the number nearest to the
value that the digits have.

## Main definitions

* `Numeral.IsUnsigned`, `Numeral.value`: digits with at most one point, and their value
* `Binary64.nearest`: the number nearest to a value
* `Numeral.Spelling`: a sign or none, and digits

## Main results

* `Numeral.map_unsigned?`: what is read from digits
* `Numeral.map_unsigned?_eq_some_iff`, `Numeral.readPlain?_eq_some_iff`: the spellings that are read
* `Numeral.Spelling.IsProper.eq_of_text`: a text is spelled in one way
-/

namespace ItemConditions

/-- **The number nearest to a value**; the sign is told apart from it, since a zero has one too. -/
def Binary64.nearest (negative : Bool) (q : ℚ) : Binary64 := ofRatio negative q.num.natAbs q.den

/-- A decimal stands for the number nearest to its value. -/
theorem Binary64.ofDecimal_eq_nearest (negative : Bool) (d : Decimal) :
    ofDecimal negative d = nearest negative d.toRat := by
  have hden := powerOfTen_ne_zero (-d.exponent).toNat
  refine ofRatio_congr negative hden d.toRat.den_nz ?_
  have hnonneg : 0 ≤ d.toRat := by
    rw [Decimal.toRat]
    positivity
  have hnum : ((d.toRat.num.natAbs : ℕ) : ℚ) = d.toRat.num := by
    rw [Nat.cast_natAbs, abs_of_nonneg (Rat.num_nonneg.mpr hnonneg)]
  have hquotient : ((d.digits * powerOfTen d.exponent.toNat : ℕ) : ℚ)
        / powerOfTen (-d.exponent).toNat
      = (d.toRat.num.natAbs : ℕ) / (d.toRat.den : ℕ) := by
    rw [decimal_quotient, hnum, Rat.num_div_den]
  rw [div_eq_div_iff (by exact_mod_cast hden) (by exact_mod_cast d.toRat.den_nz)] at hquotient
  exact_mod_cast hquotient

namespace Numeral

variable {t whole places : Text}

/-! ## Digits with at most one point -/

/-- **Digits with at most one point**: at least one digit, and no other character. -/
def IsUnsigned (t : Text) : Prop :=
  (∀ c ∈ t, c.isDigit ∨ c = '.') ∧ (∃ c ∈ t, c.isDigit) ∧ t.count '.' ≤ 1

instance (t : Text) : Decidable (IsUnsigned t) :=
  decidable_of_iff
    (t.all (fun c => c.isDigit || c == '.') = true ∧ t.any Char.isDigit = true ∧ t.count '.' ≤ 1)
    (by simp [IsUnsigned])

/-- **The value of digits with at most one point**: that of the digits, divided by ten for every
place behind the point. -/
def value (t : Text) : ℚ :=
  digitsValue 0 (t.filter Char.isDigit) / 10 ^ (t.dropWhile (· ≠ '.')).tail.length

theorem point_notMem (h : ∀ c ∈ t, c.isDigit) : '.' ∉ t := fun hmem =>
  absurd (h '.' hmem) (by decide)

theorem isUnsigned_whole (hne : t ≠ []) (h : ∀ c ∈ t, c.isDigit) : IsUnsigned t := by
  obtain ⟨c, hc⟩ := List.exists_mem_of_ne_nil t hne
  refine ⟨fun c hc => Or.inl (h c hc), ⟨c, hc, h c hc⟩, ?_⟩
  rw [List.count_eq_zero.mpr (point_notMem h)]
  exact Nat.zero_le 1

theorem isUnsigned_point (hne : whole ++ places ≠ []) (hwhole : ∀ c ∈ whole, c.isDigit)
    (hplaces : ∀ c ∈ places, c.isDigit) : IsUnsigned (whole ++ '.' :: places) := by
  obtain ⟨c, hc⟩ := List.exists_mem_of_ne_nil _ hne
  refine ⟨fun c hc => ?_, ⟨c, ?_, ?_⟩, ?_⟩
  · rcases List.mem_append.mp hc with hc | hc
    · exact Or.inl (hwhole c hc)
    · rcases List.mem_cons.mp hc with rfl | hc
      · exact Or.inr rfl
      · exact Or.inl (hplaces c hc)
  · rcases List.mem_append.mp hc with hc | hc
    · exact List.mem_append_left _ hc
    · exact List.mem_append_right _ (List.mem_cons_of_mem _ hc)
  · rcases List.mem_append.mp hc with hc | hc
    · exact hwhole c hc
    · exact hplaces c hc
  · rw [List.count_append, List.count_cons_self, List.count_eq_zero.mpr (point_notMem hwhole),
      List.count_eq_zero.mpr (point_notMem hplaces)]

/-- The two shapes: digits, or digits on one side of a point at least. -/
theorem IsUnsigned.cases (h : IsUnsigned t) :
    (t ≠ [] ∧ ∀ c ∈ t, c.isDigit) ∨
      ∃ whole places, t = whole ++ '.' :: places ∧ whole ++ places ≠ [] ∧
        (∀ c ∈ whole, c.isDigit) ∧ ∀ c ∈ places, c.isDigit := by
  obtain ⟨hchars, ⟨d, hd, hdigit⟩, hcount⟩ := h
  by_cases hpoint : '.' ∈ t
  · obtain ⟨whole, places, rfl⟩ := List.append_of_mem hpoint
    rw [List.count_append, List.count_cons_self] at hcount
    have hwhole : '.' ∉ whole := List.count_eq_zero.mp (by omega)
    have hplaces : '.' ∉ places := List.count_eq_zero.mp (by omega)
    refine Or.inr ⟨whole, places, rfl, ?_, fun c hc => ?_, fun c hc => ?_⟩
    · intro hnil
      obtain ⟨rfl, rfl⟩ := List.append_eq_nil_iff.mp hnil
      rw [List.nil_append, List.mem_singleton] at hd
      subst hd
      exact absurd hdigit (by decide)
    · refine (hchars c (List.mem_append_left _ hc)).resolve_right ?_
      rintro rfl
      exact hwhole hc
    · refine (hchars c (List.mem_append_right _ (List.mem_cons_of_mem _ hc))).resolve_right ?_
      rintro rfl
      exact hplaces hc
  · refine Or.inl ⟨List.ne_nil_of_mem hd, fun c hc => (hchars c hc).resolve_right ?_⟩
    rintro rfl
    exact hpoint hc

theorem IsUnsigned.exists_cons (h : IsUnsigned t) :
    ∃ c r, t = c :: r ∧ (c.isDigit ∨ c = '.') := by
  obtain ⟨d, hd, -⟩ := h.2.1
  obtain ⟨c, r, rfl⟩ := List.exists_cons_of_ne_nil (List.ne_nil_of_mem hd)
  exact ⟨c, r, rfl, h.1 c List.mem_cons_self⟩

/-! ## Reading digits -/

/-- Only digits with at most one point are read. -/
theorem isUnsigned_of_unsigned? {d : Decimal} (h : unsigned? t = some d) : IsUnsigned t := by
  have hsplit := List.takeWhile_append_dropWhile (p := Char.isDigit) (l := t)
  have hwhole : ∀ c ∈ t.takeWhile Char.isDigit, c.isDigit := fun c hc => List.mem_takeWhile_imp hc
  rw [← hsplit]
  simp only [unsigned?] at h
  split at h
  · next hnil =>
    split_ifs at h with hne
    rw [hnil, List.append_nil]
    exact isUnsigned_whole hne hwhole
  · next places hplaces =>
    split_ifs at h with hdigits
    rw [Bool.and_eq_true, List.all_eq_true] at hdigits
    rw [hplaces]
    refine isUnsigned_point ?_ hwhole hdigits.1
    simpa [imp_iff_not_or] using hdigits.2
  · simp at h

/-- What is read from digits has their value. -/
theorem exists_unsigned? (h : IsUnsigned t) : ∃ d, unsigned? t = some d ∧ d.toRat = value t := by
  rcases h.cases with ⟨hne, hdigits⟩ | ⟨whole, places, rfl, hne, hwhole, hplaces⟩
  · refine ⟨_, unsigned?_whole hne hdigits, ?_⟩
    have hfilter : t.filter Char.isDigit = t := List.filter_eq_self.mpr hdigits
    have hdrop : t.dropWhile (· ≠ '.') = [] := by
      rw [List.dropWhile_eq_nil_iff]
      rintro c hc
      simpa using fun heq : c = '.' => point_notMem hdigits (heq ▸ hc)
    rw [value, hfilter, hdrop, Decimal.toRat]
    simp
  · refine ⟨_, unsigned?_point hne hwhole hplaces, ?_⟩
    have hfilter : (whole ++ '.' :: places).filter Char.isDigit = whole ++ places := by
      rw [List.filter_append, List.filter_cons_of_neg (by decide),
        List.filter_eq_self.mpr hwhole, List.filter_eq_self.mpr hplaces]
    have hdrop : (whole ++ '.' :: places).dropWhile (· ≠ '.') = '.' :: places := by
      refine Text.dropWhile_append_cons (fun c hc => ?_) (by decide) places
      simpa using fun heq : c = '.' => point_notMem hwhole (heq ▸ hc)
    rw [value, hfilter, hdrop, List.tail_cons, Decimal.toRat, zpow_neg, zpow_natCast,
      div_eq_mul_inv]

/-- What is read from a text: the number nearest to the value of its digits, if it consists of
digits with at most one point. -/
theorem map_unsigned? (negative : Bool) (t : Text) :
    (unsigned? t).map (Binary64.ofDecimal negative)
      = if IsUnsigned t then some (.nearest negative (value t)) else none := by
  split_ifs with h
  · obtain ⟨d, hd, hvalue⟩ := exists_unsigned? h
    rw [hd, Option.map_some, Binary64.ofDecimal_eq_nearest, hvalue]
  · cases hd : unsigned? t with
    | none => rfl
    | some d => exact absurd (isUnsigned_of_unsigned? hd) h

/-! ## Signs -/

/-- A sign in front of a number, or none. -/
inductive Sign where
  | none
  | plus
  | minus
deriving DecidableEq, Repr

/-- The text of a sign. -/
def Sign.text : Sign → Text
  | none => []
  | plus => ['+']
  | minus => ['-']

/-- A number as it is spelled: a sign or none, and digits. -/
structure Spelling where
  sign : Sign
  digits : Text
deriving DecidableEq, Repr

namespace Spelling

/-- The text of a spelling. -/
def text (n : Spelling) : Text := n.sign.text ++ n.digits

/-- The number that is spelled. -/
def amount (n : Spelling) : Binary64 := .nearest (n.sign = .minus) (value n.digits)

/-- A spelling with one of the signs that are allowed. -/
structure IsProper (signs : List Sign) (n : Spelling) : Prop where
  sign : n.sign ∈ signs
  digits : IsUnsigned n.digits

variable {signs : List Sign} {n m : Spelling}

/-- A sign is split off as it is spelled. -/
theorem splitSign_text (h : IsUnsigned n.digits) :
    splitSign n.text = (decide (n.sign = .minus), n.digits) := by
  obtain ⟨c, r, hc, hdigit⟩ := h.exists_cons
  obtain ⟨sign, digits⟩ := n
  cases sign with
  | none =>
    obtain rfl : digits = c :: r := hc
    refine splitSign_cons ?_ ?_ r
    · rintro rfl
      simp at hdigit
    · rintro rfl
      simp at hdigit
  | plus => rfl
  | minus => rfl

/-- **A text is spelled in one way.** -/
theorem IsProper.eq_of_text (hn : n.IsProper signs) (hm : m.IsProper signs)
    (h : n.text = m.text) : n = m := by
  have hsplit := splitSign_text hn.digits
  rw [h, splitSign_text hm.digits] at hsplit
  obtain ⟨sign, digits⟩ := n
  obtain ⟨sign', digits'⟩ := m
  obtain rfl : digits' = digits := congrArg Prod.snd hsplit
  have hsign : sign.text = sign'.text := List.append_cancel_right h
  cases sign <;> cases sign' <;> first | rfl | simp [Sign.text] at hsign

/-- A spelling starts with a digit, the point or a sign. -/
theorem IsProper.exists_cons (hn : n.IsProper signs) :
    ∃ c r, n.text = c :: r ∧ (c.isDigit ∨ c ∈ ['.', '+', '-']) := by
  obtain ⟨c, r, hc, hdigit⟩ := hn.digits.exists_cons
  obtain ⟨sign, digits⟩ := n
  cases sign with
  | none => exact ⟨c, r, hc, by simpa using hdigit.imp_right Or.inl⟩
  | plus => exact ⟨'+', digits, rfl, by decide⟩
  | minus => exact ⟨'-', digits, rfl, by decide⟩

end Spelling

theorem exists_spelling (t : Text) : ∃ n : Spelling,
    n.text = t ∧ splitSign t = (decide (n.sign = .minus), n.digits) := by
  unfold splitSign
  split
  · next t => exact ⟨⟨.minus, t⟩, rfl, rfl⟩
  · next t => exact ⟨⟨.plus, t⟩, rfl, rfl⟩
  · exact ⟨⟨.none, t⟩, rfl, rfl⟩

/-- **Digits are a spelling** without a sign. -/
theorem map_unsigned?_eq_some_iff {x : Binary64} :
    (unsigned? t).map (Binary64.ofDecimal false) = some x ↔
      ∃ n : Spelling, n.IsProper [.none] ∧ n.text = t ∧ n.amount = x := by
  rw [map_unsigned?]
  constructor
  · intro h
    split_ifs at h with hdigits
    exact ⟨⟨.none, t⟩, ⟨List.mem_cons_self, hdigits⟩, rfl, Option.some.inj h⟩
  · rintro ⟨⟨sign, digits⟩, hn, rfl, rfl⟩
    obtain rfl : sign = .none := List.mem_singleton.mp hn.sign
    exact if_pos hn.digits

/-- **A plain numeral is a spelling** with any sign, and is read as the number that is spelled. -/
theorem readPlain?_eq_some_iff {x : Binary64} : readPlain? t = some x ↔
    ∃ n : Spelling, n.IsProper [.none, .plus, .minus] ∧ n.text = t ∧ n.amount = x := by
  constructor
  · intro h
    obtain ⟨n, htext, hsplit⟩ := exists_spelling t
    simp only [readPlain?, hsplit, map_unsigned?] at h
    split_ifs at h with hdigits
    refine ⟨n, ⟨?_, hdigits⟩, htext, Option.some.inj h⟩
    cases n.sign <;> decide
  · rintro ⟨n, hn, rfl, rfl⟩
    simp only [readPlain?, Spelling.splitSign_text hn.digits, map_unsigned?]
    rw [if_pos hn.digits, Spelling.amount]

end Numeral

end ItemConditions
