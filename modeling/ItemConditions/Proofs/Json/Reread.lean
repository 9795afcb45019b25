import ItemConditions.Proofs.Binary64.Whole
import ItemConditions.Proofs.Json.Numeral

/-!
# Numbers read from their JSON text

The JSON text of a finite number is the shortest decimal that rounds to it, but the reader rounds
significand and power each for itself, so that a neighbour of the number may come back. A number
whose text has at most fifteen digits and no exponent comes back itself: significand and power of
ten are then numbers of 64 bits, and their quotient is rounded only once.

## Main definitions

* `Binary64.reread`: what the JSON text of a number is read as

## Main results

* `Json.number_real`: the text of a finite number, whatever stands behind it
* `Binary64.reread_eq_self`: short texts are read back
-/

namespace ItemConditions

/-- **The number that the JSON text of a number is read as**, or why it is read as none. -/
def Binary64.reread (x : Binary64) : Except Json.Fault Binary64 :=
  (Json.number (Json.ofNumber (.real x))).map fun (n, _) => n.toBinary64

namespace Json

variable {p : Parts}

/-- A numeral with a point or an exponent spells no whole number. -/
theorem numberOfDigits?_parts (hp : p.IsProper) (negative : Bool) :
    numberOfDigits? negative p.whole p.places? p.shift?
      = let x := (Scaled.ofDigits p.whole p.places (p.shift?.getD 0)).toBinary64
        if x.isFinite then some (.real (if negative then x.neg else x)) else none := by
  have hreal : ¬ (p.places?.isNone ∧ p.shift?.isNone ∧ (absorb 0 p.whole).2 = []) := by
    rintro ⟨hplaces, hshift, -⟩
    rcases hp.isReal with h | h
    · simp [Parts.places?, h] at hplaces
    · exact h (Option.isNone_iff_eq_none.mp hshift)
  have hplaces : p.places?.getD [] = p.places := by
    unfold Parts.places?
    split_ifs with h
    · exact h.symm
    · rfl
  simp only [numberOfDigits?, if_neg hreal, hplaces]

/-- A numeral with its sign is read to its end. -/
theorem number_parts (hp : p.IsProper) (negative : Bool) :
    number (Binary64.signText negative ++ p.text)
      = let x := (Scaled.ofDigits p.whole p.places (p.shift?.getD 0)).toBinary64
        if x.isFinite then .ok (.real (if negative then x.neg else x), [])
        else .error .outOfRange := by
  have hsign : number (Binary64.signText negative ++ p.text) = unsignedNumber negative p.text := by
    cases negative with
    | true => rfl
    | false =>
      obtain ⟨c, r, hcr⟩ := List.exists_cons_of_ne_nil hp.whole_ne_nil
      have hc : c.isDigit := hp.whole_digits c (hcr ▸ List.mem_cons_self)
      rw [Parts.text, hcr, Binary64.signText, if_neg Bool.false_ne_true, List.nil_append,
        List.cons_append, number]
      rintro s ⟨⟩
      exact absurd hc (by decide)
  rw [hsign, unsignedNumber_text hp, numberOfDigits?_parts hp]
  simp only
  split_ifs <;> rfl

/-- The text of a finite number is read to its end. -/
theorem number_ofNumber {x : Binary64} (hx : x.isFinite) :
    number (ofNumber (.real x)) = x.reread.map fun y => (.real y, []) := by
  cases x with
  | nan => simp [Binary64.isFinite] at hx
  | infinity negative => simp [Binary64.isFinite] at hx
  | finite negative e f =>
    obtain ⟨p, hp, -, htext⟩ := exists_parts e f
    rw [Binary64.reread, htext, number_parts hp]
    simp only
    split_ifs <;> rfl

theorem number_real {x : Binary64} (hx : x.isFinite) {r : Text} (hr : Ends r) :
    number (ofNumber (.real x) ++ r) = x.reread.map fun y => (.real y, r) := by
  rw [number_append hr, number_ofNumber hx]
  cases x.reread <;> rfl

/-! ## Short texts -/

theorem le_digitsValue (n : ℕ) (t : Text) : n ≤ Numeral.digitsValue n t := by
  induction t generalizing n with
  | nil => exact le_rfl
  | cons c t ih =>
    have hstep : n ≤ 10 * n + (c.toNat - '0'.toNat) := by omega
    exact hstep.trans (ih _)

/-- Digits are less than a power of ten. -/
theorem digitsValue_lt {t : Text} (ht : ∀ c ∈ t, c.isDigit) :
    Numeral.digitsValue 0 t < 10 ^ t.length := by
  induction t using List.reverseRecOn with
  | nil => exact Nat.one_pos
  | append_singleton t c ih =>
    obtain ⟨d, hd, rfl⟩ := Text.exists_digitChar (ht c (by simp))
    have hlt := ih fun c hc => ht c (List.mem_append_left _ hc)
    rw [Text.digitsValue_concat t hd, List.length_append, List.length_singleton, pow_succ]
    omega

/-- A significand has room for all digits whose value it can hold. -/
theorem absorb_of_le {n : ℕ} {t : Text} (h : Numeral.digitsValue n t ≤ greatestSignificand) :
    absorb n t = (Numeral.digitsValue n t, []) := by
  induction t generalizing n with
  | nil => rfl
  | cons c t ih =>
    have hnext := le_digitsValue (10 * n + (c.toNat - '0'.toNat)) t
    rw [absorb, if_pos (hnext.trans h)]
    exact ih h

/-- A power of ten below `2 ^ 53` is a 64-bit number. -/
theorem tenTo_of_le {k : ℕ} (hk : k ≤ 15) :
    ∃ e f, Scaled.tenTo k = .finite false e f ∧ Binary64.magnitude e f = 10 ^ k := by
  have hlt : 10 ^ k < 2 ^ 53 := (Nat.pow_le_pow_right (by decide) hk).trans_lt (by decide)
  obtain ⟨e, f, h, hvalue⟩ := Binary64.ofNat_of_lt hlt
  refine ⟨e, f, ?_, by exact_mod_cast hvalue⟩
  rw [← h, Scaled.tenTo, Binary64.ofDecimal, Int.toNat_natCast, Nat.one_mul,
    Binary64.powerOfTen_eq]
  simp [Binary64.ofNat]

/-- The ratio of a number whose value is a natural number. -/
theorem ratio_num_eq {e : Fin 2047} {f : Fin Binary64.fractions} {n : ℕ}
    (h : Binary64.magnitude e f = n) :
    (Binary64.ratio e f).num = n * (Binary64.ratio e f).den := by
  have hden : ((Binary64.ratio e f).den : ℚ) ≠ 0 := by
    exact_mod_cast (Binary64.ratio_den_pos e f).ne'
  rw [← Binary64.ratio_quotient, div_eq_iff hden] at h
  exact_mod_cast h

/-- A short significand with few places is rounded once. -/
theorem toBinary64_of_lt {n k : ℕ} (hn : n < 2 ^ 53) (hpos : 0 < k) (hk : k ≤ 15) :
    (Scaled.mk n (-k)).toBinary64 = .ofDecimal false ⟨n, -k⟩ := by
  rcases eq_or_ne n 0 with rfl | hzero
  · simp [Scaled.toBinary64, Binary64.ofNat, Binary64.ofRatio, Binary64.ofDecimal]
  obtain ⟨e, f, hsignificand, hvalue⟩ := Binary64.ofNat_of_lt hn
  obtain ⟨g, h, hten, hpower⟩ := tenTo_of_le hk
  have hdivisor : Binary64.isZero (.finite false g h) = false := by
    rw [← Bool.not_eq_true, Binary64.isZero_iff_toRat_eq rfl]
    simp [Binary64.toRat, hpower]
  have hquotient : (Scaled.mk n (-k)).toBinary64 = (Binary64.ofNat n).div (Scaled.tenTo k) := by
    obtain ⟨m, rfl⟩ := Nat.exists_eq_succ_of_ne_zero hpos.ne'
    have hexponent : -((m.succ : ℕ) : ℤ) = Int.negSucc m := rfl
    simp only [Scaled.toBinary64, if_neg hzero, hexponent]
    rw [if_pos (by rw [Scaled.greatestTen]; omega)]
  have hnum := ratio_num_eq hvalue
  have hnum' := ratio_num_eq (n := 10 ^ k) (by rw [hpower]; norm_num)
  have hden := (Binary64.ratio_den_pos e f).ne'
  have hden' := (Binary64.ratio_den_pos g h).ne'
  rw [hquotient, hsignificand, hten, Binary64.div, hdivisor, if_neg Bool.false_ne_true,
    Binary64.ofDecimal]
  refine Binary64.ofRatio_congr _ ?_ (Binary64.powerOfTen_ne_zero _) ?_
  · rw [hnum']
    positivity
  · rw [neg_neg, Int.toNat_natCast, Int.toNat_neg_natCast, Binary64.powerOfTen_eq,
      Binary64.powerOfTen_eq, hnum, hnum']
    ring

/-- Without an exponent the digits of a numeral are those around its point. -/
theorem Parts.IsProper.countP_text (hp : p.IsProper) (hshift : p.shift? = none) :
    p.text.countP Char.isDigit = (p.whole ++ p.places).length := by
  have hplaces : p.places ≠ [] := hp.isReal.resolve_right (by simp [hshift])
  rw [List.length_append, ← List.countP_eq_length.mpr hp.whole_digits,
    ← List.countP_eq_length.mpr hp.places_digits]
  simp [Parts.text, Parts.fractionText, Parts.shiftText, hshift, hplaces]

/-- The parts of a short numeral without an exponent spell their decimal. -/
theorem ofDigits_of_short (hp : p.IsProper) (hshift : p.shift? = none)
    (hlength : (p.whole ++ p.places).length ≤ 15) :
    (Scaled.ofDigits p.whole p.places (p.shift?.getD 0)).toBinary64
      = .ofDecimal false p.decimal := by
  have hdigits : ∀ c ∈ p.whole ++ p.places, c.isDigit := by
    intro c hc
    rcases List.mem_append.mp hc with hc | hc
    · exact hp.whole_digits c hc
    · exact hp.places_digits c hc
  have hlt : Numeral.digitsValue 0 (p.whole ++ p.places) < 10 ^ 15 :=
    (digitsValue_lt hdigits).trans_le (Nat.pow_le_pow_right (by decide) hlength)
  have hroom : (10 : ℕ) ^ 15 ≤ greatestSignificand := by decide
  have hplaces : absorb (Numeral.digitsValue 0 p.whole) p.places
      = (Numeral.digitsValue 0 (p.whole ++ p.places), []) := by
    rw [Numeral.digitsValue_append] at hlt ⊢
    exact absorb_of_le (by omega)
  have hwhole : absorb 0 p.whole = (Numeral.digitsValue 0 p.whole, []) := by
    refine absorb_of_le ?_
    rw [Numeral.digitsValue_append] at hlt
    have := le_digitsValue (Numeral.digitsValue 0 p.whole) p.places
    omega
  have hne : p.places ≠ [] := hp.isReal.resolve_right (by simp [hshift])
  rw [List.length_append] at hlength
  have hround := toBinary64_of_lt (n := Numeral.digitsValue 0 (p.whole ++ p.places))
    (k := p.places.length) (hlt.trans (by decide)) (List.length_pos_iff.mpr hne) (by omega)
  rw [Parts.decimal, hshift]
  simpa [Scaled.ofDigits, hwhole, hplaces] using hround

end Json

open Json in
/-- **A number with a short text** is read back: at most fifteen digits and no exponent. -/
theorem Binary64.reread_eq_self {x : Binary64} (hx : x.isFinite)
    (hexponent : 'e' ∉ ofNumber (.real x))
    (hdigits : (ofNumber (.real x)).countP Char.isDigit ≤ 15) : x.reread = .ok x := by
  cases x with
  | nan => simp [isFinite] at hx
  | infinity negative => simp [isFinite] at hx
  | finite negative e f =>
    obtain ⟨p, hp, hvalue, htext⟩ := exists_parts e f
    rw [htext] at hexponent hdigits
    have hshift : p.shift? = none := by
      by_contra h
      obtain ⟨k, hk⟩ := Option.ne_none_iff_exists'.mp h
      exact hexponent (by simp [Parts.text, Parts.shiftText, hk])
    have hlength : (p.whole ++ p.places).length ≤ 15 := by
      rw [← hp.countP_text hshift]
      exact (List.Sublist.countP_le (List.sublist_append_right _ _)).trans hdigits
    have hnumber := ofDigits_of_short hp hshift hlength
    rw [ofDecimal_congr false hvalue, ofDecimal_shortest] at hnumber
    rw [reread, htext, number_parts hp, hnumber]
    cases negative <;> rfl

end ItemConditions
