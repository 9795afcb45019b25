import ItemConditions.Proofs.Json.Quoted
import ItemConditions.Proofs.Json.Reread

/-!
# Plain values read from their JSON text

A value without parts is read behind any blanks, whatever stands behind it. Texts, truth values and
null come back themselves; a number comes back as what its text is read as.

## Main definitions

* `Value.IsPlain`: a value without parts whose text is its own
* `Value.reread`: what its JSON text is read as

## Main results

* `Json.valueWithin_plain`: a plain value is read
* `Json.key_quote`: a key is read
-/

namespace ItemConditions

namespace Value

/-- **A value without parts**; a number is a finite one of 64 bits. -/
def IsPlain : Value → Prop
  | .null | .bool _ | .string _ => True
  | .number (.real x) => x.isFinite
  | _ => False

@[simp] theorem isPlain_string (s : Text) : (string s).IsPlain := trivial

@[simp] theorem isPlain_bool (b : Bool) : (bool b).IsPlain := trivial

theorem cases_of_isPlain {v : Value} (hv : v.IsPlain) :
    v = null ∨ (∃ b, v = bool b) ∨ (∃ s, v = string s) ∨
      ∃ x : Binary64, v = number (.real x) ∧ x.isFinite := by
  cases v with
  | null => exact .inl rfl
  | bool b => exact .inr (.inl ⟨b, rfl⟩)
  | string s => exact .inr (.inr (.inl ⟨s, rfl⟩))
  | number n =>
    cases n with
    | real x => exact .inr (.inr (.inr ⟨x, rfl, hv⟩))
    | _ => exact hv.elim
  | _ => exact hv.elim

/-- **What the JSON text of a plain value is read as.** -/
def reread : Value → Except Json.Fault Value
  | .number (.real x) => x.reread.map fun y => .number (.real y)
  | v => .ok v

end Value

namespace Json

/-! ## Blanks -/

/-- A text of blanks. -/
def IsBlank (t : Text) : Prop := ∀ c ∈ t, isSpace c

theorem isBlank_nil : IsBlank [] := by
  intro c hc
  simp at hc

variable {gap r : Text} {c : Char}

theorem skipSpace_append (h : IsBlank gap) (r : Text) : skipSpace (gap ++ r) = skipSpace r :=
  List.dropWhile_append_of_pos h

theorem skipSpace_cons (h : isSpace c = false) (r : Text) : skipSpace (c :: r) = c :: r :=
  List.dropWhile_cons_of_neg (by simp [h])

theorem skipSpace_blank (h : IsBlank gap) : skipSpace gap = [] := List.dropWhile_eq_nil_iff.mpr h

/-- A number ends before blanks. -/
theorem ends_append (h : IsBlank gap) (hr : Ends r) : Ends (gap ++ r) := by
  cases gap with
  | nil => exact hr
  | cons c gap =>
    refine ends_cons ?_ _
    have hc := h c List.mem_cons_self
    simp only [isSpace, Bool.or_eq_true, beq_iff_eq] at hc
    obtain ((rfl | rfl) | rfl) | rfl := hc <;> rfl

/-! ## Values without parts -/

/-- A character that opens a plain value: neither a blank nor an opening bracket. -/
structure Opens (c : Char) : Prop where
  isSpace : isSpace c = false
  ne_bracket : c ≠ '['
  ne_brace : c ≠ '\x7b'

/-- A character that is neither a digit nor a minus starts no number. -/
theorem ne_of_starts {m : Char} (h : c.isDigit ∨ c = '-') (hdigit : m.isDigit = false)
    (hminus : m ≠ '-') : c ≠ m := by
  rintro rfl
  rcases h with h | h
  · rw [hdigit] at h
    exact Bool.false_ne_true h
  · exact hminus h

theorem opens_of_starts (h : c.isDigit ∨ c = '-') : Opens c where
  isSpace := by
    have hblank : ∀ m ∈ [' ', '\n', '\t', '\r'], c ≠ m := by
      simp only [List.forall_mem_cons, List.not_mem_nil, false_implies, implies_true, and_true]
      refine ⟨?_, ?_, ?_, ?_⟩ <;> exact ne_of_starts h rfl (by decide)
    simpa [Json.isSpace, and_assoc] using hblank
  ne_bracket := ne_of_starts h rfl (by decide)
  ne_brace := ne_of_starts h rfl (by decide)

/-- The numeral of a finite number starts with a digit or a minus. -/
theorem exists_ofNumber_eq_cons {x : Binary64} (hx : x.isFinite) :
    ∃ c s, ofNumber (.real x) = c :: s ∧ (c.isDigit ∨ c = '-') := by
  cases x with
  | nan => simp [Binary64.isFinite] at hx
  | infinity negative => simp [Binary64.isFinite] at hx
  | finite negative e f =>
    obtain ⟨p, hp, -, htext⟩ := exists_parts e f
    cases negative with
    | true => exact ⟨'-', p.text, htext _, Or.inr rfl⟩
    | false =>
      obtain ⟨c, s, hcs⟩ := List.exists_cons_of_ne_nil hp.whole_ne_nil
      refine ⟨c, s ++ (p.fractionText ++ p.shiftText), ?_, Or.inl ?_⟩
      · rw [htext, Parts.text, hcs]
        rfl
      · exact hp.whole_digits c (hcs ▸ List.mem_cons_self)

theorem exists_ofScalar_eq_cons {v : Value} (hv : v.IsPlain) :
    ∃ c s, ofScalar v = c :: s ∧ Opens c := by
  rcases Value.cases_of_isPlain hv with rfl | ⟨b, rfl⟩ | ⟨s, rfl⟩ | ⟨x, rfl, hx⟩
  · exact ⟨'n', _, rfl, ⟨by decide, by decide, by decide⟩⟩
  · cases b with
    | true => exact ⟨'t', _, rfl, ⟨by decide, by decide, by decide⟩⟩
    | false => exact ⟨'f', _, rfl, ⟨by decide, by decide, by decide⟩⟩
  · exact ⟨'"', _, rfl, ⟨by decide, by decide, by decide⟩⟩
  · obtain ⟨c, s, hcs, hc⟩ := exists_ofNumber_eq_cons hx
    exact ⟨c, s, hcs, opens_of_starts hc⟩

/-- **A plain value is read** behind blanks, whatever stands behind it. -/
theorem valueWithin_plain {v : Value} (hv : v.IsPlain) (hgap : IsBlank gap) (hr : Ends r)
    (depth : ℕ) :
    valueWithin depth (gap ++ (ofScalar v ++ r)) = v.reread.map fun w => (w, r) := by
  rw [valueWithin, value, skipSpace_append hgap]
  rcases Value.cases_of_isPlain hv with rfl | ⟨b, rfl⟩ | ⟨s, rfl⟩ | ⟨x, rfl, hx⟩
  · rfl
  · cases b <;> rfl
  · rw [ofScalar, quote_append, skipSpace_cons rfl]
    simp only [if_true, string_quote]
    rfl
  · obtain ⟨c, s, hcs, hc⟩ := exists_ofNumber_eq_cons hx
    have hopens := opens_of_starts hc
    have hquote : c ≠ '"' := ne_of_starts hc rfl (by decide)
    have ht : c ≠ 't' := ne_of_starts hc rfl (by decide)
    have hf : c ≠ 'f' := ne_of_starts hc rfl (by decide)
    have hn : c ≠ 'n' := ne_of_starts hc rfl (by decide)
    have hread := number_real hx hr
    rw [hcs, List.cons_append] at hread
    rw [ofScalar, hcs, List.cons_append, skipSpace_cons hopens.isSpace]
    simp only [if_neg hquote, if_neg hopens.ne_bracket, if_neg hopens.ne_brace, if_neg ht,
      if_neg hf, if_neg hn, hread, Value.reread]
    cases x.reread <;> rfl

/-- **A key is read** behind blanks. -/
theorem key_quote (hgap : IsBlank gap) (s r : Text) : key (gap ++ (quote s ++ r)) = .ok (s, r) := by
  rw [key, skipSpace_append hgap, quote_append, skipSpace_cons rfl]
  exact string_quote s r

theorem colon_cons (r : Text) : colon (':' :: r) = .ok r := by
  rw [colon, skipSpace_cons rfl]
  rfl

end Json

end ItemConditions
