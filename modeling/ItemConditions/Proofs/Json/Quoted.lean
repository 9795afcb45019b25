import ItemConditions.Json.Printer
import ItemConditions.Json.Reader
import Mathlib.Tactic.SplitIfs

/-!
# Quoted texts read back

A text in quotes is read back, whatever characters it holds: the reader takes one character, or one
escape, for each character that was written.

## Main results

* `Json.stringBody_escape`: one character
* `Json.string_quote`: a text in quotes
-/

namespace ItemConditions.Json

/-- A hexadecimal digit is read as the number that it was written for. -/
theorem hexValue?_hexDigit : ∀ n < 16, Text.hexValue? (hexDigit n) = some n := by decide

/-- An escape by number is the character of that number. -/
theorem escaped_unit {c : Char} (h : c.toNat < 0x20) (r : Text) :
    escaped ('u' :: '0' :: '0' :: hexDigit (c.toNat / 16) :: hexDigit (c.toNat % 16) :: r)
      = .ok (c, r) := by
  have hzero : Text.hexValue? '0' = some 0 := rfl
  have hhigh := hexValue?_hexDigit (c.toNat / 16) (by omega)
  have hlow := hexValue?_hexDigit (c.toNat % 16) (by omega)
  have hunit : unit? ('0' :: '0' :: hexDigit (c.toNat / 16) :: hexDigit (c.toNat % 16) :: r)
      = some (c.toNat, r) := by
    simp only [unit?, hzero, hhigh, hlow, Option.bind_eq_bind, Option.bind_some, Option.pure_def]
    congr 2
    omega
  rw [escaped, hunit]
  simp only
  rw [if_neg (by omega), if_neg (by omega), Char.ofNat_toNat]

/-- **One character** is read from what is written for it. -/
theorem stringBody_escape (fuel : Nat) (c : Char) (r : Text) :
    stringBody (fuel + 1) (escape c ++ r)
      = (stringBody fuel r).map fun (t, rest) => (c :: t, rest) := by
  have hescaped {s t : Text} (h : escaped (s ++ r) = .ok (c, t)) :
      stringBody (fuel + 1) ('\\' :: (s ++ r))
        = (stringBody fuel t).map fun (t, rest) => (c :: t, rest) := by
    rw [stringBody, if_neg (by decide), if_pos rfl, h]
  have hcode {n : Nat} (h : c.toNat = n) : c = Char.ofNat n := by rw [← h, Char.ofNat_toNat]
  unfold escape
  split_ifs with hquote hslash hline hreturn htab hback hfeed hcontrol
  · subst hquote
    exact hescaped (s := ['"']) rfl
  · subst hslash
    exact hescaped (s := ['\\']) rfl
  · subst hline
    exact hescaped (s := ['n']) rfl
  · subst hreturn
    exact hescaped (s := ['r']) rfl
  · subst htab
    exact hescaped (s := ['t']) rfl
  · obtain rfl := hcode hback
    exact hescaped (s := ['b']) rfl
  · obtain rfl := hcode hfeed
    exact hescaped (s := ['f']) rfl
  · exact hescaped (escaped_unit hcontrol r)
  · rw [List.singleton_append, stringBody, if_neg hquote, if_neg hslash, if_neg hcontrol]

theorem stringBody_escapes {t : Text} {fuel : Nat} (h : t.length < fuel) (r : Text) :
    stringBody fuel (t.flatMap escape ++ '"' :: r) = .ok (t, r) := by
  induction t generalizing fuel with
  | nil =>
    obtain ⟨fuel, rfl⟩ := Nat.exists_eq_succ_of_ne_zero (Nat.ne_of_gt h)
    simp [stringBody]
  | cons c t ih =>
    obtain ⟨fuel, rfl⟩ := Nat.exists_eq_succ_of_ne_zero (Nat.ne_of_gt (Nat.zero_lt_of_lt h))
    rw [List.flatMap_cons, List.append_assoc, stringBody_escape, ih (Nat.lt_of_succ_lt_succ h)]
    rfl

theorem length_le_escapes (t : Text) : t.length ≤ (t.flatMap escape).length := by
  have hone (c : Char) : 1 ≤ (escape c).length := by
    unfold escape
    split_ifs <;> simp
  induction t with
  | nil => simp
  | cons c t ih =>
    have := hone c
    rw [List.flatMap_cons, List.length_append, List.length_cons]
    omega

/-- **A text in quotes** is read back. -/
theorem string_quote (t r : Text) : string (t.flatMap escape ++ '"' :: r) = .ok (t, r) := by
  refine stringBody_escapes ?_ r
  have := length_le_escapes t
  rw [List.length_append]
  omega

theorem quote_append (t r : Text) : quote t ++ r = '"' :: (t.flatMap escape ++ '"' :: r) := by
  simp [quote]

end ItemConditions.Json
