import ItemConditions.Clause
import ItemConditions.Proofs.Binary64.Numeral
import ItemConditions.Proofs.Placeholder.Classification

/-!
# Clauses read back

A clause that is written for a condition is read as that condition, if the condition's amount has a
numeral; a clause with an infinity or not-a-number in it is kept text. What is read from a clause
can always be written again.

## Main definitions

* `Clause.IsPiece`: a text that stands as one piece of a script
* `Clause.IsWritable`: apart from the amount, a clause can say what the condition is
* `Clause.IsExpressible`: a clause can say what the condition is
* `Clause.reread`: the record that is read from what is written for a record

## Main results

* `Clause.isWritable_read`: what is read can be written
* `Clause.IsWritable.cases`: the two ways of being written
* `Clause.read_write`: what is written is read back
* `Clause.write_reread`: what is read back is written the same
-/

namespace ItemConditions

namespace Clause

open Placeholder

/-- What joins the clauses of a script. -/
def joint : Text := "&&".toList

/-! ## Parts of a clause -/

/-- A quote of either kind. -/
def IsQuote (q : Char) : Prop := q = '"' ∨ q = '\''

namespace IsQuote

variable {q : Char}

theorem isBlank (h : IsQuote q) : Text.isBlank q = false := by
  rcases h with rfl | rfl <;> rfl

theorem notMem_joint (h : IsQuote q) : q ∉ joint := by
  rcases h with rfl | rfl <;> decide

end IsQuote

/-- A text in quotes ends at the first quote of its kind. -/
theorem quoted?_append {q : Char} (hq : IsQuote q) {expression : Text} (h : q ∉ expression)
    (after : Text) : quoted? (q :: (expression ++ q :: after)) = some (expression, after) := by
  have hcut : Text.cut? [q] (expression ++ q :: after) = some (expression, after) := by
    simpa using Text.cut?_append (c := q) (m := []) (by simp)
      (by rwa [List.singleton_infix_iff]) after
  rcases hq with rfl | rfl <;> exact hcut

theorem eq_append_of_quoted? {t expression after : Text}
    (h : quoted? t = some (expression, after)) :
    ∃ q, IsQuote q ∧ q ∉ expression ∧ t = q :: (expression ++ q :: after) := by
  unfold quoted? at h
  split at h
  · refine ⟨'"', Or.inl rfl, ?_, by simp [Text.eq_append_of_cut? h]⟩
    rw [← List.singleton_infix_iff]
    exact Text.not_infix_of_cut? (List.cons_ne_nil _ _) h
  · refine ⟨'\'', Or.inr rfl, ?_, by simp [Text.eq_append_of_cut? h]⟩
    rw [← List.singleton_infix_iff]
    exact Text.not_infix_of_cut? (List.cons_ne_nil _ _) h
  · simp at h

theorem number?_of_ne {c : Char} (hc : c ≠ '-') (t : Text) :
    number? (c :: t) = (Numeral.unsigned? (c :: t)).map (Binary64.ofDecimal false) := by
  unfold number?
  split
  · next r heq => exact absurd (List.cons.inj heq).1 hc
  · rfl

/-- The number of a clause is read back; an infinity and not-a-number have none. -/
theorem number?_toPlain (x : Binary64) :
    number? x.toPlain = if x.isFinite then some x else none := by
  cases x with
  | nan => rfl
  | infinity negative => cases negative <;> rfl
  | finite negative e f =>
    cases negative with
    | true => exact Numeral.unsigned?_shortest true e f
    | false =>
      obtain ⟨c, t, hct, hc⟩ := Numeral.exists_positional_eq_cons (Binary64.shortest .upper e f)
      have hne : c ≠ '-' := by rintro rfl; simp at hc
      have hread := Numeral.unsigned?_shortest false e f
      rw [hct] at hread
      have htext : Binary64.toPlain (.finite false e f) = c :: t := hct
      rw [htext, number?_of_ne hne]
      exact hread

theorem ne_nan_of_number? {t : Text} {x : Binary64} (h : number? t = some x) : x ≠ .nan := by
  unfold number? at h
  split at h
  · obtain ⟨d, -, rfl⟩ := Option.map_eq_some_iff.1 h
    exact Binary64.ofRatio_ne_nan _ _ _
  · obtain ⟨d, -, rfl⟩ := Option.map_eq_some_iff.1 h
    exact Binary64.ofRatio_ne_nan _ _ _

/-- A composed clause has the parts that it was composed of, if its number is one. -/
theorem parts?_compose {q : Char} (hq : IsQuote q) {expression : Text} (h : q ∉ expression)
    (x : Binary64) :
    parts? (compose q expression x) = if x.isFinite then some (expression, .ge, x) else none := by
  obtain ⟨c, t, hct⟩ := List.exists_cons_of_ne_nil x.toPlain_ne_nil
  have hc : Text.isBlank c = false :=
    Binary64.isBlank_of_mem_toPlain (hct ▸ List.mem_cons_self)
  have hclause : compose q expression x
      = start ++ q :: (expression ++ q :: ')' :: ' ' :: '>' :: '=' :: ' ' :: x.toPlain) := by
    simp [compose]
  have hclosed (r : Text) : closed? (')' :: r) = some r := by
    rw [closed?, Text.trimStart_cons (by decide)]
    exact Text.isPrefixOf?_append [')'] r
  have hnumber : number? (Text.trimStart x.toPlain) = if x.isFinite then some x else none := by
    rw [hct, Text.trimStart_cons hc, ← hct, number?_toPlain]
  rw [hclause, parts?, Text.isPrefixOf?_append]
  simp only [Option.bind_eq_bind, Option.bind_some, Text.trimStart_cons hq.isBlank,
    quoted?_append hq h, hclosed, Text.trimStart_cons_blank (show Text.isBlank ' ' from rfl),
    Text.trimStart_cons (show Text.isBlank '>' = false from rfl), comparator?,
    hnumber]
  split_ifs <;> rfl

/-- Where the parts of a clause stand: the placeholder is a part of the text and free of the
quote around it, and the amount is a number. -/
theorem exists_quote_of_parts? {t expression : Text} {comparator : Comparator} {x : Binary64}
    (h : parts? t = some (expression, comparator, x)) :
    (∃ q, IsQuote q ∧ q ∉ expression) ∧ expression <:+: t ∧ x ≠ .nan := by
  simp only [parts?, Option.bind_eq_bind, Option.bind_eq_some_iff, Prod.exists] at h
  obtain ⟨t₁, ht₁, e, t₂, hquoted, t₃, -, comparator', t₄, -, y, hnumber, heq⟩ := h
  simp only [Option.pure_def, Option.some.injEq, Prod.mk.injEq] at heq
  obtain ⟨rfl, -, rfl⟩ := heq
  obtain ⟨q, hq, hqe, ht₂⟩ := eq_append_of_quoted? hquoted
  refine ⟨⟨q, hq, hqe⟩, ?_, ne_nan_of_number? hnumber⟩
  have hinner : e <:+: Text.trimStart t₁ := by
    rw [ht₂]
    exact ⟨[q], q :: t₂, by simp⟩
  rw [Text.eq_append_of_isPrefixOf? ht₁]
  exact hinner.trans ((Text.trimStart_suffix t₁).isInfix.trans (List.suffix_append _ _).isInfix)

/-! ## Writing -/

theorem quote?_eq_some {expression : Text} (h : ¬ ('"' ∈ expression ∧ '\'' ∈ expression)) :
    ∃ q, quote? expression = some q ∧ IsQuote q ∧ q ∉ expression := by
  by_cases hdouble : '"' ∈ expression
  · have hsingle : '\'' ∉ expression := fun hsingle => h ⟨hdouble, hsingle⟩
    exact ⟨'\'', by simp [quote?, hdouble, hsingle], Or.inr rfl, hsingle⟩
  · exact ⟨'"', by simp [quote?, hdouble], Or.inl rfl, hdouble⟩

theorem write_eq_compose {r : Record} {expression : Text} {q : Char}
    (hexpression : expression? r.condition = some expression) (hq : quote? expression = some q) :
    write r = compose q expression r.amount := by
  unfold write
  split
  · next ht => simp [ht, expression?] at hexpression
  · simp [hexpression, hq]

/-- A record that cannot be quoted is written as the text that it was read from. -/
theorem write_eq_rawText {r : Record} {expression : Text}
    (hexpression : expression? r.condition = some expression) (hquote : quote? expression = none) :
    write r = r.rawText := by
  unfold write
  split
  · next hraw => simp [hraw, expression?] at hexpression
  · simp only [hexpression, hquote]

/-- A composed clause starts with a letter and ends with its number. -/
theorem isTrimmed_compose (q : Char) (expression : Text) (x : Binary64) :
    Text.IsTrimmed (compose q expression x) := by
  constructor
  · intro c hc
    have hstart : start = 'v' :: "ars(".toList := rfl
    rw [compose, hstart] at hc
    obtain rfl : 'v' = c := by simpa using hc
    rfl
  · intro c hc
    rw [compose, List.getLast?_append_of_ne_nil _ x.toPlain_ne_nil] at hc
    exact Binary64.isBlank_of_mem_toPlain (List.mem_of_getLast? hc)

theorem joint_not_infix {t : Text} (h : '&' ∉ t) : ¬ joint <:+: t :=
  fun hjoint => h (hjoint.subset (by decide))

/-- Behind the placeholder of a composed clause no character is an ampersand. -/
theorem ampersand_notMem_comparison (x : Binary64) : '&' ∉ ") >= ".toList ++ x.toPlain := by
  intro hmem
  rcases List.mem_append.mp hmem with hmem | hmem
  · exact absurd hmem (by decide)
  · exact absurd (Binary64.isNumeralChar_of_mem_toPlain hmem) (by decide)

/-- Only the placeholder of a composed clause can hold what joins clauses. -/
theorem joint_not_infix_compose {q : Char} (hq : IsQuote q) {expression : Text}
    (h : ¬ joint <:+: expression) (x : Binary64) : ¬ joint <:+: compose q expression x := by
  intro hinfix
  rw [compose, List.append_assoc, List.append_assoc, List.cons_append] at hinfix
  rcases Text.infix_append_cons hq.notMem_joint hinfix with hinfix | hinfix
  · exact absurd hinfix (by decide)
  rw [List.cons_append] at hinfix
  rcases Text.infix_append_cons hq.notMem_joint hinfix with hinfix | hinfix
  · exact h hinfix
  exact joint_not_infix (ampersand_notMem_comparison x) hinfix

/-- **A text that stands as one piece of a script**: it does not vanish, loses no blanks and does
not fall apart. -/
structure IsPiece (t : Text) : Prop where
  ne_nil : t ≠ []
  isTrimmed : Text.IsTrimmed t
  joint_not_infix : ¬ joint <:+: t

/-- A composed clause stands as one piece if its placeholder does not fall apart. -/
theorem isPiece_compose {q : Char} (hq : IsQuote q) {expression : Text}
    (h : ¬ joint <:+: expression) (x : Binary64) : IsPiece (compose q expression x) :=
  ⟨by simp [compose], isTrimmed_compose q expression x, joint_not_infix_compose hq h x⟩

/-! ## The conditions that clauses hold -/

/-- **Apart from the amount, a clause can say what the condition is.** Kept text has to stand as a
piece of a script and be no clause; every other condition has to have a placeholder that can be
quoted, does not fall apart, and stands for it. -/
def IsWritable : Condition → Prop
  | .raw t => IsPiece t ∧ (read t).isStructured = false
  | c => IsFaithful c ∧
      ∀ e ∈ expression? c, ¬ joint <:+: e ∧ ¬ ('"' ∈ e ∧ '\'' ∈ e)

/-- **A clause can say what the condition is.** -/
def IsExpressible (c : Condition) : Prop := IsWritable c ∧ c.amount.isFinite

/-- The record that is read from what is written for a record. A number without a numeral makes
the clause kept text. -/
def reread (r : Record) : Record :=
  { condition := if r.amount.isFinite then r.condition else .raw (write r)
    rawText := write r }

theorem isWritable_iff {c : Condition} (h : c.isStructured) :
    IsWritable c ↔ IsFaithful c ∧
      ∀ e ∈ expression? c, ¬ joint <:+: e ∧ ¬ ('"' ∈ e ∧ '\'' ∈ e) := by
  cases c <;> first | rfl | simp [Condition.isStructured] at h

@[simp] theorem isWritable_setAmount (c : Condition) (a : Binary64) :
    IsWritable (c.setAmount a) ↔ IsWritable c := by
  cases c <;> rfl

theorem isStructured_iff {c : Condition} : c.isStructured ↔ ∃ e, expression? c = some e := by
  cases c <;> simp [Condition.isStructured, expression?]

theorem isStructured_classify (expression : Text) : (classify expression).isStructured := by
  obtain ⟨e, he, -⟩ := exists_expression?_classify expression
  exact isStructured_iff.mpr ⟨e, he⟩

/-- What is read from a piece of a script can be written, and its amount is a number. -/
theorem isWritable_read {t : Text} (h : IsPiece t) :
    IsWritable (read t).condition ∧ (read t).amount ≠ .nan := by
  cases hparts : parts? t with
  | none =>
    have hread : read t = .kept t := by simp [read, hparts]
    refine ⟨?_, by simp [hread, Record.kept, Record.amount, Condition.amount, Binary64.zero,
      Binary64.signedZero]⟩
    rw [hread]
    exact ⟨h, by rw [hread]; rfl⟩
  | some parts =>
    obtain ⟨expression, comparator, x⟩ := parts
    obtain ⟨⟨q, hq, hqe⟩, hinfix, hx⟩ := exists_quote_of_parts? hparts
    have hcondition : (read t).condition = (classify expression).setAmount x := by
      simp [read, hparts]
    have hstructured := isStructured_classify expression
    rw [Record.amount, hcondition, Condition.amount_setAmount hstructured,
      isWritable_iff (by simpa using hstructured), isFaithful_setAmount, expression?_setAmount]
    refine ⟨⟨isFaithful_classify expression, fun e he => ?_⟩, hx⟩
    obtain ⟨e', he', hform⟩ := exists_expression?_classify expression
    obtain rfl : e' = e := Option.some.inj (he'.symm.trans he)
    rcases hform with rfl | rfl
    · exact ⟨fun he => h.joint_not_infix (he.trans hinfix),
        fun he => by rcases hq with rfl | rfl <;> tauto⟩
    · have hstrip := stripPercent_infix expression
      constructor
      · intro henclosed
        have hinner := Text.infix_of_enclosed (by decide) (by decide) (by decide) henclosed
        exact h.joint_not_infix (hinner.trans (hstrip.trans hinfix))
      · rintro ⟨hdouble, hsingle⟩
        have hdouble' : '"' ∈ expression := hstrip.subset (by simpa using hdouble)
        have hsingle' : '\'' ∈ expression := hstrip.subset (by simpa using hsingle)
        rcases hq with rfl | rfl <;> tauto

theorem read_eq_kept {t : Text} (h : (read t).isStructured = false) : read t = .kept t := by
  unfold read at h ⊢
  split
  · next expression comparator x hparts =>
    rw [hparts] at h
    simp [Record.isStructured, isStructured_classify] at h
  · rfl

theorem write_of_raw {r : Record} {t : Text} (h : r.condition = .raw t) : write r = t := by
  rw [write, h]

/-- **A record that can be written** is kept text, or has a placeholder that goes into quotes. -/
theorem IsWritable.cases {r : Record} (h : IsWritable r.condition) :
    (∃ t, r.condition = .raw t ∧ IsPiece t ∧ (read t).isStructured = false) ∨
      ∃ expression q, expression? r.condition = some expression ∧ IsFaithful r.condition ∧
        ¬ joint <:+: expression ∧ quote? expression = some q ∧ IsQuote q ∧ q ∉ expression := by
  by_cases hstructured : r.condition.isStructured
  · obtain ⟨expression, hexpression⟩ := isStructured_iff.mp hstructured
    obtain ⟨hfaithful, hplaceholder⟩ := (isWritable_iff hstructured).mp h
    obtain ⟨hjoint, hquotes⟩ := hplaceholder _ hexpression
    obtain ⟨q, hq, hquote, hqe⟩ := quote?_eq_some hquotes
    exact Or.inr ⟨expression, q, hexpression, hfaithful, hjoint, hq, hquote, hqe⟩
  · cases hraw : r.condition with
    | raw t =>
      rw [hraw] at h
      exact Or.inl ⟨t, rfl, h⟩
    | _ => simp [hraw, Condition.isStructured] at hstructured

theorem isPiece_write {r : Record} (h : IsWritable r.condition) : IsPiece (write r) := by
  rcases h.cases with ⟨t, hraw, hpiece, -⟩ | ⟨expression, q, hexpression, -, hjoint, hq, hquote, -⟩
  · rwa [write_of_raw hraw]
  · rw [write_eq_compose hexpression hq]
    exact isPiece_compose hquote hjoint r.amount

/-- **What is written is read back.** -/
theorem read_write {r : Record} (h : IsWritable r.condition) : read (write r) = reread r := by
  rcases h.cases with
    ⟨t, hraw, -, hkept⟩ | ⟨expression, q, hexpression, hfaithful, -, hq, hquote, hqe⟩
  · have hfinite : r.amount.isFinite := by
      rw [Record.amount, hraw]
      rfl
    rw [reread, write_of_raw hraw, read_eq_kept hkept, if_pos hfinite, hraw, Record.kept]
  · have hparts := parts?_compose hquote hqe r.amount
    rw [← write_eq_compose hexpression hq] at hparts
    have hclassify := classify_of_isFaithful hexpression hfaithful
    by_cases hfinite : r.amount.isFinite
    · have hcondition : (classify expression).setAmount r.amount = r.condition := by
        rw [hclassify, Condition.setAmount_setAmount, Record.amount, Condition.setAmount_amount]
      rw [if_pos hfinite] at hparts
      simp only [read, hparts, hcondition, reread, if_pos hfinite]
    · simp only [hfinite, Bool.false_eq_true, ↓reduceIte] at hparts
      simp [read, hparts, reread, hfinite, Record.kept]

/-- **What is read back is written the same.** -/
theorem write_reread {r : Record} (h : IsWritable r.condition) : write (reread r) = write r := by
  by_cases hfinite : r.amount.isFinite
  · have hcondition : (reread r).condition = r.condition := if_pos hfinite
    rcases h.cases with ⟨t, hraw, -⟩ | ⟨expression, q, hexpression, -, -, hq, -⟩
    · rw [write_of_raw hraw, write_of_raw (hcondition.trans hraw)]
    · rw [write_eq_compose hexpression hq, write_eq_compose (hcondition ▸ hexpression) hq,
        Record.amount, hcondition, Record.amount]
  · exact write_of_raw (if_neg hfinite)

end Clause

end ItemConditions
