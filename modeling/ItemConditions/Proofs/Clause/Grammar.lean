import ItemConditions.Proofs.Binary64.Spelling
import ItemConditions.Proofs.Clause

/-!
# The grammar of clauses

A clause is spelled as `vars(`, a placeholder in quotes of one kind, a closing parenthesis, a
comparator and a number, with blanks in the four places between them. Exactly the texts of this form
are understood, and a text has it in one way: every part ends at the first character that cannot
belong to it.

## Main definitions

* `Clause.Form`: a clause as it is spelled
* `Clause.Form.IsProper`: what its parts have to be

## Main results

* `Clause.parts?_text`, `Clause.exists_form_of_parts?`: the parts that are read are those of a form
* `Clause.Form.IsProper.eq_of_text`: a text has one form
* `Clause.clause_forms_exact`: which texts are clauses, and what they are read as
-/

namespace ItemConditions.Clause

/-- **A clause as it is spelled**, with the blanks in its four places. -/
structure Form where
  beforePlaceholder : Text
  quote : Char
  expression : Text
  behindPlaceholder : Text
  beforeComparator : Text
  comparator : Comparator
  behindComparator : Text
  number : Numeral.Spelling
deriving DecidableEq, Repr

/-- The signs that the number of a clause may have. -/
def signs : List Numeral.Sign := [.none, .minus]

namespace Form

/-- The blanks of a clause. -/
def blanks (f : Form) : List Text :=
  [f.beforePlaceholder, f.behindPlaceholder, f.beforeComparator, f.behindComparator]

/-- The text behind the closing parenthesis. -/
def comparison (f : Form) : Text :=
  f.beforeComparator ++ (f.comparator.sign.toList ++ (f.behindComparator ++ f.number.text))

/-- The text of a clause. -/
def text (f : Form) : Text :=
  start ++ (f.beforePlaceholder ++ f.quote :: (f.expression ++ f.quote ::
    (f.behindPlaceholder ++ ')' :: f.comparison)))

/-- **The parts of a clause are what they have to be.** The placeholder holds no quote of the kind
that stands around it; everything else may stand in it. -/
structure IsProper (f : Form) : Prop where
  blanks : ∀ t ∈ f.blanks, ∀ c ∈ t, Text.isBlank c
  quote : IsQuote f.quote
  expression : f.quote ∉ f.expression
  number : f.number.IsProper signs

namespace IsProper

variable {f : Form}

theorem beforePlaceholder (h : f.IsProper) : ∀ c ∈ f.beforePlaceholder, Text.isBlank c :=
  h.blanks _ (by simp [Form.blanks])

theorem behindPlaceholder (h : f.IsProper) : ∀ c ∈ f.behindPlaceholder, Text.isBlank c :=
  h.blanks _ (by simp [Form.blanks])

theorem beforeComparator (h : f.IsProper) : ∀ c ∈ f.beforeComparator, Text.isBlank c :=
  h.blanks _ (by simp [Form.blanks])

theorem behindComparator (h : f.IsProper) : ∀ c ∈ f.behindComparator, Text.isBlank c :=
  h.blanks _ (by simp [Form.blanks])

end IsProper

end Form

/-! ## Comparators and numbers -/

/-- A comparator is found where no equals sign follows that would make it another one. -/
theorem comparator?_append (c : Comparator) {t : Text} (h : '=' ∉ t.head?) :
    comparator? (c.sign.toList ++ t) = some (c, t) := by
  have hhead : ∀ d r, t = d :: r → d ≠ '=' := by
    rintro d r rfl rfl
    exact h rfl
  cases c with
  | gt | lt =>
    cases t with
    | nil => rfl
    | cons d r =>
      have hd := hhead d r rfl
      simp [Comparator.sign, comparator?, hd]
  | _ => rfl

theorem eq_append_of_comparator? {t r : Text} {c : Comparator} (h : comparator? t = some (c, r)) :
    t = c.sign.toList ++ r := by
  unfold comparator? at h
  split at h <;> first | cases h; rfl | simp at h

/-- The number of a clause is a spelling with a minus sign or none. -/
theorem number?_eq_some_iff {t : Text} {x : Binary64} : number? t = some x ↔
    ∃ n : Numeral.Spelling, n.IsProper signs ∧ n.text = t ∧ n.amount = x := by
  constructor
  · intro h
    unfold number? at h
    split at h
    · next t =>
      rw [Numeral.map_unsigned?] at h
      split_ifs at h with hdigits
      exact ⟨⟨.minus, t⟩, ⟨by simp [signs], hdigits⟩, rfl, Option.some.inj h⟩
    · rw [Numeral.map_unsigned?] at h
      split_ifs at h with hdigits
      exact ⟨⟨.none, t⟩, ⟨by simp [signs], hdigits⟩, rfl, Option.some.inj h⟩
  · rintro ⟨⟨sign, digits⟩, hn, rfl, rfl⟩
    have hread (negative : Bool) : (Numeral.unsigned? digits).map (Binary64.ofDecimal negative)
        = some (.nearest negative (Numeral.value digits)) := by
      rw [Numeral.map_unsigned?, if_pos hn.digits]
    cases sign with
    | none =>
      obtain ⟨c, r, rfl, hc⟩ := hn.digits.exists_cons
      have hne : c ≠ '-' := by
        rintro rfl
        simp at hc
      exact (number?_of_ne hne r).trans (hread false)
    | plus => exact absurd hn.sign (by simp [signs])
    | minus => exact hread true

/-- The number of a clause starts with no blank and no equals sign. -/
theorem exists_cons_of_isProper {n : Numeral.Spelling} (h : n.IsProper signs) :
    ∃ c r, n.text = c :: r ∧ Text.isBlank c = false ∧ c ≠ '=' := by
  obtain ⟨c, r, htext, hc⟩ := h.exists_cons
  refine ⟨c, r, htext, ?_⟩
  rcases hc with hc | hc
  · refine ⟨Text.isBlank_of_isDigit hc, ?_⟩
    rintro rfl
    simp at hc
  · simp only [List.mem_cons, List.not_mem_nil, or_false] at hc
    rcases hc with rfl | rfl | rfl <;> decide

theorem exists_cons_of_sign (c : Comparator) :
    ∃ d r, c.sign.toList = d :: r ∧ Text.isBlank d = false := by
  cases c <;> exact ⟨_, _, rfl, rfl⟩

/-! ## The parts of a form -/

namespace Form

variable {f g : Form}

/-- The comparator is found behind its blanks, and the number behind those that follow. -/
theorem IsProper.comparator?_comparison (h : f.IsProper) :
    comparator? (Text.trimStart f.comparison)
      = some (f.comparator, f.behindComparator ++ f.number.text) := by
  obtain ⟨c, r, hsign, hc⟩ := exists_cons_of_sign f.comparator
  have htrim : Text.trimStart f.comparison
      = f.comparator.sign.toList ++ (f.behindComparator ++ f.number.text) := by
    rw [comparison, hsign, List.cons_append, Text.trimStart_append_cons h.beforeComparator hc]
  rw [htrim]
  refine comparator?_append f.comparator fun hmem => ?_
  obtain ⟨d, s, hnumber, -, hd⟩ := exists_cons_of_isProper h.number
  cases hblanks : f.behindComparator with
  | nil =>
    rw [hblanks, hnumber] at hmem
    exact hd (Option.some.inj hmem)
  | cons b w =>
    rw [hblanks] at hmem
    obtain rfl : b = '=' := Option.some.inj hmem
    exact absurd (h.behindComparator '=' (by rw [hblanks]; exact List.mem_cons_self)) (by decide)

end Form

/-- The parts that are read from a form. -/
theorem parts?_text {f : Form} (h : f.IsProper) :
    parts? f.text = some (f.expression, f.comparator, f.number.amount) := by
  obtain ⟨c, r, hnumber, hc, -⟩ := exists_cons_of_isProper h.number
  have hclosed : closed? (f.behindPlaceholder ++ ')' :: f.comparison) = some f.comparison := by
    rw [closed?, Text.trimStart_append_cons h.behindPlaceholder rfl]
    exact Text.isPrefixOf?_append [')'] _
  have hamount : number? (Text.trimStart (f.behindComparator ++ f.number.text))
      = some f.number.amount := by
    rw [hnumber, Text.trimStart_append_cons h.behindComparator hc, ← hnumber]
    exact number?_eq_some_iff.mpr ⟨f.number, h.number, rfl, rfl⟩
  rw [parts?, Form.text, Text.isPrefixOf?_append]
  simp only [Option.bind_eq_bind, Option.bind_some,
    Text.trimStart_append_cons h.beforePlaceholder h.quote.isBlank,
    quoted?_append h.quote h.expression, hclosed, h.comparator?_comparison, hamount]
  rfl

/-- **Whatever is read as a clause has a form.** -/
theorem exists_form_of_parts? {t expression : Text} {comparator : Comparator} {x : Binary64}
    (h : parts? t = some (expression, comparator, x)) :
    ∃ f : Form, f.IsProper ∧ f.text = t ∧ f.expression = expression ∧ f.comparator = comparator ∧
      f.number.amount = x := by
  simp only [parts?, Option.bind_eq_bind, Option.bind_eq_some_iff, Prod.exists] at h
  obtain ⟨t₁, ht₁, e, t₂, hquoted, t₃, hclosed, c, t₄, hcomparator, y, hnumber, heq⟩ := h
  obtain ⟨rfl, rfl, rfl⟩ : e = expression ∧ c = comparator ∧ y = x := by simpa using heq
  obtain ⟨w₁, hw₁, hsplit₁⟩ := Text.exists_blanks t₁
  obtain ⟨w₂, hw₂, hsplit₂⟩ := Text.exists_blanks t₂
  obtain ⟨w₃, hw₃, hsplit₃⟩ := Text.exists_blanks t₃
  obtain ⟨w₄, hw₄, hsplit₄⟩ := Text.exists_blanks t₄
  obtain ⟨q, hq, hqe, hquote⟩ := eq_append_of_quoted? hquoted
  obtain ⟨n, hn, htext, hamount⟩ := number?_eq_some_iff.mp hnumber
  refine ⟨⟨w₁, q, e, w₂, w₃, c, w₄, n⟩, ⟨?_, hq, hqe, hn⟩, ?_, rfl, rfl, hamount⟩
  · simpa [Form.blanks] using ⟨hw₁, hw₂, hw₃, hw₄⟩
  · have hcomparison : t₃ = w₃ ++ (c.sign.toList ++ (w₄ ++ n.text)) := by
      rw [hsplit₃, eq_append_of_comparator? hcomparator, hsplit₄, htext]
    have hclosing : t₂ = w₂ ++ ')' :: t₃ := by
      rw [hsplit₂, Text.eq_append_of_isPrefixOf? hclosed]
      rfl
    rw [Form.text, Text.eq_append_of_isPrefixOf? ht₁, hsplit₁, hquote, hclosing]
    rw [Form.comparison, hcomparison]

/-! ## One form -/

/-- **A text has one form.** -/
theorem Form.IsProper.eq_of_text {f g : Form} (hf : f.IsProper) (hg : g.IsProper)
    (h : f.text = g.text) : f = g := by
  obtain ⟨hbefore, hquote, h⟩ := Text.append_cons_inj hf.beforePlaceholder hg.beforePlaceholder
    hf.quote.isBlank hg.quote.isBlank (List.append_cancel_left h)
  have hexpression : ∀ c ∈ f.expression, decide (c ≠ f.quote) = true := by
    intro c hc
    rw [decide_eq_true_iff]
    rintro rfl
    exact hf.expression hc
  have hexpression' : ∀ c ∈ g.expression, decide (c ≠ f.quote) = true := by
    intro c hc
    rw [decide_eq_true_iff, hquote]
    rintro rfl
    exact hg.expression hc
  obtain ⟨hexpr, -, h⟩ := Text.append_cons_inj hexpression hexpression' (by simp)
    (by simp [hquote]) h
  obtain ⟨hbehind, -, h⟩ := Text.append_cons_inj hf.behindPlaceholder hg.behindPlaceholder rfl rfl h
  have hcomparator := hf.comparator?_comparison
  rw [h, hg.comparator?_comparison] at hcomparator
  obtain ⟨hsign, hrest⟩ := Prod.mk.inj (Option.some.inj hcomparator)
  have hblanks : f.beforeComparator = g.beforeComparator := by
    rw [Form.comparison, Form.comparison, hsign, hrest] at h
    exact (List.append_cancel_right h)
  obtain ⟨c, r, hc, hcblank, -⟩ := exists_cons_of_isProper hf.number
  obtain ⟨d, s, hd, hdblank, -⟩ := exists_cons_of_isProper hg.number
  rw [hc, hd] at hrest
  obtain ⟨hafter, rfl, rfl⟩ := Text.append_cons_inj hg.behindComparator hf.behindComparator hdblank
    hcblank hrest
  have hnumber : f.number = g.number := hf.number.eq_of_text hg.number (hc.trans hd.symm)
  obtain ⟨⟩ := f
  obtain ⟨⟩ := g
  simp_all

/-! ## The records of clauses -/

/-- **Exactly the texts with a form are clauses.** The form is determined by the text, and the
record holds its placeholder's condition with the number of the form, its comparator, and the text
as it was. Every other text is kept. -/
theorem clause_forms_exact (t : Text) :
    ((read t).isStructured ↔ ∃ f : Form, f.IsProper ∧ f.text = t) ∧
    (∀ f g : Form, f.IsProper → g.IsProper → f.text = t → g.text = t → f = g) ∧
    (∀ f : Form, f.IsProper → f.text = t → read t =
      { condition := (Placeholder.classify f.expression).setAmount f.number.amount
        rawText := t
        isAction := false
        comparator := f.comparator }) ∧
    ((¬ ∃ f : Form, f.IsProper ∧ f.text = t) →
      read t = { condition := .raw t, rawText := t, isAction := false, comparator := .ge }) := by
  have hform : ∀ f : Form, f.IsProper → f.text = t → read t =
      { condition := (Placeholder.classify f.expression).setAmount f.number.amount
        rawText := t
        isAction := false
        comparator := f.comparator } := by
    rintro f hf rfl
    rw [read, parts?_text hf]
  have hstructured : (read t).isStructured ↔ ∃ f : Form, f.IsProper ∧ f.text = t := by
    constructor
    · intro h
      cases hparts : parts? t with
      | none =>
        rw [read, hparts] at h
        simp [Record.kept, Record.isStructured, Condition.isStructured] at h
      | some parts =>
        obtain ⟨expression, comparator, x⟩ := parts
        obtain ⟨f, hf, htext, -⟩ := exists_form_of_parts? hparts
        exact ⟨f, hf, htext⟩
    · rintro ⟨f, hf, htext⟩
      rw [hform f hf htext, Record.isStructured, Condition.isStructured_setAmount]
      exact isStructured_classify f.expression
  refine ⟨hstructured, ?_, hform, fun hnone => ?_⟩
  · intro f g hf hg hft hgt
    exact hf.eq_of_text hg (hft.trans hgt.symm)
  · rw [← hstructured, Bool.not_eq_true] at hnone
    exact read_eq_kept hnone

/-- Blanks of several kinds, a placeholder with a line break and the other quote in it, and a number
without a digit before its point. -/
theorem clause_forms_exact_quote :
    let t := "vars(\t'a)\"\n' )<=\n-.5".toList
    (∃ f : Form, f.IsProper ∧ f.text = t) ∧ read t =
      { condition := .unknown "a)\"\n".toList (.nearest true (1 / 2))
        rawText := t
        comparator := .le } := by
  intro t
  let f : Form := ⟨['\t'], '\'', "a)\"\n".toList, [' '], [], .le, ['\n'], ⟨.minus, ".5".toList⟩⟩
  have htext : f.text = t := by decide
  have hblanks : ∀ t ∈ f.blanks, ∀ c ∈ t, Text.isBlank c := by
    have hall : f.blanks.all (fun t => t.all Text.isBlank) = true := rfl
    simpa only [List.all_eq_true] using hall
  have hproper : f.IsProper := ⟨hblanks, Or.inr rfl, by decide, by decide, by decide⟩
  have hvalue : Numeral.value ".5".toList = 1 / 2 := by
    have hdigits : Numeral.digitsValue 0 (".5".toList.filter Char.isDigit) = 5 := by decide
    have hplaces : (".5".toList.dropWhile (· ≠ '.')).tail.length = 1 := by decide
    rw [Numeral.value, hdigits, hplaces]
    norm_num
  refine ⟨⟨f, hproper, htext⟩, ?_⟩
  rw [(clause_forms_exact t).2.2.1 f hproper htext, Numeral.Spelling.amount, hvalue]
  rfl

end ItemConditions.Clause
