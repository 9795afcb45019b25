import ItemConditions.Proofs.Command.Count
import ItemConditions.Proofs.Placeholder.Removal
import ItemConditions.Proofs.Text.Trim

/-!
# The forms of commands

Which rule knows a line, by what stands behind the console's mark, and what the condition of a
known line can be.

## Main definitions

* `Command.spaced`, `Command.line`: a line of one form, with any blanks or with one
* `Command.removalLine`: the line of a removal
* `ItemMatch.IsRemovable`: a removal can name the item
* `Command.IsWord`: the key of a meta counter stands in a command
* `Command.IsRecognized`: the conditions that rules recognise

## Main results

* `Command.removal?_eq_some_iff`, `Command.money?_eq_some_iff`, `Command.meta?_eq_some_iff`: what
  each rule knows
* `Command.recognize?_money`, `Command.recognize?_meta`, `Command.recognize?_removal`: the rule that
  knows a line of each form
* `Command.isRecognized_of_recognize?`: what is recognised
-/

namespace ItemConditions

/-- A removal can name the item: the name can be told from the tag, and no percent sign ends the
placeholder early. -/
def ItemMatch.IsRemovable (m : ItemMatch) : Prop :=
  m.IsClear ∧ '%' ∉ m.key ∧ (m.useName → '%' ∉ m.name)

namespace Command

open Placeholder (IsItem IsCountOf itemClause countText countValue)

/-- The key of a meta counter stands in a command: it is not empty and holds no blank. -/
def IsWord (key : Text) : Prop := key ≠ [] ∧ ∀ c ∈ key, Text.isBlank c = false

/-- The conditions that rules recognise. Money carries no minus sign, and the number of items is
whole. -/
def IsRecognized : Condition → Prop
  | .money a => a ≠ .nan ∧ a.isNegative = false
  | .playerMeta key a => a ≠ .nan ∧ IsWord key
  | .mythicMobs m | .neigeItems m => m.IsRemovable ∧ ∃ n, m.amount = .ofNat n
  | _ => False

/-! ## Lines of one form -/

/-- **A line of one form**, with blanks behind the console's mark or not. -/
def spaced (blanks form t : Text) : Text := start ++ (blanks ++ (form ++ t))

/-- **A line of one form**, with a blank behind the console's mark. -/
def line (form t : Text) : Text := start ++ ' ' :: form ++ t

theorem line_eq_spaced (form t : Text) : line form t = spaced [' '] form t := by
  simp [line, spaced]

/-- **The line of a removal** of so many items. -/
def removalLine (mark : Text) (m : ItemMatch) (n : ℕ) : Text :=
  line removalStart (Placeholder.removalStart ++ Placeholder.itemClause mark m
    ++ Placeholder.countMark ++ Text.ofNat n ++ ['%'])

theorem removal_eq (mark : Text) (m : ItemMatch) :
    removal mark m = removalLine mark m (m.amount.wholePart countLimit) := by
  simp [removal, removalLine, line]

/-- What stands behind the blanks of a line of one form, which starts with no blank. -/
theorem body?_eq_some_iff {form : Text} (h : (form.head?.any fun c => !Text.isBlank c) = true)
    {l t : Text} : body? form l = some t ↔
      ∃ blanks, (∀ c ∈ blanks, Text.isBlank c) ∧ l = spaced blanks form t := by
  rw [body?, Option.bind_eq_some_iff]
  constructor
  · rintro ⟨r, hr, ht⟩
    obtain ⟨blanks, hblanks, hsplit⟩ := Text.exists_blanks r
    refine ⟨blanks, hblanks, ?_⟩
    rw [Text.eq_append_of_isPrefixOf? hr, hsplit, Text.eq_append_of_isPrefixOf? ht, spaced]
  · rintro ⟨blanks, hblanks, rfl⟩
    refine ⟨blanks ++ (form ++ t), Text.isPrefixOf?_append _ _, ?_⟩
    cases form with
    | nil => simp at h
    | cons c r =>
      have hc : Text.isBlank c = false := by simpa using h
      rw [List.cons_append, Text.trimStart_append_cons hblanks hc, ← List.cons_append,
        Text.isPrefixOf?_append]

theorem body?_line {form : Text} (h : (form.head?.any fun c => !Text.isBlank c) = true)
    (t : Text) : body? form (line form t) = some t :=
  (body?_eq_some_iff h).mpr ⟨[' '], List.forall_mem_singleton.mpr rfl, line_eq_spaced form t⟩

/-- A line of one form is of no other, where neither form begins the other. -/
theorem body?_eq_none {form form' l t : Text} (h : body? form l = some t) (hne : ¬ form' <+: form)
    (hne' : ¬ form <+: form') : body? form' l = none := by
  obtain ⟨r, hr, ht⟩ := Option.bind_eq_some_iff.mp h
  rw [body?, hr, Option.bind_some, Text.eq_append_of_isPrefixOf? ht,
    Text.isPrefixOf?_append_eq_none hne hne']

/-- A line ends with what its body ends with. -/
theorem isTrimmed_line (form : Text) {t : Text} (hne : t ≠ [])
    (h : ∀ c ∈ t.getLast?, Text.isBlank c = false) : Text.IsTrimmed (line form t) := by
  constructor
  · intro c hc
    have hstart : start = 'c' :: "onsole:".toList := rfl
    obtain rfl : 'c' = c := by simpa [line, hstart] using hc
    rfl
  · rwa [line, List.getLast?_append_of_ne_nil _ hne]

/-! ## What each rule knows -/

/-- A removal names an item that is known, with a number of items or not. -/
theorem removal?_eq_some_iff {l : Text} {c : Condition} : removal? l = some c ↔
    ∃ t mark m count, body? removalStart l = some t ∧ IsItem c mark m ∧ m.IsRemovable ∧
      m.amount = countValue count ∧ IsCountOf (itemClause mark m) count ∧
      t = Placeholder.removalStart ++ (itemClause mark m ++ countText count) ++ ['%'] := by
  simp only [removal?, Option.bind_eq_bind, Option.bind_eq_some_iff]
  constructor
  · rintro ⟨t, ht, item, hitem, h⟩
    have hinner := Text.eq_append_of_isPrefixOf? hitem
    have hpercent : '%' ∉ item := by
      intro hmem
      have hmem' : '%' ∈ t.takeWhile (· ≠ '%') := by
        rw [hinner]
        exact List.mem_append_right _ hmem
      simpa using List.mem_takeWhile_imp hmem'
    have hcases := Placeholder.classifyRemoval_cases hpercent
    have hsplit := List.takeWhile_append_dropWhile (p := (· ≠ '%')) (l := t)
    rw [hinner] at h hsplit
    generalize Placeholder.classifyRemoval (Placeholder.removalStart ++ item) = c' at h hcases
    split_ifs at h with hline
    rw [hline.1] at hsplit
    split at h
    · simp at h
    · next hne =>
      obtain rfl := Option.some.inj h
      rcases hcases with hunknown | ⟨mark, m, count, hc, hm, hamount, hcount, rfl⟩
      · cases c' with
        | unknown key a => exact absurd rfl (hne key a)
        | _ => simp [Condition.kind] at hunknown
      · have hclause : '%' ∉ itemClause mark m := fun hmem =>
          hpercent (List.mem_append_left _ hmem)
        have hremovable : m.IsRemovable :=
          ⟨hm, (Placeholder.percent_notMem_itemClause hc).mp hclause⟩
        exact ⟨t, mark, m, count, ht, hc, hremovable, hamount, hcount, hsplit.symm⟩
  · rintro ⟨t, mark, m, count, ht, hc, ⟨hclear, hpercent⟩, hamount, hcount, rfl⟩
    have hclause := (Placeholder.percent_notMem_itemClause hc).mpr hpercent
    set item := itemClause mark m ++ countText count with hitem
    have hclassify : Placeholder.classifyRemoval (Placeholder.removalStart ++ item) = c := by
      rw [hitem, Placeholder.classifyRemoval_eq hclause hcount,
        Placeholder.itemClause?_itemClause hc hclear, Option.getD_some,
        Condition.setAmount_setAmount, ← hamount, ← hc.amount_eq, Condition.setAmount_amount]
    have hne : item ≠ [] := by
      have hne' : itemClause mark m ≠ [] := Placeholder.itemClause_ne_nil mark m
      simp [hitem, hne']
    have hnone : ∀ d ∈ Placeholder.removalStart ++ item, decide (d ≠ '%') = true := by
      intro d hd
      rw [decide_eq_true_iff]
      rintro rfl
      rcases List.mem_append.mp hd with hd | hd
      · exact absurd hd (by decide)
      · rcases List.mem_append.mp hd with hd | hd
        · exact hclause hd
        · exact Placeholder.percent_notMem_countText hcount hd
    have htake := Text.takeWhile_append_cons hnone (c := '%') rfl []
    have hdrop := Text.dropWhile_append_cons hnone (c := '%') rfl []
    refine ⟨_, ht, item, by rw [htake, Text.isPrefixOf?_append], ?_⟩
    rw [htake, hdrop, hclassify, if_pos ⟨rfl, hne⟩]
    cases hc <;> rfl

/-- Taking money needs a numeral without a sign. -/
theorem money?_eq_some_iff {l : Text} {c : Condition} : money? l = some c ↔
    ∃ t, body? moneyStart l = some t ∧ ∃ n : Numeral.Spelling, n.IsProper [.none] ∧ t = n.text ∧
      c = .money n.amount := by
  simp only [money?, Option.bind_eq_bind, Option.bind_eq_some_iff, Option.pure_def,
    Option.some.injEq]
  constructor
  · rintro ⟨t, ht, d, hd, rfl⟩
    have hread : (Numeral.unsigned? t).map (Binary64.ofDecimal false)
        = some (.ofDecimal false d) := by rw [hd, Option.map_some]
    obtain ⟨n, hn, rfl, hamount⟩ := Numeral.map_unsigned?_eq_some_iff.mp hread
    exact ⟨n.text, ht, n, hn, rfl, by rw [hamount]⟩
  · rintro ⟨t, ht, n, hn, rfl, rfl⟩
    have hread := Numeral.map_unsigned?_eq_some_iff.mpr ⟨n, hn, rfl, rfl⟩
    obtain ⟨d, hd, hamount⟩ := Option.map_eq_some_iff.mp hread
    exact ⟨n.text, ht, d, hd, by rw [hamount]⟩

theorem meta?_of_body? {l key number : Text} (h : body? metaStart l = some (key ++ ' ' :: number))
    (hkey : IsWord key) : meta? l = (Numeral.readPlain? number).map (.playerMeta key) := by
  have hnonblank : ∀ c ∈ key, (!Text.isBlank c) = true := fun c hc => by simp [hkey.2 c hc]
  have htake := Text.takeWhile_append_cons hnonblank (c := ' ') rfl number
  have hdrop := Text.dropWhile_append_cons hnonblank (c := ' ') rfl number
  rw [meta?, h]
  simp only [Option.bind_eq_bind, Option.bind_some, htake, hdrop, if_neg hkey.1]

/-- Adding to a meta counter needs a key that is a word, and a numeral. -/
theorem meta?_eq_some_iff {l : Text} {c : Condition} : meta? l = some c ↔
    ∃ t, body? metaStart l = some t ∧ ∃ key, ∃ n : Numeral.Spelling, IsWord key ∧
      n.IsProper [.none, .plus, .minus] ∧ t = key ++ ' ' :: n.text ∧
      c = .playerMeta key n.amount := by
  constructor
  · intro h
    simp only [meta?, Option.bind_eq_bind, Option.bind_eq_some_iff] at h
    obtain ⟨t, ht, h⟩ := h
    have hsplit := List.takeWhile_append_dropWhile (p := fun c => !Text.isBlank c) (l := t)
    split at h
    · next number hnumber =>
      split_ifs at h with hkey
      obtain ⟨a, ha, rfl⟩ := Option.map_eq_some_iff.1 h
      obtain ⟨n, hn, rfl, rfl⟩ := Numeral.readPlain?_eq_some_iff.mp ha
      rw [hnumber] at hsplit
      refine ⟨t, ht, _, n, ⟨hkey, fun c hc => ?_⟩, hn, hsplit.symm, rfl⟩
      simpa using List.mem_takeWhile_imp hc
    · simp at h
  · rintro ⟨t, ht, key, n, hkey, hn, rfl, rfl⟩
    rw [meta?_of_body? ht hkey, Numeral.readPlain?_eq_some_iff.mpr ⟨n, hn, rfl, rfl⟩,
      Option.map_some]

/-! ## The rule that knows a line -/

theorem recognize?_eq (line : Text) :
    recognize? line = (removal? line <|> money? line <|> meta? line) := by
  simp only [recognize?, rules, List.findSome?]
  cases removal? line <;> cases money? line <;> cases meta? line <;> rfl

/-- A line of the money form is known by the rule for money alone. -/
theorem recognize?_money (t : Text) : recognize? (line moneyStart t)
    = (Numeral.unsigned? t).map fun d => .money (.ofDecimal false d) := by
  have hbody : body? moneyStart (line moneyStart t) = some t := body?_line rfl t
  have hremoval : removal? (line moneyStart t) = none := by
    rw [removal?, body?_eq_none hbody (by decide) (by decide)]
    rfl
  have hmeta : meta? (line moneyStart t) = none := by
    rw [meta?, body?_eq_none hbody (by decide) (by decide)]
    rfl
  rw [recognize?_eq, hremoval, hmeta, money?, hbody]
  cases hd : Numeral.unsigned? t <;> simp [hd]

/-- **A meta counter's line** is known if its key is a word and its number is one. -/
theorem recognize?_meta {key : Text} (hkey : IsWord key) (number : Text) :
    recognize? (line metaStart (key ++ ' ' :: number))
      = (Numeral.readPlain? number).map (.playerMeta key) := by
  have hbody : body? metaStart (line metaStart (key ++ ' ' :: number))
      = some (key ++ ' ' :: number) := body?_line rfl _
  have hremoval : removal? (line metaStart (key ++ ' ' :: number)) = none := by
    rw [removal?, body?_eq_none hbody (by decide) (by decide)]
    rfl
  have hmoney : money? (line metaStart (key ++ ' ' :: number)) = none := by
    rw [money?, body?_eq_none hbody (by decide) (by decide)]
    rfl
  rw [recognize?_eq, hremoval, hmoney, meta?_of_body? hbody hkey]
  rfl

/-- **A removal's line** is known if it names an item. -/
theorem recognize?_removal {c : Condition} {mark : Text} {m : ItemMatch} (h : IsItem c mark m)
    (hm : m.IsRemovable) (n : ℕ) :
    recognize? (removalLine mark m n) = some (c.setAmount (.ofNat n)) := by
  have hremoval : removal? (removalLine mark m n) = some (c.setAmount (.ofNat n)) := by
    refine removal?_eq_some_iff.mpr ⟨_, mark, _, some (Text.ofNat n), body?_line rfl _,
      h.setAmount (.ofNat n), hm, (Placeholder.countValue_ofNat n).symm,
      Placeholder.isDigits_ofNat n, ?_⟩
    simp [Placeholder.countText, Placeholder.itemClause]
  rw [recognize?_eq, hremoval]
  rfl

/-! ## What is recognised -/

theorem isRecognized_of_isItem {c : Condition} {mark : Text} {m : ItemMatch} (h : IsItem c mark m)
    (hm : m.IsRemovable) {n : ℕ} (hn : m.amount = .ofNat n) : IsRecognized c := by
  cases h <;> exact ⟨hm, n, hn⟩

theorem isRecognized_of_removal? {line : Text} {c : Condition} (h : removal? line = some c) :
    IsRecognized c := by
  obtain ⟨-, mark, m, count, -, hc, hm, hamount, -, -⟩ := removal?_eq_some_iff.mp h
  obtain ⟨n, hn⟩ := Placeholder.exists_ofNat_countValue count
  exact isRecognized_of_isItem hc hm (hamount.trans hn)

theorem isRecognized_of_money? {line : Text} {c : Condition} (h : money? line = some c) :
    IsRecognized c := by
  obtain ⟨-, -, n, hn, -, rfl⟩ := money?_eq_some_iff.mp h
  obtain hsign : n.sign = .none := List.mem_singleton.mp hn.sign
  refine ⟨Binary64.ofRatio_ne_nan _ _ _, ?_⟩
  rw [Numeral.Spelling.amount, hsign]
  exact Binary64.isNegative_ofRatio _ _ _

theorem isRecognized_of_meta? {line : Text} {c : Condition} (h : meta? line = some c) :
    IsRecognized c := by
  obtain ⟨-, -, key, n, hkey, -, -, rfl⟩ := meta?_eq_some_iff.mp h
  exact ⟨Binary64.ofRatio_ne_nan _ _ _, hkey⟩

/-- **What is recognised** can be told apart in a command. -/
theorem isRecognized_of_recognize? {line : Text} {c : Condition} (h : recognize? line = some c) :
    IsRecognized c := by
  obtain ⟨rule, hrule, h⟩ := List.exists_of_findSome?_eq_some h
  simp only [rules, List.mem_cons, List.not_mem_nil, or_false] at hrule
  rcases hrule with rfl | rfl | rfl
  · exact isRecognized_of_removal? h
  · exact isRecognized_of_money? h
  · exact isRecognized_of_meta? h

end Command

end ItemConditions
