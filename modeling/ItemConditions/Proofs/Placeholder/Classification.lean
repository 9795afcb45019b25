import ItemConditions.Placeholder
import ItemConditions.Proofs.Condition
import ItemConditions.Proofs.Text.Cut

/-!
# Placeholders and what they stand for

The placeholder that is written for a condition stands for the condition again, with the amount
zero, as long as the condition's fields can be told apart in it. What a placeholder stands for is
always such a condition.

## Main definitions

* `Placeholder.IsItem`: an item condition, by the mark of its system
* `ItemMatch.IsClear`: the name can be told from the tag
* `Placeholder.IsFaithful`: the fields can be told apart in the placeholder

## Main results

* `Placeholder.classify_of_isFaithful`: a condition's placeholder stands for the condition
* `Placeholder.isFaithful_classify`: what a placeholder stands for is faithful
* `Placeholder.exists_expression?_classify`: the placeholder of what a placeholder stands for
-/

namespace ItemConditions

/-- **The name can be told from the tag**: it does not hold what stands between the two, and it is
empty if it is not written. -/
def ItemMatch.IsClear (m : ItemMatch) : Prop :=
  if m.useName then ¬ Placeholder.tagSeparator <:+: m.name else m.name = []

namespace Placeholder

/-- **An item condition**, by the mark of its system. -/
inductive IsItem : Condition → Text → ItemMatch → Prop
  | neige (m : ItemMatch) : IsItem (.neigeItems m) neigeMark m
  | mythic (m : ItemMatch) : IsItem (.mythicMobs m) mythicMark m

/-- **The fields can be told apart in the placeholder.** An unknown quantity has a placeholder that
no rule knows. -/
def IsFaithful : Condition → Prop
  | .playerMeta key _ => key ≠ []
  | .mythicMobs m | .neigeItems m => m.IsClear
  | .unknown key _ => (classify key).kind = .unknown
  | _ => True

@[simp] theorem isFaithful_setAmount (c : Condition) (a : Binary64) :
    IsFaithful (c.setAmount a) ↔ IsFaithful c := by
  cases c <;> rfl

@[simp] theorem expression?_setAmount (c : Condition) (a : Binary64) :
    expression? (c.setAmount a) = expression? c := by
  cases c <;> rfl

namespace IsItem

variable {c : Condition} {mark : Text} {m : ItemMatch}

theorem setAmount (h : IsItem c mark m) (a : Binary64) :
    IsItem (c.setAmount a) mark { m with amount := a } := by
  cases h
  · exact .neige _
  · exact .mythic _

theorem amount_eq (h : IsItem c mark m) : c.amount = m.amount := by
  cases h <;> rfl

theorem kind_ne_unknown (h : IsItem c mark m) : c.kind ≠ .unknown := by
  cases h <;> simp [Condition.kind]

theorem isFaithful (h : IsItem c mark m) (hm : m.IsClear) : IsFaithful c := by
  cases h <;> exact hm

theorem expression?_eq (h : IsItem c mark m) :
    expression? c = some ('%' :: (checkStart ++ itemClause mark m) ++ ['%']) := by
  cases h <;> rfl

end IsItem

/-! ## Item clauses -/

/-- The tags of the two systems start differently. -/
theorem tagged?_mark {c : Condition} {mark : Text} {m : ItemMatch} (h : IsItem c mark m) :
    tagged? m.name m.useName (mark ++ m.key) = some (c.setAmount .zero) := by
  cases h with
  | neige => simp [tagged?, Condition.setAmount]
  | mythic =>
    have hneige : neigeMark.isPrefixOf? (mythicMark ++ m.key) = none :=
      Text.isPrefixOf?_cons_of_ne (by decide) _ _
    simp [tagged?, hneige, Condition.setAmount]

theorem isItem_of_tagged? {name tag : Text} {useName : Bool} {c : Condition}
    (h : tagged? name useName tag = some c) :
    ∃ mark key, IsItem c mark ⟨name, key, .zero, useName⟩ ∧ tag = mark ++ key := by
  unfold tagged? at h
  split at h
  · next key hkey =>
    obtain rfl := Option.some.inj h
    exact ⟨_, key, .neige _, Text.eq_append_of_isPrefixOf? hkey⟩
  · split at h
    · next key hkey =>
      obtain rfl := Option.some.inj h
      exact ⟨_, key, .mythic _, Text.eq_append_of_isPrefixOf? hkey⟩
    · simp at h

/-- A name that does not hold the separator is cut off where it ends. -/
theorem cut?_tagSeparator {name : Text} (h : ¬ tagSeparator <:+: name) (after : Text) :
    Text.cut? tagSeparator (name ++ (tagSeparator ++ after)) = some (name, after) := by
  have hmark : tagSeparator = ',' :: tagMark := rfl
  rw [hmark] at h ⊢
  rw [← List.append_assoc]
  exact Text.cut?_append (by decide) h after

/-- An item clause stands for its item. -/
theorem itemClause?_itemClause {c : Condition} {mark : Text} {m : ItemMatch} (h : IsItem c mark m)
    (hm : m.IsClear) : itemClause? (itemClause mark m) = some (c.setAmount .zero) := by
  unfold ItemMatch.IsClear at hm
  unfold itemClause itemClause?
  split_ifs at hm ⊢ with hname
  · simp only [List.append_assoc, Text.isPrefixOf?_append, cut?_tagSeparator hm]
    rw [← hname]
    exact tagged?_mark h
  · have hnone : nameMark.isPrefixOf? (tagMark ++ (mark ++ m.key)) = none :=
      Text.isPrefixOf?_append_eq_none (by decide) (by decide) _
    have htagged := tagged?_mark h
    rw [hm, Bool.not_eq_true _ |>.mp hname] at htagged
    simpa only [List.append_assoc, hnone, Text.isPrefixOf?_append] using htagged

theorem isItem_of_itemClause? {t : Text} {c : Condition} (h : itemClause? t = some c) :
    ∃ mark m, IsItem c mark m ∧ m.IsClear ∧ m.amount = .zero ∧ t = itemClause mark m := by
  unfold itemClause? at h
  split at h
  · next named hnamed =>
    split at h
    · next name tag hcut =>
      obtain ⟨mark, key, hitem, rfl⟩ := isItem_of_tagged? h
      refine ⟨mark, _, hitem, ?_, rfl, ?_⟩
      · simpa [ItemMatch.IsClear] using Text.not_infix_of_cut? (by decide) hcut
      · rw [Text.eq_append_of_isPrefixOf? hnamed, Text.eq_append_of_cut? hcut]
        simp [itemClause]
    · simp at h
  · split at h
    · next tag htag =>
      obtain ⟨mark, key, hitem, rfl⟩ := isItem_of_tagged? h
      refine ⟨mark, _, hitem, by simp [ItemMatch.IsClear], rfl, ?_⟩
      rw [Text.eq_append_of_isPrefixOf? htag]
      simp [itemClause]
    · simp at h

/-! ## Rules -/

theorem findSome?_rules (t : Text) :
    rules.findSome? (fun rule => rule.2 t)
      = (balance? t <|> level? t <|> meta? t <|> itemCheck? t) := by
  simp only [rules, List.findSome?]
  cases balance? t <;> cases level? t <;> cases meta? t <;> cases itemCheck? t <;> rfl

theorem append_ne_of_not_isPrefix {p t : Text} (h : ¬ p <+: t) (r : Text) : p ++ r ≠ t :=
  fun heq => h ⟨r, heq⟩

/-- An item check is known by no other rule. -/
theorem findSome?_rules_check (b : Text) :
    rules.findSome? (fun rule => rule.2 (checkStart ++ b)) = itemClause? b := by
  have hbalance : balance? (checkStart ++ b) = none :=
    if_neg (append_ne_of_not_isPrefix (by decide) b)
  have hlevel : level? (checkStart ++ b) = none := if_neg (append_ne_of_not_isPrefix (by decide) b)
  have hmeta : metaStart.isPrefixOf? (checkStart ++ b) = none :=
    Text.isPrefixOf?_append_eq_none (by decide) (by decide) b
  simp [findSome?_rules, hbalance, hlevel, meta?, hmeta, itemCheck?]

/-- A meta counter is known by no rule before its own. -/
theorem findSome?_rules_meta {key : Text} (hkey : key ≠ []) :
    rules.findSome? (fun rule => rule.2 (metaStart ++ key)) = some (.playerMeta key .zero) := by
  have hbalance : balance? (metaStart ++ key) = none :=
    if_neg (append_ne_of_not_isPrefix (by decide) key)
  have hlevel : level? (metaStart ++ key) = none :=
    if_neg (append_ne_of_not_isPrefix (by decide) key)
  obtain ⟨c, r, rfl⟩ := List.exists_cons_of_ne_nil hkey
  simp [findSome?_rules, hbalance, hlevel, meta?]

/-- What a rule recognises is a faithful condition with the text as its placeholder. -/
theorem expression?_of_rules {t : Text} {c : Condition}
    (h : rules.findSome? (fun rule => rule.2 t) = some c) :
    expression? c = some ('%' :: t ++ ['%']) ∧ IsFaithful c ∧ c.amount = .zero ∧
      c.kind ≠ .unknown := by
  obtain ⟨rule, hrule, h⟩ := List.exists_of_findSome?_eq_some h
  simp only [rules, List.mem_cons, List.not_mem_nil, or_false] at hrule
  rcases hrule with rfl | rfl | rfl | rfl <;> simp only at h
  · unfold balance? at h
    split_ifs at h with ht
    obtain rfl := Option.some.inj h
    exact ⟨by rw [ht]; rfl, trivial, rfl, by decide⟩
  · unfold level? at h
    split_ifs at h with ht
    obtain rfl := Option.some.inj h
    exact ⟨by rw [ht]; rfl, trivial, rfl, by decide⟩
  · unfold meta? at h
    split at h
    · next d key hkey =>
      obtain rfl := Option.some.inj h
      exact ⟨by rw [Text.eq_append_of_isPrefixOf? hkey]; rfl, List.cons_ne_nil _ _, rfl,
        by simp [Condition.kind]⟩
    · simp at h
  · obtain ⟨b, hb, h⟩ := Option.bind_eq_some_iff.1 h
    obtain ⟨mark, m, hitem, hm, hamount, rfl⟩ := isItem_of_itemClause? h
    rw [Text.eq_append_of_isPrefixOf? hb]
    exact ⟨hitem.expression?_eq, hitem.isFaithful hm, hitem.amount_eq.trans hamount,
      hitem.kind_ne_unknown⟩

/-! ## Percent signs -/

@[simp] theorem stripPercent_enclosed (t : Text) : stripPercent ('%' :: t ++ ['%']) = t := by
  have h : ['%'].isPrefixOf? ('%' :: (t ++ ['%'])) = some (t ++ ['%']) :=
    Text.isPrefixOf?_append ['%'] (t ++ ['%'])
  simp [stripPercent, h]

theorem stripPercent_eq_self {t : Text} (h : '%' ∉ t) : stripPercent t = t := by
  have hstart : ['%'].isPrefixOf? t = none :=
    Text.isPrefixOf?_eq_none_iff.mpr fun hfirst => h (hfirst.mem List.mem_cons_self)
  have hend : ['%'].isSuffixOf? t = none :=
    Text.isSuffixOf?_eq_none_iff.mpr fun hlast => h (hlast.mem List.mem_cons_self)
  simp [stripPercent, hstart, hend]

theorem stripPercent_infix (t : Text) : stripPercent t <:+: t := by
  set rest := (['%'].isPrefixOf? t).getD t with hrest
  obtain ⟨opening, hopening, -⟩ := Text.getD_isPrefixOf?_eq_iff.mp hrest.symm
  obtain ⟨closing, hclosing, -⟩ := Text.getD_isSuffixOf?_eq_iff.mp (rfl : stripPercent t = _)
  exact ⟨opening, closing, by rw [List.append_assoc, ← hclosing, ← hopening]⟩

/-! ## Classification -/

/-- No rule answers with an unknown quantity. -/
theorem classify_of_kind {key : Text} (h : (classify key).kind = .unknown) :
    classify key = .unknown key .zero := by
  unfold classify at h ⊢
  cases hrule : rules.findSome? fun rule => rule.2 (stripPercent key) with
  | none => rfl
  | some c =>
    rw [hrule, Option.getD_some] at h
    exact absurd h (expression?_of_rules hrule).2.2.2

/-- **A condition's placeholder stands for the condition**, with the amount zero. -/
theorem classify_of_isFaithful {c : Condition} {expression : Text}
    (hexpression : expression? c = some expression) (hc : IsFaithful c) :
    classify expression = c.setAmount .zero := by
  cases c with
  | money a =>
    obtain rfl := Option.some.inj hexpression
    rfl
  | level a =>
    obtain rfl := Option.some.inj hexpression
    rfl
  | playerMeta key a =>
    obtain rfl := Option.some.inj hexpression
    rw [classify, List.cons_append, stripPercent_enclosed, findSome?_rules_meta hc]
    rfl
  | mythicMobs m =>
    obtain rfl := Option.some.inj hexpression
    rw [classify, List.cons_append, stripPercent_enclosed, findSome?_rules_check,
      itemClause?_itemClause (.mythic m) hc]
    rfl
  | neigeItems m =>
    obtain rfl := Option.some.inj hexpression
    rw [classify, List.cons_append, stripPercent_enclosed, findSome?_rules_check,
      itemClause?_itemClause (.neige m) hc]
    rfl
  | unknown key a =>
    obtain rfl := Option.some.inj hexpression
    exact classify_of_kind hc
  | raw t => simp [expression?] at hexpression

theorem amount_classify (expression : Text) : (classify expression).amount = .zero := by
  unfold classify
  cases hrule : rules.findSome? fun rule => rule.2 (stripPercent expression) with
  | none => rfl
  | some c => exact (expression?_of_rules hrule).2.2.1

/-- **What a placeholder stands for is faithful.** -/
theorem isFaithful_classify (expression : Text) : IsFaithful (classify expression) := by
  cases hrule : rules.findSome? fun rule => rule.2 (stripPercent expression) with
  | none =>
    have hclassify : classify expression = .unknown expression .zero := by rw [classify, hrule]; rfl
    rw [hclassify, IsFaithful, hclassify]
    rfl
  | some c =>
    rw [classify, hrule]
    exact (expression?_of_rules hrule).2.1

/-- **The placeholder of what a placeholder stands for**: the same text, or what a rule knows
between percent signs. -/
theorem exists_expression?_classify (expression : Text) :
    ∃ e, expression? (classify expression) = some e ∧
      (e = expression ∨ e = '%' :: stripPercent expression ++ ['%']) := by
  unfold classify
  cases hrule : rules.findSome? fun rule => rule.2 (stripPercent expression) with
  | none => exact ⟨expression, rfl, Or.inl rfl⟩
  | some c => exact ⟨_, (expression?_of_rules hrule).1, Or.inr rfl⟩

end Placeholder

end ItemConditions
