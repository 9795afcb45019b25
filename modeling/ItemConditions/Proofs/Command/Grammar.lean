import ItemConditions.Proofs.Command.RoundTrip

/-!
# The grammar of commands

Three kinds of command are understood: the removal of items, taking money, and adding to a meta
counter. Each rule knows the lines that are spelled in its own form, and a line has one form at
most. So no line is known by two rules, and the order in which they are tried does not matter.

## Main definitions

* `Placeholder.System`: the two item systems
* `Command.Verb`: what a command does, with the rule that knows it
* `Command.Form`, `Command.Form.IsProper`: a command as it is spelled, and what its parts have to be

## Main results

* `Command.Verb.rule_eq_some_iff`: the lines that a rule knows
* `Command.Form.IsProper.eq_of_text`: a line has one form
* `Command.pairwise_rules`: no line is known by two rules
* `Command.command_forms_exact`: which lines are commands, and what they are read as
-/

namespace ItemConditions

/-! ## Item systems -/

/-- **The two item systems.** -/
inductive Placeholder.System where
  | neige
  | mythic
deriving DecidableEq, Repr

namespace Placeholder

/-- What a tag of a system starts with. -/
def System.mark : System → Text
  | neige => neigeMark
  | mythic => mythicMark

/-- The condition on an item of a system. -/
def System.condition : System → ItemMatch → Condition
  | neige => .neigeItems
  | mythic => .mythicMobs

theorem System.isItem (system : System) (m : ItemMatch) :
    IsItem (system.condition m) system.mark m := by
  cases system with
  | neige => exact .neige m
  | mythic => exact .mythic m

theorem IsItem.exists_system {c : Condition} {mark : Text} {m : ItemMatch} (h : IsItem c mark m) :
    ∃ system : System, c = system.condition m ∧ mark = system.mark := by
  cases h with
  | neige => exact ⟨.neige, rfl, rfl⟩
  | mythic => exact ⟨.mythic, rfl, rfl⟩

/-- An item is told by its clause, up to its amount. -/
theorem System.eq_of_itemClause {system system' : System} {m m' : ItemMatch} (hm : m.IsClear)
    (hm' : m'.IsClear) (hamount : m.amount = m'.amount)
    (h : itemClause system.mark m = itemClause system'.mark m') : system = system' ∧ m = m' := by
  have hread := itemClause?_itemClause (system.isItem m) hm
  rw [h, itemClause?_itemClause (system'.isItem m') hm', Option.some.injEq] at hread
  obtain ⟨name, key, amount, useName⟩ := m
  obtain ⟨name', key', amount', useName'⟩ := m'
  obtain rfl : amount = amount' := hamount
  cases system <;> cases system' <;>
    simp_all [System.condition, Condition.setAmount]

theorem countText_injective : Function.Injective countText := by
  intro count count' h
  have hmark : countMark ≠ [] := by decide
  cases count with
  | none =>
    cases count' with
    | none => rfl
    | some digits' => simp [countText, hmark] at h
  | some digits =>
    cases count' with
    | none => simp [countText, hmark] at h
    | some digits' => rw [List.append_cancel_left h]

/-- The number of items is split off in one way. -/
theorem IsCountOf.eq_of_append {body body' : Text} {count count' : Option Text}
    (hcount : IsCountOf body count) (hcount' : IsCountOf body' count')
    (h : body ++ countText count = body' ++ countText count') : body = body' ∧ count = count' := by
  have hsplit := splitCount_eq hcount
  rw [h, splitCount_eq hcount'] at hsplit
  obtain ⟨rfl, -⟩ := Prod.mk.inj hsplit
  exact ⟨rfl, countText_injective (List.append_cancel_left h)⟩

end Placeholder

namespace Command

open Placeholder (System IsCountOf itemClause countText countValue)

/-! ## Commands as they are spelled -/

/-- **What a command does.** -/
inductive Verb where
  | removal
  | money
  | playerMeta
deriving DecidableEq, Repr

namespace Verb

/-- What a command of this kind starts with. -/
def start : Verb → Text
  | removal => removalStart
  | money => moneyStart
  | playerMeta => metaStart

/-- The name of the rule for this kind. -/
def name : Verb → String
  | removal => "item-removal"
  | money => "money-take"
  | playerMeta => "meta-increment"

/-- The rule for this kind. -/
def rule : Verb → Text → Option Condition
  | removal => removal?
  | money => money?
  | playerMeta => meta?

/-- No kind starts like another. -/
theorem eq_of_start_prefix {verb verb' : Verb} (h : verb.start <+: verb'.start) :
    verb = verb' := by
  cases verb <;> cases verb' <;> first | rfl | exact absurd h (by decide)

theorem exists_cons_start (verb : Verb) :
    ∃ c r, verb.start = c :: r ∧ Text.isBlank c = false := by
  cases verb <;> exact ⟨_, _, rfl, rfl⟩

theorem start_head (verb : Verb) :
    (verb.start.head?.any fun c => !Text.isBlank c) = true := by
  cases verb <;> rfl

end Verb

theorem rules_eq : rules = [Verb.removal, .money, .playerMeta].map fun verb =>
    (verb.name, verb.rule) := rfl

/-- What stands in a command, by what it does. -/
inductive Body where
  | removal (system : System) (item : ItemMatch) (count : Option Text)
  | money (number : Numeral.Spelling)
  | playerMeta (key : Text) (number : Numeral.Spelling)
deriving DecidableEq, Repr

namespace Body

/-- What the command does. -/
def verb : Body → Verb
  | removal .. => .removal
  | money _ => .money
  | playerMeta .. => .playerMeta

/-- The text behind the start. -/
def text : Body → Text
  | removal system item count =>
    Placeholder.removalStart ++ (itemClause system.mark item ++ countText count) ++ ['%']
  | money number => number.text
  | playerMeta key number => key ++ ' ' :: number.text

/-- The condition that is spelled. -/
def condition : Body → Condition
  | removal system item _ => system.condition item
  | money number => .money number.amount
  | playerMeta key number => .playerMeta key number.amount

/-- The parts are what they have to be. The name and the tag of an item can be told apart and
hold no percent sign, and its amount is the number of items behind it. -/
def IsProper : Body → Prop
  | removal system item count =>
    item.IsRemovable ∧ item.amount = countValue count ∧
      IsCountOf (itemClause system.mark item) count
  | money number => number.IsProper [.none]
  | playerMeta key number => IsWord key ∧ number.IsProper [.none, .plus, .minus]

end Body

/-- **A command as it is spelled**, with the blanks behind the console's mark. -/
structure Form where
  blanks : Text
  body : Body
deriving DecidableEq, Repr

namespace Form

/-- The text of a command. -/
def text (f : Form) : Text := spaced f.blanks f.body.verb.start f.body.text

/-- The parts of a command are what they have to be. -/
structure IsProper (f : Form) : Prop where
  blanks : ∀ c ∈ f.blanks, Text.isBlank c
  body : f.body.IsProper

end Form

/-! ## The lines that a rule knows -/

/-- A rule knows the lines of its own form. -/
theorem Verb.rule_eq_some_iff {verb : Verb} {l : Text} {c : Condition} : verb.rule l = some c ↔
    ∃ f : Form, f.IsProper ∧ f.body.verb = verb ∧ f.text = l ∧ f.body.condition = c := by
  have hbody {t : Text} := body?_eq_some_iff verb.start_head (l := l) (t := t)
  cases verb with
  | removal =>
    constructor
    · intro h
      obtain ⟨t, mark, m, count, ht, hc, hm, hamount, hcount, rfl⟩ := removal?_eq_some_iff.mp h
      obtain ⟨blanks, hblanks, rfl⟩ := hbody.mp ht
      obtain ⟨system, rfl, rfl⟩ := hc.exists_system
      exact ⟨⟨blanks, .removal system m count⟩, ⟨hblanks, hm, hamount, hcount⟩, rfl, rfl, rfl⟩
    · rintro ⟨⟨blanks, body⟩, ⟨hblanks, hproper⟩, hverb, rfl, rfl⟩
      cases body with
      | removal system m count =>
        obtain ⟨hm, hamount, hcount⟩ := hproper
        exact removal?_eq_some_iff.mpr ⟨_, system.mark, m, count, hbody.mpr ⟨blanks, hblanks, rfl⟩,
          system.isItem m, hm, hamount, hcount, rfl⟩
      | money number => cases hverb
      | playerMeta key number => cases hverb
  | money =>
    constructor
    · intro h
      obtain ⟨t, ht, n, hn, rfl, rfl⟩ := money?_eq_some_iff.mp h
      obtain ⟨blanks, hblanks, rfl⟩ := hbody.mp ht
      exact ⟨⟨blanks, .money n⟩, ⟨hblanks, hn⟩, rfl, rfl, rfl⟩
    · rintro ⟨⟨blanks, body⟩, ⟨hblanks, hproper⟩, hverb, rfl, rfl⟩
      cases body with
      | removal system m count => cases hverb
      | money number =>
        exact money?_eq_some_iff.mpr
          ⟨_, hbody.mpr ⟨blanks, hblanks, rfl⟩, number, hproper, rfl, rfl⟩
      | playerMeta key number => cases hverb
  | playerMeta =>
    constructor
    · intro h
      obtain ⟨t, ht, key, n, hkey, hn, rfl, rfl⟩ := meta?_eq_some_iff.mp h
      obtain ⟨blanks, hblanks, rfl⟩ := hbody.mp ht
      exact ⟨⟨blanks, .playerMeta key n⟩, ⟨hblanks, hkey, hn⟩, rfl, rfl, rfl⟩
    · rintro ⟨⟨blanks, body⟩, ⟨hblanks, hproper⟩, hverb, rfl, rfl⟩
      cases body with
      | removal system m count => cases hverb
      | money number => cases hverb
      | playerMeta key number =>
        exact meta?_eq_some_iff.mpr ⟨_, hbody.mpr ⟨blanks, hblanks, rfl⟩, key, number, hproper.1,
          hproper.2, rfl, rfl⟩

/-! ## One form -/

theorem Body.IsProper.eq_of_text {b b' : Body} (hb : b.IsProper) (hb' : b'.IsProper)
    (hverb : b.verb = b'.verb) (h : b.text = b'.text) : b = b' := by
  cases b with
  | removal system m count =>
    cases b' with
    | removal system' m' count' =>
      obtain ⟨hm, hamount, hcount⟩ := hb
      obtain ⟨hm', hamount', hcount'⟩ := hb'
      have htext : itemClause system.mark m ++ countText count
          = itemClause system'.mark m' ++ countText count' :=
        List.append_cancel_left (List.append_cancel_right h)
      obtain ⟨hclause, rfl⟩ := hcount.eq_of_append hcount' htext
      obtain ⟨rfl, rfl⟩ := System.eq_of_itemClause hm.1 hm'.1 (hamount.trans hamount'.symm)
        hclause
      rfl
    | money number => cases hverb
    | playerMeta key number => cases hverb
  | money n =>
    cases b' with
    | removal system m count => cases hverb
    | money n' => rw [Numeral.Spelling.IsProper.eq_of_text hb hb' h]
    | playerMeta key number => cases hverb
  | playerMeta key n =>
    cases b' with
    | removal system m count => cases hverb
    | money number => cases hverb
    | playerMeta key' n' =>
      obtain ⟨hkey, hn⟩ := hb
      obtain ⟨hkey', hn'⟩ := hb'
      have hword : ∀ c ∈ key, (!Text.isBlank c) = true := fun c hc => by simp [hkey.2 c hc]
      have hword' : ∀ c ∈ key', (!Text.isBlank c) = true := fun c hc => by simp [hkey'.2 c hc]
      obtain ⟨rfl, -, hnumber⟩ := Text.append_cons_inj hword hword' rfl rfl h
      rw [hn.eq_of_text hn' hnumber]

/-- **A line has one form.** -/
theorem Form.IsProper.eq_of_text {f g : Form} (hf : f.IsProper) (hg : g.IsProper)
    (h : f.text = g.text) : f = g := by
  obtain ⟨c, r, hstart, hc⟩ := f.body.verb.exists_cons_start
  obtain ⟨d, s, hstart', hd⟩ := g.body.verb.exists_cons_start
  have hline := List.append_cancel_left h
  rw [hstart, hstart', List.cons_append, List.cons_append] at hline
  obtain ⟨hblanks, rfl, htail⟩ := Text.append_cons_inj hf.blanks hg.blanks hc hd hline
  have hbehind : f.body.verb.start ++ f.body.text = g.body.verb.start ++ g.body.text := by
    rw [hstart, hstart', List.cons_append, List.cons_append, htail]
  have hverb : f.body.verb = g.body.verb := by
    rcases List.prefix_or_prefix_of_prefix ⟨f.body.text, hbehind⟩ ⟨g.body.text, rfl⟩ with h | h
    · exact Verb.eq_of_start_prefix h
    · exact (Verb.eq_of_start_prefix h).symm
  rw [hverb] at hbehind
  have hbody := hf.body.eq_of_text hg.body hverb (List.append_cancel_left hbehind)
  obtain ⟨blanks, body⟩ := f
  obtain ⟨blanks', body'⟩ := g
  obtain rfl : blanks = blanks' := hblanks
  obtain rfl : body = body' := hbody
  rfl

/-! ## One rule -/

/-- **No line is known by two rules.** -/
theorem pairwise_rules (l : Text) :
    rules.Pairwise fun a b => ¬ ((a.2 l).isSome ∧ (b.2 l).isSome) := by
  have hdistinct : [Verb.removal, .money, .playerMeta].Pairwise (· ≠ ·) := by decide
  rw [rules_eq, List.pairwise_map]
  refine hdistinct.imp fun {verb verb'} hne => ?_
  rintro ⟨h, h'⟩
  obtain ⟨c, hc⟩ := Option.isSome_iff_exists.mp h
  obtain ⟨c', hc'⟩ := Option.isSome_iff_exists.mp h'
  obtain ⟨f, hf, hverb, hl, -⟩ := Verb.rule_eq_some_iff.mp hc
  obtain ⟨g, hg, hverb', hl', -⟩ := Verb.rule_eq_some_iff.mp hc'
  obtain rfl := hf.eq_of_text hg (hl.trans hl'.symm)
  exact hne (hverb.symm.trans hverb')

/-- Where at most one entry answers, the first answer does not depend on the order. -/
theorem findSome?_eq_of_perm {α β : Type} {f : α → Option β} {xs ys : List α} (h : xs.Perm ys)
    (hxs : xs.Pairwise fun a b => ¬ ((f a).isSome ∧ (f b).isSome)) :
    xs.findSome? f = ys.findSome? f := by
  induction h with
  | nil => rfl
  | cons x _ ih =>
    rw [List.findSome?_cons, List.findSome?_cons, ih hxs.of_cons]
  | swap x y xs =>
    have hone := List.rel_of_pairwise_cons hxs List.mem_cons_self
    simp only [List.findSome?_cons]
    cases hx : f x with
    | none => rfl
    | some a =>
      cases hy : f y with
      | none => rfl
      | some b => simp [hx, hy] at hone
  | trans h _ ih ih' =>
    exact (ih hxs).trans (ih' ((h.pairwise_iff fun hab hba => hab hba.symm).mp hxs))

/-- Exactly the lines with a form are recognised, as what is spelled. -/
theorem recognize?_eq_some_iff {l : Text} {c : Condition} : recognize? l = some c ↔
    ∃ f : Form, f.IsProper ∧ f.text = l ∧ f.body.condition = c := by
  have hsound {c : Condition} (h : recognize? l = some c) :
      ∃ f : Form, f.IsProper ∧ f.text = l ∧ f.body.condition = c := by
    obtain ⟨rule, hrule, hc⟩ := List.exists_of_findSome?_eq_some h
    rw [rules_eq] at hrule
    obtain ⟨verb, -, rfl⟩ := List.mem_map.mp hrule
    obtain ⟨f, hf, -, hl, hcondition⟩ := Verb.rule_eq_some_iff.mp hc
    exact ⟨f, hf, hl, hcondition⟩
  refine ⟨hsound, ?_⟩
  rintro ⟨f, hf, hl, rfl⟩
  have hrule := Verb.rule_eq_some_iff.mpr ⟨f, hf, rfl, hl, rfl⟩
  have hmem : (f.body.verb.name, f.body.verb.rule) ∈ rules := by
    rw [rules_eq]
    refine List.mem_map_of_mem (f := fun verb : Verb => (verb.name, verb.rule)) ?_
    cases f.body.verb <;> decide
  cases h : recognize? l with
  | none =>
    have hnone : f.body.verb.rule l = none := List.findSome?_eq_none_iff.mp h _ hmem
    rw [hrule] at hnone
    simp at hnone
  | some c =>
    obtain ⟨g, hg, hl', rfl⟩ := hsound h
    rw [hf.eq_of_text hg (hl.trans hl'.symm)]

/-! ## The records of commands -/

/-- **Exactly the lines with a form are commands**, where blanks at the ends of a line do not count.
The form is determined by the line, and the record holds what is spelled, with the line as its text.
Every other line is kept. At most one rule knows a line, so the rules may be tried in any order. -/
theorem command_forms_exact (l : Text) :
    ((read l).isStructured ↔ ∃ f : Form, f.IsProper ∧ f.text = Text.trim l) ∧
    (∀ f g : Form, f.IsProper → g.IsProper → f.text = Text.trim l → g.text = Text.trim l → f = g) ∧
    (∀ f : Form, f.IsProper → f.text = Text.trim l → read l =
      { condition := f.body.condition, rawText := l, isAction := true, comparator := .ge }) ∧
    ((¬ ∃ f : Form, f.IsProper ∧ f.text = Text.trim l) →
      read l = { condition := .raw l, rawText := l, isAction := true, comparator := .ge }) ∧
    (∀ s, rules.Pairwise fun a b => ¬ ((a.2 s).isSome ∧ (b.2 s).isSome)) ∧
    ∀ (s : Text) (table : List (String × (Text → Option Condition))), table.Perm rules →
      table.findSome? (fun rule => rule.2 s) = recognize? s := by
  have hform : ∀ f : Form, f.IsProper → f.text = Text.trim l → read l =
      { condition := f.body.condition, rawText := l, isAction := true } := by
    intro f hf hl
    rw [read_eq, recognize?_eq_some_iff.mpr ⟨f, hf, hl, rfl⟩, Option.getD_some]
  have hkept : (¬ ∃ f : Form, f.IsProper ∧ f.text = Text.trim l) →
      read l = { condition := .raw l, rawText := l, isAction := true } := by
    intro hnone
    have hrecognize : recognize? (Text.trim l) = none := by
      cases h : recognize? (Text.trim l) with
      | none => rfl
      | some c =>
        obtain ⟨f, hf, hl, -⟩ := recognize?_eq_some_iff.mp h
        exact absurd ⟨f, hf, hl⟩ hnone
    rw [read_eq, hrecognize, Option.getD_none]
  refine ⟨⟨fun h => ?_, ?_⟩, ?_, hform, hkept, pairwise_rules, fun s table hperm => ?_⟩
  · by_contra hnone
    rw [hkept hnone] at h
    simp [Record.isStructured, Condition.isStructured] at h
  · rintro ⟨f, hf, hl⟩
    have hrecognized := isRecognized_of_recognize? (recognize?_eq_some_iff.mpr ⟨f, hf, hl, rfl⟩)
    rw [hform f hf hl]
    exact hrecognized.isStructured
  · intro f g hf hg hl hl'
    exact hf.eq_of_text hg (hl.trans hl'.symm)
  · exact (findSome?_eq_of_perm hperm.symm (pairwise_rules s)).symm

/-- Blanks at the ends and behind the console's mark, and a number of items in digits that are not
ASCII, which counts as zero. -/
theorem command_forms_exact_digits :
    let l := " console:\u00a0papi parse %player_name% %checkitem_amount_remove_".toList
      ++ "nameequals:A,amt:1,nbtstrings:NeigeItems..id=K,amt:\u0663%\n".toList
    (∃ f : Form, f.IsProper ∧ f.text = Text.trim l) ∧ read l =
      { condition := .neigeItems ⟨"A,amt:1".toList, ['K'], .zero, true⟩
        rawText := l
        isAction := true } := by
  intro l
  let m : ItemMatch := ⟨"A,amt:1".toList, ['K'], .zero, true⟩
  let f : Form := ⟨['\u00a0'], .removal .neige m (some ['\u0663'])⟩
  have htext : f.text = Text.trim l := by decide +kernel
  have hclear : m.IsClear := by
    change ¬ Placeholder.tagSeparator <:+: "A,amt:1".toList
    decide
  have hproper : f.IsProper :=
    ⟨List.all_eq_true.mp rfl, ⟨hclear, by decide, by decide⟩, rfl, List.cons_ne_nil _ _,
      List.all_eq_true.mp rfl⟩
  exact ⟨⟨f, hproper, htext⟩, (command_forms_exact l).2.2.1 f hproper htext⟩

end Command

end ItemConditions
