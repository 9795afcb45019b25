import ItemConditions.Proofs.InPlace
import ItemConditions.Proofs.Spread.Targets

/-!
# Independent spreads

Two spreads over different items, or over one item from sources of different kinds, write at
different places. Neither of them moves the targets of the other or touches what stands there, so
each answers the same before and after the other one, and their writes can be made in either order.

## Main definitions

* `Spread.answer`, `Spread.writes`: what a spread answers, and all that it writes
* `Spread.Independent`: spreads over different items, or from sources of different kinds

## Main results

* `Spread.settled_spread`: a spread is its answer with its writes
* `Spread.Independent.answer_and_writes_after`: a spread after an independent one
* `Document.independent_spreads_commute`: the order of independent spreads does not matter
-/

namespace ItemConditions

namespace Spread

open InPlace (settled)

/-! ## Answers and writes -/

/-- **What a spread answers.** -/
def answer (doc : Document) (item : Text) (source : ItemPath) (rs : List Record) :
    Except SpreadError SpreadReport :=
  let structured := rs.filter Record.isStructured
  if structured = [] then .error .nothingToSpread
  else
    match doc.item? item with
    | none => .error (.unknownItem item)
    | some tree => .ok
      ⟨(changes doc item source.kind structured (targets tree source)).map Prod.fst,
        skips doc item source.kind structured (targets tree source)⟩

/-- **All that a spread writes**, by what stands at the targets at first. -/
def writes (doc : Document) (item : Text) (source : ItemPath) (rs : List Record) :
    List (ItemPath × Value) :=
  let structured := rs.filter Record.isStructured
  if structured = [] then []
  else
    match doc.item? item with
    | none => []
    | some tree => changes doc item source.kind structured (targets tree source)

variable {doc : Document} {item item' : Text} {source source' : ItemPath} {rs rs' : List Record}
  {tree : Value} {c : ItemPath × Value}

/-- **A spread is its answer with its writes.** -/
theorem settled_spread (hkeys : doc.HasDistinctKeys) (item : Text) (source : ItemPath)
    (rs : List Record) : settled doc (doc.spread item source rs).answer
      = (answer doc item source rs, doc.replaceAll item (writes doc item source rs)) := by
  by_cases hstructured : rs.filter Record.isStructured = []
  · simp [Document.spread, answer, writes, hstructured]
  · cases htree : doc.item? item with
    | none => simp [Document.spread, answer, writes, hstructured, htree]
    | some tree =>
      rw [spread_eq source htree (hkeys.item? htree) rfl hstructured]
      simp only [answer, writes, if_neg hstructured, htree, InPlace.settled_ok]

/-- A write is made at a target, with a value that counts as set. -/
theorem exists_of_mem_writes (h : c ∈ writes doc item source rs) :
    ∃ tree, doc.item? item = some tree ∧ c.1 ∈ targets tree source ∧
      c.2.truthy ∧ c.2.HasDistinctKeys := by
  rw [writes] at h
  split_ifs at h with hstructured
  · exact absurd h List.not_mem_nil
  · split at h
    · exact absurd h List.not_mem_nil
    · next tree htree =>
      obtain ⟨hmem, hwritten⟩ := mem_changes_iff.mp h
      exact ⟨tree, htree, hmem, truthy_of_written? hwritten⟩

theorem hasDistinctKeys_after (hkeys : doc.HasDistinctKeys) (item : Text) (source : ItemPath)
    (rs : List Record) : (doc.replaceAll item (writes doc item source rs)).HasDistinctKeys := by
  refine hkeys.replaceAll (fun c hc => ?_) item
  obtain ⟨tree, -, -, -, hdistinct⟩ := exists_of_mem_writes hc
  exact hdistinct

/-! ## Independence -/

/-- **Spreads over different items**, or from sources of different kinds. -/
def Independent (item item' : Text) (source source' : ItemPath) : Prop :=
  item ≠ item' ∨ source.kind ≠ source'.kind

namespace Independent

theorem symm (h : Independent item item' source source') : Independent item' item source' source :=
  h.imp Ne.symm Ne.symm

/-- Targets of independent spreads are apart. -/
theorem apart (h : Independent item item' source source') (hkeys : tree.HasDistinctKeys)
    {p q : ItemPath} (hp : p ∈ targets tree source) (hq : q ∈ targets tree source')
    (hitem : item = item') : Value.Apart p.segments q.segments := by
  obtain ⟨hpath, hkind⟩ := List.mem_filter.mp hp
  obtain ⟨hpath', hkind'⟩ := List.mem_filter.mp hq
  simp only [decide_eq_true_eq] at hkind hkind'
  refine Discovery.apart_of_mem_paths hkeys hpath hpath' ?_
  rintro rfl
  exact (h.resolve_left (not_not_intro hitem)) (hkind.2.symm.trans hkind'.2)

/-- The writes of one spread leave the targets of the other where they are, with all that stands
there. -/
theorem targets_after (h : Independent item item' source source') (hkeys : doc.HasDistinctKeys)
    (rs : List Record) (htree : doc.item? item' = some tree) :
    ∃ tree', (doc.replaceAll item (writes doc item source rs)).item? item' = some tree' ∧
      targets tree' source' = targets tree source' ∧
      ∀ p ∈ targets tree source', (doc.replaceAll item (writes doc item source rs)).get? item' p
        = doc.get? item' p := by
  have hframe := Document.frame_replaceAll doc item (writes doc item source rs)
  by_cases hitem : item = item'
  · subst hitem
    have hlists := lists_targets htree (hkeys.item? htree) source'
    have hwrites : ∀ c ∈ writes doc item source rs,
        c.1 ∈ targets tree source ∧ c.2.truthy ∧ c.2.HasDistinctKeys := by
      intro c hc
      obtain ⟨_, htree', hwrite⟩ := exists_of_mem_writes hc
      rwa [← Option.some.inj (htree.symm.trans htree')] at hwrite
    obtain ⟨tree', hlists', hpaths⟩ := hlists.replaceAll fun c hc =>
      ⟨List.mem_of_mem_filter (hwrites c hc).1, (hwrites c hc).2⟩
    refine ⟨tree', hlists'.item?, by rw [targets, hpaths, targets], fun p hp => ?_⟩
    refine hframe.elsewhere item p fun heq q hq => ?_
    obtain ⟨c, hc, rfl⟩ := List.mem_map.mp hq
    exact h.apart (hkeys.item? htree) (hwrites c hc).1 hp heq
  · have hget (p : ItemPath) := hframe.elsewhere item' p fun heq => absurd heq hitem
    refine ⟨tree, ?_, rfl, fun p _ => hget p⟩
    rw [← Document.get?_root, hget, Document.get?_root, htree]

/-- An item that is not there is not there after the writes of a spread. -/
theorem item?_after (hnone : doc.item? item' = none) (item : Text) (source : ItemPath)
    (rs : List Record) :
    (doc.replaceAll item (writes doc item source rs)).item? item' = none := by
  by_cases hitem : item = item'
  · subst hitem
    have hwrites : writes doc item source rs = [] := by simp [writes, hnone]
    rw [hwrites, Document.replaceAll_nil, hnone]
  · have hframe := Document.frame_replaceAll doc item (writes doc item source rs)
    rw [← Document.get?_root, hframe.elsewhere item' ⟨[]⟩ fun heq => absurd heq hitem,
      Document.get?_root, hnone]

/-- **A spread after an independent one** answers as it would have answered before, and writes the
same. -/
theorem answer_and_writes_after (h : Independent item item' source source')
    (hkeys : doc.HasDistinctKeys) (rs rs' : List Record) :
    let after := doc.replaceAll item (writes doc item source rs)
    answer after item' source' rs' = answer doc item' source' rs' ∧
      writes after item' source' rs' = writes doc item' source' rs' := by
  intro after
  by_cases hstructured : rs'.filter Record.isStructured = []
  · simp [answer, writes, hstructured]
  · cases htree : doc.item? item' with
    | none =>
      have hafter : after.item? item' = none := item?_after htree item source rs
      simp [answer, writes, htree, hafter]
    | some tree =>
      obtain ⟨tree', hafter, htargets, hget⟩ := h.targets_after hkeys rs htree
      rw [answer, answer, writes, writes, if_neg hstructured, if_neg hstructured,
        if_neg hstructured, if_neg hstructured, hafter, htree]
      simp only [htargets]
      rw [changes_congr hget, skips_congr hget]
      exact ⟨rfl, rfl⟩

/-- The writes of independent spreads are apart. -/
theorem writes_apart (h : Independent item item' source source') (hkeys : doc.HasDistinctKeys)
    (hitem : item = item') : ∀ c ∈ writes doc item source rs,
      ∀ d ∈ writes doc item' source' rs', Value.Apart c.1.segments d.1.segments := by
  intro c hc d hd
  obtain ⟨tree, htree, hmem, -⟩ := exists_of_mem_writes hc
  obtain ⟨_, htree', hmem', -⟩ := exists_of_mem_writes hd
  rw [← hitem, htree] at htree'
  obtain rfl := Option.some.inj htree'
  exact h.apart (hkeys.item? htree) hmem hmem' hitem

end Independent

end Spread

open InPlace (settled) in
open Spread in
/-- **The order of independent spreads does not matter.** Two spreads over different items, or over
one item from sources of different kinds, leave the same document in either order, and each of them
answers the same, be it a report or an error. -/
theorem Document.independent_spreads_commute {doc : Document} {item item' : Text}
    {source source' : ItemPath} (hkeys : doc.HasDistinctKeys)
    (h : item ≠ item' ∨ source.kind ≠ source'.kind) (rs rs' : List Record) :
    let spread (doc : Document) := settled doc (doc.spread item source rs).answer
    let spread' (doc : Document) := settled doc (doc.spread item' source' rs').answer
    (spread doc).1 = (spread (spread' doc).2).1 ∧ (spread' (spread doc).2).1 = (spread' doc).1 ∧
      (spread' (spread doc).2).2 = (spread (spread' doc).2).2 := by
  intro spread spread'
  have hindependent : Independent item item' source source' := h
  have hfirst : spread doc = _ := settled_spread hkeys item source rs
  have hsecond : spread' doc = _ := settled_spread hkeys item' source' rs'
  have hfirst' := settled_spread (hasDistinctKeys_after hkeys item' source' rs') item source rs
  have hsecond' := settled_spread (hasDistinctKeys_after hkeys item source rs) item' source' rs'
  obtain ⟨hanswer, hwrites⟩ := hindependent.symm.answer_and_writes_after hkeys rs' rs
  obtain ⟨hanswer', hwrites'⟩ := hindependent.answer_and_writes_after hkeys rs rs'
  rw [hanswer, hwrites] at hfirst'
  rw [hanswer', hwrites'] at hsecond'
  rw [hfirst, hsecond]
  simp only [spread, spread', hfirst', hsecond', true_and]
  exact replaceAll_comm (hindependent.writes_apart hkeys) doc

open InPlace (settled) in
/-- A script and a list of commands of one item, spread in either order. -/
theorem Document.independent_spreads_commute_gem :
    let path (index : ℕ) (field : String) : ItemPath :=
      Discovery.entryPath "click".toList index field.toList
    let entry (items : List Value) : Value := .mapping
      [("condition".toList, .string "js: a".toList), ("actions".toList, .sequence items)]
    let doc : Document := ⟨[("gem".toList, .mapping [("actions".toList, .mapping [("click".toList,
      .sequence [entry [], entry [.string "say".toList]])])])]⟩
    let rs : List Record := [.command (.money (.ofNat 5))]
    let commands (doc : Document) :=
      settled doc (doc.spread "gem".toList (path 0 "actions") rs).answer
    let script (doc : Document) :=
      settled doc (doc.spread "gem".toList (path 0 "condition") rs).answer
    doc.HasDistinctKeys ∧ (path 0 "actions").kind ≠ (path 0 "condition").kind ∧
      (commands doc).1.isOk ∧ (script doc).1.isOk ∧
      (commands doc).1 = (commands (script doc).2).1 ∧
      (script (commands doc).2).1 = (script doc).1 ∧
      (script (commands doc).2).2 = (commands (script doc).2).2 := by
  intro path entry doc rs commands script
  have hkeys : doc.HasDistinctKeys := by
    simp [doc, entry, Document.HasDistinctKeys, Document.toValue, Entries.keys]
  have hkinds : (path 0 "actions").kind ≠ (path 0 "condition").kind := by decide
  have hindependent : "gem".toList ≠ "gem".toList ∨
      (path 0 "actions").kind ≠ (path 0 "condition").kind := Or.inr hkinds
  exact ⟨hkeys, hkinds, rfl, rfl, Document.independent_spreads_commute hkeys hindependent rs rs⟩

end ItemConditions
