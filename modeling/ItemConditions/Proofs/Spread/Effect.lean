import ItemConditions.Proofs.Spread.Targets

/-!
# The effect of a spread

A script goes to every target. A list of commands goes to the targets that hold sequences; each of
them keeps the lines that no rule knows and gives up the others. All else in the document is as it
was, and the item has the paths that it had.

## Main definitions

* `Spread.Effect`: what a spread does to a document, and what it reports

## Main results

* `Document.spread_effect`: a spread succeeds, with this effect
-/

namespace ItemConditions

namespace Spread

variable {doc : Document} {item : Text} {tree : Value} {rs : List Record} {ps : List ItemPath}

/-- **What a spread does to a document**, and what it reports. -/
structure Effect (doc : Document) (item : Text) (tree : Value) (source : ItemPath)
    (rs : List Record) (report : SpreadReport) (after : Document) : Prop where
  /-- A script is spread to every target. -/
  script : source.kind = .script → report = ⟨targets tree source, []⟩ ∧
    ∃ t, Slot.encode .script rs = .script (some t) ∧
      ∀ p ∈ report.updated, after.get? item p = some (.string t)
  /-- Commands are spread to the targets that hold sequences, behind the lines that these keep. -/
  commands : source.kind = .commands → report =
      ⟨(targets tree source).filter fun p => (doc.get? item p).any Value.isSequence,
        (targets tree source).filter fun p => !(doc.get? item p).any Value.isSequence⟩ ∧
    ∀ p ∈ report.updated, ∃ items, doc.get? item p = some (.sequence items) ∧
      after.get? item p = some (.ofTexts (keptLines items ++ rs.map Command.write))
  /-- What is skipped is as it was. -/
  skipped : ∀ p ∈ report.skipped, after.get? item p = doc.get? item p
  /-- So is all that is neither inside a target that was written nor around it. -/
  frame : Document.Frame item report.updated doc after
  /-- The item has the paths that it had. -/
  paths : ∃ tree', after.item? item = some tree' ∧
    Discovery.paths tree' = Discovery.paths tree

theorem report_of_script {source : ItemPath} {t : Text} (hkind : source.kind = .script)
    (ht : Script.write? rs = some t) (doc : Document) (item : Text) (ps : List ItemPath) :
    (changes doc item source.kind rs ps).map Prod.fst = ps ∧
      skips doc item source.kind rs ps = [] := by
  have hwritten (present : Option Value) : written? source.kind rs present = some (.string t) := by
    rw [hkind, written?_script, ht, Option.map_some]
  rw [map_fst_changes, skips]
  simp [hwritten]

theorem Lists.report_of_commands {source : ItemPath} (h : Lists doc item tree ps)
    (rs : List Record) (hkind : source.kind = .commands) :
    (changes doc item source.kind rs ps).map Prod.fst
        = ps.filter (fun p => (doc.get? item p).any Value.isSequence) ∧
      skips doc item source.kind rs ps
        = ps.filter fun p => !(doc.get? item p).any Value.isSequence := by
  have hwritten : ∀ p ∈ ps, (written? source.kind rs (doc.get? item p)).isSome
      = (doc.get? item p).any Value.isSequence := by
    intro p hp
    obtain ⟨v, hv, htruthy⟩ := h.exists_get? hp
    rw [hkind, hv, isSome_written?_commands rs htruthy, Option.any_some]
  rw [map_fst_changes, skips]
  refine ⟨List.filter_congr hwritten, List.filter_congr fun p hp => ?_⟩
  rw [← hwritten p hp, Option.not_isSome]

end Spread

open Spread in
/-- **The exact effect of a spread.** With a record to spread and an item to spread it over, a
spread succeeds. A script goes to every target; a list of commands goes to the targets that hold
sequences, each of which keeps its own lines that no rule knows. All else is as it was. -/
theorem Document.spread_effect {doc : Document} {item : Text} {tree : Value} {rs : List Record}
    (source : ItemPath) (hkeys : doc.HasDistinctKeys) (htree : doc.item? item = some tree)
    (hstructured : ∃ r ∈ rs, r.isStructured) :
    ∃ report after, (doc.spread item source rs).answer = .ok (report, after) ∧
      Effect doc item tree source (rs.filter Record.isStructured) report after := by
  generalize hrs : rs.filter Record.isStructured = ss
  have hss : ss ≠ [] := by
    rintro rfl
    obtain ⟨r, hr, hstructured⟩ := hstructured
    exact List.filter_eq_nil_iff.mp hrs r hr hstructured
  have htreeKeys := hkeys.item? htree
  have hlists := lists_targets htree htreeKeys source
  refine ⟨_, _, spread_eq source htree htreeKeys hrs hss, ?_⟩
  constructor
  case script =>
    intro hkind
    obtain ⟨t, ht⟩ := Option.ne_none_iff_exists'.mp (mt Script.write?_eq_none_iff.mp hss)
    obtain ⟨hupdated, hskipped⟩ := report_of_script hkind ht doc item (targets tree source)
    refine ⟨by rw [hupdated, hskipped], t, by rw [Slot.encode, ht], fun p hp => ?_⟩
    rw [hlists.get?_replaceAll source.kind ss (mem_of_mem_map_changes hp), hkind, written?_script,
      ht, Option.map_some, Option.some_or]
  case commands =>
    intro hkind
    obtain ⟨hupdated, hskipped⟩ := hlists.report_of_commands ss hkind
    refine ⟨by rw [hupdated, hskipped], fun p hp => ?_⟩
    rw [hupdated, List.mem_filter, Option.any_eq_true] at hp
    obtain ⟨hmem, v, hv, hsequence⟩ := hp
    obtain ⟨items, rfl⟩ := Value.isSequence_iff.mp hsequence
    refine ⟨items, hv, ?_⟩
    rw [hlists.get?_replaceAll source.kind ss hmem, hv, hkind, written?_sequence, Option.some_or]
  case skipped =>
    intro p hp
    obtain ⟨hmem, hnone⟩ := List.mem_filter.mp hp
    rw [hlists.get?_replaceAll source.kind ss hmem, Option.isNone_iff_eq_none.mp hnone,
      Option.none_or]
  case frame => exact Document.frame_replaceAll ..
  case paths =>
    obtain ⟨tree', hlists', hpaths⟩ := hlists.replaceAll_changes source.kind ss
    exact ⟨tree', hlists'.item?, hpaths⟩

open Spread in
/-- A list that keeps a line and a number, in front of the command that takes the place of its own;
a text where no commands can stand is left. -/
theorem Document.spread_effect_commands :
    let list : Text := "a/b".toList
    let path (index : ℕ) : ItemPath := Discovery.entryPath list index "actions".toList
    let entry (v : Value) : Value := .mapping [("actions".toList, v)]
    let old : Text := "console: cmi money take %player_name% 3".toList
    let tree : Value := .mapping [("actions".toList, .mapping [(list, .sequence [
      entry (.sequence [.string old]), entry (.string old),
      entry (.sequence [.string "say".toList, .string old, .number (.whole 7)])])])]
    let doc : Document := ⟨[("gem".toList, tree)]⟩
    let r : Record := .command (.money (.ofNat 5))
    doc.HasDistinctKeys ∧ ∃ after,
      (doc.spread "gem".toList (path 0) [r, .kept old]).answer = .ok (⟨[path 2], [path 1]⟩, after) ∧
      Effect doc "gem".toList tree (path 0) [r] ⟨[path 2], [path 1]⟩ after ∧
      after.get? "gem".toList (path 2)
        = some (.ofTexts ["say".toList, "7".toList, Command.write r]) := by
  intro list path entry old tree doc r
  have hkeys : doc.HasDistinctKeys := by
    simp [doc, tree, entry, Document.HasDistinctKeys, Document.toValue, Entries.keys]
  have htree : doc.item? "gem".toList = some tree := rfl
  have hstructured : ∃ s ∈ [r, .kept old], s.isStructured := ⟨r, List.mem_cons_self, rfl⟩
  have htargets : Spread.targets tree (path 0) = [path 1, path 2] := by decide +kernel
  obtain ⟨report, after, hanswer, heffect⟩ :=
    Document.spread_effect (path 0) hkeys htree hstructured
  obtain ⟨hreport, hwritten⟩ := heffect.commands rfl
  obtain rfl : report = ⟨[path 2], [path 1]⟩ := by rw [hreport, htargets]; rfl
  refine ⟨hkeys, after, hanswer, heffect, ?_⟩
  obtain ⟨items, hitems, hafter⟩ := hwritten (path 2) List.mem_cons_self
  obtain rfl : [.string "say".toList, .string old, .number (.whole 7)] = items :=
    Value.sequence.inj (Option.some.inj hitems)
  have hkept : keptLines [.string "say".toList, .string old, .number (.whole 7)]
      = ["say".toList, "7".toList] := by decide +kernel
  rw [hafter, hkept]
  rfl

end ItemConditions
