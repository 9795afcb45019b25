import ItemConditions.Proofs.Spread.Targets

/-!
# Spreading again

A second spread of the same records finds the same targets and reports the same. It changes nothing
if the lines that the first one wrote are recognised when they are read. A line that is not, such as
the one that stands for a level, is a kept line from then on, and each spread adds another.

## Main results

* `Spread.written?_again`: one target that is written twice
* `Document.spread_again_eq_iff`: when a second spread changes nothing
-/

namespace ItemConditions

theorem Value.ofTexts_injective : Function.Injective Value.ofTexts := by
  intro s t h
  exact List.map_injective_iff.mpr (fun _ _ => Value.string.inj) (Value.sequence.inj h)

namespace Spread

variable {kind : SlotKind} {rs : List Record} {v new : Value}

theorem keptLines_ofTexts (lines : List Text) : keptLines (lines.map .string)
    = lines.filter fun line => !(Command.read line).isStructured := by
  rw [keptLines, List.map_map]
  exact congrArg _ (List.map_id lines)

/-- A list of commands that was written keeps the kept lines, and of the new ones those that no rule
knows. -/
theorem written?_ofTexts (rs : List Record) (items : List Value) :
    written? .commands rs (some (.ofTexts (keptLines items ++ rs.map Command.write)))
      = some (.ofTexts (keptLines items
          ++ ((rs.map Command.write).filter fun line => !(Command.read line).isStructured)
          ++ rs.map Command.write)) := by
  rw [Value.ofTexts, written?_sequence, keptLines_ofTexts, List.filter_append, keptLines,
    List.filter_filter]
  simp only [Bool.and_self]

/-- **One target that is written twice** holds the same in the end exactly if it is a script, or
every new line is recognised. -/
theorem written?_again (htruthy : v.truthy) (h : written? kind rs (some v) = some new) :
    ∃ again, written? kind rs (some new) = some again ∧ (again = new ↔
      kind = .script ∨ ∀ r ∈ rs, (Command.read (Command.write r)).isStructured) := by
  cases kind with
  | script => exact ⟨new, h, by simp⟩
  | commands =>
    have hsequence := isSome_written?_commands rs htruthy
    rw [h, Option.isSome_some] at hsequence
    obtain ⟨items, rfl⟩ := Value.isSequence_iff.mp hsequence.symm
    rw [written?_sequence] at h
    obtain rfl := Option.some.inj h
    refine ⟨_, written?_ofTexts rs items, ?_⟩
    rw [Value.ofTexts_injective.eq_iff, List.append_assoc, List.append_cancel_left_eq]
    simp [List.filter_eq_nil_iff]

/-! ## All targets -/

section Targets

variable {doc after : Document} {item : Text} {tree : Value} {p : ItemPath} {ps : List ItemPath}
  (hlists : Lists doc item tree ps)
  (hafter : after = doc.replaceAll item (changes doc item kind rs ps))

include hlists hafter

/-- A target that was written holds what was written, and would be written again. -/
theorem written?_after_of_some (hp : p ∈ ps)
    (h : written? kind rs (doc.get? item p) = some new) : after.get? item p = some new ∧
      ∃ again, written? kind rs (after.get? item p) = some again ∧ (again = new ↔
        kind = .script ∨ ∀ r ∈ rs, (Command.read (Command.write r)).isStructured) := by
  have hget : after.get? item p = some new := by
    rw [hafter, hlists.get?_replaceAll kind rs hp, h, Option.some_or]
  obtain ⟨v, hv, htruthy⟩ := hlists.exists_get? hp
  rw [hv] at h
  rw [hget]
  exact ⟨rfl, written?_again htruthy h⟩

/-- The same targets are written again. -/
theorem isSome_written?_after (hp : p ∈ ps) : (written? kind rs (after.get? item p)).isSome
    = (written? kind rs (doc.get? item p)).isSome := by
  cases hnew : written? kind rs (doc.get? item p) with
  | none =>
    rw [hafter, hlists.get?_replaceAll kind rs hp, hnew, Option.none_or, hnew]
  | some new =>
    obtain ⟨-, again, hagain, -⟩ := written?_after_of_some hlists hafter hp hnew
    rw [hagain, Option.isSome_some, Option.isSome_some]

theorem report_after : (changes after item kind rs ps).map Prod.fst
      = (changes doc item kind rs ps).map Prod.fst ∧
    skips after item kind rs ps = skips doc item kind rs ps := by
  have hsame := fun p hp => isSome_written?_after (p := p) hlists hafter hp
  rw [map_fst_changes, map_fst_changes, skips, skips]
  refine ⟨List.filter_congr hsame, List.filter_congr fun p hp => ?_⟩
  rw [← Option.not_isSome, ← Option.not_isSome, hsame p hp]

/-- When the targets stay as they are. -/
theorem replaceAll_changes_after_eq_iff {tree' : Value} (hlists' : Lists after item tree' ps) :
    after.replaceAll item (changes after item kind rs ps) = after ↔
      kind = .script ∨ (changes doc item kind rs ps).map Prod.fst = [] ∨
        ∀ r ∈ rs, (Command.read (Command.write r)).isStructured := by
  constructor
  · intro hsame
    rcases List.eq_nil_or_concat (changes doc item kind rs ps) with hnil | ⟨_, ⟨p, new⟩, hlast⟩
    · exact Or.inr (Or.inl (by rw [hnil, List.map_nil]))
    · have hmem : (p, new) ∈ changes doc item kind rs ps := by simp [hlast]
      obtain ⟨hp, hnew⟩ := mem_changes_iff.mp hmem
      obtain ⟨hget, again, hagain, hiff⟩ := written?_after_of_some hlists hafter hp hnew
      have hget' := hlists'.get?_replaceAll kind rs hp
      rw [hsame, hagain, Option.some_or, hget] at hget'
      exact (hiff.mp (Option.some.inj hget').symm).imp_right Or.inr
  · intro h
    refine Document.replaceAll_eq_self fun ⟨p, again⟩ hc => ?_
    obtain ⟨hp, hagain⟩ := mem_changes_iff.mp hc
    have hsome := isSome_written?_after hlists hafter hp
    rw [hagain, Option.isSome_some] at hsome
    obtain ⟨new, hnew⟩ := Option.isSome_iff_exists.mp hsome.symm
    obtain ⟨hget, again', hagain', hiff⟩ := written?_after_of_some hlists hafter hp hnew
    obtain rfl := Option.some.inj (hagain.symm.trans hagain')
    rw [hget]
    refine congrArg some (hiff.mpr ?_).symm
    rcases h with hkind | hnil | hread
    · exact Or.inl hkind
    · have hmem := List.mem_map_of_mem (f := Prod.fst) (mem_changes_iff.mpr ⟨hp, hnew⟩)
      rw [hnil] at hmem
      exact absurd hmem List.not_mem_nil
    · exact Or.inr hread

end Targets

end Spread

open Spread in
/-- **When a second spread changes nothing.** It succeeds with the same report. The document stays
as it is exactly if the source is a script, or no target was written, or every new line is
recognised when it is read. -/
theorem Document.spread_again_eq_iff {doc after : Document} {item : Text} {source : ItemPath}
    {rs : List Record} {report : SpreadReport} (hkeys : doc.HasDistinctKeys)
    (h : (doc.spread item source rs).answer = .ok (report, after)) :
    ∃ again, (after.spread item source rs).answer = .ok (report, again) ∧ (again = after ↔
      source.kind = .script ∨ report.updated = [] ∨
        ∀ r ∈ rs, r.isStructured → (Command.read (Command.write r)).isStructured) := by
  obtain ⟨hss, tree, htree⟩ := exists_of_spread h
  have hlines : (∀ r ∈ rs, r.isStructured → (Command.read (Command.write r)).isStructured) ↔
      ∀ r ∈ rs.filter Record.isStructured, (Command.read (Command.write r)).isStructured := by
    simp
  rw [hlines]
  generalize hrs : rs.filter Record.isStructured = ss at *
  have htreeKeys := hkeys.item? htree
  have hlists := lists_targets htree htreeKeys source
  rw [spread_eq source htree htreeKeys hrs hss] at h
  obtain ⟨rfl, hafter⟩ := Prod.mk.inj (Except.ok.inj h)
  obtain ⟨tree', hlists', hpaths⟩ := hlists.replaceAll_changes source.kind ss
  rw [hafter] at hlists'
  have htargets : targets tree' source = targets tree source := by rw [targets, hpaths, targets]
  obtain ⟨hupdated, hskipped⟩ := report_after hlists hafter.symm
  refine ⟨_, ?_, replaceAll_changes_after_eq_iff hlists hafter.symm hlists'⟩
  rw [spread_eq source hlists'.item? hlists'.hasDistinctKeys hrs hss, htargets, hupdated, hskipped]

open Spread in
/-- An amount of money is spread once. -/
theorem Document.spread_again_eq_iff_money :
    let path (index : ℕ) : ItemPath :=
      Discovery.entryPath "click".toList index "actions".toList
    let entry (items : List Value) : Value := .mapping [("actions".toList, .sequence items)]
    let doc : Document := ⟨[("gem".toList, .mapping [("actions".toList, .mapping [("click".toList,
      .sequence [entry [], entry [.string "say".toList, .null]])])])]⟩
    let rs : List Record := [.command (.money (.ofNat 5))]
    doc.HasDistinctKeys ∧ ∃ report after,
      (doc.spread "gem".toList (path 0) rs).answer = .ok (report, after) ∧
        report.updated = [path 1] ∧
        (after.spread "gem".toList (path 0) rs).answer = .ok (report, after) := by
  intro path entry doc rs
  have hkeys : doc.HasDistinctKeys := by
    simp [doc, entry, Document.HasDistinctKeys, Document.toValue, Entries.keys]
  have htree : doc.item? "gem".toList = some _ := rfl
  have hrs : rs.filter Record.isStructured = rs := rfl
  have h := spread_eq (path 0) htree (hkeys.item? htree) hrs (List.cons_ne_nil _ _)
  obtain ⟨again, hagain, hiff⟩ := Document.spread_again_eq_iff hkeys h
  have hread : ∀ r ∈ rs, r.isStructured → (Command.read (Command.write r)).isStructured := by
    intro r hr hstructured
    obtain rfl := List.mem_singleton.mp hr
    have hcarries : (Binary64.ofNat 5).isFinite ∧ (Binary64.ofNat 5).isNegative = false := by
      decide +kernel
    exact Command.isStructured_read_write hstructured ⟨trivial, hcarries⟩
  obtain rfl := hiff.mpr (Or.inr (Or.inr hread))
  exact ⟨hkeys, _, _, h, rfl, hagain⟩

/-- A level has no command; the line that stands for it is kept, and comes again. -/
theorem Document.spread_again_level :
    let path (index : ℕ) : ItemPath :=
      Discovery.entryPath "click".toList index "actions".toList
    let entry (items : List Value) : Value := .mapping [("actions".toList, .sequence items)]
    let doc : Document := ⟨[("gem".toList, .mapping [("actions".toList, .mapping [("click".toList,
      .sequence [entry [], entry [.string "say".toList]])])])]⟩
    let r : Record := .command (.level (.ofNat 5))
    let line : Text := "console: say Unknown Action Rebuild Level".toList
    ∃ after again,
      (doc.spread "gem".toList (path 0) [r]).answer = .ok (⟨[path 1], []⟩, after) ∧
      (after.spread "gem".toList (path 0) [r]).answer = .ok (⟨[path 1], []⟩, again) ∧
      after.get? "gem".toList (path 1) = some (.ofTexts ["say".toList, line]) ∧
      again.get? "gem".toList (path 1) = some (.ofTexts ["say".toList, line, line]) ∧
      again.same after = false := by
  refine ⟨_, _, rfl, rfl, rfl, rfl, ?_⟩
  decide +kernel

end ItemConditions
