import ItemConditions.Spread
import ItemConditions.Proofs.Command.RoundTrip
import ItemConditions.Proofs.Discovery
import ItemConditions.Proofs.Document.Changes
import ItemConditions.Proofs.Document.DistinctKeys
import ItemConditions.Proofs.Script.RoundTrip

/-!
# The targets of a spread

The targets of a spread are discovered before the first of them is written. No target is inside
another, and a write leaves the item's paths as they are, so every target is still there when its
turn comes and gets what it would have got first.

## Main definitions

* `Spread.written?`: the value that a target gets, by the value that stands there
* `Spread.keptLines`: the lines that a list of commands keeps
* `Spread.changes`, `Spread.skips`: what a spread writes, and the targets that it leaves
* `Spread.Lists`: the targets are places of the item, each of them once

## Main results

* `Spread.Lists.step`, `Spread.Lists.foldl_step`: one target, and the targets in turn
* `Spread.spread_eq`: the outcome of a spread
* `Spread.Lists.get?_replaceAll`: what stands at a target in the end
* `Document.HasDistinctKeys.spread`: a spread keeps keys distinct
-/

namespace ItemConditions

namespace Value

/-- The node is a sequence. -/
def isSequence : Value → Bool
  | .sequence _ => true
  | _ => false

theorem isSequence_iff {v : Value} : v.isSequence ↔ ∃ items, v = .sequence items := by
  cases v <;> simp [isSequence]

end Value

namespace Spread

open Discovery (Listed)

/-! ## What a target gets -/

/-- **The value that a target gets**, by the value that stands there; `none` if it is left. -/
def written? (kind : SlotKind) (rs : List Record) (present : Option Value) : Option Value :=
  (merged? kind present rs).bind fun merged => (Slot.encode kind merged).toValue?

/-- **The lines that a list of commands keeps**: those that no rule knows. -/
def keptLines (items : List Value) : List Text :=
  (items.map Slot.lineOf).filter fun line => !(Command.read line).isStructured

variable {kind : SlotKind} {rs : List Record} {present : Option Value} {v new : Value}

theorem written?_script (rs : List Record) (present : Option Value) :
    written? .script rs present = (Script.write? rs).map .string := rfl

theorem map_write_kept (lines : List Text) :
    ((lines.map Command.read).filter fun r => !r.isStructured).map Command.write
      = lines.filter fun line => !(Command.read line).isStructured := by
  rw [List.filter_map, List.map_map]
  refine (List.map_congr_left fun line hline => ?_).trans (List.map_id _)
  have hkept := (List.mem_filter.mp hline).2
  exact Command.write_read_of_not_isStructured (by simpa using hkept)

theorem written?_sequence (rs : List Record) (items : List Value) :
    written? .commands rs (some (.sequence items))
      = some (.ofTexts (keptLines items ++ rs.map Command.write)) := by
  have hread : Slot.read? .commands (some (.sequence items))
      = some ((items.map Slot.lineOf).map Command.read) := by
    rw [List.map_map]
    rfl
  simp only [written?, merged?, hread, Option.map_some, Option.bind_some, Slot.encode,
    Encoded.toValue?, List.map_append, map_write_kept, keptLines]

/-- A list of commands is spread to sequences only, among the values that count as set. -/
theorem isSome_written?_commands (rs : List Record) (htruthy : v.truthy) :
    (written? .commands rs (some v)).isSome = v.isSequence := by
  cases v with
  | null => simp [Value.truthy] at htruthy
  | sequence items => rw [written?_sequence, Option.isSome_some, Value.isSequence]
  | _ => rfl

/-- What is written counts as set, and has no key twice. -/
theorem truthy_of_written? (h : written? kind rs present = some new) :
    new.truthy ∧ new.HasDistinctKeys := by
  obtain ⟨merged, -, hnew⟩ := Option.bind_eq_some_iff.mp h
  refine ⟨?_, Slot.hasDistinctKeys_of_toValue? hnew⟩
  cases kind with
  | script =>
    obtain ⟨t, ht, rfl⟩ := Option.map_eq_some_iff.mp hnew
    simpa [Value.truthy] using Script.ne_nil_of_write? ht
  | commands =>
    obtain rfl := Option.some.inj hnew
    rfl

/-! ## The targets in turn -/

/-- **The changes that a spread makes**, all of them by what stands there at first. -/
def changes (doc : Document) (item : Text) (kind : SlotKind) (rs : List Record)
    (ps : List ItemPath) : List (ItemPath × Value) :=
  ps.filterMap fun p => (written? kind rs (doc.get? item p)).map fun new => (p, new)

/-- The targets that a spread leaves, by what stands there at first. -/
def skips (doc : Document) (item : Text) (kind : SlotKind) (rs : List Record)
    (ps : List ItemPath) : List ItemPath :=
  ps.filter fun p => (written? kind rs (doc.get? item p)).isNone

variable {doc after : Document} {item : Text} {tree : Value} {p : ItemPath}
  {ps : List ItemPath}

theorem changes_congr (h : ∀ p ∈ ps, after.get? item p = doc.get? item p) :
    changes after item kind rs ps = changes doc item kind rs ps :=
  List.filterMap_congr fun p hp => by rw [h p hp]

theorem skips_congr (h : ∀ p ∈ ps, after.get? item p = doc.get? item p) :
    skips after item kind rs ps = skips doc item kind rs ps :=
  List.filter_congr fun p hp => by rw [h p hp]

theorem mem_changes_iff : (p, new) ∈ changes doc item kind rs ps ↔
    p ∈ ps ∧ written? kind rs (doc.get? item p) = some new := by
  simp only [changes, List.mem_filterMap, Option.map_eq_some_iff, Prod.mk.injEq]
  constructor
  · rintro ⟨_, hp, _, hnew, rfl, rfl⟩
    exact ⟨hp, hnew⟩
  · rintro ⟨hp, hnew⟩
    exact ⟨p, hp, new, hnew, rfl, rfl⟩

theorem map_fst_changes (doc : Document) (item : Text) (kind : SlotKind) (rs : List Record)
    (ps : List ItemPath) : (changes doc item kind rs ps).map Prod.fst
      = ps.filter fun p => (written? kind rs (doc.get? item p)).isSome := by
  induction ps with
  | nil => rfl
  | cons p ps ih =>
    rw [changes, List.filterMap_cons] at *
    cases hnew : written? kind rs (doc.get? item p) <;> simp [hnew, ih]

/-- The targets are places of the item, each of them once. -/
structure Lists (doc : Document) (item : Text) (tree : Value) (ps : List ItemPath) : Prop where
  item? : doc.item? item = some tree
  hasDistinctKeys : tree.HasDistinctKeys
  nodup : ps.Nodup
  mem_paths : ∀ p ∈ ps, p ∈ Discovery.paths tree

namespace Lists

theorem tail (h : Lists doc item tree (p :: ps)) : Lists doc item tree ps where
  item? := h.item?
  hasDistinctKeys := h.hasDistinctKeys
  nodup := (List.nodup_cons.mp h.nodup).2
  mem_paths := (List.forall_mem_cons.mp h.mem_paths).2

theorem exists_listed (h : Lists doc item tree ps) (hp : p ∈ ps) : ∃ v, Listed tree p v :=
  (Discovery.mem_paths_iff h.hasDistinctKeys).mp (h.mem_paths p hp)

/-- Something stands at every target. -/
theorem exists_get? (h : Lists doc item tree ps) (hp : p ∈ ps) :
    ∃ v, doc.get? item p = some v ∧ v.truthy := by
  obtain ⟨v, hv⟩ := h.exists_listed hp
  exact ⟨v, hv.get? h.item?, hv.truthy⟩

theorem apart (h : Lists doc item tree ps) {q : ItemPath} (hp : p ∈ ps) (hq : q ∈ ps)
    (hne : p ≠ q) : Value.Apart p.segments q.segments :=
  Discovery.apart_of_mem_paths h.hasDistinctKeys (h.mem_paths p hp) (h.mem_paths q hq) hne

/-- A target that is written stays a place of the item, and so do the others. -/
theorem replaceAt (h : Lists doc item tree ps) (hp : p ∈ Discovery.paths tree)
    (hnew : new.truthy ∧ new.HasDistinctKeys) :
    ∃ tree', Lists (doc.replaceAt item p new) item tree' ps ∧
      Discovery.paths tree' = Discovery.paths tree := by
  obtain ⟨v, hv⟩ := (Discovery.mem_paths_iff h.hasDistinctKeys).mp hp
  have hpaths := Discovery.paths_replaceAt hv hnew.1
  exact ⟨_, ⟨Document.item?_replaceAt h.item? p new, h.hasDistinctKeys.replaceAt hnew.2 p.segments,
    h.nodup, by rw [hpaths]; exact h.mem_paths⟩, hpaths⟩

end Lists

/-- One target is left: nothing but the report changes. -/
theorem step_of_written?_eq_none {s : Progress}
    (h : written? kind rs (s.document.get? item p) = none) :
    (step item kind rs s p).document = s.document ∧
      (step item kind rs s p).report = ⟨s.report.updated, s.report.skipped ++ [p]⟩ := by
  rw [step]
  cases hmerged : merged? kind (s.document.get? item p) rs with
  | none => exact ⟨rfl, rfl⟩
  | some merged =>
    rw [written?, hmerged, Option.bind_some] at h
    simp only [h]
    exact ⟨rfl, rfl⟩

/-- One target is written: its value is replaced. -/
theorem Lists.step {s : Progress} (h : Lists s.document item tree ps) (hp : p ∈ ps)
    (hnew : written? kind rs (s.document.get? item p) = some new) :
    (step item kind rs s p).document = s.document.replaceAt item p new ∧
      (step item kind rs s p).report = ⟨s.report.updated ++ [p], s.report.skipped⟩ := by
  obtain ⟨v, hv⟩ := h.exists_listed hp
  obtain ⟨fields, last, hlast, hparent, hv⟩ := hv.exists_parent
  have hget : s.document.get? item p.parent = some (.mapping fields) := by
    rw [Document.get?_eq_bind, h.item?, Option.bind_some, hparent]
  have hset := Document.set_eq_replaceAt hlast hget hv new
  obtain ⟨merged, hmerged, hnew⟩ := Option.bind_eq_some_iff.mp hnew
  rw [Spread.step, hmerged]
  simp [hnew, hset]

/-- The targets in turn. Each of them gets what it would have got first. -/
theorem Lists.foldl_step (kind : SlotKind) (rs : List Record) {s : Progress}
    (h : Lists s.document item tree ps) :
    (ps.foldl (Spread.step item kind rs) s).document
        = s.document.replaceAll item (changes s.document item kind rs ps) ∧
      (ps.foldl (Spread.step item kind rs) s).report
        = ⟨s.report.updated ++ (changes s.document item kind rs ps).map Prod.fst,
          s.report.skipped ++ skips s.document item kind rs ps⟩ := by
  induction ps generalizing s tree with
  | nil => simp [changes, skips]
  | cons p ps ih =>
    have hp : p ∈ p :: ps := List.mem_cons_self
    rw [List.foldl_cons]
    cases hnew : written? kind rs (s.document.get? item p) with
    | none =>
      obtain ⟨hdocument, hreport⟩ := step_of_written?_eq_none hnew
      have hlists : Lists (Spread.step item kind rs s p).document item tree ps := by
        rw [hdocument]
        exact h.tail
      obtain ⟨hih, hih'⟩ := ih hlists
      rw [hih, hih', hdocument, hreport]
      simp [changes, skips, hnew]
    | some new =>
      obtain ⟨hdocument, hreport⟩ := h.step hp hnew
      obtain ⟨tree', hlists, -⟩ := h.tail.replaceAt (h.mem_paths p hp) (truthy_of_written? hnew)
      rw [← hdocument] at hlists
      obtain ⟨hih, hih'⟩ := ih hlists
      -- What the later targets get is decided by what stands there, and that is as it was.
      have hsame : ∀ q ∈ ps,
          (s.document.replaceAt item p new).get? item q = s.document.get? item q := by
        intro q hq
        have hne : p ≠ q := by
          rintro rfl
          exact (List.nodup_cons.mp h.nodup).1 hq
        exact Document.get?_replaceAt_of_apart
          (fun _ => h.apart hp (List.mem_cons_of_mem p hq) hne) s.document new
      rw [hih, hih', hdocument, hreport, changes_congr hsame, skips_congr hsame]
      simp [changes, skips, hnew, Document.replaceAll_cons]

/-! ## The outcome -/

/-- The targets of a spread are places of the item. -/
theorem lists_targets (htree : doc.item? item = some tree) (hkeys : tree.HasDistinctKeys)
    (source : ItemPath) : Lists doc item tree (targets tree source) where
  item? := htree
  hasDistinctKeys := hkeys
  nodup := (Discovery.nodup_paths hkeys).filter _
  mem_paths _ hp := List.mem_of_mem_filter hp

/-- **The outcome of a spread**, by what stands at the targets at first. -/
theorem spread_eq {ss : List Record} (source : ItemPath) (htree : doc.item? item = some tree)
    (hkeys : tree.HasDistinctKeys) (hrs : rs.filter Record.isStructured = ss) (hss : ss ≠ []) :
    (doc.spread item source rs).answer = .ok
      (⟨(changes doc item source.kind ss (targets tree source)).map Prod.fst,
        skips doc item source.kind ss (targets tree source)⟩,
      doc.replaceAll item (changes doc item source.kind ss (targets tree source))) := by
  have hlists : Lists ({ document := doc } : Progress).document item tree (targets tree source) :=
    lists_targets htree hkeys source
  obtain ⟨hdocument, hreport⟩ := hlists.foldl_step source.kind ss
  subst hrs
  rw [Document.spread, if_neg hss, htree]
  simp only [hdocument, hreport, List.nil_append]

/-- A spread that succeeds has records to spread, and finds the item. -/
theorem exists_of_spread {source : ItemPath} {outcome : SpreadReport × Document}
    (h : (doc.spread item source rs).answer = .ok outcome) :
    rs.filter Record.isStructured ≠ [] ∧ ∃ tree, doc.item? item = some tree := by
  rw [Document.spread] at h
  split_ifs at h with hrs
  refine ⟨hrs, ?_⟩
  cases htree : doc.item? item with
  | none => simp [htree] at h
  | some tree => exact ⟨tree, rfl⟩

theorem mem_of_mem_map_changes (h : p ∈ (changes doc item kind rs ps).map Prod.fst) : p ∈ ps := by
  rw [map_fst_changes] at h
  exact List.mem_of_mem_filter h

namespace Lists

/-- No change is inside another. -/
theorem pairwise_apart (h : Lists doc item tree ps) (kind : SlotKind) (rs : List Record) :
    (changes doc item kind rs ps).Pairwise
      fun c d => Value.Apart c.1.segments d.1.segments := by
  have hnodup : ((changes doc item kind rs ps).map Prod.fst).Nodup := by
    rw [map_fst_changes]
    exact h.nodup.filter _
  have hapart : ((changes doc item kind rs ps).map Prod.fst).Pairwise
      fun p q => Value.Apart p.segments q.segments :=
    hnodup.pairwise_of_forall_ne fun p hp q hq hne =>
      h.apart (mem_of_mem_map_changes hp) (mem_of_mem_map_changes hq) hne
  exact (List.pairwise_map (f := Prod.fst)).mp hapart

/-- **What stands at a target in the end**: what is written there, if anything is. -/
theorem get?_replaceAll (h : Lists doc item tree ps) (kind : SlotKind) (rs : List Record)
    (hp : p ∈ ps) : (doc.replaceAll item (changes doc item kind rs ps)).get? item p
      = (written? kind rs (doc.get? item p)).or (doc.get? item p) := by
  cases hnew : written? kind rs (doc.get? item p) with
  | some new =>
    refine Document.get?_replaceAll_of_mem (h.pairwise_apart kind rs) (fun c hc => ?_)
      (mem_changes_iff.mpr ⟨hp, hnew⟩)
    obtain ⟨v, hv, -⟩ := h.exists_get? (mem_of_mem_map_changes (List.mem_map_of_mem hc))
    rw [hv, Option.isSome_some]
  | none =>
    refine (Document.frame_replaceAll doc item _).elsewhere item p fun _ q hq => ?_
    have hne : q ≠ p := by
      rintro rfl
      rw [map_fst_changes, List.mem_filter, hnew] at hq
      exact absurd hq.2 (by simp)
    exact h.apart (mem_of_mem_map_changes hq) hp hne

/-- Values at places of the item are replaced, and the places are still there. -/
theorem replaceAll (h : Lists doc item tree ps) {changes : List (ItemPath × Value)}
    (hchanges : ∀ c ∈ changes, c.1 ∈ Discovery.paths tree ∧ c.2.truthy ∧ c.2.HasDistinctKeys) :
    ∃ tree', Lists (doc.replaceAll item changes) item tree' ps ∧
      Discovery.paths tree' = Discovery.paths tree := by
  induction changes generalizing doc tree with
  | nil => exact ⟨tree, h, rfl⟩
  | cons change changes ih =>
    obtain ⟨⟨hp, hnew⟩, hchanges⟩ := List.forall_mem_cons.mp hchanges
    obtain ⟨tree', h', hpaths⟩ := h.replaceAt hp hnew
    rw [← hpaths] at hchanges
    obtain ⟨tree'', h'', hpaths'⟩ := ih h' hchanges
    exact ⟨tree'', h'', hpaths'.trans hpaths⟩

/-- The targets are still there when all of them have had their turn. -/
theorem replaceAll_changes (h : Lists doc item tree ps) (kind : SlotKind) (rs : List Record) :
    ∃ tree', Lists (doc.replaceAll item (changes doc item kind rs ps)) item tree' ps ∧
      Discovery.paths tree' = Discovery.paths tree := by
  refine h.replaceAll fun c hc => ?_
  obtain ⟨hp, hnew⟩ := mem_changes_iff.mp hc
  exact ⟨h.mem_paths c.1 hp, truthy_of_written? hnew⟩

end Lists

end Spread

namespace Document.HasDistinctKeys

variable {doc after : Document} {item : Text}

theorem replaceAll {changes : List (ItemPath × Value)} (h : doc.HasDistinctKeys)
    (hnew : ∀ c ∈ changes, c.2.HasDistinctKeys) (item : Text) :
    (doc.replaceAll item changes).HasDistinctKeys := by
  induction changes generalizing doc with
  | nil => exact h
  | cons change changes ih =>
    obtain ⟨hchange, hnew⟩ := List.forall_mem_cons.mp hnew
    exact ih (h.replaceAt hchange item change.1) hnew

/-- **A spread** keeps keys distinct. -/
theorem spread {source : ItemPath} {rs : List Record} {report : SpreadReport}
    (h : doc.HasDistinctKeys) (hspread : (doc.spread item source rs).answer = .ok (report, after)) :
    after.HasDistinctKeys := by
  obtain ⟨hss, tree, htree⟩ := Spread.exists_of_spread hspread
  rw [Spread.spread_eq source htree (h.item? htree) rfl hss] at hspread
  obtain ⟨-, rfl⟩ := Prod.mk.inj (Except.ok.inj hspread)
  refine h.replaceAll (fun c hc => ?_) item
  exact (Spread.truthy_of_written? (Spread.mem_changes_iff.mp hc).2).2

end Document.HasDistinctKeys

end ItemConditions
