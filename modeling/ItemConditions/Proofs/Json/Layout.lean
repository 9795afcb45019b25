import ItemConditions.Proofs.Json.Plain

/-!
# The layouts of a list of mappings

A sequence of mappings that hold plain values is written in one of two layouts, which differ only in
the blanks that stand between the tokens. What is said of the reading of such a text is said once,
for any blanks.

## Main definitions

* `Json.Layout`: the blanks of a layout
* `Json.Layout.sequence`: a sequence of mappings in a layout

## Main results

* `Json.compact_sequence`, `Json.pretty_sequence`: the texts that are written are layouts
-/

namespace ItemConditions.Json

/-- **The blanks of a layout**, by the place where they stand. -/
structure Layout where
  /-- In front of an item. -/
  item : Text := []
  /-- In front of the closing bracket. -/
  items : Text := []
  /-- In front of a key. -/
  key : Text := []
  /-- Behind a colon. -/
  colon : Text := []
  /-- In front of the closing brace. -/
  entries : Text := []

/-- The entries of a mapping. -/
abbrev Fields := List (Text × Value)

namespace Layout

/-- Nothing but blanks stands between the tokens. -/
structure IsProper (l : Layout) : Prop where
  item : IsBlank l.item
  items : IsBlank l.items
  key : IsBlank l.key
  colon : IsBlank l.colon
  entries : IsBlank l.entries

/-- The layout without blanks. -/
def dense : Layout := {}

/-- The layout with one item a line. -/
def lines : Layout where
  item := newLine 1
  items := newLine 0
  key := newLine 2
  colon := [' ']
  entries := newLine 1

variable (l : Layout)

/-- An entry behind the blanks in front of its key. -/
def entry (e : Text × Value) : Text := quote e.1 ++ ':' :: (l.colon ++ ofScalar e.2)

/-- The entries after the first, with the closing brace. -/
def moreEntries : Fields → Text
  | [] => l.entries ++ ['\x7d']
  | e :: es => ',' :: (l.key ++ (l.entry e ++ moreEntries es))

/-- A mapping. -/
def mapping : Fields → Text
  | [] => "\x7b\x7d".toList
  | e :: es => '\x7b' :: (l.key ++ (l.entry e ++ l.moreEntries es))

/-- The items after the first, with the closing bracket. -/
def moreItems : List Fields → Text
  | [] => l.items ++ [']']
  | m :: ms => ',' :: (l.item ++ (l.mapping m ++ moreItems ms))

/-- **A sequence of mappings.** -/
def sequence : List Fields → Text
  | [] => "[]".toList
  | m :: ms => '[' :: (l.item ++ (l.mapping m ++ l.moreItems ms))

end Layout

/-! ## The texts that are written -/

/-- A mapping of plain values. -/
def IsFlat (m : Fields) : Prop := ∀ e ∈ m, e.2.IsPlain

/-- The sequence of some mappings. -/
def ofMappings (ms : List Fields) : Value := .sequence (ms.map .mapping)

variable {v : Value} {m : Fields} {ms : List Fields}

theorem compact_plain (hv : v.IsPlain) : compact v = ofScalar v := by
  cases v <;> first | rfl | exact hv.elim

theorem prettyAt_plain (hv : v.IsPlain) (level : ℕ) : prettyAt level v = ofScalar v := by
  cases v <;> first | rfl | exact hv.elim

theorem compactEntries_flat (hm : IsFlat m) : compactEntries m = Layout.dense.moreEntries m := by
  induction m with
  | nil => rfl
  | cons e m ih =>
    obtain ⟨he, hm⟩ := List.forall_mem_cons.mp hm
    rw [compactEntries, compact_plain he, ih hm, Layout.moreEntries, Layout.entry]
    simp [Layout.dense]

theorem compact_mapping (hm : IsFlat m) : compact (.mapping m) = Layout.dense.mapping m := by
  cases m with
  | nil => rfl
  | cons e m =>
    obtain ⟨he, hm⟩ := List.forall_mem_cons.mp hm
    rw [compact, compact_plain he, compactEntries_flat hm, Layout.mapping, Layout.entry]
    simp [Layout.dense]

theorem compactItems_flat (hms : ∀ m ∈ ms, IsFlat m) :
    compactItems (ms.map .mapping) = Layout.dense.moreItems ms := by
  induction ms with
  | nil => rfl
  | cons m ms ih =>
    obtain ⟨hm, hms⟩ := List.forall_mem_cons.mp hms
    rw [List.map_cons, compactItems, compact_mapping hm, ih hms, Layout.moreItems]
    rfl

/-- **The compact text** is a layout. -/
theorem compact_sequence (hms : ∀ m ∈ ms, IsFlat m) :
    compact (ofMappings ms) = Layout.dense.sequence ms := by
  cases ms with
  | nil => rfl
  | cons m ms =>
    obtain ⟨hm, hms⟩ := List.forall_mem_cons.mp hms
    rw [ofMappings, List.map_cons, compact, compact_mapping hm, compactItems_flat hms,
      Layout.sequence]
    rfl

theorem prettyEntries_flat (hm : IsFlat m) : prettyEntries 1 m = Layout.lines.moreEntries m := by
  induction m with
  | nil => rfl
  | cons e m ih =>
    obtain ⟨he, hm⟩ := List.forall_mem_cons.mp hm
    rw [prettyEntries, prettyAt_plain he, ih hm, Layout.moreEntries, Layout.entry]
    simp [Layout.lines]

theorem prettyAt_mapping (hm : IsFlat m) : prettyAt 1 (.mapping m) = Layout.lines.mapping m := by
  cases m with
  | nil => rfl
  | cons e m =>
    obtain ⟨he, hm⟩ := List.forall_mem_cons.mp hm
    rw [prettyAt, prettyAt_plain he, prettyEntries_flat hm, Layout.mapping, Layout.entry]
    simp [Layout.lines]

theorem prettyItems_flat (hms : ∀ m ∈ ms, IsFlat m) :
    prettyItems 0 (ms.map .mapping) = Layout.lines.moreItems ms := by
  induction ms with
  | nil => rfl
  | cons m ms ih =>
    obtain ⟨hm, hms⟩ := List.forall_mem_cons.mp hms
    rw [List.map_cons, prettyItems, prettyAt_mapping hm, ih hms, Layout.moreItems]
    simp [Layout.lines]

/-- **The text with one item a line** is a layout. -/
theorem pretty_sequence (hms : ∀ m ∈ ms, IsFlat m) :
    pretty (ofMappings ms) = Layout.lines.sequence ms := by
  cases ms with
  | nil => rfl
  | cons m ms =>
    obtain ⟨hm, hms⟩ := List.forall_mem_cons.mp hms
    rw [ofMappings, List.map_cons, pretty, prettyAt, prettyAt_mapping hm, prettyItems_flat hms,
      Layout.sequence]
    simp [Layout.lines]

theorem isBlank_newLine (level : ℕ) : IsBlank (newLine level) := by
  intro c hc
  rcases List.mem_cons.mp hc with rfl | hc
  · rfl
  · rw [List.eq_of_mem_replicate hc]
    rfl

theorem Layout.isProper_dense : Layout.dense.IsProper :=
  ⟨isBlank_nil, isBlank_nil, isBlank_nil, isBlank_nil, isBlank_nil⟩

theorem Layout.isProper_lines : Layout.lines.IsProper where
  item := isBlank_newLine 1
  items := isBlank_newLine 0
  key := isBlank_newLine 2
  colon := by
    intro c hc
    rw [List.mem_singleton.mp hc]
    rfl
  entries := isBlank_newLine 1

/-! ## The ends of the parts -/

variable {l : Layout}

/-- A value ends before the entries behind it. -/
theorem ends_moreEntries (hl : l.IsProper) (m : Fields) (r : Text) :
    Ends (l.moreEntries m ++ r) := by
  cases m with
  | nil =>
    rw [Layout.moreEntries, List.append_assoc]
    exact ends_append hl.entries (ends_cons rfl r)
  | cons e m => exact ends_cons rfl _

theorem length_le_moreEntries (l : Layout) (m : Fields) : m.length < (l.moreEntries m).length := by
  induction m with
  | nil => simp [Layout.moreEntries]
  | cons e m ih =>
    simp only [Layout.moreEntries, List.length_cons, List.length_append]
    omega

theorem length_le_moreItems (l : Layout) (ms : List Fields) :
    ms.length < (l.moreItems ms).length := by
  induction ms with
  | nil => simp [Layout.moreItems]
  | cons m ms ih =>
    simp only [Layout.moreItems, List.length_cons, List.length_append]
    omega

end ItemConditions.Json
