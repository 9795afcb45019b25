import ItemConditions.Proofs.Discovery
import ItemConditions.Proofs.Json.Texts
import ItemConditions.Proofs.Text.Separated
import ItemConditions.Proofs.Text.Trim

/-!
# Paths read back from their texts

A path has two kinds of text, and a reader tells them apart by the first character alone. The text
in brackets is read back whatever the segments are. The text with points is read back if reading
does not trim it, does not take it for one in brackets and does not find it empty. No other path is
read back: a sequence of strings that happens to have the text with points of its own strings does
not exist, as it is shorter when it is joined.

## Main definitions

* `ItemPath.joined`: the segments joined by points

## Main results

* `ItemPath.read_text_of_point`, `ItemPath.read_joined_iff`: when either kind of text is read back
* `ItemPath.read_text_of_mem_paths`: the text of a path that is discovered is read back
-/

namespace ItemConditions

namespace Json

theorem exists_compactItems (xs : List Value) : ∃ t, compactItems xs = t ++ [']'] := by
  induction xs with
  | nil => exact ⟨[], rfl⟩
  | cons x xs ih =>
    obtain ⟨t, ht⟩ := ih
    exact ⟨',' :: (compact x ++ t), by simp [compactItems, ht]⟩

/-- A sequence stands in brackets. -/
theorem exists_compact_sequence (xs : List Value) :
    ∃ t, compact (.sequence xs) = '[' :: t ++ [']'] := by
  cases xs with
  | nil => exact ⟨[], rfl⟩
  | cons x xs =>
    obtain ⟨t, ht⟩ := exists_compactItems xs
    exact ⟨compact x ++ t, by simp [compact, ht]⟩

end Json

namespace ItemPath

variable {p : ItemPath}

/-- The segments of a path joined by points. -/
def joined (p : ItemPath) : Text := List.intercalate ['.'] p.segments

theorem trim_bracketed (segments : List Text) :
    Text.trim (bracketed segments) = bracketed segments := by
  obtain ⟨t, ht⟩ := Json.exists_compact_sequence (segments.map .string)
  refine Text.trim_eq_self ?_
  rw [bracketed, Value.ofTexts, ht]
  refine ⟨fun c hc => ?_, fun c hc => ?_⟩
  · obtain rfl : '[' = c := by simpa using hc
    decide
  · rw [List.getLast?_concat] at hc
    obtain rfl := Option.some.inj hc
    decide

theorem head?_bracketed (segments : List Text) : (bracketed segments).head? = some '[' := by
  obtain ⟨t, ht⟩ := Json.exists_compact_sequence (segments.map .string)
  rw [bracketed, Value.ofTexts, ht]
  rfl

/-- The text in brackets is read back, whatever the segments are. -/
theorem read_bracketed (segments : List Text) : read (bracketed segments) = .ok ⟨segments⟩ := by
  have hread : Json.readTexts? (bracketed segments) = some segments :=
    Json.readTexts?_compact segments
  rw [read, trim_bracketed]
  simp only [head?_bracketed, if_true, hread]

theorem read_text_of_point (h : ∃ s ∈ p.segments, '.' ∈ s) : read p.text = .ok p := by
  rw [text, if_pos (by simpa using h), read_bracketed]

theorem text_eq_joined (h : ¬ ∃ s ∈ p.segments, '.' ∈ s) : p.text = p.joined := by
  rw [text, if_neg (by simpa using h), joined]

/-- What a text that is read as a path is like: the path's segments in brackets, or joined. -/
theorem cases_of_read {t : Text} (h : read t = .ok p) :
    (Text.trim t).head? = some '[' ∧ Json.readTexts? (Text.trim t) = some p.segments ∨
    (Text.trim t).head? ≠ some '[' ∧ Text.trim t ≠ [] ∧ Text.trim t = p.joined := by
  rw [read] at h
  split_ifs at h with hbracket hempty
  · split at h
    · next segments hsegments =>
      obtain rfl := Except.ok.inj h
      exact .inl ⟨hbracket, hsegments⟩
    · simp at h
  · obtain rfl := Except.ok.inj h
    exact .inr ⟨hbracket, hempty, (Text.intercalate_splitOn '.' _).symm⟩

/-- **The text with points** is read back if nothing of it is trimmed, and it is not empty nor taken
for a text in brackets. -/
theorem read_joined_iff (h : ¬ ∃ s ∈ p.segments, '.' ∈ s) : read p.joined = .ok p ↔
    p.joined ≠ [] ∧ Text.IsTrimmed p.joined ∧ p.joined.head? ≠ some '[' := by
  constructor
  · intro hread
    rcases cases_of_read hread with ⟨-, hsegments⟩ | ⟨hbracket, hempty, htrim⟩
    · have hshort : p.joined.length < (Text.trim p.joined).length :=
        Json.length_intercalate_lt hsegments '.'
      have hlength := (Text.trim_infix p.joined).length_le
      omega
    · have htrimmed := Text.isTrimmed_trim p.joined
      rw [htrim] at hbracket hempty htrimmed
      exact ⟨hempty, htrimmed, hbracket⟩
  · rintro ⟨hempty, htrimmed, hbracket⟩
    have hne : p.segments ≠ [] := by
      intro hsegments
      exact hempty (by rw [joined, hsegments]; rfl)
    have hpieces : Text.splitOn '.' p.joined = p.segments :=
      Text.splitOn_intercalate hne fun s hs hpoint => h ⟨s, hs, hpoint⟩
    rw [read, Text.trim_eq_self htrimmed]
    simp only [hbracket, hempty, if_false, hpieces]

theorem read_text_iff (p : ItemPath) : read p.text = .ok p ↔ (∃ s ∈ p.segments, '.' ∈ s) ∨
    p.joined ≠ [] ∧ Text.IsTrimmed p.joined ∧ p.joined.head? ≠ some '[' := by
  by_cases h : ∃ s ∈ p.segments, '.' ∈ s
  · simp only [read_text_of_point h, h, true_or]
  · rw [text_eq_joined h, read_joined_iff h]
    simp only [h, false_or]

/-! ## The paths that are discovered -/

/-- The text with points of an action entry starts with a letter and ends with the field. -/
theorem exists_joined_entryPath (list : Text) (index : ℕ) (field : Text) :
    ∃ t, (Discovery.entryPath list index field).joined = 'a' :: t ++ field := by
  refine ⟨"ctions.".toList ++ (list ++ '.' :: (Text.ofNat index ++ ['.'])), ?_⟩
  simp [joined, Discovery.entryPath, List.intercalate_cons_cons]

/-- No field of an action entry ends with a blank. -/
theorem isBlank_of_mem_entryFields {field : Text} (h : field ∈ Discovery.entryFields) :
    field ≠ [] ∧ ∀ c ∈ field.getLast?, Text.isBlank c = false := by
  rcases List.mem_pair.mp h with rfl | rfl
  · simp [Text.isBlank]
  · simp [Text.isBlank]

theorem read_text_entryPath {list field : Text} {index : ℕ}
    (hfield : field ∈ Discovery.entryFields) :
    read (Discovery.entryPath list index field).text = .ok (Discovery.entryPath list index field) := by
  obtain ⟨t, ht⟩ := exists_joined_entryPath list index field
  obtain ⟨hne, hlast⟩ := isBlank_of_mem_entryFields hfield
  rw [read_text_iff, ht]
  refine .inr ⟨List.cons_ne_nil _ _, ⟨fun c hc => ?_, fun c hc => hlast c ?_⟩, by simp⟩
  · obtain rfl : 'a' = c := by simpa using hc
    decide
  · rwa [List.getLast?_append_of_ne_nil _ hne] at hc

/-- **The text of a path that is discovered** is read back, whatever the keys of the actions are. -/
theorem read_text_of_mem_paths {item : Value} (h : p ∈ Discovery.paths item) :
    read p.text = .ok p := by
  rw [Discovery.paths, List.mem_append, Discovery.mem_displayPaths_iff,
    Discovery.mem_actionPaths_iff] at h
  rcases h with ⟨rfl, -⟩ | ⟨-, list, v, -, -, hlist⟩
  · rfl
  · obtain ⟨-, index, entry, -, -, hentry⟩ := Discovery.mem_listPaths_iff.mp hlist
    obtain ⟨field, hfield, -, rfl⟩ := Discovery.mem_entryPaths_iff.mp hentry
    exact read_text_entryPath hfield

/-- When a path is read back from its text: a segment holds a point, or the segments joined by
points are a text that is not empty, has no blanks at its ends and does not start with a bracket.
The paths that are discovered in an item are all read back. -/
theorem text_read_back :
    (∀ p : ItemPath, read p.text = .ok p ↔ (∃ s ∈ p.segments, '.' ∈ s) ∨
      p.joined ≠ [] ∧ Text.IsTrimmed p.joined ∧ p.joined.head? ≠ some '[') ∧
    ∀ item, ∀ p ∈ Discovery.paths item, read p.text = .ok p :=
  ⟨read_text_iff, fun _ _ => read_text_of_mem_paths⟩

/-- A key with a point, a bracket, quotes and blanks, and a key that is taken for a sequence. -/
theorem text_read_back_quoted :
    let item : Value := .mapping [("actions".toList, .mapping [
      (" a.b [\"c\"]".toList,
        .sequence [.mapping [("condition".toList, .string "x".toList)]])])]
    let p : ItemPath :=
      ⟨["actions".toList, " a.b [\"c\"]".toList, "0".toList, "condition".toList]⟩
    let q : ItemPath := ⟨["[\"c\"]".toList]⟩
    (p ∈ Discovery.paths item ∧ read p.text = .ok p) ∧ read q.text ≠ .ok q := by
  intro item p q
  have hlisted : p ∈ Discovery.paths item := by decide
  refine ⟨⟨hlisted, text_read_back.2 item p hlisted⟩, fun h => ?_⟩
  rcases (text_read_back.1 q).mp h with ⟨s, hs, hpoint⟩ | ⟨-, -, hbracket⟩
  · obtain rfl := List.mem_singleton.mp hs
    exact absurd hpoint (by decide)
  · exact hbracket rfl

end ItemPath

end ItemConditions
