import ItemConditions.ItemPath
import ItemConditions.Proofs.Text.Separated

/-!
# Pointers read back

The tokens of a pointer are the key and the segments that it was made of, whatever characters they
hold: an escaped token holds no slash, and its escapes are undone.

## Main results

* `ItemPath.unescapeToken_escapeToken`: escapes are undone
* `ItemPath.tokens?_pointer`: the tokens of a pointer
-/

namespace ItemConditions.ItemPath

theorem escapeToken_cons (c : Char) (t : Text) : escapeToken (c :: t) =
    (if c = '~' then ['~', '0'] else if c = '/' then ['~', '1'] else [c]) ++ escapeToken t := rfl

/-- An escaped token holds no slash. -/
theorem slash_notMem_escapeToken (t : Text) : '/' ∉ escapeToken t := by
  induction t with
  | nil => simp [escapeToken]
  | cons c t ih =>
    rw [escapeToken_cons, List.mem_append, not_or]
    refine ⟨?_, ih⟩
    split_ifs with htilde hslash
    · decide
    · decide
    · simpa [eq_comm] using hslash

theorem unescapeToken_cons {c : Char} (h : c ≠ '~') (t : Text) :
    unescapeToken (c :: t) = c :: unescapeToken t := by
  rw [unescapeToken]
  · rintro r rfl
    exact absurd rfl h
  · rintro r rfl
    exact absurd rfl h

/-- **Escapes are undone.** -/
@[simp] theorem unescapeToken_escapeToken (t : Text) : unescapeToken (escapeToken t) = t := by
  induction t with
  | nil => rfl
  | cons c t ih =>
    rw [escapeToken_cons]
    split_ifs with htilde hslash
    · simp [unescapeToken, ih, htilde]
    · simp [unescapeToken, ih, hslash]
    · rw [List.singleton_append, unescapeToken_cons htilde, ih]

theorem splitOn_tokens (t : Text) (ts : List Text) :
    Text.splitOn '/' (escapeToken t ++ ts.flatMap fun t => '/' :: escapeToken t)
      = (t :: ts).map escapeToken := by
  induction ts generalizing t with
  | nil => simpa using Text.splitOn_eq_singleton (slash_notMem_escapeToken t)
  | cons t' ts ih =>
    rw [List.flatMap_cons, List.cons_append,
      Text.splitOn_append_cons (slash_notMem_escapeToken t), ih]
    rfl

/-- **The tokens of a pointer** are the item's key and the segments. -/
@[simp] theorem tokens?_pointer (item : Text) (p : ItemPath) :
    tokens? (p.pointer item) = some (item :: p.segments) := by
  have hundone : unescapeToken ∘ escapeToken = id := funext unescapeToken_escapeToken
  rw [pointer, List.flatMap_cons, List.cons_append, tokens?, splitOn_tokens, List.map_map, hundone,
    List.map_id]

end ItemConditions.ItemPath
