import ItemConditions.Proofs.Document.Access

/-!
# Pointers as addresses

A token is written by two replacements, one after the other, and read by two replacements in the
other direction. The order matters on both sides: `~01` is the token of `~1` and not of `/`. A
pointer made of such tokens tells its item and its path, and a document is read at it by a walk that
knows keys and numerals only.

## Main definitions

* `ItemPath.encodeToken`, `ItemPath.decodeToken`: tokens by replacements
* `Value.Leads`: the walk from a value to one of its parts

## Main results

* `ItemPath.escapeToken_eq`, `ItemPath.unescapeToken_eq`: one pass over a token does the same
* `ItemPath.pointer_inj`: different places have different pointers
* `Value.at?_eq_some_iff`: a walk finds what the steps lead to
* `Document.pointers_are_addresses`: pointers are read back, and lead where their steps lead
-/

namespace ItemConditions

/-! ## Replacements -/

namespace Text

/-- Every occurrence of a character, replaced by a text. -/
def replaceChar (old : Char) (new t : Text) : Text :=
  t.flatMap fun c => if c = old then new else [c]

/-- Every occurrence of two characters in a row, replaced by one, from the left. -/
def replacePair (a b new : Char) : Text → Text
  | c :: d :: r =>
    if c = a ∧ d = b then new :: replacePair a b new r else c :: replacePair a b new (d :: r)
  | t => t

theorem replaceChar_cons (old : Char) (new : Text) (c : Char) (t : Text) :
    replaceChar old new (c :: t) = (if c = old then new else [c]) ++ replaceChar old new t := rfl

theorem replaceChar_append (old : Char) (new s t : Text) :
    replaceChar old new (s ++ t) = replaceChar old new s ++ replaceChar old new t :=
  List.flatMap_append

variable {a b new c : Char}

theorem replacePair_pair (a b new : Char) (r : Text) :
    replacePair a b new (a :: b :: r) = new :: replacePair a b new r := by
  rw [replacePair, if_pos ⟨rfl, rfl⟩]

/-- A character that starts no pair stays. -/
theorem replacePair_cons {r : Text} (h : c = a → r.head? ≠ some b) :
    replacePair a b new (c :: r) = c :: replacePair a b new r := by
  cases r with
  | nil => rfl
  | cons d r =>
    rw [replacePair, if_neg]
    rintro ⟨hc, rfl⟩
    exact h hc rfl

/-- A replacement puts no other character in front. -/
theorem head?_of_head?_replacePair {t : Text} (h : (replacePair a b new t).head? = some c)
    (hc : c ≠ new) : t.head? = some c := by
  unfold replacePair at h
  split at h
  · split_ifs at h
    · exact absurd (Option.some.inj h).symm hc
    · exact h
  · exact h

end Text

/-! ## Tokens -/

namespace ItemPath

/-- **A token by replacements**: first the tildes are written, then the slashes. -/
def encodeToken (t : Text) : Text :=
  Text.replaceChar '/' "~1".toList (Text.replaceChar '~' "~0".toList t)

/-- **A token read by replacements**: first the slashes are read, then the tildes. -/
def decodeToken (t : Text) : Text :=
  Text.replacePair '~' '0' '~' (Text.replacePair '~' '1' '/' t)

/-- One pass writes a token. -/
theorem escapeToken_eq (t : Text) : escapeToken t = encodeToken t := by
  induction t with
  | nil => rfl
  | cons c t ih =>
    rw [escapeToken_cons, ih, encodeToken, encodeToken, Text.replaceChar_cons,
      Text.replaceChar_append]
    congr 1
    split_ifs with htilde hslash
    · rfl
    · rw [Text.replaceChar_cons, if_pos hslash]
      rfl
    · rw [Text.replaceChar_cons, if_neg hslash]
      rfl

/-- One pass reads a token. -/
theorem unescapeToken_eq (t : Text) : unescapeToken t = decodeToken t := by
  rw [decodeToken]
  induction t using unescapeToken.induct with
  | case1 r ih =>
    rw [unescapeToken, ih, Text.replacePair_pair, Text.replacePair_cons (by simp)]
  | case2 r ih =>
    have hfirst : Text.replacePair '~' '1' '/' ('~' :: '0' :: r)
        = '~' :: '0' :: Text.replacePair '~' '1' '/' r := by
      rw [Text.replacePair_cons (by simp), Text.replacePair_cons (by simp)]
    rw [unescapeToken, ih, hfirst, Text.replacePair_pair]
  | case3 c r hslash htilde ih =>
    have hone : c = '~' → r.head? ≠ some '1' := by
      rintro rfl h
      obtain ⟨r', rfl⟩ := List.head?_eq_some_iff.mp h
      exact hslash r' rfl rfl
    have hzero : c = '~' → (Text.replacePair '~' '1' '/' r).head? ≠ some '0' := by
      rintro rfl h
      obtain ⟨r', rfl⟩ := List.head?_eq_some_iff.mp
        (Text.head?_of_head?_replacePair h (by decide))
      exact htilde r' rfl rfl
    rw [unescapeToken, ih, Text.replacePair_cons hone, Text.replacePair_cons hzero]
    · exact hslash
    · exact htilde
  | case4 => rfl

/-- **Different places have different pointers.** -/
theorem pointer_inj {item other : Text} {p q : ItemPath} :
    p.pointer item = q.pointer other ↔ item = other ∧ p = q := by
  constructor
  · intro h
    have htokens := congrArg tokens? h
    rw [tokens?_pointer, tokens?_pointer, Option.some_inj, List.cons.injEq] at htokens
    obtain ⟨rfl, hsegments⟩ := htokens
    cases p
    cases q
    exact ⟨rfl, congrArg ItemPath.mk hsegments⟩
  · rintro ⟨rfl, rfl⟩
    rfl

/-- The tokens of a pointer, taken apart at its slashes. -/
theorem exists_pointer_eq (item : Text) (p : ItemPath) : ∃ rest, p.pointer item = '/' :: rest ∧
    (Text.splitOn '/' rest).map decodeToken = item :: p.segments := by
  refine ⟨_, List.flatMap_cons.trans (List.cons_append ..), ?_⟩
  have hread : (decodeToken ∘ escapeToken : Text → Text) = id := by
    funext t
    rw [Function.comp_apply, ← unescapeToken_eq, unescapeToken_escapeToken, id]
  rw [splitOn_tokens, List.map_map, hread, List.map_id]

end ItemPath

/-! ## Walks -/

namespace Value

/-- **The walk from a value to one of its parts**: a step is a key of a mapping, or the numeral of
an index of a sequence. -/
inductive Leads : List Text → Value → Value → Prop
  | here (v : Value) : Leads [] v v
  | key {k : Text} {es : List (Text × Value)} {v w : Value} {steps : List Text}
    (entry : Entries.get? k es = some v) (rest : Leads steps v w) :
    Leads (k :: steps) (.mapping es) w
  | index {i : ℕ} {xs : List Value} {v w : Value} {steps : List Text}
    (item : xs[i]? = some v) (rest : Leads steps v w) :
    Leads (Text.ofNat i :: steps) (.sequence xs) w

/-- **A walk finds what its steps lead to**, and nothing where they lead nowhere. -/
theorem at?_eq_some_iff {steps : List Text} {v w : Value} :
    at? steps v = some w ↔ Leads steps v w := by
  constructor
  · intro h
    induction steps generalizing v with
    | nil =>
      obtain rfl := Option.some.inj h
      exact .here v
    | cons step steps ih =>
      obtain ⟨part, hpart, hrest⟩ := Option.bind_eq_some_iff.mp h
      cases v with
      | mapping es => exact .key hpart (ih hrest)
      | sequence xs =>
        obtain ⟨i, hi, hx⟩ := Option.bind_eq_some_iff.mp hpart
        obtain rfl := index?_eq_some_iff.mp hi
        exact .index hx (ih hrest)
      | _ => simp [child?] at hpart
  · intro h
    induction h with
    | here v => rfl
    | key entry rest ih => rw [at?, child?, entry, Option.bind_some, ih]
    | index item rest ih => rw [at?, child?, index?_ofNat, Option.bind_some, item, Option.bind_some,
        ih]

end Value

/-- **Pointers are addresses.** A pointer is made of tokens that are written by two replacements;
taken apart at its slashes and read by two replacements, it gives the item's key and the segments of
the path. So no two places share a pointer, and a document is read at a pointer by the walk along
the key and the segments. -/
theorem Document.pointers_are_addresses :
    (∀ item (path : ItemPath),
      path.pointer item = ((item :: path.segments).flatMap fun t => '/' :: ItemPath.encodeToken t) ∧
      ∃ rest, path.pointer item = '/' :: rest ∧
        (Text.splitOn '/' rest).map ItemPath.decodeToken = item :: path.segments) ∧
    (∀ item other (p q : ItemPath), p.pointer item = q.pointer other ↔ item = other ∧ p = q) ∧
    ∀ (doc : Document) item path part, doc.get? item path = some part ↔
      Value.Leads (item :: path.segments) doc.toValue part := by
  refine ⟨fun item path => ⟨?_, path.exists_pointer_eq item⟩, fun item other p q =>
    ItemPath.pointer_inj, fun doc item path part => ?_⟩
  · rw [ItemPath.pointer, funext ItemPath.escapeToken_eq]
  · rw [get?_eq, Value.at?_eq_some_iff]

end ItemConditions
