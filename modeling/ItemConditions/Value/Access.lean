import ItemConditions.Value

/-!
# Access to the parts of a value

A step goes from a mapping to the value under a key, or from a sequence to the item at an index.
Steps that are walked through are *strict*: an index has neither a sign nor leading zeros. The last
step of an assignment or a withdrawal is *lenient*: a plus and leading zeros do no harm, and the
position behind the last item is there to be written.

## Main definitions

* `Value.at?`: the value at the end of a walk
* `Value.updateAt?`: the tree with the value at the end of a walk changed
* `Value.assign?`, `Value.withdraw?`: one step's assignment and withdrawal

## Main results

* `Value.at?_append`: a walk in two parts
-/

namespace ItemConditions

namespace Value

/-- An index is below this. -/
def indexLimit : Nat := 0x10000000000000000

/-- A number of decimal digits that may be an index. -/
def digits? (t : Text) : Option Nat := (Text.toNat? t).filter (· < indexLimit)

/-- A strict index: digits without a leading zero. Sequences are shorter than the limit, so it
makes no difference to a walk. -/
def index? (t : Text) : Option Nat :=
  if t.head? = some '0' ∧ t.length ≠ 1 then none else Text.toNat? t

/-- A lenient index: digits with a plus in front or not. -/
def position? : Text → Option Nat
  | '+' :: t => digits? t
  | t => digits? t

/-- The part that one step leads to. -/
def child? (step : Text) : Value → Option Value
  | .mapping es => Entries.get? step es
  | .sequence xs => (index? step).bind (xs[·]?)
  | _ => none

/-- **The value at the end of a walk.** -/
def at? : List Text → Value → Option Value
  | [], v => some v
  | step :: steps, v => (v.child? step).bind (at? steps)

/-- The tree with the part that one step leads to replaced. -/
def setChild (step : Text) (new : Value) : Value → Value
  | .mapping es => .mapping (Entries.insert step new es)
  | .sequence xs =>
    match index? step with
    | some i => .sequence (xs.set i new)
    | none => .sequence xs
  | v => v

/-- **The tree with the value at the end of a walk changed**; `none` if the walk leads nowhere or
the value cannot be changed. -/
def updateAt? (f : Value → Option Value) : List Text → Value → Option Value
  | [], v => f v
  | step :: steps, v =>
    match v.child? step with
    | none => none
    | some part => (updateAt? f steps part).map fun new => setChild step new v

/-- **Assignment**: of a key, in its place or at the end; of an item, or of one item more. -/
def assign? (step : Text) (new : Value) : Value → Option Value
  | .mapping es => some (.mapping (Entries.insert step new es))
  | .sequence xs =>
    match position? step with
    | some i =>
      if i < xs.length then some (.sequence (xs.set i new))
      else if i = xs.length then some (.sequence (xs ++ [new]))
      else none
    | none => none
  | _ => none

/-- Withdrawal: what stood there, if anything did, and the container without it. The other parts
keep their order. -/
def withdraw? (step : Text) : Value → Option (Option Value × Value)
  | .mapping es => some (Entries.get? step es, .mapping (Entries.erase step es))
  | .sequence xs =>
    match position? step with
    | some i => some (xs[i]?, .sequence (xs.eraseIdx i))
    | none => none
  | _ => none

/-- A walk in two parts. -/
theorem at?_append (p q : List Text) (v : Value) : at? (p ++ q) v = (at? p v).bind (at? q) := by
  induction p generalizing v with
  | nil => rfl
  | cons step p ih =>
    simp only [List.cons_append, at?]
    cases v.child? step with
    | none => rfl
    | some part => simp [ih]

/-- A replaced part is what its step leads to. -/
theorem child?_setChild {step : Text} {v part new : Value} (h : v.child? step = some part) :
    (setChild step new v).child? step = some new := by
  cases v with
  | mapping es => simp [setChild, child?, Entries.get?_insert]
  | sequence xs =>
    simp only [child?, Option.bind_eq_some_iff] at h
    obtain ⟨i, hi, hx⟩ := h
    have hlt : i < xs.length := by
      rcases Nat.lt_or_ge i xs.length with h | h
      · exact h
      · simp [List.getElem?_eq_none h] at hx
    simp [setChild, child?, hi, hlt]
  | _ => simp [child?] at h

end Value

end ItemConditions
