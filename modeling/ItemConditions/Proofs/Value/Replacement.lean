import ItemConditions.Proofs.Entries
import ItemConditions.Proofs.Value.Index

/-!
# Replacement at the end of a walk

The value at the end of a walk is replaced, and nothing else: what other walks find is as before,
unless one of the two walks begins the other.

## Main definitions

* `Value.replaceAt`: the tree with the value at the end of a walk replaced
* `Value.Apart`: walks of which neither begins the other
* `Value.keys`: the keys of a mapping

## Main results

* `Value.updateAt?_eq_some_iff`: a change that succeeds is a replacement
* `Value.at?_replaceAt_append`, `Value.at?_replaceAt_of_apart`, `Value.at?_replaceAt_above`: what
  walks find afterwards
* `Value.replaceAt_eq_self`: a replacement by what is there changes nothing
* `Value.replaceAt_replaceAt`, `Value.replaceAt_comm`: two replacements
-/

namespace ItemConditions.Value

/-- **The tree with the value at the end of a walk replaced**; a walk that leads nowhere leaves it
as it is. -/
def replaceAt : Value → List Text → Value → Value
  | _, [], new => new
  | v, step :: steps, new =>
    match v.child? step with
    | some part => setChild step (part.replaceAt steps new) v
    | none => v

/-- **Two walks that part**: neither begins the other. -/
def Apart (p q : List Text) : Prop := ¬ p <+: q ∧ ¬ q <+: p

/-- The keys of a mapping, in order; other nodes have none. -/
def keys : Value → List Text
  | .mapping es => Entries.keys es
  | _ => []

variable {v part new : Value} {step other : Text} {p q : List Text}

@[simp] theorem replaceAt_nil (v new : Value) : v.replaceAt [] new = new := by
  cases v <;> rfl

theorem at?_cons (h : v.child? step = some part) (p : List Text) :
    v.at? (step :: p) = part.at? p := by
  rw [at?, h, Option.bind_some]

theorem replaceAt_cons (h : v.child? step = some part) (p : List Text) (new : Value) :
    v.replaceAt (step :: p) new = setChild step (part.replaceAt p new) v := by
  rw [replaceAt, h]

theorem replaceAt_cons_of_none (h : v.child? step = none) (p : List Text) (new : Value) :
    v.replaceAt (step :: p) new = v := by
  rw [replaceAt, h]

/-! ## One step -/

/-- A replaced part is not what another step leads to. -/
theorem child?_setChild_of_ne (h : step ≠ other) (new v : Value) :
    (setChild step new v).child? other = v.child? other := by
  cases v with
  | mapping es => simp [setChild, child?, Entries.get?_insert, Ne.symm h]
  | sequence xs =>
    rw [setChild]
    cases hi : index? step with
    | none => rfl
    | some i =>
      simp only [child?]
      cases hj : index? other with
      | none => rfl
      | some j =>
        have hne : i ≠ j := by
          rintro rfl
          exact h (eq_of_index?_eq hi hj)
        simp [List.getElem?_set_ne hne]
  | _ => rfl

/-- A part replaced by itself changes nothing. -/
theorem setChild_eq_self (h : v.child? step = some part) : setChild step part v = v := by
  cases v with
  | mapping es => rw [setChild, Entries.insert_eq_self h]
  | sequence xs =>
    obtain ⟨i, hi, hx⟩ := Option.bind_eq_some_iff.mp h
    obtain ⟨hlt, rfl⟩ := List.getElem?_eq_some_iff.mp hx
    simp [setChild, hi]
  | _ => rfl

/-- A replaced part leaves the keys. -/
theorem keys_setChild (h : v.child? step = some part) (new : Value) :
    (setChild step new v).keys = v.keys := by
  cases v with
  | mapping es => exact Entries.keys_insert_of_get? h new
  | sequence xs =>
    obtain ⟨i, hi, -⟩ := Option.bind_eq_some_iff.mp h
    simp [setChild, hi, keys]
  | _ => rfl

/-- Of two replacements of one part the second one counts. -/
theorem setChild_setChild (step : Text) (old new v : Value) :
    setChild step new (setChild step old v) = setChild step new v := by
  cases v with
  | mapping es => rw [setChild, setChild, setChild, Entries.insert_insert]
  | sequence xs => cases hi : index? step <;> simp [setChild, hi]
  | _ => rfl

/-- Replacements of two parts commute. -/
theorem setChild_comm (hne : step ≠ other) (h : v.child? step = some part) (new new' : Value) :
    setChild other new' (setChild step new v) = setChild step new (setChild other new' v) := by
  cases v with
  | mapping es =>
    simp only [setChild, Entries.insert_comm hne (Entries.mem_keys_of_get? h)]
  | sequence xs =>
    cases hi : index? step with
    | none => cases hj : index? other <;> simp [setChild, hi, hj]
    | some i =>
      cases hj : index? other with
      | none => simp [setChild, hi, hj]
      | some j =>
        have hij : i ≠ j := by
          rintro rfl
          exact hne (eq_of_index?_eq hi hj)
        simp [setChild, hi, hj, List.set_comm _ _ hij]
  | _ => rfl

/-! ## Fields -/

theorem field?_eq_some_iff :
    v.field? step = some part ↔ ∃ es, v = .mapping es ∧ Entries.get? step es = some part := by
  cases v <;> simp [field?]

theorem child?_of_field? (h : v.field? step = some part) : v.child? step = some part := by
  obtain ⟨es, rfl, hes⟩ := field?_eq_some_iff.mp h
  exact hes

theorem field?_setChild (h : v.field? step = some part) (new : Value) (other : Text) :
    (setChild step new v).field? other = if other = step then some new else v.field? other := by
  obtain ⟨es, rfl, -⟩ := field?_eq_some_iff.mp h
  exact Entries.get?_insert step other new es

/-! ## Walks -/

/-- A change that succeeds is a replacement. -/
theorem updateAt?_eq_some_iff {f : Value → Option Value} {w : Value} : updateAt? f p v = some w ↔
    ∃ part new, at? p v = some part ∧ f part = some new ∧ w = v.replaceAt p new := by
  induction p generalizing v w with
  | nil => simp [updateAt?, at?]
  | cons step p ih =>
    cases hnext : v.child? step with
    | none => simp [updateAt?, at?, hnext]
    | some next =>
      rw [updateAt?, hnext, at?, hnext, Option.bind_some]
      simp only [Option.map_eq_some_iff, ih, replaceAt_cons hnext]
      constructor
      · rintro ⟨_, ⟨part, new, hpart, hf, rfl⟩, rfl⟩
        exact ⟨part, new, hpart, hf, rfl⟩
      · rintro ⟨part, new, hpart, hf, rfl⟩
        exact ⟨_, ⟨part, new, hpart, hf, rfl⟩, rfl⟩

/-- Behind the replaced place stand the parts of the new value. -/
theorem at?_replaceAt_append (h : at? p v = some part) (new : Value) (q : List Text) :
    at? (p ++ q) (v.replaceAt p new) = at? q new := by
  induction p generalizing v with
  | nil => simp
  | cons step p ih =>
    obtain ⟨next, hnext, hpart⟩ := Option.bind_eq_some_iff.mp h
    rw [replaceAt_cons hnext, List.cons_append, at?, child?_setChild hnext, Option.bind_some,
      ih hpart]

theorem Apart.symm (h : Apart p q) : Apart q p := ⟨h.2, h.1⟩

theorem apart_cons_iff : Apart (step :: p) (other :: q) ↔ (step = other → Apart p q) := by
  simp only [Apart, List.cons_prefix_cons, eq_comm (a := other)]
  tauto

/-- Away from the replaced place all is as before. -/
theorem at?_replaceAt_of_apart (h : Apart p q) (v new : Value) :
    at? q (v.replaceAt p new) = at? q v := by
  induction p generalizing v q with
  | nil => exact absurd List.nil_prefix h.1
  | cons step p ih =>
    cases q with
    | nil => exact absurd List.nil_prefix h.2
    | cons other q =>
      cases hpart : v.child? step with
      | none => rw [replaceAt_cons_of_none hpart]
      | some part =>
        rw [replaceAt_cons hpart, at?, at?]
        rcases eq_or_ne step other with rfl | hne
        · rw [child?_setChild hpart, hpart, Option.bind_some, Option.bind_some,
            ih (apart_cons_iff.mp h rfl)]
        · rw [child?_setChild_of_ne hne]

/-- In front of the replaced place stands the value with the replacement inside it. -/
theorem at?_replaceAt_above (q r : List Text) (v new : Value) :
    at? q (v.replaceAt (q ++ r) new) = (at? q v).map (·.replaceAt r new) := by
  induction q generalizing v with
  | nil => rfl
  | cons step q ih =>
    rw [List.cons_append, at?, at?]
    cases hpart : v.child? step with
    | none => simp [replaceAt_cons_of_none hpart, hpart]
    | some part => simp [replaceAt_cons hpart, child?_setChild hpart, ih]

/-- A replacement in two parts of a walk. -/
theorem replaceAt_append (h : at? p v = some part) (q : List Text) (new : Value) :
    v.replaceAt (p ++ q) new = v.replaceAt p (part.replaceAt q new) := by
  induction p generalizing v with
  | nil =>
    obtain rfl := Option.some.inj h
    rw [replaceAt_nil, List.nil_append]
  | cons step p ih =>
    obtain ⟨next, hnext, hpart⟩ := Option.bind_eq_some_iff.mp h
    rw [List.cons_append, replaceAt_cons hnext, replaceAt_cons hnext, ih hpart]

/-- **A replacement by what is there** changes nothing. -/
theorem replaceAt_eq_self (h : at? p v = some part) : v.replaceAt p part = v := by
  induction p generalizing v with
  | nil =>
    rw [replaceAt_nil]
    exact (Option.some.inj h).symm
  | cons step p ih =>
    obtain ⟨next, hnext, hpart⟩ := Option.bind_eq_some_iff.mp h
    rw [replaceAt_cons hnext, ih hpart, setChild_eq_self hnext]

/-- **Of two replacements at one place** the second one counts. -/
theorem replaceAt_replaceAt (p : List Text) (v old new : Value) :
    (v.replaceAt p old).replaceAt p new = v.replaceAt p new := by
  induction p generalizing v with
  | nil => rw [replaceAt_nil, replaceAt_nil]
  | cons step p ih =>
    cases hpart : v.child? step with
    | none => rw [replaceAt_cons_of_none hpart]
    | some part =>
      rw [replaceAt_cons hpart, replaceAt_cons hpart, replaceAt_cons (child?_setChild hpart),
        setChild_setChild, ih]

/-- **Replacements at two places** commute, if the walks to them part. -/
theorem replaceAt_comm (h : Apart p q) (v new new' : Value) :
    (v.replaceAt p new).replaceAt q new' = (v.replaceAt q new').replaceAt p new := by
  induction p generalizing v q with
  | nil => exact absurd List.nil_prefix h.1
  | cons step p ih =>
    cases q with
    | nil => exact absurd List.nil_prefix h.2
    | cons other q =>
      cases hpart : v.child? step with
      | none =>
        rw [replaceAt_cons_of_none hpart]
        rcases eq_or_ne step other with rfl | hne
        · rw [replaceAt_cons_of_none hpart, replaceAt_cons_of_none hpart]
        · cases hpart' : v.child? other with
          | none => rw [replaceAt_cons_of_none hpart', replaceAt_cons_of_none hpart]
          | some part' =>
            rw [replaceAt_cons hpart', replaceAt_cons_of_none]
            rw [child?_setChild_of_ne hne.symm, hpart]
      | some part =>
        rw [replaceAt_cons hpart]
        rcases eq_or_ne step other with rfl | hne
        · rw [replaceAt_cons hpart, replaceAt_cons (child?_setChild hpart),
            replaceAt_cons (child?_setChild hpart), setChild_setChild, setChild_setChild,
            ih (apart_cons_iff.mp h rfl)]
        · cases hpart' : v.child? other with
          | none =>
            rw [replaceAt_cons_of_none hpart', replaceAt_cons_of_none, replaceAt_cons hpart]
            rw [child?_setChild_of_ne hne, hpart']
          | some part' =>
            have hafter : (setChild step (part.replaceAt p new) v).child? other = some part' := by
              rw [child?_setChild_of_ne hne, hpart']
            have hafter' : (setChild other (part'.replaceAt q new') v).child? step = some part := by
              rw [child?_setChild_of_ne hne.symm, hpart]
            rw [replaceAt_cons hafter, replaceAt_cons hpart', replaceAt_cons hafter',
              setChild_comm hne hpart]

/-- A replacement below the top leaves the keys. -/
theorem keys_replaceAt (hp : p ≠ []) (v new : Value) : (v.replaceAt p new).keys = v.keys := by
  cases p with
  | nil => exact absurd rfl hp
  | cons step p =>
    cases hpart : v.child? step with
    | none => rw [replaceAt_cons_of_none hpart]
    | some part => rw [replaceAt_cons hpart, keys_setChild hpart]

/-- Keys stay in order wherever the walk does not lead through the replaced place. -/
theorem keys_at?_replaceAt (hpq : ¬ p <+: q) (v new : Value) :
    (at? q (v.replaceAt p new)).map keys = (at? q v).map keys := by
  by_cases hqp : q <+: p
  · obtain ⟨r, rfl⟩ := hqp
    have hr : r ≠ [] := by
      rintro rfl
      simp at hpq
    rw [at?_replaceAt_above, Option.map_map]
    exact congrArg (Option.map · _) (funext fun part => keys_replaceAt hr part new)
  · rw [at?_replaceAt_of_apart ⟨hpq, hqp⟩]

end ItemConditions.Value
