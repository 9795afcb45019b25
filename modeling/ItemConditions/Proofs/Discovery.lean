import ItemConditions.Discovery
import ItemConditions.Proofs.Document.Access
import ItemConditions.Proofs.Value.DistinctKeys
import Mathlib.Data.List.Pairwise

/-!
# The paths of an item

Discovery walks through the tree of an item, and reading follows a pointer from the top of the
document. The two meet at every path that is discovered, whatever characters its keys contain.

## Main definitions

* `Discovery.Listed`: the places that an item lists, each with its value
* `Discovery.Precedes`: the order of these places

## Main results

* `Discovery.mem_paths_iff`: exactly the listed places are discovered
* `Discovery.pairwise_precedes_paths`: they come in order, and none comes twice
* `Discovery.Listed.get?`: the value of a listed place is what is read there
* `Discovery.paths_replaceAt`: another value at a listed place leaves the paths
-/

namespace ItemConditions.Discovery

/-- The path of the display's script. -/
def shinyPath : ItemPath := ⟨["display".toList, "shiny".toList]⟩

/-- The path of a field of an action entry. -/
def entryPath (list : Text) (index : ℕ) (field : Text) : ItemPath :=
  ⟨["actions".toList, list, Text.ofNat index, field]⟩

/-- **The places that an item lists**, each with the value that stands there. -/
inductive Listed (item : Value) : ItemPath → Value → Prop
  | shiny {display : List (Text × Value)} {v : Value}
    (hdisplay : item.field? "display".toList = some (.mapping display))
    (hv : Entries.get? "shiny".toList display = some v) (htruthy : v.truthy) :
    Listed item shinyPath v
  | entry {lists fields : List (Text × Value)} {entries : List Value} {list field : Text}
    {index : ℕ} {v : Value} (hlists : item.field? "actions".toList = some (.mapping lists))
    (hentries : Entries.get? list lists = some (.sequence entries))
    (hentry : entries[index]? = some (.mapping fields)) (hfield : field ∈ entryFields)
    (hv : Entries.get? field fields = some v) (htruthy : v.truthy) :
    Listed item (entryPath list index field) v

/-- **The order of the places**: the display first, then by the key's position among the keys of
the actions, by index, and condition before actions. -/
inductive Precedes (lists : List Text) : ItemPath → ItemPath → Prop
  | shiny (list : Text) (index : ℕ) (field : Text) :
    Precedes lists shinyPath (entryPath list index field)
  | list {k l : Text} (h : lists.idxOf k < lists.idxOf l) (i j : ℕ) (f g : Text) :
    Precedes lists (entryPath k i f) (entryPath l j g)
  | index {i j : ℕ} (h : i < j) (list f g : Text) :
    Precedes lists (entryPath list i f) (entryPath list j g)
  | field (list : Text) (index : ℕ) :
    Precedes lists (entryPath list index "condition".toList)
      (entryPath list index "actions".toList)

/-- The keys under the actions of an item, in order. -/
def listKeys (item : Value) : List Text := ((item.field? "actions".toList).map Value.keys).getD []

variable {item v part new : Value} {p q : ItemPath} {list field : Text} {index : ℕ}

theorem hasField_eq_true_iff {key : Text} : hasField key v = true ↔
    ∃ es w, v = .mapping es ∧ Entries.get? key es = some w ∧ w.truthy := by
  rw [hasField, Option.any_eq_true]
  constructor
  · rintro ⟨w, hw, htruthy⟩
    obtain ⟨es, rfl, hw⟩ := Value.field?_eq_some_iff.mp hw
    exact ⟨es, w, rfl, hw, htruthy⟩
  · rintro ⟨es, w, rfl, hw, htruthy⟩
    exact ⟨w, hw, htruthy⟩

/-! ## Membership -/

theorem mem_displayPaths_iff : p ∈ displayPaths item ↔
    p = shinyPath ∧ ∃ display v, item.field? "display".toList = some (.mapping display) ∧
      Entries.get? "shiny".toList display = some v ∧ v.truthy := by
  rw [displayPaths]
  split_ifs with h
  · obtain ⟨d, hd, hshiny⟩ := (Option.any_eq_true _ _).mp h
    obtain ⟨display, v, rfl, hv, htruthy⟩ := hasField_eq_true_iff.mp hshiny
    rw [List.mem_singleton]
    exact ⟨fun hp => ⟨hp, display, v, hd, hv, htruthy⟩, fun hp => hp.1⟩
  · refine ⟨fun hp => absurd hp List.not_mem_nil, ?_⟩
    rintro ⟨-, display, v, hdisplay, hv, htruthy⟩
    refine absurd ((Option.any_eq_true _ _).mpr ⟨_, hdisplay, ?_⟩) h
    exact hasField_eq_true_iff.mpr ⟨display, v, rfl, hv, htruthy⟩

theorem mem_entryPaths_iff {entry : Value} : p ∈ entryPaths list index entry ↔
    ∃ field ∈ entryFields, hasField field entry = true ∧ entryPath list index field = p := by
  rw [entryPaths, List.mem_map]
  constructor
  · rintro ⟨field, hfield, rfl⟩
    obtain ⟨hmem, hset⟩ := List.mem_filter.mp hfield
    exact ⟨field, hmem, hset, rfl⟩
  · rintro ⟨field, hmem, hset, rfl⟩
    exact ⟨field, List.mem_filter.mpr ⟨hmem, hset⟩, rfl⟩

theorem mem_listPaths_iff : p ∈ listPaths list v ↔ ∃ entries index entry, v = .sequence entries ∧
    entries[index]? = some entry ∧ p ∈ entryPaths list index entry := by
  cases v with
  | sequence entries =>
    rw [listPaths, List.mem_flatMap]
    constructor
    · rintro ⟨⟨entry, index⟩, hmem, hp⟩
      exact ⟨entries, index, entry, rfl, List.mem_zipIdx_iff_getElem?.mp hmem, hp⟩
    · rintro ⟨_, index, entry, ⟨⟩, hentry, hp⟩
      exact ⟨(entry, index), List.mem_zipIdx_iff_getElem?.mpr hentry, hp⟩
  | _ => simp [listPaths]

theorem mem_actionPaths_iff : p ∈ actionPaths item ↔ ∃ lists list entries,
    item.field? "actions".toList = some (.mapping lists) ∧ (list, entries) ∈ lists ∧
      p ∈ listPaths list entries := by
  rw [actionPaths]
  split
  · next lists hlists =>
    rw [List.mem_flatMap]
    constructor
    · rintro ⟨⟨list, entries⟩, hmem, hp⟩
      exact ⟨lists, list, entries, hlists, hmem, hp⟩
    · rintro ⟨_, list, entries, hlists', hmem, hp⟩
      obtain ⟨⟩ := hlists.symm.trans hlists'
      exact ⟨(list, entries), hmem, hp⟩
  · next h =>
    refine ⟨fun hp => absurd hp List.not_mem_nil, ?_⟩
    rintro ⟨lists, -, -, hlists, -, -⟩
    exact absurd hlists (h lists)

/-- The keys under the actions of an item with distinct keys are distinct. -/
theorem nodup_keys_of_field? {lists : List (Text × Value)} (h : item.HasDistinctKeys)
    (hlists : item.field? "actions".toList = some (.mapping lists)) :
    (Entries.keys lists).Nodup := by
  exact (Value.hasDistinctKeys_mapping_iff.mp (h.child? (Value.child?_of_field? hlists))).1

/-- Exactly the listed places are discovered. -/
theorem mem_paths_iff (h : item.HasDistinctKeys) : p ∈ paths item ↔ ∃ v, Listed item p v := by
  rw [paths, List.mem_append, mem_displayPaths_iff, mem_actionPaths_iff]
  constructor
  · rintro (⟨rfl, display, v, hdisplay, hv, htruthy⟩ | ⟨lists, list, _, hlists, hmem, hp⟩)
    · exact ⟨v, .shiny hdisplay hv htruthy⟩
    · obtain ⟨entries, index, entry, rfl, hentry, hp⟩ := mem_listPaths_iff.mp hp
      obtain ⟨field, hfield, hset, rfl⟩ := mem_entryPaths_iff.mp hp
      obtain ⟨fields, v, rfl, hv, htruthy⟩ := hasField_eq_true_iff.mp hset
      -- The traversal meets entries, a walk looks keys up: no key comes twice.
      have hentries := (Entries.get?_eq_some_iff (nodup_keys_of_field? h hlists)).mpr hmem
      exact ⟨v, .entry hlists hentries hentry hfield hv htruthy⟩
  · rintro ⟨v, hp⟩
    cases hp with
    | shiny hdisplay hv htruthy => exact Or.inl ⟨rfl, _, v, hdisplay, hv, htruthy⟩
    | entry hlists hentries hentry hfield hv htruthy =>
      have hset := hasField_eq_true_iff.mpr ⟨_, v, rfl, hv, htruthy⟩
      exact Or.inr ⟨_, _, _, hlists, Entries.mem_of_get? hentries, mem_listPaths_iff.mpr
        ⟨_, _, _, rfl, hentry, mem_entryPaths_iff.mpr ⟨_, hfield, hset, rfl⟩⟩⟩

/-! ## Order -/

theorem entryPath_inj {k l f g : Text} {i j : ℕ} (h : entryPath k i f = entryPath l j g) :
    k = l ∧ i = j ∧ f = g := by
  simp only [entryPath, ItemPath.mk.injEq, List.cons.injEq] at h
  obtain ⟨-, rfl, hindex, rfl, -⟩ := h
  have hij := Value.index?_ofNat i
  rw [hindex, Value.index?_ofNat] at hij
  exact ⟨rfl, (Option.some.inj hij).symm, rfl⟩

theorem Precedes.ne {lists : List Text} (h : Precedes lists p q) : p ≠ q := by
  intro heq
  cases h with
  | shiny list index field => simp [shinyPath, entryPath] at heq
  | list hlt i j f g =>
    obtain ⟨rfl, -⟩ := entryPath_inj heq
    exact lt_irrefl _ hlt
  | index hlt list f g => exact hlt.ne (entryPath_inj heq).2.1
  | field list index => exact absurd (entryPath_inj heq).2.2 (by decide)

theorem pairwise_index_lt_zipIdx {α : Type} (xs : List α) :
    xs.zipIdx.Pairwise fun a b => a.2 < b.2 := by
  have hlt : (xs.zipIdx.map Prod.snd).Pairwise (· < ·) := by
    rw [List.zipIdx_map_snd]
    exact List.pairwise_lt_range' 1
  exact List.pairwise_map.mp hlt

theorem pairwise_idxOf_lt {ks : List Text} (h : ks.Nodup) :
    ks.Pairwise fun k l => ks.idxOf k < ks.idxOf l := by
  refine List.pairwise_iff_getElem.mpr fun i j hi hj hij => ?_
  rwa [h.idxOf_getElem i hi, h.idxOf_getElem j hj]

theorem pairwise_precedes_entryPaths (lists : List Text) (list : Text) (index : ℕ) (entry : Value) :
    (entryPaths list index entry).Pairwise (Precedes lists) := by
  have hfields : entryFields.Pairwise fun f g =>
      Precedes lists (entryPath list index f) (entryPath list index g) :=
    List.pairwise_pair.mpr (.field list index)
  exact List.pairwise_map.mpr (hfields.filter _)

theorem pairwise_precedes_listPaths (lists : List Text) (list : Text) (v : Value) :
    (listPaths list v).Pairwise (Precedes lists) := by
  cases v with
  | sequence entries =>
    rw [listPaths, List.pairwise_flatMap]
    refine ⟨fun e _ => pairwise_precedes_entryPaths lists list e.2 e.1,
      (pairwise_index_lt_zipIdx entries).imp fun hlt p hp q hq => ?_⟩
    obtain ⟨f, -, -, rfl⟩ := mem_entryPaths_iff.mp hp
    obtain ⟨g, -, -, rfl⟩ := mem_entryPaths_iff.mp hq
    exact .index hlt list f g
  | _ => exact .nil

theorem exists_of_mem_listPaths (h : p ∈ listPaths list v) :
    ∃ index field, p = entryPath list index field := by
  obtain ⟨-, index, entry, -, -, hp⟩ := mem_listPaths_iff.mp h
  obtain ⟨field, -, -, rfl⟩ := mem_entryPaths_iff.mp hp
  exact ⟨index, field, rfl⟩

/-- **The paths come in order.** -/
theorem pairwise_precedes_paths (h : item.HasDistinctKeys) :
    (paths item).Pairwise (Precedes (listKeys item)) := by
  rw [paths, List.pairwise_append]
  refine ⟨?_, ?_, fun p hp q hq => ?_⟩
  · rw [displayPaths]
    split_ifs <;> simp
  · rw [actionPaths]
    split
    · next lists hlists =>
      have hkeys : listKeys item = Entries.keys lists := by rw [listKeys, hlists]; rfl
      rw [hkeys, List.pairwise_flatMap]
      refine ⟨fun e _ => pairwise_precedes_listPaths _ e.1 e.2, ?_⟩
      have hlt := pairwise_idxOf_lt (nodup_keys_of_field? h hlists)
      refine (List.pairwise_map.mp hlt).imp fun hlt p hp q hq => ?_
      obtain ⟨i, f, rfl⟩ := exists_of_mem_listPaths hp
      obtain ⟨j, g, rfl⟩ := exists_of_mem_listPaths hq
      exact .list hlt i j f g
    · exact .nil
  · obtain ⟨rfl, -⟩ := mem_displayPaths_iff.mp hp
    obtain ⟨lists, list, entries, -, -, hq⟩ := mem_actionPaths_iff.mp hq
    obtain ⟨index, field, rfl⟩ := exists_of_mem_listPaths hq
    exact .shiny list index field

theorem nodup_paths (h : item.HasDistinctKeys) : (paths item).Nodup :=
  (pairwise_precedes_paths h).imp Precedes.ne

/-! ## The place in a document -/

/-- The steps along the path of an entry's field. -/
theorem child?_of_entries {lists fields : List (Text × Value)} {entries : List Value}
    (hlists : item.field? "actions".toList = some (.mapping lists))
    (hentries : Entries.get? list lists = some (.sequence entries))
    (hentry : entries[index]? = some (.mapping fields)) :
    item.child? "actions".toList = some (.mapping lists) ∧
      (Value.mapping lists).child? list = some (.sequence entries) ∧
      (Value.sequence entries).child? (Text.ofNat index) = some (.mapping fields) := by
  refine ⟨Value.child?_of_field? hlists, hentries, ?_⟩
  rw [Value.child?, Value.index?_ofNat, Option.bind_some, hentry]

/-- The last step to a listed place leads into a mapping. -/
theorem Listed.exists_parent (h : Listed item p v) : ∃ fields last, p.last? = some last ∧
    item.at? p.parent.segments = some (.mapping fields) ∧ Entries.get? last fields = some v := by
  cases h with
  | @shiny display _ hdisplay hv _ =>
    exact ⟨display, _, rfl, Value.at?_cons (Value.child?_of_field? hdisplay) [], hv⟩
  | @entry lists fields entries list field index _ hlists hentries hentry _ hv _ =>
    obtain ⟨hactions, hlist, hindex⟩ := child?_of_entries hlists hentries hentry
    have hwalk : item.at? ["actions".toList, list, Text.ofNat index] = some (.mapping fields) := by
      rw [Value.at?_cons hactions, Value.at?_cons hlist, Value.at?_cons hindex, Value.at?]
    exact ⟨fields, field, rfl, hwalk, hv⟩

/-- The value of a listed place is at the end of the walk along its path. -/
theorem Listed.at? (h : Listed item p v) : item.at? p.segments = some v := by
  obtain ⟨fields, last, hlast, hparent, hv⟩ := h.exists_parent
  have hchild : (Value.mapping fields).child? last = some v := hv
  rw [ItemPath.segments_eq hlast, Value.at?_append, hparent, Option.bind_some,
    Value.at?_cons hchild, Value.at?]

/-- **The value of a listed place** is what is read there. -/
theorem Listed.get? {doc : Document} {key : Text} (h : Listed item p v)
    (hitem : doc.item? key = some item) : doc.get? key p = some v := by
  rw [Document.get?_eq_bind, hitem, Option.bind_some, h.at?]

theorem Listed.truthy (h : Listed item p v) : v.truthy := by
  cases h <;> assumption

/-- Commands are listed under `actions` only. -/
theorem Listed.kind_eq_commands_iff (h : Listed item p v) :
    p.kind = .commands ↔ p.last? = some "actions".toList := by
  cases h with
  | shiny => decide
  | @entry lists fields entries list field index _ hlists hentries hentry hfield hv htruthy =>
    have hlast : (entryPath list index field).last? = some field := rfl
    rw [ItemPath.kind, hlast]
    have hcases : field = "condition".toList ∨ field = "actions".toList := by
      simpa [entryFields] using hfield
    rcases hcases with rfl | rfl <;> decide

/-- Listed places part: none is inside another. -/
theorem Listed.apart {w : Value} (hp : Listed item p v) (hq : Listed item q w) (hne : p ≠ q) :
    Value.Apart p.segments q.segments := by
  have hhead : "display".toList ≠ "actions".toList := by decide
  cases hp with
  | shiny =>
    cases hq with
    | shiny => exact absurd rfl hne
    | entry => exact Value.apart_cons_iff.mpr fun h => absurd h hhead
  | entry =>
    cases hq with
    | shiny => exact Value.apart_cons_iff.mpr fun h => absurd h hhead.symm
    | entry =>
      exact ⟨fun h => hne (congrArg ItemPath.mk (h.eq_of_length rfl)),
        fun h => hne (congrArg ItemPath.mk (h.eq_of_length rfl).symm)⟩

theorem apart_of_mem_paths (h : item.HasDistinctKeys) (hp : p ∈ paths item) (hq : q ∈ paths item)
    (hne : p ≠ q) : Value.Apart p.segments q.segments := by
  obtain ⟨v, hv⟩ := (mem_paths_iff h).mp hp
  obtain ⟨w, hw⟩ := (mem_paths_iff h).mp hq
  exact hv.apart hw hne

/-- Discovery is exact and ordered. An item's paths are the places that it lists, in their order
and none twice; commands are those under `actions`. In every document that holds the item, whatever
its key, the value of a listed place is what is read there. -/
theorem paths_exact_and_ordered (h : item.HasDistinctKeys) :
    (∀ p, p ∈ paths item ↔ ∃ v, Listed item p v) ∧
    (paths item).Nodup ∧ (paths item).Pairwise (Precedes (listKeys item)) ∧
    (∀ p ∈ paths item, p.kind = .commands ↔ p.last? = some "actions".toList) ∧
    ∀ (doc : Document) key, doc.item? key = some item →
      ∀ p v, Listed item p v → doc.get? key p = some v := by
  refine ⟨fun p => mem_paths_iff h, nodup_paths h, pairwise_precedes_paths h, fun p hp => ?_,
    fun doc key hitem p v hp => hp.get? hitem⟩
  obtain ⟨v, hv⟩ := (mem_paths_iff h).mp hp
  exact hv.kind_eq_commands_iff

/-- Keys with slash, tilde and point, and the empty key; entries without a field that is set. -/
theorem paths_exact_and_ordered_escaped :
    let item : Value := .mapping [
      ("display".toList, .mapping [("shiny".toList, .bool true)]),
      ("actions".toList, .mapping [
        ("a/b~1.c".toList, .sequence [.mapping [("condition".toList, .string [])],
          .mapping [("actions".toList, .sequence []), ("condition".toList, .bool true)]]),
        ("".toList, .sequence [.null, .mapping [("actions".toList, .string "x".toList)]])])]
    let doc : Document := ⟨[("~/.".toList, item)]⟩
    item.HasDistinctKeys ∧
      paths item = [shinyPath, entryPath "a/b~1.c".toList 1 "condition".toList,
        entryPath "a/b~1.c".toList 1 "actions".toList, entryPath [] 1 "actions".toList] ∧
      (paths item).Pairwise (Precedes ["a/b~1.c".toList, []]) ∧
      doc.get? "~/.".toList (entryPath "a/b~1.c".toList 1 "condition".toList)
        = some (.bool true) := by
  intro item doc
  have hkeys : item.HasDistinctKeys := by simp [item, Entries.keys]
  obtain ⟨-, -, hordered, -, hget⟩ := paths_exact_and_ordered hkeys
  refine ⟨hkeys, rfl, hordered, hget doc _ rfl _ _ ?_⟩
  exact .entry rfl rfl rfl List.mem_cons_self rfl rfl

/-! ## Replacement -/

theorem flatMap_zipIdx_set {α β : Type} {g : α × ℕ → List β} {xs : List α} {i : ℕ} {x y : α}
    (h : xs[i]? = some x) (hg : g (y, i) = g (x, i)) :
    (xs.set i y).zipIdx.flatMap g = xs.zipIdx.flatMap g := by
  obtain ⟨hlt, rfl⟩ := List.getElem?_eq_some_iff.mp h
  have hmap : (xs.set i y).zipIdx.map g = xs.zipIdx.map g := by
    refine List.ext_getElem? fun j => ?_
    rw [List.getElem?_map, List.getElem?_map, List.getElem?_zipIdx, List.getElem?_zipIdx]
    rcases eq_or_ne i j with rfl | hne
    · simp [hlt, hg]
    · rw [List.getElem?_set_ne hne]
  rw [List.flatMap_def, hmap, List.flatMap_def]

theorem hasField_setChild {key : Text} (hv : v.field? key = some part) (hold : part.truthy)
    (hnew : new.truthy) (other : Text) :
    hasField other (Value.setChild key new v) = hasField other v := by
  rw [hasField, hasField, Value.field?_setChild hv]
  split_ifs with heq
  · rw [heq, hv, Option.any_some, Option.any_some, hold, hnew]
  · rfl

theorem paths_setChild_display {display : Value}
    (hdisplay : item.field? "display".toList = some display)
    (h : hasField "shiny".toList new = hasField "shiny".toList display) :
    paths (Value.setChild "display".toList new item) = paths item := by
  have hne : "actions".toList ≠ "display".toList := by decide
  rw [paths, paths, displayPaths, displayPaths, actionPaths, actionPaths,
    Value.field?_setChild hdisplay, Value.field?_setChild hdisplay, if_pos rfl, if_neg hne,
    hdisplay, Option.any_some, Option.any_some, h]

theorem paths_setChild_actions {lists lists' : List (Text × Value)}
    (hlists : item.field? "actions".toList = some (.mapping lists))
    (h : (lists'.flatMap fun (list, entries) => listPaths list entries)
      = lists.flatMap fun (list, entries) => listPaths list entries) :
    paths (Value.setChild "actions".toList (.mapping lists') item) = paths item := by
  have hne : "display".toList ≠ "actions".toList := by decide
  rw [paths, paths, displayPaths, displayPaths, actionPaths, actionPaths,
    Value.field?_setChild hlists, Value.field?_setChild hlists, if_pos rfl, if_neg hne, hlists]
  exact congrArg _ h

/-- **Another value that counts as set**, at a listed place, leaves the paths of the item. -/
theorem paths_replaceAt (h : Listed item p v) (hnew : new.truthy) :
    paths (item.replaceAt p.segments new) = paths item := by
  cases h with
  | @shiny display _ hdisplay hv htruthy =>
    have hshiny : (Value.mapping display).field? "shiny".toList = some v := hv
    rw [shinyPath, Value.replaceAt_cons (Value.child?_of_field? hdisplay),
      Value.replaceAt_cons (Value.child?_of_field? hshiny), Value.replaceAt_nil]
    exact paths_setChild_display hdisplay (hasField_setChild hshiny htruthy hnew _)
  | @entry lists fields entries list field index _ hlists hentries hentry hfield hv htruthy =>
    obtain ⟨hactions, hlist, hindex⟩ := child?_of_entries hlists hentries hentry
    have hset : (Value.mapping fields).field? field = some v := hv
    rw [entryPath, Value.replaceAt_cons hactions, Value.replaceAt_cons hlist,
      Value.replaceAt_cons hindex, Value.replaceAt_cons (Value.child?_of_field? hset),
      Value.replaceAt_nil, Value.setChild_ofNat]
    have hentryPaths : entryPaths list index (Value.setChild field new (.mapping fields))
        = entryPaths list index (.mapping fields) := by
      simp only [entryPaths, hasField_setChild hset htruthy hnew]
    exact paths_setChild_actions hlists
      (Entries.flatMap_insert hentries (flatMap_zipIdx_set hentry hentryPaths))

end ItemConditions.Discovery
