import ItemConditions.Proofs.FileTree.Sound
import ItemConditions.Proofs.Text.Cut
import Mathlib.Data.List.Induction
import Mathlib.Data.List.TakeWhile

/-!
# Item files that are found

In a tree as a system has it, the item files at or below a place are found once each and in order:
directory by directory, where names are compared character by character. The path that is told for
one leads to it.

## Main definitions

* `FileTree.Precedes`: one place comes before another
* `FileTree.IsItemName`, `FileTree.IsItemAt`: an item file stands at a place

## Main results

* `FileTree.placeLe_iff`, `FileTree.pairwise_itemFiles`: the item files are in strict order
* `FileTree.mem_itemFiles_iff`: exactly the item files are found
* `FileTree.follow_join`, `FileTree.follow_extendPath`: a path with more names leads further
-/

namespace ItemConditions.FileTree

/-! ## The order of places -/

/-- One name comes before another: it has the lower character where the two first differ, or it
ends there. -/
def NamePrecedes : Text → Text → Prop := List.Lex fun c d => c.toNat < d.toNat

/-- **One place comes before another**: it has the earlier name where the two first differ, or it
ends there. -/
def Precedes : Place → Place → Prop := List.Lex NamePrecedes

theorem not_namePrecedes_self (name : Text) : ¬ NamePrecedes name name :=
  List.lex_irrefl (fun c => Nat.lt_irrefl c.toNat) name

theorem NamePrecedes.trans {s t u : Text} (h : NamePrecedes s t) (h' : NamePrecedes t u) :
    NamePrecedes s u :=
  List.lex_trans (fun h h' => Nat.lt_trans h h') h h'

theorem eq_of_not_namePrecedes {s t : Text} (h : ¬ NamePrecedes s t) (h' : ¬ NamePrecedes t s) :
    s = t :=
  List.lex_trichotomous (fun c d hcd hdc => Char.toNat_inj.mp (by omega)) h' h

theorem nameLe_iff {s t : Text} : nameLe s t ↔ s = t ∨ NamePrecedes s t := by
  induction s generalizing t with
  | nil => cases t <;> simp [nameLe, NamePrecedes]
  | cons c s ih =>
    cases t with
    | nil => simp [nameLe, NamePrecedes]
    | cons d t =>
      by_cases hcd : c = d
      · subst hcd
        simp [nameLe, ih, NamePrecedes, List.cons_lex_cons_iff]
      · simp [nameLe, hcd, NamePrecedes, List.cons_lex_cons_iff]

/-- The order of places, told by the names where they differ. -/
theorem placeLe_iff {p q : Place} : placeLe p q ↔ p = q ∨ Precedes p q := by
  induction p generalizing q with
  | nil => cases q <;> simp [placeLe, Precedes]
  | cons s p ih =>
    cases q with
    | nil => simp [placeLe, Precedes]
    | cons t q =>
      by_cases hst : s = t
      · subst hst
        simp [placeLe, ih, Precedes, List.cons_lex_cons_iff, not_namePrecedes_self]
      · simp [placeLe, hst, nameLe_iff, Precedes, List.cons_lex_cons_iff]

theorem Precedes.trans {p q r : Place} (h : Precedes p q) (h' : Precedes q r) : Precedes p r :=
  List.lex_trans (fun h h' => NamePrecedes.trans h h') h h'

theorem Precedes.ne {p q : Place} (h : Precedes p q) : p ≠ q := by
  rintro rfl
  exact List.lex_irrefl not_namePrecedes_self p h

theorem placeLe_trans (p q r : Place) (h : placeLe p q) (h' : placeLe q r) : placeLe p r := by
  rw [placeLe_iff] at h h' ⊢
  rcases h with rfl | h
  · exact h'
  rcases h' with rfl | h'
  · exact Or.inr h
  · exact Or.inr (h.trans h')

theorem placeLe_total (p q : Place) : placeLe p q || placeLe q p := by
  classical
  rw [Bool.or_eq_true, placeLe_iff, placeLe_iff]
  by_cases hpq : Precedes p q
  · exact Or.inl (Or.inr hpq)
  by_cases hqp : Precedes q p
  · exact Or.inr (Or.inr hqp)
  · exact Or.inl (Or.inl (List.lex_trichotomous (fun _ _ => eq_of_not_namePrecedes) hqp hpq))

/-! ## Item files -/

/-- **A name of an item file**: one of the two endings with something in front of it. -/
def IsItemName (name : Text) : Prop :=
  ∃ stem, stem ≠ [] ∧ (name = stem ++ ".yml".toList ∨ name = stem ++ ".yaml".toList)

/-- **An item file stands at a place.** -/
def IsItemAt (tree : FileTree) (place : Place) : Prop :=
  ∃ c name, tree.node? place = some (.file c) ∧ place.getLast? = some name ∧ IsItemName name

variable {tree : FileTree} {place names : Place} {path name : Text}

theorem IsItemAt.exists_contentsAt (h : tree.IsItemAt place)
    (hreadable : Entries.get? place tree.unreadable = none) :
    ∃ c, tree.contentsAt place = .ok c := by
  obtain ⟨c, -, hnode, -⟩ := h
  exact ⟨c, contentsAt_eq_ok_iff.mpr ⟨hnode, hreadable⟩⟩

/-! ## What is found -/

/-- The ending of a name is what follows the last point. -/
theorem extension?_eq_some_iff {ending : Text} : extension? name = some ending ↔
    ∃ stem, stem ≠ [] ∧ name = stem ++ '.' :: ending ∧ '.' ∉ ending := by
  constructor
  · intro h
    simp only [extension?] at h
    split_ifs at h with hlength
    obtain rfl := Option.some.inj h
    have hall : ∀ c ∈ name.reverse.takeWhile (· != '.'), c ≠ '.' := fun c hc => by
      simpa using List.mem_takeWhile_imp hc
    have hwhole := List.takeWhile_append_dropWhile (p := (· != '.')) (l := name.reverse)
    cases hrest : name.reverse.dropWhile (· != '.') with
    | nil =>
      rw [hrest, List.append_nil] at hwhole
      rw [hwhole, List.length_reverse] at hlength
      omega
    | cons c rest =>
      have hc : c = '.' := by
        have hhead := List.head?_dropWhile_not (· != '.') name.reverse
        simpa [hrest] using hhead
      subst hc
      rw [hrest] at hwhole
      refine ⟨rest.reverse, ?_, ?_, fun hmem => hall '.' (List.mem_reverse.mp hmem) rfl⟩
      · intro hnil
        rw [List.reverse_eq_nil_iff.mp hnil] at hwhole
        have := congrArg List.length hwhole
        simp only [List.length_append, List.length_singleton, List.length_reverse] at this
        omega
      · have := congrArg List.reverse hwhole
        simpa using this.symm
  · rintro ⟨stem, hstem, rfl, hending⟩
    have htake : (stem ++ '.' :: ending).reverse.takeWhile (· != '.') = ending.reverse := by
      rw [List.reverse_append, List.reverse_cons, List.append_assoc, List.singleton_append]
      refine Text.takeWhile_append_cons (fun c hc => ?_) rfl _
      rw [bne_iff_ne]
      rintro rfl
      exact hending (List.mem_reverse.mp hc)
    have hlength : 0 < stem.length := List.length_pos_of_ne_nil hstem
    simp only [extension?, htake, List.length_reverse, List.length_append, List.length_cons,
      List.reverse_reverse]
    rw [if_pos (by omega)]

theorem isItemName_iff : isItemName name ↔ IsItemName name := by
  constructor
  · intro h
    rw [isItemName] at h
    split at h
    · next ending hending =>
      obtain ⟨stem, hstem, rfl, -⟩ := extension?_eq_some_iff.mp hending
      rcases (Bool.or_eq_true _ _).mp h with h | h
      · exact ⟨stem, hstem, Or.inl (by rw [eq_of_beq h]; rfl)⟩
      · exact ⟨stem, hstem, Or.inr (by rw [eq_of_beq h]; rfl)⟩
    · simp at h
  · rintro ⟨stem, hstem, rfl | rfl⟩
    · have hending : extension? (stem ++ ".yml".toList) = some "yml".toList :=
        extension?_eq_some_iff.mpr ⟨stem, hstem, rfl, by decide⟩
      rw [isItemName, hending]
      rfl
    · have hending : extension? (stem ++ ".yaml".toList) = some "yaml".toList :=
        extension?_eq_some_iff.mpr ⟨stem, hstem, rfl, by decide⟩
      rw [isItemName, hending]
      rfl

theorem IsSound.node?_eq_some_iff (htree : tree.IsSound) (h : place ≠ []) {node : Node} :
    tree.node? place = some node ↔ (place, node) ∈ tree.nodes := by
  rw [node?, if_neg h, Entries.get?_eq_some_iff htree.distinct]

/-- **Exactly the item files are found.** -/
theorem mem_itemFiles_iff (htree : tree.IsSound) :
    names ∈ tree.itemFiles place ↔ tree.IsItemAt (place ++ names) := by
  rw [mem_itemFiles]
  constructor
  · rintro ⟨node, hmem, hitem⟩
    cases node with
    | directory => simp [isItemNode] at hitem
    | file c =>
      obtain ⟨name, hname, hitem⟩ := (Option.any_eq_true _ _).mp hitem
      have hne := List.ne_nil_of_mem (List.mem_of_getLast? hname)
      exact ⟨c, name, (htree.node?_eq_some_iff hne).mpr hmem, hname, isItemName_iff.mp hitem⟩
  · rintro ⟨c, name, hnode, hname, hitem⟩
    have hne := List.ne_nil_of_mem (List.mem_of_getLast? hname)
    refine ⟨.file c, (htree.node?_eq_some_iff hne).mp hnode, ?_⟩
    rw [isItemNode, hname]
    exact isItemName_iff.mpr hitem

/-- The item files are found once each and in order. -/
theorem pairwise_itemFiles (hdistinct : (Entries.keys tree.nodes).Nodup) (place : Place) :
    (tree.itemFiles place).Pairwise Precedes := by
  have hnodup : (tree.itemsBelow place).Nodup := by
    refine List.pairwise_filterMap.mpr ((List.pairwise_map.mp hdistinct).imp ?_)
    rintro ⟨first, node⟩ ⟨second, node'⟩ hne names h names' h' rfl
    simp only [Option.ite_none_right_eq_some, isPrefixOf?_eq_some_iff] at h h'
    exact hne (h.2.trans h'.2.symm)
  have hsorted := List.pairwise_mergeSort placeLe_trans placeLe_total (tree.itemsBelow place)
  have hdistinct := (List.mergeSort_perm (tree.itemsBelow place) placeLe).nodup_iff.mpr hnodup
  exact (hsorted.and hdistinct).imp fun h => (placeLe_iff.mp h.1).resolve_left h.2

/-- Item files that come in order are found as they come. -/
theorem itemFiles_of_pairwise (h : (tree.itemsBelow place).Pairwise fun p q => placeLe p q) :
    tree.itemFiles place = tree.itemsBelow place :=
  List.mergeSort_of_pairwise h

/-! ## The paths that are told -/

/-- **A name without slashes** is a step of its own behind any path. -/
theorem follow_join (h : tree.follow path = .ok place) (hslash : '/' ∉ name) :
    tree.follow (join path name) = tree.step place name := by
  have hpiece : Text.splitOn '/' name = [name] := Text.splitOn_eq_singleton hslash
  have hnone : Text.splitOn '/' [] = [[]] := rfl
  obtain ⟨hpath, hwalk⟩ := follow_eq_ok_iff.mp h
  by_cases hend : path.getLast? = some '/'
  · obtain ⟨front, rfl⟩ := List.getLast?_eq_some_iff.mp hend
    rw [follow_append, hnone] at h
    obtain ⟨mid, hmid, hblank⟩ := exists_of_walk_append h
    obtain ⟨rfl, -⟩ := step_of_blank (walk_singleton tree mid [] ▸ hblank) (Or.inl rfl)
    rw [join, if_pos (Or.inr hend), List.append_assoc, List.singleton_append, follow_append, hpiece,
      walk_append_of_ok hmid, walk_singleton]
  · rw [join, if_neg (by simp [hpath, hend]), follow_append, start_append tree hpath, hpiece,
      walk_append_of_ok hwalk, walk_singleton]

theorem step_of_isName (hname : IsName name) (h : tree.node? place = some .directory) :
    tree.step place name = .ok (place ++ [name]) := by
  obtain ⟨hempty, -, hstay, hback⟩ := hname
  rw [step, h]
  simp only [hempty, hstay, hback, or_self, ↓reduceIte]

/-- What stands below a place stands in a directory there. -/
theorem IsTree.node?_of_append (htree : tree.IsTree) {node : Node}
    (h : tree.node? (place ++ name :: names) = some node) :
    tree.node? place = some .directory := by
  induction names using List.reverseRecOn generalizing node with
  | nil => simpa using htree _ _ h
  | append_singleton names last ih =>
    have hparent := htree _ _ h
    rw [← List.cons_append, ← List.append_assoc, List.dropLast_concat] at hparent
    exact ih hparent

/-- **A path with more names** leads to what stands there. -/
theorem follow_extendPath (htree : tree.IsSound) (h : tree.follow path = .ok place) {node : Node}
    (hnode : tree.node? (place ++ names) = some node) :
    tree.follow (extendPath path names) = .ok (place ++ names) := by
  induction names generalizing path place with
  | nil => simpa [extendPath] using h
  | cons name names ih =>
    have hname : IsName name := htree.isName_of_node? hnode name (by simp)
    have hdirectory := htree.isTree.node?_of_append hnode
    have hjoin : tree.follow (join path name) = .ok (place ++ [name]) := by
      rw [follow_join h hname.2.1, step_of_isName hname hdirectory]
    rw [List.append_cons] at hnode ⊢
    exact ih hjoin hnode

end ItemConditions.FileTree
