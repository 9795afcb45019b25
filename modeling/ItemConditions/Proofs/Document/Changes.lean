import ItemConditions.Proofs.Document.Access

/-!
# Changes at several paths of an item

Values at several paths are replaced, one after the other. Where none of the paths is inside
another, every one of them holds its new value in the end, and the rest of the document is framed.

## Main definitions

* `Document.Frame`: documents that differ at some paths of an item only
* `Document.replaceAll`: the document after several replacements

## Main results

* `Document.frame_replaceAll`: what several replacements leave alone
* `Document.get?_replaceAll_of_mem`: what they leave behind
* `Document.replaceAll_eq_self`: replacements by what is there
* `Document.replaceAll_comm`: replacements at paths that are apart
-/

namespace ItemConditions.Document

/-- **Documents that differ at some paths of an item only.** What is neither inside such a path nor
around it is the same, and keys keep their order outside of it. -/
structure Frame (item : Text) (paths : List ItemPath) (doc after : Document) : Prop where
  elsewhere : ∀ other q, (item = other → ∀ p ∈ paths, Value.Apart p.segments q.segments) →
    after.get? other q = doc.get? other q
  keys : ∀ other q, (item = other → ∀ p ∈ paths, ¬ p.segments <+: q.segments) →
    (after.get? other q).map Value.keys = (doc.get? other q).map Value.keys
  itemKeys : after.keys = doc.keys

variable {doc mid after : Document} {item : Text} {paths more : List ItemPath}
  {changes : List (ItemPath × Value)}

theorem Frame.refl (item : Text) (doc : Document) : Frame item [] doc doc :=
  ⟨fun _ _ _ => rfl, fun _ _ _ => rfl, rfl⟩

theorem Frame.trans (h : Frame item paths doc mid) (h' : Frame item more mid after) :
    Frame item (paths ++ more) doc after where
  elsewhere other q hq := by
    rw [h'.elsewhere other q fun heq p hp => hq heq p (List.mem_append_right _ hp),
      h.elsewhere other q fun heq p hp => hq heq p (List.mem_append_left _ hp)]
  keys other q hq := by
    rw [h'.keys other q fun heq p hp => hq heq p (List.mem_append_right _ hp),
      h.keys other q fun heq p hp => hq heq p (List.mem_append_left _ hp)]
  itemKeys := h'.itemKeys.trans h.itemKeys

/-- One replacement is framed. -/
theorem frame_replaceAt (doc : Document) (item : Text) (path : ItemPath) (new : Value) :
    Frame item [path] doc (doc.replaceAt item path new) where
  elsewhere other q hq :=
    get?_replaceAt_of_apart (fun heq => hq heq path List.mem_cons_self) doc new
  keys other q hq := by
    rw [get?_eq, get?_eq, toValue_replaceAt, Value.keys_at?_replaceAt]
    rw [List.cons_prefix_cons]
    rintro ⟨heq, hprefix⟩
    exact hq heq path List.mem_cons_self hprefix
  itemKeys := by
    have hkeys := Value.keys_replaceAt (List.cons_ne_nil item path.segments) doc.toValue new
    rw [← toValue_replaceAt] at hkeys
    exact hkeys

/-- **The document after several replacements** in an item, one after the other. -/
def replaceAll (doc : Document) (item : Text) (changes : List (ItemPath × Value)) : Document :=
  changes.foldl (fun doc change => doc.replaceAt item change.1 change.2) doc

@[simp] theorem replaceAll_nil (doc : Document) (item : Text) : doc.replaceAll item [] = doc := rfl

theorem replaceAll_cons (doc : Document) (item : Text) (change : ItemPath × Value)
    (changes : List (ItemPath × Value)) : doc.replaceAll item (change :: changes)
      = (doc.replaceAt item change.1 change.2).replaceAll item changes := rfl

/-- Several replacements are framed. -/
theorem frame_replaceAll (doc : Document) (item : Text) (changes : List (ItemPath × Value)) :
    Frame item (changes.map Prod.fst) doc (doc.replaceAll item changes) := by
  induction changes generalizing doc with
  | nil => exact .refl item doc
  | cons change changes ih => exact (frame_replaceAt doc item change.1 change.2).trans (ih _)

/-- **Every path holds its new value in the end**, where none is inside another. -/
theorem get?_replaceAll_of_mem {path : ItemPath} {new : Value}
    (hapart : changes.Pairwise fun c d => Value.Apart c.1.segments d.1.segments)
    (hpresent : ∀ c ∈ changes, (doc.get? item c.1).isSome) (hmem : (path, new) ∈ changes) :
    (doc.replaceAll item changes).get? item path = some new := by
  induction changes generalizing doc with
  | nil => exact absurd hmem List.not_mem_nil
  | cons change changes ih =>
    obtain ⟨hchange, hapart⟩ := List.pairwise_cons.mp hapart
    obtain ⟨hthere, hpresent⟩ := List.forall_mem_cons.mp hpresent
    rw [replaceAll_cons]
    rcases List.mem_cons.mp hmem with rfl | hmem
    · obtain ⟨part, hpart⟩ := Option.isSome_iff_exists.mp hthere
      rw [(frame_replaceAll _ item changes).elsewhere, get?_replaceAt_self hpart]
      rintro - p hp
      obtain ⟨c, hc, rfl⟩ := List.mem_map.mp hp
      exact (hchange c hc).symm
    · refine ih hapart (fun c hc => ?_) hmem
      rw [get?_replaceAt_of_apart fun _ => hchange c hc]
      exact hpresent c hc

/-- **Replacements at paths that are apart** commute. -/
theorem replaceAll_comm {other : Text} {changes' : List (ItemPath × Value)}
    (h : item = other → ∀ c ∈ changes, ∀ d ∈ changes', Value.Apart c.1.segments d.1.segments)
    (doc : Document) : (doc.replaceAll item changes).replaceAll other changes'
      = (doc.replaceAll other changes').replaceAll item changes := by
  have hone : ∀ (doc : Document), ∀ c ∈ changes,
      (doc.replaceAt item c.1 c.2).replaceAll other changes'
        = (doc.replaceAll other changes').replaceAt item c.1 c.2 := by
    intro doc c hc
    induction changes' generalizing doc with
    | nil => rfl
    | cons d changes' ih =>
      have hd : item = other → Value.Apart c.1.segments d.1.segments :=
        fun heq => h heq c hc d List.mem_cons_self
      rw [replaceAll_cons, replaceAll_cons, replaceAt_comm hd,
        ih fun heq c hc d hd => h heq c hc d (List.mem_cons_of_mem _ hd)]
  induction changes generalizing doc with
  | nil => rfl
  | cons c changes ih =>
    rw [replaceAll_cons, replaceAll_cons, ← hone doc c List.mem_cons_self]
    exact ih (fun heq c hc => h heq c (List.mem_cons_of_mem _ hc)) (doc.replaceAt item c.1 c.2)
      fun doc c hc => hone doc c (List.mem_cons_of_mem _ hc)

/-- **Replacements by what is there** change nothing. -/
theorem replaceAll_eq_self (h : ∀ c ∈ changes, doc.get? item c.1 = some c.2) :
    doc.replaceAll item changes = doc := by
  induction changes with
  | nil => rfl
  | cons change changes ih =>
    obtain ⟨hchange, h⟩ := List.forall_mem_cons.mp h
    rw [replaceAll_cons, replaceAt_eq_self hchange, ih h]

end ItemConditions.Document
