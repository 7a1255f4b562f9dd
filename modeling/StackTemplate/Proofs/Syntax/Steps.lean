import StackTemplate.Proofs.Syntax.Places
import StackTemplate.Syntax.Tree

/-!
What a place adds to a path: pairs and elements add a step, wrappers and all other places none.
-/

namespace StackTemplate

namespace Syntax

/-- Pairs and marked items, which the grammars put into containers only. -/
def Shape.isEntry : Shape → Bool
  | pair | item => true
  | _ => false

namespace Place

variable {format : Format}

/-! Unwrapping -/

def Unwraps (format : Format) : Place → Place → Prop :=
  Descends (wraps format)

theorem unwraps_unwrap (format : Format) (p : Place) : Unwraps format p (p.unwrap format) := by
  cases format with
  | yaml => exact descends_descend _ p
  | json =>
    simp only [unwrap]
    cases h : p.child? (wraps .json) with
    | none => exact .refl
    | some q => exact .single (mem_of_child? h)

theorem isWrapper_of_wraps {p q : Place} (h : wraps format p.node q.node = true) :
    p.isWrapper format = true := by
  simp only [wraps, Bool.and_eq_true] at h
  exact h.1.1

theorem Unwraps.eq_or_isWrapper {p r : Place} (h : Unwraps format p r) :
    p = r ∨ p.isWrapper format = true := by
  rcases Relation.ReflTransGen.cases_head h with rfl | ⟨q, hq, -⟩
  · exact Or.inl rfl
  · exact Or.inr (isWrapper_of_wraps hq.2)

theorem unwrap_of_isWrapper_eq_false {p : Place} (h : p.isWrapper format = false) :
    p.unwrap format = p := by
  rcases (unwraps_unwrap format p).eq_or_isWrapper with hself | hwrapper
  · exact hself.symm
  · rw [h] at hwrapper
    cases hwrapper

theorem Unwraps.below {p r : Place} (h : Unwraps format p r) : Below p r :=
  Descends.below h

theorem shape_of_isWrapper {p : Place} (h : p.isWrapper format = true) :
    p.shape format = .wrapper := by
  simpa [isWrapper] using h

theorem unwraps_of_rootValue? {root content : Place} (h : root.rootValue? format = some content) :
    Unwraps format root content ∧ content.isWrapper format = false := by
  simp only [rootValue?] at h
  split at h
  case isTrue => cases h
  case isFalse hw =>
    obtain rfl := Option.some.inj h
    exact ⟨unwraps_unwrap format root, by simpa using hw⟩

theorem isWrapper_of_rootValue?_eq_none {root : Place} (h : root.rootValue? format = none) :
    root.isWrapper format = true := by
  simp only [rootValue?] at h
  split at h
  case isTrue hw =>
    rcases (unwraps_unwrap format root).eq_or_isWrapper with he | hr
    · rw [he]
      exact hw
    · exact hr
  case isFalse => cases h

/-! Elements -/

theorem isItem_of_mem_children {p q : Place} (h : q ∈ p.children) :
    q.isItem format = true ↔
      q.shape format = .item ∨ (q.node.isContent = true ∧ p.shape format = .listed) := by
  simp [isItem, parent?_of_mem_children h]

theorem isPair_eq_false {p : Place} (h : (p.shape format).isEntry = false) :
    p.isPair format = false := by
  cases hs : p.shape format <;> simp_all [isPair, Shape.isEntry]

theorem shape_ne_item {p : Place} (h : (p.shape format).isEntry = false) :
    p.shape format ≠ .item := by
  intro hs
  rw [hs] at h
  cases h

theorem isEntry_of_isWrapper {p : Place} (h : p.isWrapper format = true) :
    (p.shape format).isEntry = false := by
  rw [shape_of_isWrapper h]
  rfl

theorem isItem_eq_false {p q : Place} (hq : q ∈ p.children) (hp : p.shape format ≠ .listed)
    (h : q.shape format ≠ .item) : q.isItem format = false := by
  rw [Bool.eq_false_iff]
  intro hi
  rcases (isItem_of_mem_children hq).mp hi with hs | ⟨-, hs⟩
  · exact h hs
  · exact hp hs

theorem isItem_root {node : Node} (h : (root node).shape format ≠ .item) :
    (root node).isItem format = false := by
  simpa [isItem, root, parent?] using h

theorem mem_contentChildren_of_mem_items {p q : Place} (h : q ∈ p.items format) :
    q ∈ p.contentChildren := by
  unfold items at h
  split at h
  · exact (List.mem_filter.mp h).1
  · exact h
  · cases h

theorem mem_children_of_mem_items {p q : Place} (h : q ∈ p.items format) : q ∈ p.children :=
  mem_children_of_mem_contentChildren (mem_contentChildren_of_mem_items h)

theorem isSequence_iff {p : Place} :
    p.isSequence format = true ↔ p.shape format = .itemized ∨ p.shape format = .listed := by
  cases h : p.shape format <;> simp [isSequence, Shape.isSequence, h]

theorem mem_items {p q : Place} (hq : q ∈ p.children) (hp : p.isSequence format = true) :
    q ∈ p.items format ↔ q.node.isContent = true ∧ q.isItem format = true := by
  rw [isItem_of_mem_children hq]
  rcases isSequence_iff.mp hp with h | h
  · simp [items, h, contentChildren, hq, and_comm]
  · simp only [items, h, contentChildren, List.mem_filter, hq, true_and, and_true]
    constructor
    · intro hc
      exact ⟨hc, Or.inr hc⟩
    · intro hc
      exact hc.1

theorem isItem_of_mem_items {p q : Place} (h : q ∈ p.items format) : q.isItem format = true := by
  have hp : p.isSequence format = true := by
    rw [isSequence_iff]
    unfold items at h
    split at h
    · exact Or.inl ‹_›
    · exact Or.inr ‹_›
    · cases h
  exact ((mem_items (mem_children_of_mem_items h) hp).mp h).2

theorem itemValue?_eq_some {p q : Place} (h : p.itemValue? format = some q) :
    (p.shape format = .item ∧ q ∈ p.children) ∨ q = p := by
  by_cases hs : p.shape format = .item
  · simp only [itemValue?, hs, ↓reduceIte, BEq.rfl] at h
    exact Or.inl ⟨hs, mem_children_of_mem_contentChildren (List.mem_of_head? h)⟩
  · simp only [itemValue?, beq_iff_eq, hs, ↓reduceIte, Option.some.injEq] at h
    exact Or.inr h.symm

theorem nodup_items (format : Format) (p : Place) : (p.items format).Nodup := by
  have h : p.contentChildren.Nodup := (nodup_children p).filter _
  unfold items
  split
  · exact h.filter _
  · exact h
  · exact List.nodup_nil

theorem isItem_of_itemIndex? {p : Place} {i : Nat} (h : p.itemIndex? format = some i) :
    p.isItem format = true := by
  unfold itemIndex? at h
  split at h
  · assumption
  · cases h

theorem itemIndex?_eq_some_iff {p q : Place} {i : Nat} (hp : p.isSequence format = true)
    (hq : q ∈ p.children) : q.itemIndex? format = some i ↔ (p.items format)[i]? = some q := by
  have hindex : q.isItem format = true →
      q.itemIndex? format = (p.items format).findIdx? (·.isAt q) := by
    intro hi
    simp [itemIndex?, hi, parent?_of_mem_children hq, hp]
  constructor
  · intro h
    have hi : q.isItem format = true := isItem_of_itemIndex? h
    rw [hindex hi, List.findIdx?_eq_some_iff_getElem] at h
    obtain ⟨hlt, hat, -⟩ := h
    have hmem := mem_children_of_mem_items (List.getElem_mem hlt)
    rw [List.getElem?_eq_getElem hlt, eq_of_isAt hmem hq hat]
  · intro h
    have hmem := List.mem_of_getElem? h
    obtain ⟨hlt, he⟩ := List.getElem?_eq_some_iff.mp h
    rw [hindex (isItem_of_mem_items hmem), List.findIdx?_eq_some_iff_getElem]
    refine ⟨hlt, by rw [he]; exact isAt_self q, ?_⟩
    intro j hj hat
    have hjmem := mem_children_of_mem_items (List.getElem_mem (Nat.lt_trans hj hlt))
    have hji : (p.items format)[j] = (p.items format)[i] := by
      rw [he]
      exact eq_of_isAt hjmem hq hat
    exact absurd ((List.getElem_inj (nodup_items format p)).mp hji) (Nat.ne_of_lt hj)

end Place

end Syntax

namespace SyntaxTree

open Syntax

variable {tree : SyntaxTree}

/-! Places of a tree -/

theorem root_mem_places (tree : SyntaxTree) : tree.root ∈ tree.places :=
  Place.self_mem_preorder tree.root

theorem mem_places_of_mem_children {p q : Place} (hp : p ∈ tree.places) (hq : q ∈ p.children) :
    q ∈ tree.places :=
  Place.mem_preorder_of_mem_children hp hq

theorem mem_places_of_below {p q : Place} (hp : p ∈ tree.places) (hq : Place.Below p q) :
    q ∈ tree.places :=
  Place.mem_preorder.mpr (.trans (Place.mem_preorder.mp hp) hq)

theorem mem_places_of_rootValue? {content : Place} (h : tree.rootValue? = some content) :
    content ∈ tree.places :=
  mem_places_of_below (root_mem_places tree) (Place.unwraps_of_rootValue? h).1.below

/-! Steps and paths -/

theorem pathOf_root (tree : SyntaxTree) : tree.pathOf tree.root = tree.stepsAt tree.root := by
  simp [pathOf, trail, Place.ancestors, root, Place.lineage_root, Function.comp_def]

theorem pathOf_of_mem_children {p q : Place} (h : q ∈ p.children) :
    tree.pathOf q = tree.pathOf p ++ tree.stepsAt q := by
  simp [pathOf, trail, Place.ancestors_of_mem_children h, Function.comp_def]

theorem trail_of_mem_children {p q : Place} (h : q ∈ p.children) :
    tree.trail q = tree.trail p ++ (tree.stepsAt q).map (·, q) := by
  simp [trail, Place.ancestors_of_mem_children h]

theorem exists_trail_eq {p q : Place} (h : q ∈ p.lineage) :
    ∃ rest, tree.trail p = tree.trail q ++ rest := by
  obtain ⟨front, hfront⟩ := Place.exists_lineage_eq h
  refine ⟨front.reverse.flatMap fun r => (tree.stepsAt r).map (·, r), ?_⟩
  simp [trail, Place.ancestors, hfront]

theorem mem_trail {p q : Place} {step : PathStep} :
    (step, q) ∈ tree.trail p ↔ q ∈ p.lineage ∧ step ∈ tree.stepsAt q := by
  simp only [trail, Place.ancestors, List.mem_flatMap, List.mem_reverse, List.mem_map,
    Prod.mk.injEq]
  constructor
  · rintro ⟨_, hq, _, hs, rfl, rfl⟩
    exact ⟨hq, hs⟩
  · rintro ⟨hq, hs⟩
    exact ⟨q, hq, step, hs, rfl, rfl⟩

theorem trail_eq_nil_iff {p : Place} : tree.trail p = [] ↔ tree.pathOf p = [] :=
  List.map_eq_nil_iff.symm

theorem key_of_mem_stepsAt {p : Place} {name : String} (h : .key name ∈ tree.stepsAt p) :
    p.isPair tree.format = true ∧ p.keyText? tree.format = some name := by
  by_cases hpair : p.isPair tree.format = true
  · exact ⟨hpair, by simpa [stepsAt, hpair] using h⟩
  · simp [stepsAt, hpair] at h

theorem stepsAt_of_not_entry {p : Place} (hi : p.isItem tree.format = false)
    (hp : p.isPair tree.format = false) : tree.stepsAt p = [] := by
  simp [stepsAt, Place.itemIndex?, hi, hp]

theorem stepsAt_of_mem_children {p q : Place} (hq : q ∈ p.children)
    (hp : p.shape tree.format ≠ .listed) (h : (q.shape tree.format).isEntry = false) :
    tree.stepsAt q = [] :=
  stepsAt_of_not_entry (Place.isItem_eq_false hq hp (Place.shape_ne_item h))
    (Place.isPair_eq_false h)

theorem pathOf_value {p q : Place} (hq : q ∈ p.children)
    (hp : p.shape tree.format ≠ .listed) (h : (q.shape tree.format).isEntry = false) :
    tree.pathOf q = tree.pathOf p := by
  rw [pathOf_of_mem_children hq, stepsAt_of_mem_children hq hp h, List.append_nil]

theorem pathOf_of_unwraps {p r : Place} (h : Place.Unwraps tree.format p r)
    (hr : (r.shape tree.format).isEntry = false) : tree.pathOf r = tree.pathOf p := by
  induction h using Relation.ReflTransGen.head_induction_on with
  | refl => rfl
  | @head p q hq hqr ih =>
    have hp := Place.shape_of_isWrapper (Place.isWrapper_of_wraps hq.2)
    rw [ih]
    refine pathOf_value hq.1 (by simp [hp]) ?_
    rcases Place.Unwraps.eq_or_isWrapper hqr with rfl | hw
    · exact hr
    · exact Place.isEntry_of_isWrapper hw

theorem pathOf_root_eq_nil (h : (tree.root.shape tree.format).isEntry = false) :
    tree.pathOf tree.root = [] := by
  rw [pathOf_root]
  exact stepsAt_of_not_entry (Place.isItem_root (Place.shape_ne_item h)) (Place.isPair_eq_false h)

theorem pathOf_rootValue {content : Place} (h : tree.rootValue? = some content)
    (hc : (content.shape tree.format).isEntry = false) : tree.pathOf content = [] := by
  obtain ⟨hu, -⟩ := Place.unwraps_of_rootValue? h
  rw [pathOf_of_unwraps hu hc]
  apply pathOf_root_eq_nil
  rcases hu.eq_or_isWrapper with he | hw
  · rwa [he]
  · exact Place.isEntry_of_isWrapper hw

end SyntaxTree

end StackTemplate
