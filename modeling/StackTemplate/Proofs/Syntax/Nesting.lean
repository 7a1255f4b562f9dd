import StackTemplate.Proofs.Syntax.Steps

/-!
How pairs, elements and containers lie in one another: entries stand in containers, and a container
is what an entry holds, wrappers apart.
-/

namespace StackTemplate

namespace Syntax.Place

variable {format : Format} {top : Place}

def isEntry (format : Format) (p : Place) : Bool :=
  p.isPair format || p.isItem format

/-- The innermost pair or element that a place is or lies in. -/
def innermost? (format : Format) (p : Place) : Option Place :=
  p.lineage.find? (·.isEntry format)

/-- Where the tree below `top` holds a value: at the top, in a pair, or in an element. -/
inductive IsValue (format : Format) (top : Place) : Place → Prop where
  | content : IsValue format top top
  | pairValue {pair p : Place} : pair ∈ top.preorder → pair.isPair format = true →
      pair.field? .value = some p → IsValue format top p
  | itemValue {item p : Place} : item ∈ top.preorder → item.isItem format = true →
      item.itemValue? format = some p → IsValue format top p

theorem innermost?_of_mem_children {p q : Place} (h : q ∈ p.children) :
    q.innermost? format =
      if q.isEntry format = true then some q else p.innermost? format := by
  simp only [innermost?, lineage_of_mem_children h, List.find?_cons]
  cases q.isEntry format <;> rfl

theorem innermost?_of_parent? (p : Place) (h : p.parent? = none) :
    p.innermost? format = if p.isEntry format = true then some p else none := by
  obtain ⟨node, above⟩ := p
  cases above with
  | nil =>
    simp only [innermost?, lineage, upFrom, List.find?_cons, List.find?_nil]
    split <;> simp_all
  | cons => cases h

theorem innermost?_of_unwraps_root {node : Node} {p : Place} (h : Unwraps format (root node) p)
    (hp : (p.shape format).isEntry = false) : p.innermost? format = none := by
  induction h with
  | refl =>
    have hn : (root node).isEntry format = false := by
      simp [isEntry, isPair_eq_false hp, isItem_root (shape_ne_item hp)]
    rw [innermost?_of_parent? _ rfl, hn]
    rfl
  | @tail w p hw hc ih =>
    have hwrapper := isWrapper_of_wraps hc.2
    have hi : p.isItem format = false :=
      isItem_eq_false hc.1 (by simp [shape_of_isWrapper hwrapper]) (shape_ne_item hp)
    rw [innermost?_of_mem_children hc.1, isEntry, isPair_eq_false hp, hi]
    exact ih (isEntry_of_isWrapper hwrapper)

theorem innermost?_of_isEntry {p : Place} (h : p.isEntry format = true) :
    p.innermost? format = some p := by
  obtain ⟨node, above⟩ := p
  cases above <;> simp [innermost?, lineage, upFrom, h]

theorem mem_preorder_of_innermost? (htop : top.innermost? format = none) {p entry : Place}
    (hp : Below top p) (h : p.innermost? format = some entry) :
    entry ∈ top.preorder ∧ entry.isEntry format = true := by
  induction hp with
  | refl =>
    rw [htop] at h
    cases h
  | @tail p q hp hq ih =>
    rw [innermost?_of_mem_children hq] at h
    split at h
    case isTrue he =>
      obtain rfl := Option.some.inj h
      exact ⟨mem_preorder.mpr (.tail hp hq), he⟩
    case isFalse => exact ih h

/-- Below `top` every pair has a key and stands in a block or as an element; elements stand in
sequences; a wrapper wraps one node, and in JSON there are none; and every container is a value,
wrappers apart. -/
structure Nested (format : Format) (top : Place) : Prop where
  keyed : ∀ p ∈ top.preorder, p.isPair format = true → (p.keyText? format).isSome = true
  pairInContainer : ∀ p ∈ top.preorder, p.isPair format = true →
    p.node.isContent = true ∧ ∃ q ∈ p.parent?, q.isBlock format = true ∨ q.shape format = .listed
  itemInSequence : ∀ p ∈ top.preorder, p.isItem format = true →
    p.node.isContent = true ∧ ∃ q ∈ p.parent?, q.isSequence format = true
  wrapsOne : ∀ p ∈ top.preorder, ∀ a ∈ p.children, ∀ b ∈ p.children,
    wraps format p.node a.node = true → wraps format p.node b.node = true → a = b
  noDocument : format = .json → ∀ p ∈ top.preorder, p.isWrapper format = false
  containerIsValue : ∀ p ∈ top.preorder, (p.isBlock format || p.isSequence format) = true →
    ∃ value, IsValue format top value ∧ Unwraps format value p

/-! The last two conditions, with places told apart by their addresses, so that they can be decided -/

theorem wrapsOne_of_isAt (h : ∀ p ∈ top.preorder, ∀ a ∈ p.children, ∀ b ∈ p.children,
      wraps format p.node a.node = true → wraps format p.node b.node = true → a.isAt b = true) :
    ∀ p ∈ top.preorder, ∀ a ∈ p.children, ∀ b ∈ p.children,
      wraps format p.node a.node = true → wraps format p.node b.node = true → a = b := by
  intro p hp a ha b hb hwa hwb
  exact eq_of_isAt ha hb (h p hp a ha b hb hwa hwb)

theorem containerIsValue_of_isAt (h : ∀ p ∈ top.preorder,
      (p.isBlock format || p.isSequence format) = true → top.isAt p = true ∨
        ∃ pair ∈ top.preorder, pair.isPair format = true ∧
          ∃ v ∈ pair.field? .value, (v.unwrap format).isAt p = true) :
    ∀ p ∈ top.preorder, (p.isBlock format || p.isSequence format) = true →
      ∃ value, IsValue format top value ∧ Unwraps format value p := by
  intro p hp hc
  rcases h p hp hc with htop | ⟨pair, hmem, hpair, v, hv, hat⟩
  · obtain rfl := eq_of_isAt_of_below .refl (mem_preorder.mp hp) htop
    exact ⟨_, .content, .refl⟩
  · have hvmem := mem_preorder_of_mem_children hmem (mem_children_of_field? hv)
    have hu := unwraps_unwrap format v
    have hbelow : Below top (v.unwrap format) := .trans (mem_preorder.mp hvmem) hu.below
    obtain rfl := eq_of_isAt_of_below hbelow (mem_preorder.mp hp) hat
    exact ⟨v, .pairValue hmem hpair hv, hu⟩

namespace Nested

theorem isEntry_eq_false (nested : Nested format top) {p q : Place} (hq : q ∈ top.preorder)
    (hc : q ∈ p.children) (hp : (p.isBlock format || p.isSequence format) = false) :
    q.isEntry format = false := by
  rw [Bool.or_eq_false_iff] at hp
  rw [isEntry, Bool.or_eq_false_iff, Bool.eq_false_iff, Bool.eq_false_iff]
  have hparent := parent?_of_mem_children hc
  constructor
  · intro h
    obtain ⟨-, r, hr, hb | hl⟩ := nested.pairInContainer q hq h
    all_goals obtain rfl := Option.some.inj (hr.symm.trans hparent)
    · simp [hp.1] at hb
    · simp [isSequence_iff.mpr (.inr hl)] at hp
  · intro h
    obtain ⟨-, r, hr, hs⟩ := nested.itemInSequence q hq h
    obtain rfl := Option.some.inj (hr.symm.trans hparent)
    simp [hp.2] at hs

theorem isEntry_of_unwraps (nested : Nested format top) {value p : Place}
    (hv : value ∈ top.preorder) (h : Unwraps format value p) :
    p = value ∨ p.isEntry format = false := by
  rcases Relation.ReflTransGen.cases_tail h with he | ⟨w, hw, hp⟩
  · exact Or.inl he
  · have hmem : w ∈ top.preorder :=
      mem_preorder.mpr (.trans (mem_preorder.mp hv) (Unwraps.below hw))
    refine Or.inr (nested.isEntry_eq_false (mem_preorder_of_mem_children hmem hp.1) hp.1 ?_)
    simp [isBlock, isSequence, shape_of_isWrapper (isWrapper_of_wraps hp.2), Shape.isSequence]

theorem innermost?_of_unwraps (nested : Nested format top) {value p : Place}
    (hv : value ∈ top.preorder) (h : Unwraps format value p) :
    p.innermost? format = value.innermost? format := by
  induction h with
  | refl => rfl
  | @tail w p hw hp ih =>
    rcases nested.isEntry_of_unwraps hv (.tail hw hp) with rfl | hn
    · rfl
    · rw [innermost?_of_mem_children hp.1, hn, ← ih]
      rfl

theorem unwrap_of_unwraps (nested : Nested format top) {value p : Place}
    (hv : value ∈ top.preorder) (hu : Unwraps format value p) (hp : p.isWrapper format = false) :
    value.unwrap format = p := by
  have hend {q r : Place} (hq : q.isWrapper format = false) :
      wraps format q.node r.node = false := by
    rw [Bool.eq_false_iff]
    intro h
    rw [isWrapper_of_wraps h] at hq
    cases hq
  cases format with
  | yaml =>
    refine descend_eq_of_descends hu ?_ fun q _ => hend hp
    intro q hq
    exact nested.wrapsOne q (mem_preorder.mpr (.trans (mem_preorder.mp hv) (mem_preorder.mp hq)))
  | json =>
    have hw := nested.noDocument rfl value hv
    have hnone : value.child? (wraps .json) = none :=
      List.find?_eq_none.mpr fun q _ => by simp [hend hw]
    rcases hu.eq_or_isWrapper with rfl | h
    · rw [unwrap, hnone]
      rfl
    · rw [hw] at h
      cases h

end Nested

end Syntax.Place

namespace SyntaxTree

open Syntax Syntax.Place

variable {tree : SyntaxTree} {top : Place}

theorem innermost?_content (h : tree.rootValue? = some top) (nested : top.Nested tree.format) :
    top.innermost? tree.format = none := by
  obtain ⟨hu, -⟩ := unwraps_of_rootValue? h
  rcases Relation.ReflTransGen.cases_tail hu with rfl | ⟨w, hw, hc⟩
  · rw [tree.root.innermost?_of_parent? rfl, ite_eq_right_iff]
    intro he
    rcases Bool.or_eq_true_iff.mp he with hp | hi
    · obtain ⟨-, q, hq, -⟩ := nested.pairInContainer _ (self_mem_preorder _) hp
      cases hq
    · obtain ⟨-, q, hq, -⟩ := nested.itemInSequence _ (self_mem_preorder _) hi
      cases hq
  · have hwrapper := isWrapper_of_wraps hc.2
    have hn := nested.isEntry_eq_false (self_mem_preorder top) hc.1
      (by simp [isBlock, isSequence, shape_of_isWrapper hwrapper, Shape.isSequence])
    rw [innermost?_of_mem_children hc.1, hn]
    exact innermost?_of_unwraps_root hw (isEntry_of_isWrapper hwrapper)

theorem stepsAt_of_isEntry_eq_false {p : Place} (h : p.isEntry tree.format = false) :
    tree.stepsAt p = [] := by
  obtain ⟨hp, hi⟩ := Bool.or_eq_false_iff.mp h
  exact stepsAt_of_not_entry hi hp

theorem shape_isEntry_eq_false {p : Place} (h : p.isEntry tree.format = false) :
    (p.shape tree.format).isEntry = false := by
  cases hs : p.shape tree.format <;> simp_all [Place.isEntry, isPair, isItem, Shape.isEntry]

end SyntaxTree

end StackTemplate
