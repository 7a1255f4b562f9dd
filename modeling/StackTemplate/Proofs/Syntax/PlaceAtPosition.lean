import StackTemplate.Proofs.Syntax.Places
import StackTemplate.Syntax.Outline
import StackTemplate.Syntax.Tree

/-!
The node at a position among all named nodes that contain it. Where ranges nest and siblings come in
order, two of them on different ways can only touch.
-/

namespace StackTemplate

namespace Syntax.Place

def range (p : Place) : Range :=
  p.node.info.range

/-- The children of every place lie within it, and each of them ends before the later ones start. -/
structure Ordered (top : Place) : Prop where
  within : ∀ p ∈ top.preorder, ∀ q ∈ p.children, p.range.containsRange q.range = true
  disjoint : ∀ p ∈ top.preorder, p.children.Pairwise fun a b => a.range.stop ≤ b.range.start

/-- Places below a place that named nodes lead to. -/
def NamedBelow : Place → Place → Prop :=
  Descends fun _ child => child.info.named

def leadsTo (position : Position) (_ child : Node) : Bool :=
  child.info.named && child.info.range.contains position

variable {top p q : Place} {position : Position}

theorem leadsTo_iff : leadsTo position p.node q.node = true ↔
    q.node.info.named = true ∧ q.range.contains position = true := by
  simp [leadsTo, range]

namespace Ordered

theorem of_mem_children (ordered : top.Ordered) (h : q ∈ top.children) : q.Ordered := by
  have hmem : ∀ p ∈ q.preorder, p ∈ top.preorder := by
    intro p hp
    exact mem_preorder.mpr (.head h (mem_preorder.mp hp))
  constructor
  · intro p hp
    exact ordered.within p (hmem p hp)
  · intro p hp
    exact ordered.disjoint p (hmem p hp)

theorem containsRange_of_below (ordered : top.Ordered) (h : Below top q) :
    top.range.containsRange q.range = true := by
  induction h with
  | refl => exact Range.containsRange_self _
  | @tail p q hp hc ih =>
    exact Range.containsRange_trans ih (ordered.within p (mem_preorder.mpr hp) q hc)

end Ordered

/-! The way down to a position -/

theorem contains_of_descends (h : Descends (leadsTo position) top q)
    (htop : top.range.contains position = true) : q.range.contains position = true := by
  rcases Relation.ReflTransGen.cases_tail h with rfl | ⟨p, -, hc⟩
  · exact htop
  · exact (leadsTo_iff.mp hc.2).2

theorem namedBelow_of_descends (h : Descends (leadsTo position) top q) : NamedBelow top q :=
  Relation.ReflTransGen.mono (fun _ _ hc => ⟨hc.1, (leadsTo_iff.mp hc.2).1⟩) _ _ h

/-- The child that is picked is the first of those that pass the test. -/
theorem eq_or_before_of_child? {pick : Node → Node → Bool} {a c : Place} {r : Place → Place → Prop}
    (h : p.child? pick = some a) (hc : c ∈ p.children) (hpick : pick p.node c.node = true)
    (hr : p.children.Pairwise r) : c = a ∨ r a c := by
  obtain ⟨-, before, after, hchildren, hbefore⟩ := List.find?_eq_some_iff_append.mp h
  rw [hchildren] at hc hr
  rcases List.mem_append.mp hc with hc | hc
  · have hnot := hbefore c hc
    rw [hpick] at hnot
    cases hnot
  · rcases List.mem_cons.mp hc with rfl | hc
    · exact Or.inl rfl
    · exact Or.inr ((List.pairwise_cons.mp (List.pairwise_append.mp hr).2.1).1 c hc)

/-- A place that contains the position is on the way down to it, or starts where this way ends. -/
theorem below_or_touches (ordered : top.Ordered) (h : NamedBelow top q)
    (hq : q.range.contains position = true) :
    Below q (top.descend (leadsTo position)) ∨
      q.range.start = position ∧ (top.descend (leadsTo position)).range.stop = position := by
  induction h using Relation.ReflTransGen.head_induction_on with
  | refl => exact Or.inl (descends_descend _ q).below
  | @head p c hc hcq ih =>
    have orderedc := ordered.of_mem_children hc.1
    have hbelow : Descends (fun _ child => child.info.named) c q := hcq
    have hwithin := orderedc.containsRange_of_below hbelow.below
    have hpick : leadsTo position p.node c.node = true :=
      leadsTo_iff.mpr ⟨hc.2, Range.contains_of_containsRange hwithin hq⟩
    obtain ⟨a, ha⟩ : ∃ a, p.child? (leadsTo position) = some a :=
      Option.isSome_iff_exists.mp (List.find?_isSome.mpr ⟨c, hc.1, hpick⟩)
    rw [descend_eq, ha, Option.map_some, Option.getD_some]
    -- The way down goes through the child above `q`, or through a sibling before it.
    rcases eq_or_before_of_child? ha hc.1 hpick (ordered.disjoint p (self_mem_preorder p)) with
      rfl | hbefore
    · exact ih orderedc
    · obtain ⟨hac, hapick⟩ := mem_of_child? ha
      have hdown := descends_descend (leadsTo position) a
      have hlast := contains_of_descends hdown (leadsTo_iff.mp hapick).2
      have hinner := (ordered.of_mem_children hac).containsRange_of_below hdown.below
      rw [Range.containsRange_iff] at hwithin hinner
      rw [Range.contains_iff] at hq hlast
      have hstop : a.range.stop ≤ q.range.start := Position.le_trans hbefore hwithin.1
      refine Or.inr ⟨Position.le_antisymm hq.1 ?_, Position.le_antisymm ?_ hlast.2⟩
      · exact Position.le_trans (Position.le_trans hlast.2 hinner.2) hstop
      · exact Position.le_trans (Position.le_trans hinner.2 hstop) hq.1

end Syntax.Place

namespace SyntaxTree

open Syntax Syntax.Place

theorem nodeAt?_eq_none_iff {tree : SyntaxTree} {position : Position} :
    tree.nodeAt? position = none ↔ tree.root.range.contains position = false := by
  rw [nodeAt?]
  split
  case isTrue h => exact iff_of_false nofun (by rw [Bool.not_eq_false]; exact h)
  case isFalse h => exact iff_of_true rfl (Bool.eq_false_iff.mpr h)

theorem nodeAt?_eq_some {tree : SyntaxTree} {position : Position} {r : Place}
    (h : tree.nodeAt? position = some r) :
    tree.root.range.contains position = true ∧ tree.root.descend (leadsTo position) = r := by
  rw [nodeAt?] at h
  split at h
  case isTrue hroot => exact ⟨hroot, Option.some.inj h⟩
  case isFalse => cases h

/-- The node at a position is the innermost named node that contains it: all others around the
position are above it, apart from those that start where the position is and the node ends. -/
theorem nodeAt?_innermost (tree : SyntaxTree) (ordered : tree.root.Ordered) (position : Position) :
    (tree.nodeAt? position = none ↔
      ¬ (tree.root.range.start ≤ position ∧ position ≤ tree.root.range.stop)) ∧
    ∀ r, tree.nodeAt? position = some r →
      NamedBelow tree.root r ∧ r.range.contains position = true ∧
      (∀ q ∈ r.namedChildren, q.range.contains position = false) ∧
      ∀ m, NamedBelow tree.root m → m.range.contains position = true → m ≠ r →
        m ∈ r.ancestors ∨ m.range.start = position ∧ r.range.stop = position := by
  refine ⟨?_, ?_⟩
  · rw [nodeAt?_eq_none_iff, ← Range.contains_iff, Bool.not_eq_true]
  · intro r hr
    obtain ⟨hroot, rfl⟩ := nodeAt?_eq_some hr
    have hdown := descends_descend (leadsTo position) tree.root
    refine ⟨namedBelow_of_descends hdown, contains_of_descends hdown hroot, ?_, ?_⟩
    · intro q hq
      obtain ⟨hc, hnamed⟩ := List.mem_filter.mp hq
      rw [Bool.eq_false_iff]
      intro hcontains
      have hend := child?_descend (leadsTo position) tree.root
      exact List.find?_eq_none.mp hend q hc (leadsTo_iff.mpr ⟨hnamed, hcontains⟩)
    · intro m hm hcontains _
      apply (below_or_touches ordered hm hcontains).imp_left
      intro hbelow
      exact List.mem_reverse.mpr (mem_lineage_of_below hbelow)

def escapesText : String := "\"\\t\\n\""

def escapesRows : List Row :=
  [⟨0, "document", true, false, false, false, false, none, 0, 6⟩,
    ⟨1, "string", true, false, false, false, false, none, 0, 6⟩,
    ⟨2, "\"", false, false, false, false, false, none, 0, 1⟩,
    ⟨2, "string_content", true, false, false, false, false, none, 1, 5⟩,
    ⟨3, "escape_sequence", true, false, false, false, false, none, 1, 3⟩,
    ⟨3, "escape_sequence", true, false, false, false, false, none, 3, 5⟩,
    ⟨2, "\"", false, false, false, false, false, none, 5, 6⟩]

def escapes : SyntaxTree :=
  ⟨.detect "file:///t.json" 1 escapesText,
    (Node.ofRows? escapesText.toList escapesRows).getD default⟩

/-- Two escapes touch, and the left one is the node where they do. -/
theorem nodeAt?_innermost_escapes :
    escapes.root.Ordered ∧
      ∃ left right, escapes.nodeAt? ⟨0, 3⟩ = some left ∧ NamedBelow escapes.root right ∧
        right.range.contains ⟨0, 3⟩ = true ∧ right ∉ left.ancestors ∧
        right.range.start = ⟨0, 3⟩ ∧ left.range.stop = ⟨0, 3⟩ := by
  have ordered : escapes.root.Ordered := ⟨by decide, by decide⟩
  let string := escapes.places.getD 1 default
  let content := escapes.places.getD 3 default
  let left := escapes.places.getD 4 default
  let right := escapes.places.getD 5 default
  have hleft : escapes.nodeAt? ⟨0, 3⟩ = some left := rfl
  have hright : NamedBelow escapes.root right := by
    have hstring : string ∈ escapes.root.children := mem_children.mpr ⟨0, _, rfl, rfl⟩
    have hcontent : content ∈ string.children := mem_children.mpr ⟨1, _, rfl, rfl⟩
    have hescape : right ∈ content.children := mem_children.mpr ⟨1, _, rfl, rfl⟩
    exact .tail (.tail (.tail .refl ⟨hstring, rfl⟩) ⟨hcontent, rfl⟩) ⟨hescape, rfl⟩
  have hcontains : right.range.contains ⟨0, 3⟩ = true := by decide
  have hnot : right ∉ left.ancestors := by
    intro h
    have hshort : ∀ q ∈ left.ancestors, q.address ≠ right.address := by decide
    exact hshort right h rfl
  have hne : right ≠ left := by
    intro h
    exact absurd (congrArg address h) (by decide)
  have hall := ((nodeAt?_innermost escapes ordered ⟨0, 3⟩).2 left hleft).2.2.2
  have hends := (hall right hright hcontains hne).resolve_left hnot
  exact ⟨ordered, left, right, hleft, hright, hcontains, hnot, hends.1, hends.2⟩

end SyntaxTree

end StackTemplate
