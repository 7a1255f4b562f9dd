import StackTemplate.Proofs.Syntax.Steps
import StackTemplate.Syntax.Outline

/-!
The search for faults against the list of all nodes: it finds the faults that lie in no other fault,
in the order of the list.
-/

namespace StackTemplate

namespace Syntax.Place

variable {p q r : Place}

/-- No node above is faulty. -/
def IsClear (p : Place) : Prop :=
  ∀ above ∈ p.above, above.1.isFault = false

def IsOutermostFault (p : Place) : Prop :=
  p.node.isFault = true ∧ p.IsClear

instance (p : Place) : Decidable p.IsOutermostFault :=
  inferInstanceAs (Decidable (_ ∧ ∀ above ∈ p.above, _))

/-- The node is marked as having errors exactly if it or a node below it is faulty. -/
def IsMarked (p : Place) : Prop :=
  p.node.info.hasError = true ↔ ∃ q ∈ p.preorder, q.node.isFault = true

instance (p : Place) : Decidable p.IsMarked :=
  inferInstanceAs (Decidable (_ ↔ _))

def outermostFaults (p : Place) : List Place :=
  p.preorder.filter fun q => q.IsOutermostFault

theorem isClear_of_mem_children (hc : q ∈ p.children) (hp : p.IsClear)
    (h : p.node.isFault = false) : q.IsClear := by
  obtain ⟨k, hk⟩ := above_of_mem_children hc
  rw [IsClear, hk]
  exact List.forall_mem_cons.mpr ⟨h, hp⟩

theorem not_isClear_of_below (hc : q ∈ p.children) (hr : Below q r)
    (h : p.node.isFault = true) : ¬ r.IsClear := by
  intro hclear
  obtain ⟨k, hk⟩ := above_of_mem_children hc
  have hmem : (p.node, k) ∈ r.above := (above_isSuffix hr).subset (by simp [hk])
  have hnot := hclear _ hmem
  rw [h] at hnot
  cases hnot

/-! What is to be found below one place -/

theorem outermostFaults_of_isFault (h : p.node.isFault = true) (hp : p.IsClear) :
    p.outermostFaults = [p] := by
  have hself : p.IsOutermostFault := ⟨h, hp⟩
  have hbelow : (p.children.flatMap preorder).filter (fun q => q.IsOutermostFault) = [] := by
    rw [List.filter_eq_nil_iff]
    intro r hr hfault
    obtain ⟨q, hc, hq⟩ := List.mem_flatMap.mp hr
    exact not_isClear_of_below hc (mem_preorder.mp hq) h (of_decide_eq_true hfault).2
  rw [outermostFaults, preorder_eq, List.filter_cons_of_pos (by simpa using hself), hbelow]

theorem outermostFaults_of_not_isFault (h : p.node.isFault = false) :
    p.outermostFaults = p.children.flatMap outermostFaults := by
  have hself : ¬ p.IsOutermostFault := fun hp => by
    have hfault := hp.1
    rw [h] at hfault
    cases hfault
  rw [outermostFaults, preorder_eq, List.filter_cons_of_neg (by simpa using hself),
    List.filter_flatMap]
  rfl

theorem outermostFaults_of_not_marked (hp : p.IsMarked) (h : p.node.info.hasError = false) :
    p.outermostFaults = [] := by
  rw [outermostFaults, List.filter_eq_nil_iff]
  intro q hq hfault
  have herror := hp.mpr ⟨q, hq, (of_decide_eq_true hfault).1⟩
  rw [h] at herror
  cases herror

/-! The search -/

/-- No fault is above, and below every node that is no fault is marked right. -/
structure IsSearchable (p : Place) : Prop where
  clear : p.IsClear
  marked : ∀ q ∈ p.preorder, q.node.isFault = false → q.IsMarked

theorem IsSearchable.of_mem_children (hp : p.IsSearchable) (hc : q ∈ p.children)
    (h : p.node.isFault = false) : q.IsSearchable where
  clear := isClear_of_mem_children hc hp.clear h
  marked r hr := hp.marked r (mem_preorder.mpr (.head hc (mem_preorder.mp hr)))

/-- The faults that are found are those of the places on the stack, one after the other. -/
theorem searchFaults_eq (stack : List Place) (h : ∀ p ∈ stack, p.IsSearchable) :
    searchFaults stack = stack.flatMap outermostFaults := by
  -- no place on the stack lies in a fault: children are only pushed for a node that is none
  fun_induction searchFaults stack with
  | case1 => rfl
  | case2 p stack hfault ih =>
    obtain ⟨hp, hstack⟩ := List.forall_mem_cons.mp h
    rw [List.flatMap_cons, outermostFaults_of_isFault hfault hp.clear, ih hstack]
    rfl
  | case3 p stack hfault herror ih =>
    obtain ⟨hp, hstack⟩ := List.forall_mem_cons.mp h
    rw [Bool.not_eq_true] at hfault
    have hpush : ∀ q ∈ p.push stack, q.IsSearchable := by
      rw [push_eq, List.forall_mem_append]
      exact ⟨fun q hc => hp.of_mem_children hc hfault, hstack⟩
    rw [ih hpush, push_eq, List.flatMap_append, List.flatMap_cons,
      outermostFaults_of_not_isFault hfault]
  | case4 p stack hfault herror ih =>
    obtain ⟨hp, hstack⟩ := List.forall_mem_cons.mp h
    rw [Bool.not_eq_true] at hfault herror
    have hmarked := hp.marked p (self_mem_preorder p) hfault
    rw [ih hstack, List.flatMap_cons, outermostFaults_of_not_marked hmarked herror,
      List.nil_append]

end Syntax.Place

namespace SyntaxTree

open Syntax Syntax.Place

variable {tree : SyntaxTree}

/-- The root and all nodes that are no faults are marked right; faults in the tree need not be. -/
structure FaultsMarked (tree : SyntaxTree) : Prop where
  root : tree.root.IsMarked
  inner : ∀ p ∈ tree.places, p.node.isFault = false → p.IsMarked

theorem isClear_root (tree : SyntaxTree) : tree.root.IsClear :=
  fun _ habove => nomatch habove

theorem isSearchable_root (h : tree.FaultsMarked) : tree.root.IsSearchable :=
  ⟨isClear_root tree, h.inner⟩

theorem faults_root (h : tree.FaultsMarked) : tree.root.faults = tree.root.outermostFaults := by
  rw [faults]
  split
  case isTrue =>
    rw [searchFaults_eq _ (List.forall_mem_singleton.mpr (isSearchable_root h)),
      List.flatMap_singleton]
  case isFalse herror =>
    rw [Bool.not_eq_true] at herror
    exact (outermostFaults_of_not_marked h.root herror).symm

theorem exists_isOutermostFault {p : Place} (hp : Below tree.root p)
    (h : p.node.isFault = true ∨ ¬ p.IsClear) : ∃ q ∈ tree.places, q.IsOutermostFault := by
  induction hp with
  | refl =>
    have hclear := isClear_root tree
    exact ⟨tree.root, root_mem_places tree, h.resolve_right (not_not_intro hclear), hclear⟩
  | @tail p q hp hc ih =>
    by_cases habove : p.node.isFault = true ∨ ¬ p.IsClear
    · exact ih habove
    · obtain ⟨hfault, hclear⟩ := not_or.mp habove
      have hq := isClear_of_mem_children hc (not_not.mp hclear) (Bool.not_eq_true _ ▸ hfault)
      have hmem := mem_places_of_mem_children (mem_preorder.mpr hp) hc
      exact ⟨q, hmem, h.resolve_right (not_not_intro hq), hq⟩

/-- The search finds the faults that lie in no other fault, each once and in document order; there
are some exactly if the tree has errors. -/
theorem faults_outermost (tree : SyntaxTree) (h : tree.FaultsMarked) :
    tree.root.faults = tree.places.filter (fun p => p.IsOutermostFault) ∧ tree.places.Nodup ∧
      (tree.errorRanges ≠ [] ↔ tree.hasErrors = true) := by
  have hfaults := faults_root h
  refine ⟨hfaults, nodup_preorder tree.root, ?_⟩
  have hsome : tree.errorRanges ≠ [] ↔ ∃ p ∈ tree.places, p.IsOutermostFault := by
    rw [errorRanges, hfaults, ne_eq, List.map_eq_nil_iff, outermostFaults, List.filter_eq_nil_iff]
    simp [places]
  rw [hsome]
  constructor
  · rintro ⟨p, hp, hfault, -⟩
    exact h.root.mpr ⟨p, hp, hfault⟩
  · intro herrors
    obtain ⟨p, hp, hfault⟩ := h.root.mp herrors
    exact exists_isOutermostFault (mem_preorder.mp hp) (.inl hfault)

def bareKeyText : String := "\x7ba: 1\x7d"

def bareKeyRows : List Row :=
  [⟨0, "document", true, false, false, false, true, none, 0, 6⟩,
    ⟨1, "ERROR", true, true, true, false, true, none, 0, 3⟩,
    ⟨2, "\x7b", false, false, false, false, false, none, 0, 1⟩,
    ⟨2, "ERROR", true, false, true, false, false, none, 1, 2⟩,
    ⟨2, ":", false, false, false, false, false, none, 2, 3⟩,
    ⟨1, "number", true, false, false, false, false, none, 4, 5⟩,
    ⟨1, "ERROR", true, true, true, false, true, none, 5, 6⟩,
    ⟨2, "\x7d", false, false, false, false, false, none, 5, 6⟩]

def bareKey : SyntaxTree :=
  ⟨.detect "file:///t.json" 1 bareKeyText,
    (Node.ofRows? bareKeyText.toList bareKeyRows).getD default⟩

/-- The key without quotes is a fault in a fault, and the two outer ones are found. -/
theorem faults_outermost_bareKey :
    bareKey.FaultsMarked ∧ bareKey.root.faults = [bareKey.places[1]!, bareKey.places[6]!] ∧
      bareKey.errorRanges ≠ [] := by
  have hmarked : bareKey.FaultsMarked := ⟨by decide, by decide⟩
  obtain ⟨hfaults, -, hranges⟩ := faults_outermost bareKey hmarked
  have hplaces : bareKey.places.filter (fun p => p.IsOutermostFault) =
      [bareKey.places[1]!, bareKey.places[6]!] := by decide
  exact ⟨hmarked, hfaults.trans hplaces, hranges.mpr rfl⟩

end SyntaxTree

end StackTemplate
