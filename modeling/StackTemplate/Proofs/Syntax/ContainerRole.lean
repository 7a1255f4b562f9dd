import StackTemplate.Proofs.Syntax.Steps
import StackTemplate.Syntax.Outline
import StackTemplate.Syntax.Role

/-!
The roles of containers. A container has its own role everywhere but as an element of a sequence
that lists its elements bare, where it has the role of an element; below a wrapper it never does.
-/

namespace StackTemplate

namespace Syntax

/-- The role that a container has of its own. -/
def Shape.containerRole? : Shape → Option Role
  | block => some .block
  | itemized | listed => some .sequence
  | _ => none

namespace Place

variable {format : Format} {p : Place} {role : Role}

theorem containerRole?_eq_some_iff : (p.shape format).containerRole? = some role ↔
    (p.isBlock format = true ∧ role = .block) ∨ (p.isSequence format = true ∧ role = .sequence) := by
  rw [isBlock, isSequence]
  cases p.shape format <;> simp [Shape.containerRole?, Shape.isSequence, eq_comm (b := role)]

theorem unwrap_of_container (h : (p.shape format).containerRole? = some role) :
    p.unwrap format = p := by
  apply unwrap_of_isWrapper_eq_false
  cases hs : p.shape format <;> simp_all [isWrapper, Shape.containerRole?]

theorem role_of_isItem (h : p.isItem format = true) : p.role format = .sequenceItem := by
  simp [Place.role, h]

theorem role_of_container (h : (p.shape format).containerRole? = some role)
    (hitem : p.isItem format = false) : p.role format = role := by
  simp only [Place.role, hitem, unwrap_of_container h, Bool.false_eq_true, if_false]
  cases hs : p.shape format <;> simp_all [Shape.containerRole?]

theorem role_ne_sequenceItem (h : (p.shape format).containerRole? = some role) :
    role ≠ .sequenceItem := by
  rcases containerRole?_eq_some_iff.mp h with ⟨-, rfl⟩ | ⟨-, rfl⟩ <;> decide

/-- An element of a sequence whose content children are its elements. -/
def IsListed (format : Format) (p : Place) : Prop :=
  ∃ list : Place, list.shape format = .listed ∧ p ∈ list.contentChildren

theorem isItem_iff_isListed {list : Place} (hc : p ∈ list.children)
    (h : p.shape format ≠ .item) : p.isItem format = true ↔ p.IsListed format := by
  rw [isItem_of_mem_children hc, or_iff_right h]
  constructor
  · rintro ⟨hcontent, hlisted⟩
    exact ⟨list, hlisted, List.mem_filter.mpr ⟨hc, hcontent⟩⟩
  · rintro ⟨other, hlisted, hmem⟩
    obtain ⟨hother, hcontent⟩ := List.mem_filter.mp hmem
    have hparent := (parent?_of_mem_children hc).symm.trans (parent?_of_mem_children hother)
    obtain rfl := Option.some.inj hparent
    exact ⟨hcontent, hlisted⟩

theorem not_isListed_root (node : Node) : ¬ (root node).IsListed format := by
  rintro ⟨list, -, hmem⟩
  cases parent?_of_mem_children (mem_children_of_mem_contentChildren hmem)

end Place

end Syntax

namespace SyntaxTree

open Syntax Syntax.Place

variable {tree : SyntaxTree} {p : Place} {role : Role}

theorem isItem_container_iff (hp : p ∈ tree.places)
    (h : (p.shape tree.format).containerRole? = some role) :
    p.isItem tree.format = true ↔ p.IsListed tree.format := by
  have hshape : p.shape tree.format ≠ .item := by
    intro hs
    rw [hs] at h
    cases h
  rcases Relation.ReflTransGen.cases_tail (mem_preorder.mp hp) with hroot | ⟨parent, -, hc⟩
  · have hroot : p = .root tree.rootNode := hroot
    subst hroot
    have hitem := isItem_root hshape
    exact iff_of_false (by rw [hitem]; exact Bool.false_ne_true) (not_isListed_root _)
  · exact isItem_iff_isListed hc hshape

/-- A mapping has the role of a mapping, and a sequence that of a sequence, exactly where it is no
bare element of a sequence: there it has the role of an element. -/
theorem role_container_iff (tree : SyntaxTree) {p : Place} (hp : p ∈ tree.places) {role : Role}
    (h : (p.shape tree.format).containerRole? = some role) :
    (p.role tree.format = role ↔ ¬ p.IsListed tree.format) ∧
      (p.IsListed tree.format → p.role tree.format = .sequenceItem) ∧
      ∀ wrapper ∈ p.parent?, wrapper.isWrapper tree.format = true → p.role tree.format = role := by
  have hlisted := isItem_container_iff hp h
  have hrole : p.role tree.format = role ↔ ¬ p.IsListed tree.format := by
    rw [← hlisted, Bool.not_eq_true]
    constructor
    · intro hown
      rw [Bool.eq_false_iff]
      intro hitem
      exact role_ne_sequenceItem h (hown.symm.trans (role_of_isItem hitem))
    · exact role_of_container h
  refine ⟨hrole, fun hin => role_of_isItem (hlisted.mpr hin), ?_⟩
  intro wrapper hparent hwrapper
  apply hrole.mpr
  rintro ⟨list, hlist, hmem⟩
  have hc := mem_children_of_mem_contentChildren hmem
  obtain rfl := Option.some.inj ((parent?_of_mem_children hc).symm.trans hparent)
  rw [shape_of_isWrapper hwrapper] at hlist
  cases hlist

def bareObjectText : String := "[\x7b\x7d]"

def bareObjectRows : List Row :=
  [⟨0, "document", true, false, false, false, false, none, 0, 4⟩,
    ⟨1, "array", true, false, false, false, false, none, 0, 4⟩,
    ⟨2, "[", false, false, false, false, false, none, 0, 1⟩,
    ⟨2, "object", true, false, false, false, false, none, 1, 3⟩,
    ⟨3, "\x7b", false, false, false, false, false, none, 1, 2⟩,
    ⟨3, "\x7d", false, false, false, false, false, none, 2, 3⟩,
    ⟨2, "]", false, false, false, false, false, none, 3, 4⟩]

def bareObjectTree : SyntaxTree :=
  ⟨.detect "file:///t.json" 1 bareObjectText,
    (Node.ofRows? bareObjectText.toList bareObjectRows).getD default⟩

/-- The object in the list. -/
def bareObject : Place :=
  bareObjectTree.places.get ⟨3, by decide⟩

theorem role_container_iff_bareObject :
    bareObject ∈ bareObjectTree.places ∧
      (bareObject.shape bareObjectTree.format).containerRole? = some .block ∧
      bareObject.IsListed bareObjectTree.format ∧
      ¬ bareObject.role bareObjectTree.format = .block := by
  have hmem : bareObject ∈ bareObjectTree.places := List.get_mem _ _
  have hrole : (bareObject.shape bareObjectTree.format).containerRole? = some .block :=
    containerRole?_eq_some_iff.mpr (.inl ⟨rfl, rfl⟩)
  have hlisted : bareObject.IsListed bareObjectTree.format :=
    ⟨bareObjectTree.places.get ⟨1, by decide⟩, rfl, by decide⟩
  exact ⟨hmem, hrole, hlisted,
    fun h => (role_container_iff bareObjectTree hmem hrole).1.mp h hlisted⟩

theorem not_forall_role_container :
    ¬ ∀ tree : SyntaxTree, ∀ p ∈ tree.places,
      (p.isBlock tree.format = true → p.role tree.format = .block) ∧
        (p.isSequence tree.format = true → p.role tree.format = .sequence) := by
  intro h
  have hrole := (h bareObjectTree bareObject (List.get_mem _ _)).1 rfl
  exact absurd hrole (by decide)

end SyntaxTree

end StackTemplate
