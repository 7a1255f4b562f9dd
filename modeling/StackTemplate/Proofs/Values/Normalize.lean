import Mathlib.Data.List.Forall2
import StackTemplate.Proofs.Json.ScalarValue
import StackTemplate.Proofs.Values.Typing

/-!
Typing of whole trees: it changes only texts, where they stand, and typing again changes nothing.
-/

namespace StackTemplate.Value

@[elab_as_elim]
theorem induction_on {motive : Value → Prop} (v : Value)
    (scalar : ∀ v : Value, v.isScalar = true → motive v)
    (array : ∀ items : List Value, (∀ item ∈ items, motive item) → motive (.array items))
    (object : ∀ members : Members, (∀ member ∈ members, motive member.2) →
      motive (.object members)) : motive v :=
  match v with
  | .array items => array items fun item _ => induction_on item scalar array object
  | .object members => object members fun member _ => induction_on member.2 scalar array object
  | .null | .bool _ | .int _ | .float _ | .str _ => scalar _ rfl
termination_by sizeOf v
decreasing_by
  · decreasing_tactic
  · rename_i hm
    have hmember : sizeOf member.2 < sizeOf member := by
      obtain ⟨key, v⟩ := member
      simp only [Prod.mk.sizeOf_spec]
      omega
    have hmembers := List.sizeOf_lt_of_mem hm
    simp only [Value.object.sizeOf_spec]
    omega

mutual

/-- The tree with all its leaves alike. -/
def shape : Value → Value
  | .array items => .array (shapeItems items)
  | .object members => .object (shapeMembers members)
  | _ => .null

def shapeItems : List Value → List Value
  | [] => []
  | item :: items => shape item :: shapeItems items

def shapeMembers : Members → Members
  | [] => []
  | (key, v) :: members => (key, shape v) :: shapeMembers members

end

mutual

/-- The leaves in the order in which they stand. -/
def leaves : Value → List Value
  | .array items => leavesOfItems items
  | .object members => leavesOfMembers members
  | v => [v]

def leavesOfItems : List Value → List Value
  | [] => []
  | item :: items => leaves item ++ leavesOfItems items

def leavesOfMembers : Members → List Value
  | [] => []
  | (_, v) :: members => leaves v ++ leavesOfMembers members

end

theorem shapeItems_eq_map (items : List Value) : shapeItems items = items.map shape := by
  induction items with
  | nil => rfl
  | cons item items ih => rw [shapeItems, ih, List.map_cons]

theorem shapeMembers_eq_map (members : Members) :
    shapeMembers members = members.map fun member => (member.1, member.2.shape) := by
  induction members with
  | nil => rfl
  | cons member members ih => rw [shapeMembers, ih, List.map_cons]

theorem leavesOfItems_eq_flatMap (items : List Value) :
    leavesOfItems items = items.flatMap leaves := by
  induction items with
  | nil => rfl
  | cons item items ih => rw [leavesOfItems, ih, List.flatMap_cons]

theorem leavesOfMembers_eq_flatMap (members : Members) :
    leavesOfMembers members = members.flatMap fun member => member.2.leaves := by
  induction members with
  | nil => rfl
  | cons member members ih => rw [leavesOfMembers, ih, List.flatMap_cons]

section

variable {v : Value} {word : List Char}

theorem shape_of_isScalar (h : v.isScalar = true) : v.shape = .null := by
  cases v <;> first | rfl | cases h

theorem leaves_of_isScalar (h : v.isScalar = true) : v.leaves = [v] := by
  cases v <;> first | rfl | cases h

theorem isScalar_of_spells (h : Spells word v) : v.isScalar = true := by
  cases h <;> rfl

theorem Spells.normalize_eq (h : Spells word v) : v.normalize = v := by
  cases h <;> rfl

theorem normalize_of_isScalar (h : v.isScalar = true) :
    v.normalize = v ∨ ∃ s word, v = .str s ∧ Spells word v.normalize := by
  cases v with
  | str s =>
    by_cases htyped : Typed (Text.trim s.toList)
    · obtain ⟨w, hw⟩ := typed_iff.mp htyped
      refine .inr ⟨s, Text.trim s.toList, rfl, ?_⟩
      rw [normalize, hw.ofText_eq]
      exact hw
    · exact .inl (ofText_of_not_typed htyped)
  | array items => cases h
  | object members => cases h
  | _ => exact .inl rfl

theorem isScalar_normalize (h : v.isScalar = true) : v.normalize.isScalar = true := by
  rcases normalize_of_isScalar h with heq | ⟨_, _, -, hspells⟩
  · rw [heq, h]
  · exact isScalar_of_spells hspells

end

theorem normalize_normalize (v : Value) : v.normalize.normalize = v.normalize := by
  refine induction_on v (fun v h => ?_) (fun items ih => ?_) fun members ih => ?_
  · rcases normalize_of_isScalar h with heq | ⟨_, _, -, hspells⟩
    · rw [heq, heq]
    · exact hspells.normalize_eq
  · simp only [normalize, normalizeItems_eq_map, List.map_map]
    exact congrArg _ (List.map_congr_left ih)
  · simp only [normalize, normalizeMembers_eq_map, List.map_map]
    exact congrArg _ (List.map_congr_left fun member hm => Prod.ext rfl (ih member hm))

theorem shape_normalize (v : Value) : v.normalize.shape = v.shape := by
  refine induction_on v (fun v h => ?_) (fun items ih => ?_) fun members ih => ?_
  · rw [shape_of_isScalar h, shape_of_isScalar (isScalar_normalize h)]
  · simp only [normalize, normalizeItems_eq_map, shape, shapeItems_eq_map, List.map_map]
    exact congrArg _ (List.map_congr_left ih)
  · simp only [normalize, normalizeMembers_eq_map, shape, shapeMembers_eq_map, List.map_map]
    exact congrArg _ (List.map_congr_left fun member hm => Prod.ext rfl (ih member hm))

theorem get?_of_isScalar {v : Value} (h : v.isScalar = true) (key : String) :
    v.get? key = none := by
  cases v <;> first | rfl | cases h

theorem array?_of_isScalar {v : Value} (h : v.isScalar = true) : v.array? = none := by
  cases v <;> first | rfl | cases h

theorem get?_normalize (v : Value) (key : String) :
    v.normalize.get? key = (v.get? key).map normalize := by
  by_cases hscalar : v.isScalar = true
  · rw [get?_of_isScalar hscalar, get?_of_isScalar (isScalar_normalize hscalar)]
    rfl
  · cases v with
    | array items => rfl
    | object members =>
      simp only [normalize, normalizeMembers_eq_map, get?]
      induction members with
      | nil => rfl
      | cons member members ih =>
        obtain ⟨k, w⟩ := member
        simp only [List.map_cons, Members.get?]
        split
        · rfl
        · exact ih (by simp [isScalar])
    | _ => exact absurd rfl hscalar

theorem array?_normalize (v : Value) :
    v.normalize.array? = v.array?.map fun items => items.map normalize := by
  by_cases hscalar : v.isScalar = true
  · rw [array?_of_isScalar hscalar, array?_of_isScalar (isScalar_normalize hscalar)]
    rfl
  · cases v with
    | array items => rw [normalize, normalizeItems_eq_map]; rfl
    | object members => rfl
    | _ => exact absurd rfl hscalar

theorem object?_of_isScalar {v : Value} (h : v.isScalar = true) : v.object? = none := by
  cases v <;> first | rfl | cases h

theorem object?_normalize (v : Value) : v.normalize.object? =
    v.object?.map fun members => members.map fun member => (member.1, member.2.normalize) := by
  by_cases hscalar : v.isScalar = true
  · rw [object?_of_isScalar hscalar, object?_of_isScalar (isScalar_normalize hscalar)]
    rfl
  · cases v with
    | array items => rfl
    | object members => rw [normalize, normalizeMembers_eq_map]; rfl
    | _ => exact absurd rfl hscalar

/-- A leaf stays just if it is no text that spells another value. -/
def KeptOrTyped (leaf typed : Value) : Prop :=
  typed = leaf ↔ ∀ s, leaf = .str s → ¬Typed (Text.trim s.toList)

theorem keptOrTyped_normalize {v : Value} (h : v.isScalar = true) : KeptOrTyped v v.normalize := by
  cases v with
  | str s =>
    constructor
    · rintro heq s' hs
      cases hs
      exact ofText_eq_str_iff.mp heq
    · intro hnot
      exact ofText_of_not_typed (hnot s rfl)
  | array items => cases h
  | object members => cases h
  | _ => exact ⟨fun _ _ => nofun, fun _ => rfl⟩

theorem forall₂_flatMap {α β : Type} {r : β → β → Prop} {f g : α → List β} {items : List α}
    (h : ∀ item ∈ items, List.Forall₂ r (f item) (g item)) :
    List.Forall₂ r (items.flatMap f) (items.flatMap g) := by
  induction items with
  | nil => exact .nil
  | cons item items ih =>
    obtain ⟨hitem, hitems⟩ := List.forall_mem_cons.mp h
    rw [List.flatMap_cons, List.flatMap_cons]
    exact List.rel_append hitem (ih hitems)

theorem forall₂_leaves_normalize (v : Value) :
    List.Forall₂ KeptOrTyped v.leaves v.normalize.leaves := by
  refine induction_on v (fun v h => ?_) (fun items ih => ?_) fun members ih => ?_
  · rw [leaves_of_isScalar h, leaves_of_isScalar (isScalar_normalize h)]
    exact .cons (keptOrTyped_normalize h) .nil
  · simp only [normalize, normalizeItems_eq_map, leaves, leavesOfItems_eq_flatMap, List.flatMap_map]
    exact forall₂_flatMap ih
  · simp only [normalize, normalizeMembers_eq_map, leaves, leavesOfMembers_eq_flatMap,
      List.flatMap_map]
    exact forall₂_flatMap ih

/-- Typing again changes nothing; typing keeps the shape, and of the leaves it changes only the texts
that spell a value: a word, or a numeral that rounds to no infinity. -/
theorem normalize_laws (v : Value) :
    v.normalize.normalize = v.normalize ∧ v.normalize.shape = v.shape ∧
      List.Forall₂ KeptOrTyped v.leaves v.normalize.leaves :=
  ⟨v.normalize_normalize, v.shape_normalize, v.forall₂_leaves_normalize⟩

end StackTemplate.Value
