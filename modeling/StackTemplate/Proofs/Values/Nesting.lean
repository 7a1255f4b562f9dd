import StackTemplate.Proofs.Json.Building
import StackTemplate.Proofs.Members

/-!
How deep containers nest in a value.
-/

namespace StackTemplate

namespace Value

mutual

/-- How many containers are inside one another. -/
def nesting : Value → Nat
  | .array items => itemsNesting items + 1
  | .object members => membersNesting members + 1
  | _ => 0

def itemsNesting : List Value → Nat
  | [] => 0
  | item :: rest => max item.nesting (itemsNesting rest)

def membersNesting : List (String × Value) → Nat
  | [] => 0
  | (_, v) :: rest => max v.nesting (membersNesting rest)

end

theorem itemsNesting_le_iff {items : List Value} {n : Nat} :
    itemsNesting items ≤ n ↔ ∀ item ∈ items, item.nesting ≤ n := by
  induction items with
  | nil => simp [itemsNesting]
  | cons item rest ih => rw [itemsNesting, Nat.max_le, ih, List.forall_mem_cons]

theorem membersNesting_le_iff {members : Members} {n : Nat} :
    membersNesting members ≤ n ↔ ∀ member ∈ members, member.2.nesting ≤ n := by
  induction members with
  | nil => simp [membersNesting]
  | cons member rest ih => rw [membersNesting, Nat.max_le, ih, List.forall_mem_cons]

theorem nesting_of_isScalar {v : Value} (h : v.isScalar = true) : v.nesting = 0 := by
  cases v with
  | array items => cases h
  | object members => cases h
  | _ => rfl

end Value

namespace Json

open Lenient in
theorem hereditary_nesting : Hereditary fun room v => v.nesting ≤ room where
  scalar h := by
    rw [Value.nesting_of_isScalar h]
    exact Nat.zero_le _
  array h := Nat.succ_le_succ (Value.itemsNesting_le_iff.mpr h)
  object h := by
    refine Nat.succ_le_succ (Value.membersNesting_le_iff.mpr fun member hm => ?_)
    obtain ⟨pair, hp, hv⟩ := Members.mem_ofPairs hm
    rw [hv]
    exact h pair hp

theorem nesting_le_of_parseLenient? {text : List Char} {v : Value}
    (h : parseLenient? text = some v) : v.nesting ≤ Lenient.maxNesting :=
  hereditary_nesting.of_parseLenient? h

end Json

end StackTemplate
