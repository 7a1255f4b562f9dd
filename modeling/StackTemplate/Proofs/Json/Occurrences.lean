import Mathlib.Data.List.Count
import StackTemplate.Path
import StackTemplate.Proofs.Json.ScalarValue
import StackTemplate.Proofs.Json.Written
import StackTemplate.Proofs.Members

/-!
Keys that occur more than once in a written object: its value keeps what is written last.
-/

namespace StackTemplate

namespace Value

/-- The value one step inside another. -/
def step? : Value → PathStep → Option Value
  | object members, .key name => Members.get? name members
  | array items, .index i => items[i]?
  | _, _ => none

def follow? : Value → PropertyPath → Option Value
  | value, [] => some value
  | value, step :: rest => (value.step? step).bind (·.follow? rest)

end Value

namespace Json

/-- Which of the entries with one key is meant. -/
inductive Occurrence where
  | first
  | last
deriving DecidableEq, Repr

namespace Occurrence

def pick? {α : Type} (key : String) (entries : List (String × α)) : Occurrence → Option α
  | first => (entries.find? (·.1 = key)).map (·.2)
  | last => (entries.reverse.find? (·.1 = key)).map (·.2)

end Occurrence

def Elements.items : Elements → List Written
  | close _ => []
  | last _ item _ => [item]
  | more _ item _ rest => item :: rest.items

def Entries.items : Entries → List (String × Written)
  | close _ => []
  | last label item _ => [(label.name, item)]
  | more label item _ rest => (label.name, item) :: rest.items

def Entries.keys (entries : Entries) : List String :=
  entries.items.map (·.1)

namespace Written

/-- What is written one step inside a text, at one occurrence of a key. -/
def step? (occurrence : Occurrence) : Written → PathStep → Option Written
  | object entries, .key name => occurrence.pick? name entries.items
  | array elements, .index i => elements.items[i]?
  | _, _ => none

def follow? (occurrence : Occurrence) : Written → PropertyPath → Option Written
  | w, [] => some w
  | w, step :: rest => (w.step? occurrence step).bind (·.follow? occurrence rest)

end Written

namespace Occurrence

variable {α : Type} {key : String} {entries : List (String × α)}

theorem exists_pick? (h : key ∈ entries.map (·.1)) (occurrence : Occurrence) :
    ∃ a, occurrence.pick? key entries = some a := by
  obtain ⟨entry, hentry, rfl⟩ := List.mem_map.mp h
  rw [← Option.isSome_iff_exists]
  cases occurrence with
  | first =>
    rw [pick?, Option.isSome_map, List.find?_isSome]
    exact ⟨entry, hentry, decide_eq_true rfl⟩
  | last =>
    rw [pick?, Option.isSome_map, List.find?_isSome]
    exact ⟨entry, List.mem_reverse.mpr hentry, decide_eq_true rfl⟩

/-- Of a key that occurs once there is no other occurrence. -/
theorem pick?_last (h : (entries.map (·.1)).count key ≤ 1) :
    last.pick? key entries = first.pick? key entries := by
  rw [pick?, pick?]
  cases hfirst : entries.find? (·.1 = key) with
  | none =>
    have hnone : entries.reverse.find? (·.1 = key) = none := by
      rw [List.find?_eq_none] at hfirst ⊢
      intro entry hentry
      exact hfirst entry (List.mem_reverse.mp hentry)
    rw [hnone]
  | some entry =>
    obtain ⟨hkey, before, after, rfl, -⟩ := List.find?_eq_some_iff_append.mp hfirst
    replace hkey := of_decide_eq_true hkey
    have hafter : key ∉ after.map (·.1) := by
      rw [List.map_append, List.map_cons, hkey, List.count_append, List.count_cons_self] at h
      rw [← List.count_eq_zero]
      omega
    have hlast : (before ++ entry :: after).reverse.find? (·.1 = key) = some entry := by
      rw [List.find?_eq_some_iff_append]
      refine ⟨decide_eq_true hkey, after.reverse, before.reverse, by simp, ?_⟩
      intro other hother
      have hne : other.1 ≠ key := by
        rintro rfl
        exact hafter (List.mem_map_of_mem (List.mem_reverse.mp hother))
      simpa using hne
    rw [hlast]

end Occurrence

/-! Values -/

theorem Elements.values_eq : ∀ elements : Elements,
    elements.values = elements.items.map Written.value
  | .close _ => rfl
  | .last .. => rfl
  | .more _ item _ rest => congrArg (item.value :: ·) rest.values_eq

theorem Entries.pairs_eq : ∀ entries : Entries,
    entries.pairs = entries.items.map fun entry => (entry.1, entry.2.value)
  | .close _ => rfl
  | .last .. => rfl
  | .more label item _ rest => congrArg ((label.name, item.value) :: ·) rest.pairs_eq

theorem Scalar.step?_value (scalar : Scalar) (step : PathStep) :
    scalar.value.step? step = none := by
  have hscalar := isScalar_of_scalar? scalar.reads
  revert hscalar
  cases scalar.value with
  | array items => exact nofun
  | object members => exact nofun
  | _ => exact fun _ => rfl

theorem Written.step?_value (w : Written) (step : PathStep) :
    w.value.step? step = (w.step? .last step).map Written.value := by
  cases w with
  | scalar scalar => exact scalar.step?_value step
  | array elements =>
    cases step with
    | key name => rfl
    | index i => simp [Written.value, Value.step?, Written.step?, elements.values_eq]
  | object entries =>
    cases step with
    | key name =>
      rw [Written.value, Value.step?, Members.get?_ofPairs, entries.pairs_eq, ← List.map_reverse,
        List.find?_map]
      simp [Written.step?, Occurrence.pick?, Function.comp_def]
    | index i => rfl

/-- On any way into a text the value follows the last occurrences. -/
theorem Written.follow?_value (w : Written) (path : PropertyPath) :
    w.value.follow? path = (w.follow? .last path).map Written.value := by
  induction path generalizing w with
  | nil => rfl
  | cons step rest ih =>
    rw [Value.follow?, Written.follow?, w.step?_value]
    cases w.step? .last step with
    | none => rfl
    | some inner => exact ih inner

end Json

end StackTemplate
