import StackTemplate.Proofs.Json.Building
import StackTemplate.Proofs.Members
import StackTemplate.Reading

/-!
No object that is read from a text has two members with one key, at any depth.
-/

namespace StackTemplate

inductive Value.WellKeyed : Value → Prop
  | null : WellKeyed .null
  | bool (b : Bool) : WellKeyed (.bool b)
  | int (i : Int) : WellKeyed (.int i)
  | float (x : Binary64) : WellKeyed (.float x)
  | str (s : String) : WellKeyed (.str s)
  | array {items : List Value} : (∀ item ∈ items, WellKeyed item) → WellKeyed (.array items)
  | object {members : Members} : (Members.keys members).Nodup →
      (∀ member ∈ members, WellKeyed member.2) → WellKeyed (.object members)

namespace Value.WellKeyed

theorem ofPairs {pairs : List (String × Value)} (h : ∀ pair ∈ pairs, pair.2.WellKeyed) :
    (Value.object (Members.ofPairs pairs)).WellKeyed := by
  refine .object (Members.nodup_keys_ofPairs pairs) fun member hm => ?_
  obtain ⟨pair, hp, hv⟩ := Members.mem_ofPairs hm
  rw [hv]
  exact h pair hp

theorem of_isScalar {v : Value} (h : v.isScalar = true) : v.WellKeyed := by
  cases v with
  | null => exact .null
  | bool b => exact .bool b
  | int i => exact .int i
  | float x => exact .float x
  | str s => exact .str s
  | array items => cases h
  | object members => cases h

end Value.WellKeyed

namespace Json

open Lenient in
theorem hereditary_wellKeyed : Hereditary fun _ v => v.WellKeyed where
  scalar := .of_isScalar
  array := .array
  object := .ofPairs

theorem wellKeyed_of_parseLenient? {text : List Char} {v : Value}
    (h : parseLenient? text = some v) : v.WellKeyed :=
  hereditary_wellKeyed.of_parseLenient? h

end Json

namespace Yaml

theorem wellKeyed_number (n : Number) : n.toValue.WellKeyed := by
  cases n with
  | int i => exact .int i
  | float x => exact .float x
  | infinity negative => exact .str _
  | nan => exact .str _

theorem Data.wellKeyed_taggedValue (name : List Char) {v : Value} (h : v.WellKeyed) :
    (taggedValue name v).WellKeyed := by
  simp only [taggedValue]
  split
  · exact .object (List.pairwise_singleton _ _) (List.forall_mem_singleton.mpr h)
  · exact h

mutual

theorem Data.wellKeyed_toValue : (data : Data) → data.toValue.WellKeyed
  | .null => .null
  | .bool b => .bool b
  | .number n => wellKeyed_number n
  | .str s => .str s
  | .sequence items => .array (wellKeyed_itemValues items)
  | .mapping pairs => .ofPairs (wellKeyed_memberValues pairs)
  | .tagged name content => wellKeyed_taggedValue name (wellKeyed_toValue content)

theorem Data.wellKeyed_itemValues : (items : List Data) →
    ∀ item ∈ itemValues items, item.WellKeyed
  | [] => nofun
  | item :: rest =>
    List.forall_mem_cons.mpr ⟨wellKeyed_toValue item, wellKeyed_itemValues rest⟩

theorem Data.wellKeyed_memberValues : (pairs : List (Data × Data)) →
    ∀ pair ∈ memberValues pairs, pair.2.WellKeyed
  | [] => nofun
  | (_, value) :: rest =>
    List.forall_mem_cons.mpr ⟨wellKeyed_toValue value, wellKeyed_memberValues rest⟩

end

/-- A recovered value is the data of some text, that which is left of the one that was given. -/
theorem exists_of_recovered? {load : List Char → Except Report Data} {budget : Nat}
    {text : List Char} {v : Value} (h : recovered? load budget text = some v) :
    ∃ rest data, load rest = .ok data ∧ v = data.toValue := by
  induction budget generalizing text with
  | zero =>
    cases hload : load text with
    | ok data =>
      rw [recovered?_of_ok hload] at h
      exact ⟨text, data, hload, (Option.some.inj h).symm⟩
    | error report =>
      rw [recovered?_zero hload] at h
      cases h
  | succ budget ih =>
    cases hload : load text with
    | ok data =>
      rw [recovered?_of_ok hload] at h
      exact ⟨text, data, hload, (Option.some.inj h).symm⟩
    | error report =>
      rw [recovered?_succ hload] at h
      obtain ⟨next, -, hnext⟩ := Option.bind_eq_some_iff.mp h
      exact ih hnext

theorem exists_of_parse? {budget : Nat} {text : List Char} {v : Value}
    (h : parse? budget text = some v) : ∃ data : Data, v = data.toValue := by
  obtain ⟨-, data, -, hv⟩ := exists_of_recovered? h
  exact ⟨data, hv⟩

end Yaml

theorem Document.wellKeyed_value? {document : Document} {budget : Nat} {v : Value}
    (h : document.value? budget = some v) : v.WellKeyed := by
  simp only [value?, Format.readValue?] at h
  split at h
  · obtain ⟨data, rfl⟩ := Yaml.exists_of_parse? h
    exact data.wellKeyed_toValue
  · exact Json.wellKeyed_of_parseLenient? h

end StackTemplate
