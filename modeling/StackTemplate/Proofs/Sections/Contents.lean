import Mathlib.Data.List.Nodup
import StackTemplate.Entity.Map
import StackTemplate.Proofs.Values.WellKeyed
import StackTemplate.SectionCache

/-!
The order of the sections, their values and their entries are put together in one pass over the
members of a document. After every member they all tell of the same members.
-/

namespace StackTemplate

namespace EntityMap

theorem entries_ofEntries (entries : List (String × Entity)) :
    (ofEntries entries).entries = entries.map (·.2) := by
  suffices hall : ∀ map : EntityMap,
      (entries.foldl (fun map entry => map.push entry.1 entry.2) map).entries =
        map.entries ++ entries.map (·.2) from hall empty
  induction entries with
  | nil => simp
  | cons entry entries ih =>
    intro map
    rw [List.foldl_cons, ih]
    simp [push]

theorem get?_foldl_push (entries : List (String × Entity)) (h : (entries.map (·.1)).Nodup)
    (map : EntityMap) (id : String) (entity : Entity) :
    (entries.foldl (fun map entry => map.push entry.1 entry.2) map).get? id = some entity ↔
      (id, entity) ∈ entries ∨ (id ∉ entries.map (·.1) ∧ map.get? id = some entity) := by
  induction entries generalizing map with
  | nil => simp
  | cons entry entries ih =>
    obtain ⟨key, other⟩ := entry
    obtain ⟨hkey, hrest⟩ := List.nodup_cons.mp h
    rw [List.foldl_cons, ih hrest]
    by_cases hid : id = key
    · subst hid
      have hnot : (id, entity) ∉ entries := fun hm => hkey (List.mem_map.mpr ⟨_, hm, rfl⟩)
      simp [get?_push_self, hnot, hkey, eq_comm]
    · simp [get?_push_of_ne _ _ hid, hid]

theorem get?_ofEntries {entries : List (String × Entity)} (h : (entries.map (·.1)).Nodup)
    (id : String) (entity : Entity) :
    (ofEntries entries).get? id = some entity ↔ (id, entity) ∈ entries := by
  rw [ofEntries, get?_foldl_push entries h]
  simp [empty, get?]

end EntityMap

theorem index_injective {m n : Nat} (h : toString m = toString n) : m = n := by
  have hofList : String.ofList (Nat.toDigits 10 m) = String.ofList (Nat.toDigits 10 n) := by
    rw [← Nat.repr_eq_ofList_toDigits, ← Nat.repr_eq_ofList_toDigits]
    exact h
  have hdigits : Nat.toDigits 10 m = Nat.toDigits 10 n := String.ofList_injective hofList
  calc
    m = Nat.ofDigitChars 10 (Nat.toDigits 10 m) 0 := Nat.ofDigitChars_ten_toDigits.symm
    _ = Nat.ofDigitChars 10 (Nat.toDigits 10 n) 0 := by rw [hdigits]
    _ = n := Nat.ofDigitChars_ten_toDigits

theorem nodup_indices (items : List Value) :
    ((items.zipIdx.map fun (item, index) => (toString index, item)).map (·.1)).Nodup := by
  have hids : (items.zipIdx.map fun (item, index) => (toString index, item)).map (·.1) =
      (List.range items.length).map toString := by
    rw [List.map_map, List.range_eq_range', ← List.zipIdx_map_snd 0 items, List.map_map]
    rfl
  rw [hids]
  exact List.Pairwise.map _ (fun m n hne h => hne (index_injective h)) List.nodup_range

theorem Section.nodup_ids_entities (s : Section) {value : Value} (h : value.WellKeyed) :
    ((s.entities value).map (·.1)).Nodup := by
  have hids : (s.entities value).map (·.1) = (s.rawEntries value).map (·.1) := by
    simp [entities]
  rw [hids]
  cases hs : s.shape with
  | entryMap =>
    simp only [rawEntries, hs]
    cases h with
    | object nodup _ => exact nodup
    | _ => exact .nil
  | indexed =>
    simp only [rawEntries, hs]
    exact nodup_indices _

namespace Contents

/-- All parts of the contents tell of the same members. -/
structure Reflects (contents : Contents) (members : Members) : Prop where
  order : contents.order.map Section.key =
    (Members.keys members).filter fun key => (Section.ofKey? key).isSome
  values : ∀ s value, contents.values.get? s = some value ↔ (s.key, value) ∈ members
  entities : ∀ s, contents.entities.get? s =
    (contents.values.get? s).map fun value => .ofEntries (s.entities value)

theorem reflects_empty : Reflects empty [] where
  order := rfl
  values s value := by simp [empty]
  entities s := rfl

theorem not_mem_of_fresh {key : String} {members : Members} (h : key ∉ Members.keys members)
    (value : Value) : (key, value) ∉ members :=
  fun hm => h (List.mem_map.mpr ⟨_, hm, rfl⟩)

theorem Reflects.addMember {contents : Contents} {members : Members}
    (h : contents.Reflects members) {member : String × Value}
    (fresh : member.1 ∉ Members.keys members) :
    (contents.addMember member).Reflects (members ++ [member]) := by
  obtain ⟨key, value⟩ := member
  cases hs : Section.ofKey? key with
  | none =>
    have hadd : contents.addMember (key, value) = contents := by
      simp only [Contents.addMember, hs]
    rw [hadd]
    have hkey : ∀ s : Section, s.key ≠ key := by
      rintro s rfl
      rw [Section.ofKey?_key] at hs
      cases hs
    refine ⟨?_, fun s v => ?_, h.entities⟩
    · rw [h.order]
      simp [Members.keys, hs]
    · rw [h.values]
      simp [hkey]
  | some s =>
    have hadd : contents.addMember (key, value) = contents.add s value := by
      simp only [Contents.addMember, hs]
    obtain rfl := Section.ofKey?_eq_some_iff.mp hs
    rw [hadd]
    refine ⟨?_, fun t v => ?_, fun t => ?_⟩
    · simp [Contents.add, h.order, Members.keys, hs]
    · simp only [Contents.add, SectionMap.get?_insert, List.mem_append, List.mem_singleton,
        Prod.mk.injEq]
      by_cases ht : t = s
      · subst ht
        simp [not_mem_of_fresh fresh, eq_comm]
      · have hkey : t.key ≠ s.key := fun hk => ht (Section.key_injective hk)
        simp [ht, hkey, h.values]
    · simp only [Contents.add, SectionMap.get?_insert]
      by_cases ht : t = s
      · subst ht
        simp
      · simp [ht, h.entities]

/-- The one pass over the members, the members before it being reflected already. -/
theorem Reflects.foldl_addMember {contents : Contents} {members : Members}
    (h : contents.Reflects members) (rest : Members)
    (nodup : (Members.keys (members ++ rest)).Nodup) :
    (rest.foldl Contents.addMember contents).Reflects (members ++ rest) := by
  induction rest generalizing contents members with
  | nil => rwa [List.append_nil]
  | cons member rest ih =>
    have hsplit : members ++ member :: rest = members ++ [member] ++ rest := by simp
    have fresh : member.1 ∉ Members.keys members := by
      rw [Members.keys, List.map_append, List.nodup_append] at nodup
      intro hm
      exact nodup.2.2 _ hm _ List.mem_cons_self rfl
    rw [hsplit] at nodup ⊢
    exact ih (h.addMember fresh) nodup

theorem reflects_ofMembers {members : Members} (nodup : (Members.keys members).Nodup) :
    (ofMembers members).Reflects members :=
  reflects_empty.foldl_addMember members nodup

variable {contents : Contents} {members : Members}

theorem Reflects.mem_order_iff (h : contents.Reflects members) (s : Section) :
    s ∈ contents.order ↔ s.key ∈ Members.keys members := by
  have hmem : s ∈ contents.order ↔ s.key ∈ contents.order.map Section.key := by
    constructor
    · exact List.mem_map_of_mem
    · intro hm
      obtain ⟨t, ht, hk⟩ := List.mem_map.mp hm
      rwa [← Section.key_injective hk]
  rw [hmem, h.order, List.mem_filter]
  simp [Section.ofKey?_key]

theorem Reflects.nodup_order (h : contents.Reflects members)
    (nodup : (Members.keys members).Nodup) : contents.order.Nodup := by
  have hk : (contents.order.map Section.key).Nodup := by
    rw [h.order]
    exact nodup.sublist List.filter_sublist
  exact List.Nodup.of_map _ hk

theorem Reflects.get?_eq_none_iff (h : contents.Reflects members) (s : Section) :
    contents.values.get? s = none ↔ s.key ∉ Members.keys members := by
  rw [Option.eq_none_iff_forall_ne_some, Members.keys]
  constructor
  · intro hnone hm
    obtain ⟨⟨key, value⟩, hm, rfl⟩ := List.mem_map.mp hm
    exact hnone value ((h.values s value).mpr hm)
  · intro hs value hv
    exact hs (List.mem_map.mpr ⟨_, (h.values s value).mp hv, rfl⟩)

theorem Reflects.mem_values_iff (h : contents.Reflects members) {s : Section} {value : Value} :
    (s, value) ∈ contents.values.entries ↔ (s.key, value) ∈ members := by
  rw [SectionMap.mem_entries_iff, h.values]

end Contents

end StackTemplate
