import Mathlib.Data.List.Induction
import StackTemplate.Value

/-!
Members that are put together from pairs have distinct keys, and pairs whose keys are distinct stay
as they are listed.
-/

namespace StackTemplate.Members

theorem insert_of_not_mem {key : String} {members : Members} (h : key ∉ keys members)
    (value : Value) : insert key value members = members ++ [(key, value)] := by
  induction members with
  | nil => rfl
  | cons member members ih =>
    obtain ⟨k, v⟩ := member
    rw [keys, List.map_cons, List.mem_cons, not_or] at h
    rw [insert, if_neg (Ne.symm h.1), ih h.2]
    rfl

theorem ofPairs_of_nodup {pairs : List (String × Value)} (h : (keys pairs).Nodup) :
    ofPairs pairs = pairs := by
  suffices hall : ∀ members : Members, (keys (members ++ pairs)).Nodup →
      pairs.foldl (fun members pair => insert pair.1 pair.2 members) members =
        members ++ pairs from hall [] h
  clear h
  induction pairs with
  | nil => exact fun members _ => (List.append_nil members).symm
  | cons pair pairs ih =>
    intro members h
    have hkey : pair.1 ∉ keys members := by
      rw [keys, List.map_append, List.nodup_append] at h
      intro hm
      exact h.2.2 _ hm _ List.mem_cons_self rfl
    rw [List.foldl_cons, insert_of_not_mem hkey, ih, List.append_assoc]
    · rfl
    · rw [List.append_assoc]
      exact h

theorem insert_append {key : String} {members : Members} (h : key ∉ keys members) (value : Value)
    (rest : Members) : insert key value (members ++ rest) = members ++ insert key value rest := by
  induction members with
  | nil => rfl
  | cons member members ih =>
    obtain ⟨k, v⟩ := member
    rw [keys, List.map_cons, List.mem_cons, not_or] at h
    rw [List.cons_append, insert, if_neg (Ne.symm h.1), ih h.2]
    rfl

/-- Pairs with new keys come behind all that is there. -/
theorem ofPairs_append {pairs more : List (String × Value)} (h : (keys pairs).Nodup)
    (hmore : ∀ pair ∈ more, pair.1 ∉ keys pairs) :
    ofPairs (pairs ++ more) = pairs ++ ofPairs more := by
  suffices hall : ∀ members : Members,
      more.foldl (fun members pair => insert pair.1 pair.2 members) (pairs ++ members) =
        pairs ++ more.foldl (fun members pair => insert pair.1 pair.2 members) members by
    have hpairs : ofPairs pairs = pairs ++ [] := by rw [ofPairs_of_nodup h, List.append_nil]
    rw [ofPairs, List.foldl_append]
    change more.foldl _ (ofPairs pairs) = _
    rw [hpairs, hall]
    rfl
  induction more with
  | nil => exact fun _ => rfl
  | cons pair more ih =>
    intro members
    obtain ⟨hpair, hmore⟩ := List.forall_mem_cons.mp hmore
    rw [List.foldl_cons, List.foldl_cons, insert_append hpair, ih hmore]

theorem keys_insert_of_mem {key : String} {members : Members} (h : key ∈ keys members)
    (value : Value) : keys (insert key value members) = keys members := by
  induction members with
  | nil => cases h
  | cons member members ih =>
    obtain ⟨k, v⟩ := member
    by_cases hk : k = key
    · simp [insert, keys, hk]
    · have hm : key ∈ keys members := by
        rcases List.mem_cons.mp h with rfl | hm
        · exact absurd rfl hk
        · exact hm
      have hi := ih hm
      simp only [insert, hk, if_false]
      exact congrArg (k :: ·) hi

theorem mem_insert {key : String} {value : Value} {members : Members} {member : String × Value}
    (h : member ∈ insert key value members) : member.2 = value ∨ member ∈ members := by
  induction members with
  | nil => exact Or.inl (congrArg Prod.snd (List.mem_singleton.mp h))
  | cons head members ih =>
    obtain ⟨k, v⟩ := head
    by_cases hk : k = key
    · rw [insert, if_pos hk] at h
      rcases List.mem_cons.mp h with rfl | h
      · exact Or.inl rfl
      · exact Or.inr (List.mem_cons_of_mem _ h)
    · rw [insert, if_neg hk] at h
      rcases List.mem_cons.mp h with rfl | h
      · exact Or.inr List.mem_cons_self
      · exact (ih h).imp id (List.mem_cons_of_mem _)

theorem nodup_keys_insert {members : Members} (h : (keys members).Nodup) (key : String)
    (value : Value) : (keys (insert key value members)).Nodup := by
  by_cases hm : key ∈ keys members
  · rw [keys_insert_of_mem hm]
    exact h
  · rw [insert_of_not_mem hm, keys, List.map_append, List.nodup_append]
    refine ⟨h, by simp, ?_⟩
    intro k hk other hother
    obtain rfl := List.mem_singleton.mp hother
    rintro rfl
    exact hm hk

/-- What holds of no members and is kept by insertions holds of all members that are put together
from pairs. -/
theorem ofPairs_induction {motive : Members → Prop} (pairs : List (String × Value))
    (empty : motive [])
    (insert : ∀ members, motive members → ∀ pair ∈ pairs, motive (insert pair.1 pair.2 members)) :
    motive (ofPairs pairs) := by
  suffices hall : ∀ members, motive members →
      motive (pairs.foldl (fun members pair => Members.insert pair.1 pair.2 members) members) from
    hall [] empty
  induction pairs with
  | nil => exact fun _ h => h
  | cons pair pairs ih =>
    intro members h
    rw [List.foldl_cons]
    refine ih (fun members hm p hp => insert members hm p (List.mem_cons_of_mem _ hp)) _ ?_
    exact insert members h pair List.mem_cons_self

theorem nodup_keys_ofPairs (pairs : List (String × Value)) : (keys (ofPairs pairs)).Nodup := by
  apply ofPairs_induction (motive := fun members => (keys members).Nodup)
  · exact .nil
  · intro members h pair _
    exact nodup_keys_insert h pair.1 pair.2

theorem mem_ofPairs {pairs : List (String × Value)} {member : String × Value}
    (h : member ∈ ofPairs pairs) : ∃ pair ∈ pairs, member.2 = pair.2 := by
  revert member
  apply ofPairs_induction
    (motive := fun members => ∀ {member}, member ∈ members → ∃ pair ∈ pairs, member.2 = pair.2)
  · nofun
  · intro members ih pair hp member hm
    rcases mem_insert hm with hv | hm
    · exact ⟨pair, hp, hv⟩
    · exact ih hm

theorem mem_of_get? {members : Members} {key : String} {value : Value}
    (h : get? key members = some value) : (key, value) ∈ members := by
  induction members with
  | nil => cases h
  | cons member members ih =>
    obtain ⟨k, v⟩ := member
    rw [get?] at h
    split at h
    case isTrue hk =>
      cases h
      exact hk ▸ List.mem_cons_self
    case isFalse => exact List.mem_cons_of_mem _ (ih h)

theorem get?_eq_some_iff {members : Members} (h : (keys members).Nodup) {key : String}
    {value : Value} : get? key members = some value ↔ (key, value) ∈ members := by
  refine ⟨mem_of_get?, fun hm => ?_⟩
  induction members with
  | nil => cases hm
  | cons member members ih =>
    obtain ⟨k, v⟩ := member
    obtain ⟨hk, hrest⟩ := List.nodup_cons.mp h
    rcases List.mem_cons.mp hm with heq | hm
    · cases heq
      exact if_pos rfl
    · have hne : k ≠ key := by
        rintro rfl
        exact hk (List.mem_map.mpr ⟨_, hm, rfl⟩)
      rw [get?, if_neg hne]
      exact ih hrest hm

/-- The value of a key is the last that is listed for it. -/
theorem get?_ofPairs (pairs : List (String × Value)) (key : String) :
    get? key (ofPairs pairs) = (pairs.reverse.find? (·.1 = key)).map (·.2) := by
  induction pairs using List.reverseRecOn with
  | nil => rfl
  | append_singleton pairs pair ih =>
    have hinsert : ofPairs (pairs ++ [pair]) = insert pair.1 pair.2 (ofPairs pairs) := by
      simp [ofPairs]
    rw [hinsert, List.reverse_append, List.reverse_singleton, List.singleton_append,
      List.find?_cons]
    by_cases hkey : pair.1 = key
    · simp [← hkey, get?_insert_self]
    · simp [hkey, get?_insert_of_ne _ _ (Ne.symm hkey), ih]

end StackTemplate.Members
