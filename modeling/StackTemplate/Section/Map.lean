import StackTemplate.Section

/-!
Maps from sections. Their entries are listed by the rank of the section.
-/

namespace StackTemplate

structure SectionMap (α : Type) where
  entries : List (Section × α)
  sorted : entries.Pairwise fun a b => a.1.rank < b.1.rank
deriving Repr

namespace SectionMap

variable {α : Type}

def empty : SectionMap α := ⟨[], .nil⟩

def get? (map : SectionMap α) (s : Section) : Option α :=
  map.entries.lookup s

def isEmpty (map : SectionMap α) : Bool :=
  map.entries.isEmpty

/-- A section that is there gets the new value. -/
def place (s : Section) (a : α) : List (Section × α) → List (Section × α)
  | [] => [(s, a)]
  | (t, b) :: rest =>
    if s.rank < t.rank then (s, a) :: (t, b) :: rest
    else if s = t then (s, a) :: rest
    else (t, b) :: place s a rest

theorem mem_place {s : Section} {a : α} {entry : Section × α} {entries : List (Section × α)}
    (h : entry ∈ place s a entries) : entry = (s, a) ∨ entry ∈ entries := by
  induction entries with
  | nil => exact Or.inl (List.mem_singleton.mp h)
  | cons head rest ih =>
    obtain ⟨t, b⟩ := head
    simp only [place] at h
    split at h
    · exact List.mem_cons.mp h
    · split at h
      · exact (List.mem_cons.mp h).imp id (List.mem_cons_of_mem _)
      · rcases List.mem_cons.mp h with rfl | h
        · exact Or.inr List.mem_cons_self
        · exact (ih h).imp id (List.mem_cons_of_mem _)

theorem sorted_place (s : Section) (a : α) {entries : List (Section × α)}
    (h : entries.Pairwise fun a b => a.1.rank < b.1.rank) :
    (place s a entries).Pairwise fun a b => a.1.rank < b.1.rank := by
  induction entries with
  | nil => exact List.pairwise_singleton _ _
  | cons head rest ih =>
    obtain ⟨t, b⟩ := head
    obtain ⟨hhead, hrest⟩ := List.pairwise_cons.mp h
    simp only [place]
    split
    · rename_i hlt
      refine List.pairwise_cons.mpr ⟨fun entry he => ?_, h⟩
      rcases List.mem_cons.mp he with rfl | he
      · exact hlt
      · exact Nat.lt_trans hlt (hhead entry he)
    · rename_i hlt
      split
      · rename_i heq
        subst heq
        exact List.pairwise_cons.mpr ⟨hhead, hrest⟩
      · rename_i hne
        refine List.pairwise_cons.mpr ⟨fun entry he => ?_, ih hrest⟩
        rcases mem_place he with rfl | he
        · have hr : s.rank ≠ t.rank := fun hr => hne (Section.rank_injective hr)
          have hle := Nat.not_lt.mp hlt
          exact Nat.lt_of_le_of_ne hle (Ne.symm hr)
        · exact hhead entry he

def insert (map : SectionMap α) (s : Section) (a : α) : SectionMap α :=
  ⟨place s a map.entries, sorted_place s a map.sorted⟩

/-- A section that is there keeps its value. -/
def insertNew (map : SectionMap α) (s : Section) (a : α) : SectionMap α :=
  if (map.get? s).isSome then map else map.insert s a

theorem lookup_cons (s t : Section) (a : α) (entries : List (Section × α)) :
    ((s, a) :: entries).lookup t = if t = s then some a else entries.lookup t := by
  rw [List.lookup_cons]
  by_cases h : t = s
  · simp [h]
  · have hb : (t == s) = false := by simpa using h
    simp [h, hb]

theorem lookup_place (s t : Section) (a : α) (entries : List (Section × α)) :
    (place s a entries).lookup t = if t = s then some a else entries.lookup t := by
  induction entries with
  | nil => exact lookup_cons s t a []
  | cons head rest ih =>
    obtain ⟨u, b⟩ := head
    simp only [place]
    split
    · exact lookup_cons s t a _
    · split
      · rename_i heq
        subst heq
        rw [lookup_cons, lookup_cons]
        split <;> rfl
      · rename_i hne
        rw [lookup_cons, lookup_cons, ih]
        by_cases hs : t = s
        · rw [if_pos hs, if_neg (hs ▸ hne), if_pos hs]
        · rw [if_neg hs, if_neg hs]

@[simp] theorem get?_empty (s : Section) : (empty : SectionMap α).get? s = none := rfl

theorem get?_insert (map : SectionMap α) (s t : Section) (a : α) :
    (map.insert s a).get? t = if t = s then some a else map.get? t :=
  lookup_place s t a map.entries

theorem get?_insertNew (map : SectionMap α) (s t : Section) (a : α) :
    (map.insertNew s a).get? t = (map.get? t).or (if t = s then some a else none) := by
  cases hget : map.get? s with
  | some b =>
    have hsame : map.insertNew s a = map := by simp [insertNew, hget]
    rw [hsame]
    by_cases hts : t = s
    · simp [hts, hget]
    · simp [hts]
  | none =>
    have hnew : map.insertNew s a = map.insert s a := by simp [insertNew, hget]
    rw [hnew, get?_insert]
    by_cases hts : t = s
    · simp [hts, hget]
    · simp [hts]

theorem mem_entries_iff (map : SectionMap α) {s : Section} {a : α} :
    (s, a) ∈ map.entries ↔ map.get? s = some a := by
  obtain ⟨entries, sorted⟩ := map
  change (s, a) ∈ entries ↔ entries.lookup s = some a
  induction entries with
  | nil => simp
  | cons head rest ih =>
    obtain ⟨t, b⟩ := head
    obtain ⟨hhead, hrest⟩ := List.pairwise_cons.mp sorted
    rw [List.mem_cons, ih hrest, lookup_cons]
    by_cases h : s = t
    · subst h
      have hnone : rest.lookup s = none := by
        rw [List.lookup_eq_none_iff]
        intro entry he
        have hne : s ≠ entry.1 := fun h => Nat.ne_of_lt (hhead entry he) (congrArg _ h)
        simpa using hne
      simp [hnone, eq_comm]
    · simp [h]

theorem nodup_keys (map : SectionMap α) : (map.entries.map (·.1)).Nodup :=
  List.Pairwise.map _ (fun _ _ hlt heq => Nat.ne_of_lt hlt (congrArg _ heq)) map.sorted

theorem isEmpty_iff (map : SectionMap α) : map.isEmpty ↔ ∀ s, map.get? s = none := by
  rw [isEmpty, List.isEmpty_iff]
  constructor
  · intro h s
    simp [get?, h]
  · intro h
    rw [List.eq_nil_iff_forall_not_mem]
    rintro ⟨s, a⟩ hm
    rw [mem_entries_iff, h s] at hm
    cases hm

end SectionMap

end StackTemplate
