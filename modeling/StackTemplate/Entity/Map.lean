import StackTemplate.Entity.Build

/-!
The entries of one section, in the order in which they came, with an index of their ids.
-/

namespace StackTemplate

structure EntityMap where
  entries : List Entity
  /-- The places of the ids; of two entries with one id the first counts. -/
  index : List (String × Nat)
  index_lt : ∀ entry ∈ index, entry.2 < entries.length
deriving Repr

namespace EntityMap

def empty : EntityMap := ⟨[], [], nofun⟩

def get? (map : EntityMap) (id : String) : Option Entity :=
  (map.index.lookup id).bind (map.entries[·]?)

def ids (map : EntityMap) : List String :=
  map.entries.map (·.logicalId)

/-- Of two entities with one id the later can be found. -/
def push (map : EntityMap) (id : String) (entity : Entity) : EntityMap where
  entries := map.entries ++ [entity]
  index := (id, map.entries.length) :: map.index
  index_lt := by
    intro entry h
    rw [List.length_append, List.length_singleton]
    rcases List.mem_cons.mp h with rfl | h
    · exact Nat.lt_succ_self _
    · exact Nat.lt_succ_of_lt (map.index_lt entry h)

def ofEntries (entries : List (String × Entity)) : EntityMap :=
  entries.foldl (fun map entry => map.push entry.1 entry.2) empty

theorem get?_push_self (map : EntityMap) (id : String) (entity : Entity) :
    (map.push id entity).get? id = some entity := by
  simp [get?, push]

theorem get?_push_of_ne (map : EntityMap) {id other : String} (entity : Entity)
    (h : other ≠ id) : (map.push id entity).get? other = map.get? other := by
  have hb : (other == id) = false := by simpa using h
  simp only [get?, push, List.lookup_cons, hb]
  cases hn : map.index.lookup other with
  | none => rfl
  | some n =>
    obtain ⟨before, after, hi, -⟩ := List.lookup_eq_some_iff.mp hn
    have hlt := map.index_lt (other, n) (by simp [hi])
    exact List.getElem?_append_left hlt

end EntityMap

end StackTemplate
