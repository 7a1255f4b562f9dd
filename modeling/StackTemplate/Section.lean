/-!
The top-level sections of a template.
-/

namespace StackTemplate

inductive Section where
  | resources
  | parameters
  | mappings
  | conditions
  | outputs
  | rules
  | metadata
  | transform
deriving DecidableEq, Repr, Inhabited

/-- How the value of a section is laid out: entries under their logical ids, or a bare value or
list addressed by index. -/
inductive SectionShape where
  | entryMap
  | indexed
deriving DecidableEq, Repr

namespace Section

def all : List Section :=
  [resources, parameters, mappings, conditions, outputs, rules, metadata, transform]

def key : Section → String
  | resources => "Resources"
  | parameters => "Parameters"
  | mappings => "Mappings"
  | conditions => "Conditions"
  | outputs => "Outputs"
  | rules => "Rules"
  | metadata => "Metadata"
  | transform => "Transform"

/-- Case counts. -/
def ofKey? (key : String) : Option Section :=
  all.find? (·.key = key)

def shape : Section → SectionShape
  | transform => .indexed
  | _ => .entryMap

def rank (s : Section) : Nat :=
  all.idxOf s

def unknownText (name : String) : String :=
  s!"unknown top-level section '{name}'"

theorem mem_all (s : Section) : s ∈ all := by
  cases s <;> decide

theorem key_injective {s t : Section} (h : s.key = t.key) : s = t := by
  cases s <;> cases t <;> first | rfl | (exact absurd h (by decide))

theorem rank_injective {s t : Section} (h : s.rank = t.rank) : s = t := by
  cases s <;> cases t <;> first | rfl | (exact absurd h (by decide))

theorem ofKey?_key (s : Section) : ofKey? s.key = some s := by
  cases s <;> decide

theorem ofKey?_eq_some_iff {k : String} {s : Section} : ofKey? k = some s ↔ k = s.key := by
  constructor
  · intro h
    exact (by simpa using List.find?_some h : s.key = k).symm
  · rintro rfl
    exact ofKey?_key s

end Section

end StackTemplate
