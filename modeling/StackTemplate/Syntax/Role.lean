import StackTemplate.Syntax.Container

/-!
What a node is for the nodes around it.
-/

namespace StackTemplate.Syntax

inductive Role where
  | key
  | value
  | pair
  | block
  | sequence
  | sequenceItem
  | scalar
  | other
deriving DecidableEq, Repr

namespace Role

def ofSide : Side → Role
  | .key => key
  | .value => value

def label : Role → String
  | key => "Key"
  | value => "Value"
  | pair => "Pair"
  | block => "Block"
  | sequence => "Sequence"
  | sequenceItem => "SequenceItem"
  | scalar => "Scalar"
  | other => "Other"

end Role

namespace Place

variable (format : Format)

/-- The side of a pair that one of its children is. -/
def sideIn? (pair child : Place) : Option Side :=
  if (pair.field? .key).any (·.isAt child) then some .key
  else if (pair.field? .value).any (·.isAt child) then some .value
  else none

/-- Goes up through wrappers to a pair; `child` is where the way leaves the node above. -/
def sideFrom (child : Place) : List (Node × Nat) → Option Side
  | [] => none
  | (parent, _) :: above =>
    let parent : Place := ⟨parent, above⟩
    if parent.isPair format then parent.sideIn? child
    else if parent.isWrapper format then sideFrom parent above
    else none

/-- The side of a pair that a node is on, wrappers apart. -/
def pairSide? (p : Place) : Option Side :=
  sideFrom format p p.above

/-- Elements come first; a wrapper has the role of what it wraps; containers keep their own role
wherever they are. -/
def role (p : Place) : Role :=
  if p.isItem format then .sequenceItem
  else
    let content := p.unwrap format
    match content.shape format with
    | .wrapper => .other
    | .pair => .pair
    | .block => .block
    | .itemized | .listed => .sequence
    | shape =>
      match content.pairSide? format with
      | some side => .ofSide side
      | none => if shape.isScalar then .scalar else .other

end Place

end StackTemplate.Syntax
