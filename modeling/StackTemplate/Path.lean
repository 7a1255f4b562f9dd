/-!
Logical paths from the root of a document, one map key or sequence index at a time.
-/

namespace StackTemplate

inductive PathStep where
  | key (name : String)
  | index (number : Nat)
deriving DecidableEq, Repr, Inhabited

namespace PathStep

def key? : PathStep → Option String
  | key name => some name
  | index _ => none

def index? : PathStep → Option Nat
  | key _ => none
  | index number => some number

def text : PathStep → String
  | key name => name
  | index number => toString number

end PathStep

abbrev PropertyPath := List PathStep

namespace PropertyPath

def firstKey? (path : PropertyPath) : Option String :=
  path.head?.bind PathStep.key?

def text (path : PropertyPath) : String :=
  "/".intercalate (path.map PathStep.text)

end PropertyPath

end StackTemplate
