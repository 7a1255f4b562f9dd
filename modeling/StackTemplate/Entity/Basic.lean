import StackTemplate.Section
import StackTemplate.Value

/-!
The typed entries of the top-level sections. What an entry leaves out, or holds in a wrong shape,
is absent.
-/

namespace StackTemplate

structure Resource where
  logicalId : String
  resourceType : Option String
  properties : Option Value
  dependsOn : List String
  condition : Option String
  metadata : Option Value
  deletionPolicy : Option String
  updateReplacePolicy : Option String
  creationPolicy : Option Value
  updatePolicy : Option Value
deriving BEq, Repr

structure Parameter where
  logicalId : String
  parameterType : Option String
  default : Option Value
  allowedValues : List Value
  allowedPattern : Option String
  constraintDescription : Option String
  description : Option String
  noEcho : Option Bool
  minLength : Option Nat
  maxLength : Option Nat
  minValue : Option Binary64
  maxValue : Option Binary64
deriving BEq, Repr

structure Mapping where
  logicalId : String
  entries : Members
deriving BEq, Repr

structure Condition where
  logicalId : String
  expression : Value
deriving BEq, Repr

structure Output where
  logicalId : String
  value : Option Value
  description : Option String
  exportName : Option Value
  condition : Option String
deriving BEq, Repr

structure Assertion where
  assert : Value
  description : Option String
deriving BEq, Repr

structure Rule where
  logicalId : String
  ruleCondition : Option Value
  assertions : List Assertion
deriving BEq, Repr

structure Metadata where
  logicalId : String
  value : Value
deriving BEq, Repr

/-- One element of the transform directive; a plain string is the name of a macro. -/
structure Transform where
  index : Nat
  name : Option String
  value : Value
deriving BEq, Repr

inductive Entity where
  | resource (entry : Resource)
  | parameter (entry : Parameter)
  | mapping (entry : Mapping)
  | condition (entry : Condition)
  | output (entry : Output)
  | rule (entry : Rule)
  | metadata (entry : Metadata)
  | transform (entry : Transform)
deriving BEq, Repr

namespace Mapping

def lookup (mapping : Mapping) (top second : String) : Option Value :=
  (mapping.entries.get? top).bind (Value.get? second)

def topLevelKeys (mapping : Mapping) : List String :=
  mapping.entries.keys

end Mapping

namespace Entity

def sectionOf : Entity → Section
  | resource _ => .resources
  | parameter _ => .parameters
  | mapping _ => .mappings
  | condition _ => .conditions
  | output _ => .outputs
  | rule _ => .rules
  | metadata _ => .metadata
  | transform _ => .transform

def logicalId : Entity → String
  | resource entry => entry.logicalId
  | parameter entry => entry.logicalId
  | mapping entry => entry.logicalId
  | condition entry => entry.logicalId
  | output entry => entry.logicalId
  | rule entry => entry.logicalId
  | metadata entry => entry.logicalId
  | transform entry => toString entry.index

end Entity

end StackTemplate
