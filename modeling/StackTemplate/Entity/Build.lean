import StackTemplate.Decimal.Layout
import StackTemplate.Entity.Basic
import StackTemplate.Entity.Normalize

/-!
Entries built from the raw value of a section. Scalars are typed first, so a text field is made
from whatever scalar its text turned into.
-/

namespace StackTemplate

namespace Value

def text? : Value → Option String
  | str s => some s
  | int i => some (toString i)
  | float x => some (Layout.json.render x)
  | bool b => some (toString b)
  | _ => none

def textAt? (value : Value) (key : String) : Option String :=
  (value.get? key).bind text?

def itemsAt (value : Value) (key : String) : List Value :=
  ((value.get? key).bind array?).getD []

def texts : Value → List String
  | array items => items.filterMap text?
  | value => value.text?.toList

end Value

open Value

def Resource.ofValue (logicalId : String) (value : Value) : Resource where
  logicalId := logicalId
  resourceType := value.textAt? "Type"
  properties := value.get? "Properties"
  dependsOn := ((value.get? "DependsOn").map texts).getD []
  condition := value.textAt? "Condition"
  metadata := value.get? "Metadata"
  deletionPolicy := value.textAt? "DeletionPolicy"
  updateReplacePolicy := value.textAt? "UpdateReplacePolicy"
  creationPolicy := value.get? "CreationPolicy"
  updatePolicy := value.get? "UpdatePolicy"

def Parameter.ofValue (logicalId : String) (value : Value) : Parameter where
  logicalId := logicalId
  parameterType := value.textAt? "Type"
  default := value.get? "Default"
  allowedValues := value.itemsAt "AllowedValues"
  allowedPattern := value.textAt? "AllowedPattern"
  constraintDescription := value.textAt? "ConstraintDescription"
  description := value.textAt? "Description"
  noEcho := (value.get? "NoEcho").bind bool?
  minLength := (value.get? "MinLength").bind nat?
  maxLength := (value.get? "MaxLength").bind nat?
  minValue := (value.get? "MinValue").bind float?
  maxValue := (value.get? "MaxValue").bind float?

def Output.ofValue (logicalId : String) (value : Value) : Output where
  logicalId := logicalId
  value := value.get? "Value"
  description := value.textAt? "Description"
  exportName := (value.get? "Export").bind (Value.get? "Name")
  condition := value.textAt? "Condition"

/-- An assertion that asserts nothing is none. -/
def Assertion.ofValue? (value : Value) : Option Assertion :=
  (value.get? "Assert").map fun assert => ⟨assert, value.textAt? "AssertDescription"⟩

def Rule.ofValue (logicalId : String) (value : Value) : Rule where
  logicalId := logicalId
  ruleCondition := value.get? "RuleCondition"
  assertions := (value.itemsAt "Assertions").filterMap Assertion.ofValue?

/-- The index that a logical id spells, within 64 bits; zero if it spells none. -/
def Transform.indexOf (logicalId : String) : Nat :=
  let digits := match logicalId.toList with
    | '+' :: rest => rest
    | text => text
  ((Text.nat? 10 digits).filter (· < Nat.pow 2 64)).getD 0

namespace Entity

def ofNormal (s : Section) (logicalId : String) (value : Value) : Entity :=
  match s with
  | .resources => resource (.ofValue logicalId value)
  | .parameters => parameter (.ofValue logicalId value)
  | .mappings => mapping ⟨logicalId, value.object?.getD []⟩
  | .conditions => condition ⟨logicalId, value⟩
  | .outputs => output (.ofValue logicalId value)
  | .rules => rule (.ofValue logicalId value)
  | .metadata => metadata ⟨logicalId, value⟩
  | .transform => transform ⟨Transform.indexOf logicalId, value.str?, value⟩

def build (s : Section) (logicalId : String) (raw : Value) : Entity :=
  ofNormal s logicalId raw.normalize

end Entity

namespace Section

/-- The raw entries of a section under their ids. Of an indexed section these are the elements of a
list or the bare value, counted from zero; null is no element. -/
def rawEntries (s : Section) (raw : Value) : List (String × Value) :=
  match s.shape with
  | .entryMap => raw.object?.getD []
  | .indexed =>
    let items := match raw with
      | .array items => items
      | .null => []
      | value => [value]
    items.zipIdx.map fun (item, index) => (toString index, item)

def entities (s : Section) (raw : Value) : List (String × Entity) :=
  (s.rawEntries raw).map fun (id, value) => (id, Entity.build s id value)

end Section

end StackTemplate
