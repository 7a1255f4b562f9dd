/-!
Intrinsic functions: the short name that a tag carries (`!GetAtt`) and the map key of the long
form (`Fn::GetAtt`).
-/

namespace StackTemplate

structure Intrinsic where
  name : String
  longKey : String
deriving DecidableEq, Repr

namespace Intrinsic

def all : List Intrinsic :=
  [⟨"Ref", "Ref"⟩,
   ⟨"GetAtt", "Fn::GetAtt"⟩,
   ⟨"Sub", "Fn::Sub"⟩,
   ⟨"Join", "Fn::Join"⟩,
   ⟨"Select", "Fn::Select"⟩,
   ⟨"Split", "Fn::Split"⟩,
   ⟨"FindInMap", "Fn::FindInMap"⟩,
   ⟨"If", "Fn::If"⟩,
   ⟨"Not", "Fn::Not"⟩,
   ⟨"Equals", "Fn::Equals"⟩,
   ⟨"And", "Fn::And"⟩,
   ⟨"Or", "Fn::Or"⟩,
   ⟨"Base64", "Fn::Base64"⟩,
   ⟨"Cidr", "Fn::Cidr"⟩,
   ⟨"ImportValue", "Fn::ImportValue"⟩,
   ⟨"GetAZs", "Fn::GetAZs"⟩,
   ⟨"Condition", "Condition"⟩,
   ⟨"Transform", "Fn::Transform"⟩,
   ⟨"ToJsonString", "Fn::ToJsonString"⟩,
   ⟨"Length", "Fn::Length"⟩,
   ⟨"Contains", "Fn::Contains"⟩,
   ⟨"EachMemberEquals", "Fn::EachMemberEquals"⟩,
   ⟨"EachMemberIn", "Fn::EachMemberIn"⟩,
   ⟨"RefAll", "Fn::RefAll"⟩,
   ⟨"ValueOf", "Fn::ValueOf"⟩,
   ⟨"ValueOfAll", "Fn::ValueOfAll"⟩]

def bareTag (tag : String) : String :=
  match tag.toList with
  | '!' :: rest => String.ofList rest
  | _ => tag

def ofTag? (tag : String) : Option Intrinsic :=
  all.find? (·.name = bareTag tag)

def isTag (tag : String) : Bool :=
  (ofTag? tag).isSome

/-- A map key names an intrinsic by its long form or by a tag written as a key (`!Join`). -/
def ofKey? (key : String) : Option Intrinsic :=
  if key.toList.head? = some '!' then ofTag? key else all.find? (·.longKey = key)

end Intrinsic

end StackTemplate
