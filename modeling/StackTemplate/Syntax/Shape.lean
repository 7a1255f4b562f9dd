import StackTemplate.Document
import StackTemplate.Syntax.Node

/-!
What the node kinds of the two grammars stand for. Everything above asks for shapes only.
-/

namespace StackTemplate.Syntax

inductive Quoting where
  | bare
  | double
  | single
deriving DecidableEq, Repr

inductive Shape where
  /-- Holds one content node, and possibly tags and anchors before it. -/
  | wrapper
  /-- A container of pairs. -/
  | block
  | pair
  /-- A container whose elements are marked items. -/
  | itemized
  | item
  /-- A container whose content children are its elements. -/
  | listed
  | scalar (quoting : Quoting)
  | tag
  | anchor
  | other
deriving DecidableEq, Repr

namespace Shape

def ofYaml (kind : String) : Shape :=
  match kind with
  | "stream" | "document" | "block_node" | "flow_node" => wrapper
  | "block_mapping" | "flow_mapping" => block
  | "block_mapping_pair" | "flow_pair" => pair
  | "block_sequence" => itemized
  | "block_sequence_item" => item
  | "flow_sequence" => listed
  | "plain_scalar" | "block_scalar" | "alias" => scalar .bare
  | "double_quote_scalar" => scalar .double
  | "single_quote_scalar" => scalar .single
  | "tag" => tag
  | "anchor" => anchor
  | _ => other

def ofJson (kind : String) : Shape :=
  match kind with
  | "document" => wrapper
  | "object" => block
  | "pair" => pair
  | "array" => listed
  | "string" => scalar .double
  | "number" | "true" | "false" | "null" => scalar .bare
  | _ => other

def isSequence : Shape → Bool
  | itemized | listed => true
  | _ => false

def isScalar : Shape → Bool
  | scalar _ => true
  | _ => false

def isDecoration : Shape → Bool
  | tag | anchor => true
  | _ => false

end Shape

def Node.shape (format : Format) (node : Node) : Shape :=
  match format with
  | .yaml => .ofYaml node.info.kind
  | .json => .ofJson node.info.kind

end StackTemplate.Syntax
