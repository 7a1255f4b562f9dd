import StackTemplate.Position

/-!
Nodes of a concrete syntax tree, as a grammar gives them.
-/

namespace StackTemplate.Syntax

inductive Side where
  | key
  | value
deriving DecidableEq, Repr, Inhabited

structure NodeInfo where
  kind : String
  /-- Named nodes stand for rules of the grammar, the others for punctuation. -/
  named : Bool
  /-- Extras, such as comments, may stand anywhere. -/
  extra : Bool
  error : Bool
  missing : Bool
  /-- Whether the node or one below it is an error or missing. -/
  hasError : Bool
  field : Option Side
  start : Nat
  stop : Nat
  range : Range
  text : String
deriving DecidableEq, Repr, Inhabited

inductive Node where
  | mk (info : NodeInfo) (children : List Node)
deriving Repr, Inhabited

namespace Node

def info : Node → NodeInfo
  | mk info _ => info

def children : Node → List Node
  | mk _ children => children

/-- Named children that are no extras hold the content of a node. -/
def isContent (node : Node) : Bool :=
  node.info.named && !node.info.extra

/-- Whether the text should not be, or not be missing, here. -/
def isFault (node : Node) : Bool :=
  node.info.error || node.info.missing

/-! The number of nodes of a tree -/

mutual

def size : Node → Nat
  | mk _ children => sizeAll children + 1

def sizeAll : List Node → Nat
  | [] => 0
  | child :: rest => child.size + sizeAll rest

end

theorem size_pos (node : Node) : 0 < node.size := by
  cases node
  exact Nat.succ_pos _

mutual

def decEq : (a b : Node) → Decidable (a = b)
  | mk info children, mk info' children' =>
    match instDecidableEqNodeInfo info info', decEqAll children children' with
    | isTrue hi, isTrue hc => isTrue (by rw [hi, hc])
    | isFalse hi, _ => isFalse fun h => hi (Node.mk.inj h).1
    | _, isFalse hc => isFalse fun h => hc (Node.mk.inj h).2

def decEqAll : (xs ys : List Node) → Decidable (xs = ys)
  | [], [] => isTrue rfl
  | [], _ :: _ => isFalse nofun
  | _ :: _, [] => isFalse nofun
  | x :: xs, y :: ys =>
    match decEq x y, decEqAll xs ys with
    | isTrue hx, isTrue hs => isTrue (by rw [hx, hs])
    | isFalse hx, _ => isFalse fun h => hx (List.cons.inj h).1
    | _, isFalse hs => isFalse fun h => hs (List.cons.inj h).2

end

instance : DecidableEq Node := decEq

end Node

end StackTemplate.Syntax
