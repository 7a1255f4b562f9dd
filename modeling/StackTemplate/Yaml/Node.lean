import StackTemplate.Yaml.Event

/-!
Nodes of a document as they are written, aliases unresolved, and loading them from events. Events
may stop anywhere; what they do not reach is a missing node, and reading it gives what went wrong.
-/

namespace StackTemplate.Yaml

inductive Node where
  | scalar (mark : Mark) (tag : Option Tag) (style : ScalarStyle) (text : List Char)
  | sequence (mark : Mark) (tag : Option Tag) (items : List Node)
  | mapping (mark : Mark) (tag : Option Tag) (pairs : List (Node × Node))
  | alias (mark : Mark) (anchor : Nat)
  /-- The text holds no document. -/
  | absent
  /-- The events stop before this node. -/
  | missing
deriving Inhabited, Repr

inductive LoadProblem where
  | malformed (problem : Malformed)
  | unknownAnchor (mark : Mark)
deriving DecidableEq, Repr

namespace Loading

inductive FrameKind where
  | sequence
  | mapping

structure Frame where
  /-- The serial number, if the collection is anchored. -/
  serial : Option Nat
  kind : FrameKind
  mark : Mark
  tag : Option Tag
  /-- The children backwards; those of a mapping are keys and values in turn. -/
  children : List Node

/-- A key that is left over has no value yet. -/
def pairUp : List Node → List (Node × Node)
  | [] => []
  | [key] => [(key, .missing)]
  | key :: value :: rest => (key, value) :: pairUp rest

def Frame.node (f : Frame) : Node :=
  match f.kind with
  | .sequence => .sequence f.mark f.tag f.children.reverse
  | .mapping => .mapping f.mark f.tag (pairUp f.children.reverse)

end Loading

/-- The part of a document that was read. Anchored nodes have serial numbers in the order in which
they start. -/
structure Loading where
  /-- The open collections, innermost first. -/
  frames : List Loading.Frame
  root : Option Node
  /-- The anchor number of each name. -/
  names : List (List Char × Nat)
  /-- The serial number that each anchor number stands for, the first entry counting. -/
  serials : List (Nat × Nat)
  nodes : List (Nat × Node)
  size : Nat

namespace Loading

def start : Loading := ⟨[], none, [], [], [], 0⟩

/-- Gives a name to the next anchored node. The anchor number is the number of names so far, so a
name that is given twice shares its second number with the next new name. -/
def anchor (l : Loading) : Option (List Char) → Option Nat × Loading
  | none => (none, l)
  | some name =>
    let id := l.names.length
    let names :=
      if l.names.any (·.1 = name) then
        l.names.map fun entry => if entry.1 = name then (name, id) else entry
      else l.names ++ [(name, id)]
    let serial := l.serials.length
    (some serial, { l with names := names, serials := (id, serial) :: l.serials })

/-- Files a finished node under its serial number, if it has one, and in its collection. -/
def add (l : Loading) (serial : Option Nat) (node : Node) : Loading :=
  let l := match serial with
    | some n => { l with nodes := (n, node) :: l.nodes }
    | none => l
  match l.frames with
  | [] => { l with root := some node }
  | frame :: outer => { l with frames := { frame with children := node :: frame.children } :: outer }

def openFrame (l : Loading) (name : Option (List Char)) (kind : FrameKind) (mark : Mark)
    (tag : Option Tag) : Loading :=
  let (serial, l) := l.anchor name
  { l with frames := ⟨serial, kind, mark, tag, []⟩ :: l.frames }

def closeFrame (l : Loading) : Loading :=
  match l.frames with
  | [] => l
  | frame :: outer => { l with frames := outer }.add frame.serial frame.node

/-- Leaves every open collection where it stands. -/
def abandon (l : Loading) : Loading :=
  l.frames.foldl (fun l _ => (l.add none .missing).closeFrame) l

end Loading

structure LoadedDocument where
  root : Node
  problem : Option LoadProblem
  loading : Loading
  rest : List Event

namespace LoadedDocument

def target? (d : LoadedDocument) (anchor : Nat) : Option Node :=
  match d.loading.serials.find? (·.1 = anchor) with
  | some (_, serial) => (d.loading.nodes.find? (·.1 = serial)).map (·.2)
  | none => none

/-- The document whose events stop here. -/
def stopped (l : Loading) (problem : Option LoadProblem) : LoadedDocument :=
  let l := l.abandon
  ⟨l.root.getD .missing, problem, l, []⟩

/-- Loads the first document; `problem` is what is wrong behind the events. -/
def load (problem : Option Malformed) : List Event → Loading → LoadedDocument
  | [], l => stopped l (problem.map .malformed)
  | event :: rest, l =>
    let counted := { l with size := l.size + 1 }
    match event.kind with
    | .streamEnd => ⟨.absent, none, { l with size := 1 }, event :: rest⟩
    | .documentStart => load problem rest l
    | .documentEnd => ⟨l.root.getD .missing, none, l, rest⟩
    | .alias name =>
      match l.names.find? (·.1 = name) with
      | some (_, id) => load problem rest (counted.add none (.alias event.mark id))
      | none => stopped l (some (.unknownAnchor event.mark))
    | .scalar name tag text style =>
      let (serial, l) := counted.anchor name
      load problem rest (l.add serial (.scalar event.mark tag style text))
    | .sequenceStart name tag => load problem rest (counted.openFrame name .sequence event.mark tag)
    | .mappingStart name tag => load problem rest (counted.openFrame name .mapping event.mark tag)
    | .sequenceEnd => load problem rest counted.closeFrame
    | .mappingEnd => load problem rest counted.closeFrame

def ofText (text : List Char) : LoadedDocument :=
  let events := Events.ofText text
  load events.problem events.list .start

def isOnly (d : LoadedDocument) : Bool :=
  match d.rest with
  | [] => false
  | event :: _ => event.kind = .streamEnd

def scalar? (d : LoadedDocument) : Option String :=
  match d.root with
  | .scalar _ _ _ text =>
    if d.problem.isNone && d.isOnly then some (String.ofList text) else none
  | _ => none

end LoadedDocument

end StackTemplate.Yaml
