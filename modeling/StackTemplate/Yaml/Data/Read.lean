import StackTemplate.Yaml.Problem

/-!
Reading data from the nodes of a document. Collections nest at most 128 deep, and aliases are
followed at most a hundred times per event.
-/

namespace StackTemplate.Yaml

/-- Reading counts the aliases it follows. -/
abbrev Reading := StateT Nat (Except Problem)

namespace LoadedDocument

def endProblem (d : LoadedDocument) : Problem :=
  match d.problem with
  | some problem => .ofLoad problem
  | none => .endOfStream

def follow (d : LoadedDocument) (node : Node) : Reading Node :=
  match node with
  | .alias _ anchor => do
    let count := (← get) + 1
    set count
    if d.loading.size * 100 < count then throw .repetition
    match d.target? anchor with
    | some target => return target
    | none => throw .endOfStream
  | _ => return node

end LoadedDocument

namespace Data

/-- The data that a plain scalar stands for. -/
def ofPlain (trail : Trail) (mark : Mark) (text : List Char) : Except Problem Data :=
  match Scalar.ofPlain text with
  | .null => .ok .null
  | .bool b => .ok (.bool b)
  | .number n => .ok (.number n)
  | .hugeInteger => .error (.hugeInteger trail mark (String.ofList text))
  | .str => .ok (.str (String.ofList text))

/-- A tag of a core type that can fail forces that type on the text. -/
def ofForced? (tag : Tag) (text : List Char) : Option (Option Data × String) :=
  if tag = .bool then some ((Scalar.bool? text).map .bool, "a boolean")
  else if tag = .int then
    some (match Scalar.int? text with
      | some (.number n) => some (.number n)
      | _ => none, "an integer")
  else if tag = .float then some ((Scalar.float? text).map .number, "a float")
  else if tag = .null then some (if Scalar.isNull text then some .null else none, "null")
  else none

/-- A plain scalar under no tag or a local one has the type its text gives it; under a core tag that
type; every other scalar is a string. `named` tells that the tag was taken for the name of a tagged
value. -/
def ofScalar (trail : Trail) (mark : Mark) (tag : Option Tag) (named : Bool) (style : ScalarStyle)
    (text : List Char) : Except Problem Data :=
  match (if named then none else tag) with
  | none => if style = .plain then ofPlain trail mark text else .ok (.str (String.ofList text))
  | some tag =>
    match ofForced? tag text with
    | some (some data, _) => .ok data
    | some (none, expected) => .error (.unfit trail mark (String.ofList text) expected)
    | none =>
      if tag.isLocal && style = .plain then ofPlain trail mark text
      else .ok (.str (String.ofList text))

/-- A local tag names the data it stands before. -/
def wrap (tag : Option Tag) (content : Data) : Data :=
  match tag.bind Tag.localName? with
  | some name => .tagged name content
  | none => content

/-- Where the value of a key is. -/
def memberTrail (trail : Trail) : Node → Trail
  | .scalar _ _ _ text => .member trail text
  | _ => .unknown trail

/-- Reads pairs in order; a key that is there already is refused before its value is read. -/
def readPairs (readKey : Node → Reading Data) (readValue : Node → Node → Reading Data)
    (duplicate : Data → Problem) :
    List (Node × Node) → List (Data × Data) → Reading (List (Data × Data))
  | [], done => return done
  | (key, value) :: rest, done => do
    let k ← readKey key
    if done.any (fun pair => pair.1.same k) then throw (duplicate k)
    let v ← readValue key value
    readPairs readKey readValue duplicate rest (done ++ [(k, v)])

/-- Reads items in order, each with its index. -/
def readItems (readItem : Nat → Node → Reading Data) :
    Nat → List Node → Reading (List Data)
  | _, [] => return []
  | i, item :: rest => do
    let x ← readItem i item
    let xs ← readItems readItem (i + 1) rest
    return x :: xs

/-- Reads a node; `inside` reads what a collection holds, if there is room for a collection. -/
def readNode (d : LoadedDocument) (inside : Option (Trail → Node → Reading Data)) (trail : Trail)
    (node : Node) : Reading Data := do
  match ← d.follow node with
  | .scalar mark tag style text =>
    let named := (tag.bind Tag.localName?).isSome
    let content ← ofScalar trail mark tag named style text
    return wrap tag content
  | .sequence mark tag items =>
    match inside with
    | some read =>
      let items ← readItems (fun i => read (.item trail i)) 0 items
      return wrap tag (.sequence items)
    | none => throw (.nesting mark)
  | .mapping mark tag pairs =>
    match inside with
    | some read =>
      let pairs ← readPairs (read trail) (fun key => read (memberTrail trail key))
        (.duplicateKey trail mark) pairs []
      return wrap tag (.mapping pairs)
    | none => throw (.nesting mark)
  | .absent => return .null
  | .alias _ _ => throw .endOfStream
  | .missing => throw d.endProblem

/-- Reads a node inside collections that leave room for `depth` more. -/
def read (d : LoadedDocument) : Nat → Trail → Node → Reading Data
  | 0 => readNode d none
  | depth + 1 => readNode d (some (read d depth))

def maxNesting : Nat := 128

/-- The data of a document. A problem behind the data counts too. -/
def ofDocument (d : LoadedDocument) : Except Problem Data :=
  match (read d maxNesting .root d.root).run 0 with
  | .error problem => .error problem
  | .ok (data, _) =>
    match d.problem with
    | some problem => .error (.ofLoad problem)
    | none => .ok data

def ofText (text : List Char) : Except Problem Data :=
  ofDocument (.ofText text)

end Data

end StackTemplate.Yaml
