import StackTemplate.Yaml.Tag
import StackTemplate.Yaml.Token.Lexer

/-!
Events of YAML: documents as bracketed sequences of nodes. Which tokens may come next is a stack of
goals, the innermost first.
-/

namespace StackTemplate.Yaml

namespace Event

inductive Kind where
  | streamEnd
  | documentStart
  | documentEnd
  | alias (name : List Char)
  | scalar (anchor : Option (List Char)) (tag : Option Tag) (text : List Char)
      (style : ScalarStyle)
  | sequenceStart (anchor : Option (List Char)) (tag : Option Tag)
  | sequenceEnd
  | mappingStart (anchor : Option (List Char)) (tag : Option Tag)
  | mappingEnd
deriving DecidableEq, Repr

end Event

structure Event where
  kind : Event.Kind
  mark : Mark
deriving DecidableEq, Repr

/-- What a part of the token stream is read as. -/
inductive Goal where
  /-- A document; the first of a stream needs no mark before it. -/
  | document (isFirst : Bool)
  | documentContent
  | documentEnd
  | blockNode
  | blockSequence (isFirst : Bool)
  | indentlessSequence
  | blockMappingKey (isFirst : Bool)
  | blockMappingValue
  | flowSequence (isFirst : Bool)
  | flowPairKey
  | flowPairValue
  | flowPairEnd
  | flowMappingKey (isFirst : Bool)
  | flowMappingValue
  | flowMappingNoValue
deriving DecidableEq, Repr

structure Reader where
  tokens : List Token
  problem : Option Malformed
  goals : List Goal
  /-- What each tag handle stands for, the first entry for a handle counting. -/
  handles : List (List Char × TagChars)

namespace Reader

abbrev Step := Except Malformed (Event × Reader)

def peek (r : Reader) : Except Malformed Token :=
  match r.tokens with
  | token :: _ => .ok token
  | [] => .error (r.problem.getD .nodeContent)

def pass (r : Reader) : Reader :=
  { r with tokens := r.tokens.tail }

def aim (r : Reader) (goal : Goal) : Reader :=
  { r with goals := goal :: r.goals }

def give (r : Reader) (kind : Event.Kind) (mark : Mark) : Step :=
  .ok (⟨kind, mark⟩, r)

def giveEmpty (r : Reader) (mark : Mark) : Step :=
  r.give (.scalar none none [] .plain) mark

/-! Nodes -/

def standardHandles : List (List Char × TagChars) :=
  [(['!'], [some '!']), (['!', '!'], Tag.corePart.toList.map some)]

/-- A tag without a handle is complete; otherwise the handle is expanded. -/
def resolveTag (r : Reader) (handle : List Char) (suffix : TagChars) : Except Malformed Tag :=
  if handle.isEmpty then .ok ⟨suffix⟩
  else match r.handles.find? (·.1 = handle) with
    | some (_, expansion) => .ok ⟨expansion ++ suffix⟩
    | none => .error .undefinedHandle

structure Properties where
  anchor : Option (List Char)
  tag : Option (List Char × TagChars)

/-- An anchor and a tag may come in either order. -/
def properties (r : Reader) : Except Malformed (Properties × Reader) := do
  let first ← r.peek
  match first.kind with
  | .anchor name =>
    let second ← r.pass.peek
    match second.kind with
    | .tag handle suffix => return (⟨some name, some (handle, suffix)⟩, r.pass.pass)
    | _ => return (⟨some name, none⟩, r.pass)
  | .tag handle suffix =>
    let second ← r.pass.peek
    match second.kind with
    | .anchor name => return (⟨some name, some (handle, suffix)⟩, r.pass.pass)
    | _ => return (⟨none, some (handle, suffix)⟩, r.pass)
  | _ => return (⟨none, none⟩, r)

/-- The node that starts here. Block collections are read where `block` allows them, and where
`indentless` does a sequence that is not indented. -/
def node (r : Reader) (block indentless : Bool) : Step := do
  let first ← r.peek
  let mark := first.start
  if let .alias name := first.kind then return ← r.pass.give (.alias name) mark
  let (props, r) ← r.properties
  let token ← r.peek
  let tag ← props.tag.mapM fun (handle, suffix) => r.resolveTag handle suffix
  match token.kind with
  | .blockEntry =>
    if indentless then
      return ← (r.aim .indentlessSequence).give (.sequenceStart props.anchor tag) mark
  | .scalar text style =>
    let tag := if tag = some .nonSpecific then none else tag
    return ← r.pass.give (.scalar props.anchor tag text style) mark
  | .flowSequenceStart =>
    return ← (r.aim (.flowSequence true)).give (.sequenceStart props.anchor tag) mark
  | .flowMappingStart =>
    return ← (r.aim (.flowMappingKey true)).give (.mappingStart props.anchor tag) mark
  | .blockSequenceStart =>
    if block then
      return ← (r.aim (.blockSequence true)).give (.sequenceStart props.anchor tag) mark
  | .blockMappingStart =>
    if block then
      return ← (r.aim (.blockMappingKey true)).give (.mappingStart props.anchor tag) mark
  | _ => pure ()
  if props.anchor.isSome || tag.isSome then
    r.give (.scalar props.anchor tag [] .plain) mark
  else throw .nodeContent

/-! Documents -/

def isDirective : Token.Kind → Bool
  | .versionDirective _ _ => true
  | .tagDirective _ _ => true
  | _ => false

/-- Reads directives; standard handles that are not redefined come last. -/
def directives : List Token → Bool → List (List Char × TagChars) →
    Except Malformed (List Token × List (List Char × TagChars))
  | token :: rest, versioned, handles =>
    match token.kind with
    | .versionDirective major minor =>
      if versioned then .error .versionDuplicate
      else if major = 1 ∧ (minor = 1 ∨ minor = 2) then directives rest true handles
      else .error .versionIncompatible
    | .tagDirective handle expansion =>
      if handles.any (·.1 = handle) then .error .tagDirectiveDuplicate
      else directives rest versioned (handles ++ [(handle, expansion)])
    | _ => .ok (token :: rest, handles ++ standardHandles)
  | [], _, handles => .ok ([], handles ++ standardHandles)

/-- Document ends that follow one another count once. -/
def passDocumentEnds (r : Reader) : Reader :=
  { r with tokens := r.tokens.dropWhile (·.kind = .documentEnd) }

def document (r : Reader) (isFirst : Bool) : Step := do
  let r := if isFirst then r else r.passDocumentEnds
  let token ← r.peek
  if token.kind = .streamEnd then return ← r.pass.give .streamEnd token.start
  if isFirst && !(isDirective token.kind || token.kind = .documentStart) then
    return ← (({ r with handles := standardHandles }.aim .documentEnd).aim .blockNode).give
      .documentStart token.start
  let (tokens, handles) ← directives r.tokens false []
  let r := { r with tokens := tokens, handles := handles }
  let next ← r.peek
  if next.kind ≠ .documentStart then throw .documentStart
  ((r.pass.aim .documentEnd).aim .documentContent).give .documentStart token.start

def documentContent (r : Reader) : Step := do
  let token ← r.peek
  if isDirective token.kind || token.kind = .documentStart || token.kind = .documentEnd ||
      token.kind = .streamEnd then
    r.giveEmpty token.start
  else r.node true false

def documentEnd (r : Reader) : Step := do
  let token ← r.peek
  let r := if token.kind = .documentEnd then r.pass else r
  (r.aim (.document false)).give .documentEnd token.start

/-! Block collections -/

/-- The token that opened a collection is passed before its first entry. -/
def passOpening (r : Reader) (isFirst : Bool) : Reader :=
  if isFirst then r.pass else r

def blockSequence (r : Reader) (isFirst : Bool) : Step := do
  let r := r.passOpening isFirst
  let token ← r.peek
  match token.kind with
  | .blockEntry =>
    let r := r.pass
    let next ← r.peek
    let r := r.aim (.blockSequence false)
    if next.kind = .blockEntry || next.kind = .blockEnd then r.giveEmpty token.stop
    else r.node true false
  | .blockEnd => r.pass.give .sequenceEnd token.start
  | _ => throw .blockEntryExpected

def indentlessSequence (r : Reader) : Step := do
  let token ← r.peek
  if token.kind = .blockEntry then
    let r := r.pass
    let next ← r.peek
    let r := r.aim .indentlessSequence
    if next.kind = .blockEntry || next.kind = .key || next.kind = .value ||
        next.kind = .blockEnd then r.giveEmpty token.stop
    else r.node true false
  else r.give .sequenceEnd token.start

/-- Whether nothing is written for a key or value of a block mapping. -/
def endsBlockPart (kind : Token.Kind) : Bool :=
  kind = .key || kind = .value || kind = .blockEnd

def blockMappingKey (r : Reader) (isFirst : Bool) : Step := do
  let r := r.passOpening isFirst
  let token ← r.peek
  match token.kind with
  | .key =>
    let r := r.pass
    let next ← r.peek
    let r := r.aim .blockMappingValue
    if endsBlockPart next.kind then r.giveEmpty token.stop else r.node true true
  | .blockEnd => r.pass.give .mappingEnd token.start
  | _ => throw .blockKeyExpected

def blockMappingValue (r : Reader) : Step := do
  let token ← r.peek
  if token.kind = .value then
    let r := r.pass
    let next ← r.peek
    let r := r.aim (.blockMappingKey false)
    if endsBlockPart next.kind then r.giveEmpty token.stop else r.node true true
  else (r.aim (.blockMappingKey false)).giveEmpty token.start

/-! Flow collections -/

/-- Between two entries a comma has to stand. -/
def passSeparator (r : Reader) (isFirst : Bool) (missing : Malformed) :
    Except Malformed Reader := do
  let token ← r.peek
  if isFirst then return r
  if token.kind = .flowEntry then return r.pass
  throw missing

/-- An entry of a flow sequence with a key is a mapping of one pair. -/
def flowSequence (r : Reader) (isFirst : Bool) : Step := do
  let r := r.passOpening isFirst
  let token ← r.peek
  if token.kind = .flowSequenceEnd then return ← r.pass.give .sequenceEnd token.start
  let r ← r.passSeparator isFirst .flowSequenceSeparator
  let token ← r.peek
  if token.kind = .key then
    (r.pass.aim (.flowSequence false) |>.aim .flowPairKey).give (.mappingStart none none)
      token.start
  else if token.kind = .flowSequenceEnd then r.pass.give .sequenceEnd token.start
  else (r.aim (.flowSequence false)).node false false

/-- Where the key is missing, the token that shows it is lost. -/
def flowPairKey (r : Reader) : Step := do
  let token ← r.peek
  if token.kind = .value || token.kind = .flowEntry || token.kind = .flowSequenceEnd then
    (r.pass.aim .flowPairValue).giveEmpty token.stop
  else (r.aim .flowPairValue).node false false

def flowPairValue (r : Reader) : Step := do
  let token ← r.peek
  if token.kind = .value then
    let r := r.pass
    let next ← r.peek
    let r := r.aim .flowPairEnd
    if next.kind = .flowEntry || next.kind = .flowSequenceEnd then r.giveEmpty next.start
    else r.node false false
  else (r.aim .flowPairEnd).giveEmpty token.start

def flowPairEnd (r : Reader) : Step := do
  let token ← r.peek
  r.give .mappingEnd token.start

def flowMappingKey (r : Reader) (isFirst : Bool) : Step := do
  let r := r.passOpening isFirst
  let token ← r.peek
  if token.kind = .flowMappingEnd then return ← r.pass.give .mappingEnd token.start
  let r ← r.passSeparator isFirst .flowMappingSeparator
  let token ← r.peek
  if token.kind = .key then
    let r := r.pass
    let next ← r.peek
    let r := r.aim .flowMappingValue
    if next.kind = .value || next.kind = .flowEntry || next.kind = .flowMappingEnd then
      r.giveEmpty next.start
    else r.node false false
  else if token.kind = .flowMappingEnd then r.pass.give .mappingEnd token.start
  else (r.aim .flowMappingNoValue).node false false

def flowMappingValue (r : Reader) : Step := do
  let token ← r.peek
  let after := r.aim (.flowMappingKey false)
  if token.kind = .value then
    let next ← r.pass.peek
    let after := after.pass
    if next.kind = .flowEntry || next.kind = .flowMappingEnd then after.giveEmpty next.start
    else after.node false false
  else after.giveEmpty token.start

def flowMappingNoValue (r : Reader) : Step := do
  let token ← r.peek
  (r.aim (.flowMappingKey false)).giveEmpty token.start

def step (r : Reader) : Goal → Step
  | .document isFirst => r.document isFirst
  | .documentContent => r.documentContent
  | .documentEnd => r.documentEnd
  | .blockNode => r.node true false
  | .blockSequence isFirst => r.blockSequence isFirst
  | .indentlessSequence => r.indentlessSequence
  | .blockMappingKey isFirst => r.blockMappingKey isFirst
  | .blockMappingValue => r.blockMappingValue
  | .flowSequence isFirst => r.flowSequence isFirst
  | .flowPairKey => r.flowPairKey
  | .flowPairValue => r.flowPairValue
  | .flowPairEnd => r.flowPairEnd
  | .flowMappingKey isFirst => r.flowMappingKey isFirst
  | .flowMappingValue => r.flowMappingValue
  | .flowMappingNoValue => r.flowMappingNoValue

end Reader

/-- The events of a text up to the end of the stream, or up to what is malformed. -/
structure Events where
  list : List Event
  problem : Option Malformed
deriving Repr

namespace Events

def collect : Nat → Reader → Events
  | 0, _ => ⟨[], none⟩
  | fuel + 1, r =>
    match r.goals with
    | [] => ⟨[], none⟩
    | goal :: goals =>
      match { r with goals := goals }.step goal with
      | .error problem => ⟨[], some problem⟩
      | .ok (event, r) =>
        let more := collect fuel r
        ⟨event :: more.list, more.problem⟩

/-- A token gives at most four events. -/
def ofTokens (tokens : Tokens) : Events :=
  collect (4 * tokens.list.length + 4)
    ⟨tokens.list.tail, tokens.problem, [.document true], Reader.standardHandles⟩

def ofText (text : List Char) : Events :=
  ofTokens (.ofText text)

end Events

end StackTemplate.Yaml
