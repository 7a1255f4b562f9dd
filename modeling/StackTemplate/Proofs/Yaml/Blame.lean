import StackTemplate.Proofs.Yaml.KeyMarks
import StackTemplate.Yaml.Event

/-!
Which problems reading the tokens can end in: that of the tokens themselves, where they stop, or one
of its own, and a missing colon is none of these.
-/

namespace StackTemplate.Yaml

namespace Reader

/-- The problem that the tokens stop at, or one that is no missing colon. -/
def Blames (behind : Option Malformed) (e : Malformed) : Prop :=
  behind = some e ∨ e.isMissingColon = false

/-- A step takes tokens away but keeps what they stop at. -/
def Steps (behind : Option Malformed) : Step → Prop :=
  Yields (Blames behind) fun found => found.2.problem = behind

variable {r : Reader}

theorem yields_peek (r : Reader) : Yields (Blames r.problem) (fun _ => True) r.peek := by
  unfold peek
  split
  · trivial
  · cases hp : r.problem with
    | none => exact .inr rfl
    | some e => exact .inl rfl

theorem steps_give (r : Reader) (kind : Event.Kind) (mark : Mark) :
    Steps r.problem (r.give kind mark) :=
  rfl

theorem steps_giveEmpty (r : Reader) (mark : Mark) : Steps r.problem (r.giveEmpty mark) :=
  rfl

/-! Nodes -/

theorem yields_properties (r : Reader) :
    Yields (Blames r.problem) (fun found => found.2.problem = r.problem) r.properties := by
  apply (yields_peek r).bind
  intro first _
  split
  · apply (yields_peek r.pass).bind
    intro second _
    split <;> rfl
  · apply (yields_peek r.pass).bind
    intro second _
    split <;> rfl
  · rfl

theorem yields_resolveTag (r : Reader) (handle : List Char) (suffix : TagChars) :
    Yields (Blames r.problem) (fun _ => True) (r.resolveTag handle suffix) := by
  refine .ite (fun _ => trivial) fun _ => ?_
  split
  · trivial
  · exact .inr rfl

theorem yields_resolvedTag (r : Reader) (tag : Option (List Char × TagChars)) :
    Yields (Blames r.problem) (fun _ => True)
      (tag.mapM fun (handle, suffix) => r.resolveTag handle suffix) := by
  cases tag with
  | none => trivial
  | some tag => exact (yields_resolveTag r tag.1 tag.2).map fun _ _ => trivial

theorem steps_node (r : Reader) (block indentless : Bool) :
    Steps r.problem (r.node block indentless) := by
  apply (yields_peek r).bind
  intro first _
  dsimp only
  split
  · exact steps_give _ _ _
  · apply (yields_properties r).bind
    rintro ⟨props, after⟩ hafter
    rw [← show after.problem = r.problem from hafter]
    apply (yields_peek after).bind
    intro token _
    apply (yields_resolvedTag after props.tag).bind
    intro tag _
    have hempty : Steps after.problem
        (if props.anchor.isSome || tag.isSome then
          after.give (.scalar props.anchor tag [] .plain) first.start
        else throw .nodeContent) :=
      .ite (fun _ => steps_give _ _ _) fun _ => .inr rfl
    split
    · exact .ite (fun _ => steps_give _ _ _) fun _ => hempty
    · exact steps_give _ _ _
    · exact steps_give _ _ _
    · exact steps_give _ _ _
    · exact .ite (fun _ => steps_give _ _ _) fun _ => hempty
    · exact .ite (fun _ => steps_give _ _ _) fun _ => hempty
    · exact hempty

/-! Documents -/

theorem yields_directives (behind : Option Malformed) (tokens : List Token) (versioned : Bool)
    (handles : List (List Char × TagChars)) :
    Yields (Blames behind) (fun _ => True) (directives tokens versioned handles) := by
  induction tokens generalizing versioned handles with
  | nil => trivial
  | cons token rest ih =>
    unfold directives
    split
    · refine .ite (fun _ => .inr rfl) fun _ => ?_
      exact .ite (fun _ => ih _ _) fun _ => .inr rfl
    · exact .ite (fun _ => .inr rfl) fun _ => ih _ _
    · trivial

theorem steps_openDocument (r : Reader) (isFirst : Bool) : Steps r.problem (do
    let token ← r.peek
    if token.kind = .streamEnd then return ← r.pass.give .streamEnd token.start
    if isFirst && !(isDirective token.kind || token.kind = .documentStart) then
      return ← (({ r with handles := standardHandles }.aim .documentEnd).aim .blockNode).give
        .documentStart token.start
    let (tokens, handles) ← directives r.tokens false []
    let r := { r with tokens := tokens, handles := handles }
    let next ← r.peek
    if next.kind ≠ .documentStart then throw .documentStart
    ((r.pass.aim .documentEnd).aim .documentContent).give .documentStart token.start) := by
  apply (yields_peek r).bind
  intro token _
  refine .ite (fun _ => steps_give _ _ _) fun _ => ?_
  refine .ite (fun _ => steps_give _ _ _) fun _ => ?_
  apply (yields_directives r.problem r.tokens false []).bind
  rintro ⟨tokens, handles⟩ -
  apply (yields_peek { r with tokens := tokens, handles := handles }).bind
  intro next _
  exact .ite (fun _ => .inr rfl) fun _ => steps_give _ _ _

theorem steps_document (r : Reader) (isFirst : Bool) : Steps r.problem (r.document isFirst) := by
  cases isFirst with
  | true => exact r.steps_openDocument true
  | false => exact r.passDocumentEnds.steps_openDocument false

theorem steps_documentContent (r : Reader) : Steps r.problem r.documentContent := by
  apply (yields_peek r).bind
  intro token _
  exact .ite (fun _ => steps_giveEmpty _ _) fun _ => r.steps_node true false

theorem steps_documentEnd (r : Reader) : Steps r.problem r.documentEnd := by
  apply (yields_peek r).bind
  intro token _
  dsimp only
  split
  · exact steps_give _ _ _
  · exact steps_give _ _ _

/-! Block collections -/

theorem problem_passOpening (r : Reader) (isFirst : Bool) :
    (r.passOpening isFirst).problem = r.problem := by
  cases isFirst <;> rfl

theorem steps_blockSequence (r : Reader) (isFirst : Bool) :
    Steps r.problem (r.blockSequence isFirst) := by
  rw [← r.problem_passOpening isFirst]
  apply (yields_peek _).bind
  intro token _
  split
  · apply (yields_peek (r.passOpening isFirst).pass).bind
    intro next _
    exact .ite (fun _ => steps_giveEmpty _ _) fun _ => steps_node _ _ _
  · exact steps_give _ _ _
  · exact .inr rfl

theorem steps_indentlessSequence (r : Reader) : Steps r.problem r.indentlessSequence := by
  apply (yields_peek r).bind
  intro token _
  refine .ite (fun _ => ?_) fun _ => steps_give _ _ _
  apply (yields_peek r.pass).bind
  intro next _
  exact .ite (fun _ => steps_giveEmpty _ _) fun _ => steps_node _ _ _

theorem steps_blockMappingKey (r : Reader) (isFirst : Bool) :
    Steps r.problem (r.blockMappingKey isFirst) := by
  rw [← r.problem_passOpening isFirst]
  apply (yields_peek _).bind
  intro token _
  split
  · apply (yields_peek (r.passOpening isFirst).pass).bind
    intro next _
    exact .ite (fun _ => steps_giveEmpty _ _) fun _ => steps_node _ _ _
  · exact steps_give _ _ _
  · exact .inr rfl

theorem steps_blockMappingValue (r : Reader) : Steps r.problem r.blockMappingValue := by
  apply (yields_peek r).bind
  intro token _
  refine .ite (fun _ => ?_) fun _ => steps_giveEmpty _ _
  apply (yields_peek r.pass).bind
  intro next _
  exact .ite (fun _ => steps_giveEmpty _ _) fun _ => steps_node _ _ _

/-! Flow collections -/

theorem yields_passSeparator (r : Reader) (isFirst : Bool) {missing : Malformed}
    (hmissing : missing.isMissingColon = false) :
    Yields (Blames r.problem) (·.problem = r.problem) (r.passSeparator isFirst missing) := by
  apply (yields_peek r).bind
  intro token _
  refine .ite (fun _ => rfl) fun _ => ?_
  exact .ite (fun _ => rfl) fun _ => .inr hmissing

theorem steps_flowSequence (r : Reader) (isFirst : Bool) :
    Steps r.problem (r.flowSequence isFirst) := by
  rw [← r.problem_passOpening isFirst]
  apply (yields_peek _).bind
  intro token _
  refine .ite (fun _ => steps_give _ _ _) fun _ => ?_
  apply (yields_passSeparator _ isFirst rfl).bind
  intro entry hentry
  rw [← hentry]
  apply (yields_peek entry).bind
  intro next _
  refine .ite (fun _ => steps_give _ _ _) fun _ => ?_
  exact .ite (fun _ => steps_give _ _ _) fun _ => steps_node _ _ _

theorem steps_flowPairKey (r : Reader) : Steps r.problem r.flowPairKey := by
  apply (yields_peek r).bind
  intro token _
  exact .ite (fun _ => steps_giveEmpty _ _) fun _ => steps_node _ _ _

theorem steps_flowPairValue (r : Reader) : Steps r.problem r.flowPairValue := by
  apply (yields_peek r).bind
  intro token _
  refine .ite (fun _ => ?_) fun _ => steps_giveEmpty _ _
  apply (yields_peek r.pass).bind
  intro next _
  exact .ite (fun _ => steps_giveEmpty _ _) fun _ => steps_node _ _ _

theorem steps_flowPairEnd (r : Reader) : Steps r.problem r.flowPairEnd :=
  (yields_peek r).bind fun _ _ => steps_give _ _ _

theorem steps_flowMappingKey (r : Reader) (isFirst : Bool) :
    Steps r.problem (r.flowMappingKey isFirst) := by
  rw [← r.problem_passOpening isFirst]
  apply (yields_peek _).bind
  intro token _
  refine .ite (fun _ => steps_give _ _ _) fun _ => ?_
  apply (yields_passSeparator _ isFirst rfl).bind
  intro entry hentry
  rw [← hentry]
  apply (yields_peek entry).bind
  intro key _
  refine .ite (fun _ => ?_) fun _ => ?_
  · apply (yields_peek entry.pass).bind
    intro next _
    exact .ite (fun _ => steps_giveEmpty _ _) fun _ => steps_node _ _ _
  · exact .ite (fun _ => steps_give _ _ _) fun _ => steps_node _ _ _

theorem steps_flowMappingValue (r : Reader) : Steps r.problem r.flowMappingValue := by
  apply (yields_peek r).bind
  intro token _
  refine .ite (fun _ => ?_) fun _ => steps_giveEmpty _ _
  apply (yields_peek r.pass).bind
  intro next _
  exact .ite (fun _ => steps_giveEmpty _ _) fun _ => steps_node _ _ _

theorem steps_flowMappingNoValue (r : Reader) : Steps r.problem r.flowMappingNoValue :=
  (yields_peek r).bind fun _ _ => steps_giveEmpty _ _

theorem steps_step (r : Reader) (goal : Goal) : Steps r.problem (r.step goal) := by
  cases goal with
  | document isFirst => exact r.steps_document isFirst
  | documentContent => exact r.steps_documentContent
  | documentEnd => exact r.steps_documentEnd
  | blockNode => exact r.steps_node true false
  | blockSequence isFirst => exact r.steps_blockSequence isFirst
  | indentlessSequence => exact r.steps_indentlessSequence
  | blockMappingKey isFirst => exact r.steps_blockMappingKey isFirst
  | blockMappingValue => exact r.steps_blockMappingValue
  | flowSequence isFirst => exact r.steps_flowSequence isFirst
  | flowPairKey => exact r.steps_flowPairKey
  | flowPairValue => exact r.steps_flowPairValue
  | flowPairEnd => exact r.steps_flowPairEnd
  | flowMappingKey isFirst => exact r.steps_flowMappingKey isFirst
  | flowMappingValue => exact r.steps_flowMappingValue
  | flowMappingNoValue => exact r.steps_flowMappingNoValue

end Reader

namespace Events

theorem blames_of_collect {fuel : Nat} {r : Reader} {e : Malformed}
    (h : (collect fuel r).problem = some e) : Reader.Blames r.problem e := by
  induction fuel generalizing r with
  | zero => cases h
  | succ fuel ih =>
    unfold collect at h
    split at h
    · cases h
    · rename_i goal goals _
      have hstep := Reader.steps_step { r with goals := goals } goal
      split at h
      · rename_i hproblem
        rw [hproblem] at hstep
        cases h
        exact hstep
      · rename_i event next hnext
        rw [hnext] at hstep
        have hbehind : next.problem = r.problem := hstep
        rw [← hbehind]
        exact ih h

theorem keyIn_of_problem {text : List Char} {e : Malformed} (h : (ofText text).problem = some e) :
    e.KeyIn text := by
  rcases blames_of_collect h with htokens | hown
  · exact Tokens.keyIn_of_problem htokens
  · exact Malformed.keyIn_of_not_missingColon hown

end Events

end StackTemplate.Yaml
