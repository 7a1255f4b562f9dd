import StackTemplate.Grammar.Slot

/-!
Portable grammars: where they come from, and one slot for each format.
-/

namespace StackTemplate

structure PortableBackend (Grammar : Type := Unit) where
  /-- What each call for a format brings; calls count from zero. -/
  fetch : Format → Nat → Except LoadError ByteArray
  install : Format → ByteArray → Except LoadError Grammar
  /-- Readies a parser before a portable grammar is used with it. -/
  prepare : Except LoadError Unit

namespace PortableBackend

/-- One attempt of a load. -/
def attempt {Grammar : Type} (backend : PortableBackend Grammar) (format : Format) (call : Nat) :
    AttemptResult Grammar :=
  backend.fetch format call >>= backend.install format

end PortableBackend

structure PortableGrammars where
  policy : RetryPolicy
  yaml : GrammarSlot
  json : GrammarSlot

namespace PortableGrammars

def empty (policy : RetryPolicy) : PortableGrammars :=
  ⟨policy, .empty, .empty⟩

def slot (grammars : PortableGrammars) : Format → GrammarSlot
  | .yaml => grammars.yaml
  | .json => grammars.json

def update (grammars : PortableGrammars) (format : Format) (f : GrammarSlot → GrammarSlot) :
    PortableGrammars :=
  match format with
  | .yaml => { grammars with yaml := f grammars.yaml }
  | .json => { grammars with json := f grammars.json }

/-- Something that happens in the slot of a format. -/
structure Event where
  format : Format
  event : GrammarSlot.Event

def step (grammars : PortableGrammars) (event : Event) : PortableGrammars :=
  grammars.update event.format (·.step grammars.policy event.format event.event)

def run (grammars : PortableGrammars) (events : List Event) : PortableGrammars :=
  events.foldl step grammars

def language? (grammars : PortableGrammars) (format : Format) : LoadOutcome :=
  (grammars.slot format).outcome?.getD (.error (.notReady format))

def readiness (grammars : PortableGrammars) (format : Format) : Readiness :=
  (grammars.slot format).readiness

/-- A request for a format that nothing else disturbs. -/
def load (grammars : PortableGrammars) (backend : PortableBackend) (format : Format) :
    PortableGrammars :=
  grammars.update format (·.load grammars.policy format (backend.attempt format))

@[simp] theorem policy_update (grammars : PortableGrammars) (format : Format)
    (f : GrammarSlot → GrammarSlot) : (grammars.update format f).policy = grammars.policy := by
  cases format <;> rfl

theorem slot_update_self (grammars : PortableGrammars) (format : Format)
    (f : GrammarSlot → GrammarSlot) :
    (grammars.update format f).slot format = f (grammars.slot format) := by
  cases format <;> rfl

theorem slot_update_of_ne (grammars : PortableGrammars) {format other : Format}
    (f : GrammarSlot → GrammarSlot) (h : other ≠ format) :
    (grammars.update format f).slot other = grammars.slot other := by
  cases format <;> cases other <;> first | rfl | exact absurd rfl h

end PortableGrammars

end StackTemplate
