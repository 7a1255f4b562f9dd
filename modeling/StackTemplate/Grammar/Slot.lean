import StackTemplate.Grammar.Error
import StackTemplate.Grammar.Retry

/-!
The place of one portable grammar. The first request that gets its turn loads the grammar, requests
that come meanwhile wait, and what the load comes to is kept for all of them.
-/

namespace StackTemplate

/-- What one attempt brings. Where the format tells the grammar, nothing more is kept of it. -/
abbrev AttemptResult (Grammar : Type := Unit) := Except LoadError Grammar

abbrev LoadOutcome (Grammar : Type := Unit) := Except ParserError Grammar

/-- Where a load is; attempts count from one. -/
inductive LoadPhase where
  | trying (attempt : Nat)
  /-- The attempt failed and another one is to come. -/
  | pausing (attempt : Nat)

inductive RequestState (Grammar : Type := Unit) where
  | waiting
  | loading (phase : LoadPhase)
  | answered (outcome : LoadOutcome Grammar)

namespace RequestState

def isLoading {Grammar : Type} : RequestState Grammar → Bool
  | loading _ => true
  | _ => false

end RequestState

/-- The place of a request in the order in which requests came. -/
abbrev RequestId := Nat

structure GrammarSlot (Grammar : Type := Unit) where
  outcome? : Option (LoadOutcome Grammar)
  requests : List (RequestState Grammar)
  /-- How often the loader was called. -/
  calls : Nat
  /-- The pauses between attempts so far. -/
  pauses : List Duration

inductive Readiness where
  | ready
  | loading
  | failed
deriving DecidableEq, Repr

namespace GrammarSlot

variable {Grammar : Type}

def empty : GrammarSlot Grammar := ⟨none, [], 0, []⟩

def readiness (slot : GrammarSlot Grammar) : Readiness :=
  match slot.outcome? with
  | some (.ok _) => .ready
  | some (.error _) => .failed
  | none => .loading

/-- The number of loads that are under way. -/
def inFlight (slot : GrammarSlot Grammar) : Nat :=
  slot.requests.countP RequestState.isLoading

def put (slot : GrammarSlot Grammar) (id : RequestId) (state : RequestState Grammar) :
    GrammarSlot Grammar :=
  { slot with requests := slot.requests.set id state }

inductive Event (Grammar : Type := Unit) where
  | arrives
  /-- A request that waits gets its turn. -/
  | turn (id : RequestId)
  | attemptEnds (id : RequestId) (result : AttemptResult Grammar)
  | pauseEnds (id : RequestId)

def startAttempt (slot : GrammarSlot Grammar) (id : RequestId) (attempt : Nat) :
    GrammarSlot Grammar :=
  { slot.put id (.loading (.trying attempt)) with calls := slot.calls + 1 }

/-- An outcome that is there is the answer. Otherwise the request loads, but not beside another. -/
def takeTurn (slot : GrammarSlot Grammar) (id : RequestId) : GrammarSlot Grammar :=
  match slot.requests[id]? with
  | some .waiting =>
    match slot.outcome? with
    | some outcome => slot.put id (.answered outcome)
    | none => if slot.inFlight = 0 then slot.startAttempt id 1 else slot
  | _ => slot

/-- The outcome is kept, and it is the answer to the request that loaded. -/
def finish (slot : GrammarSlot Grammar) (id : RequestId) (outcome : LoadOutcome Grammar) :
    GrammarSlot Grammar :=
  { slot.put id (.answered outcome) with outcome? := some outcome }

def pause (policy : RetryPolicy) (slot : GrammarSlot Grammar) (id : RequestId) (attempt : Nat) :
    GrammarSlot Grammar :=
  { slot.put id (.loading (.pausing attempt)) with
    pauses := slot.pauses ++ [policy.pauseAfter attempt] }

/-- A failure of the last attempt is final. -/
def endAttempt (policy : RetryPolicy) (format : Format) (slot : GrammarSlot Grammar) (id : RequestId)
    (result : AttemptResult Grammar) : GrammarSlot Grammar :=
  match slot.requests[id]? with
  | some (.loading (.trying attempt)) =>
    match result with
    | .ok grammar => slot.finish id (.ok grammar)
    | .error e =>
      if attempt < policy.attempts then slot.pause policy id attempt
      else slot.finish id (.error (.loadFailed format policy.attempts e))
  | _ => slot

def endPause (slot : GrammarSlot Grammar) (id : RequestId) : GrammarSlot Grammar :=
  match slot.requests[id]? with
  | some (.loading (.pausing attempt)) => slot.startAttempt id (attempt + 1)
  | _ => slot

/-- What is not possible has no effect. -/
def step (policy : RetryPolicy) (format : Format) (slot : GrammarSlot Grammar) :
    Event Grammar → GrammarSlot Grammar
  | .arrives => { slot with requests := slot.requests ++ [.waiting] }
  | .turn id => slot.takeTurn id
  | .attemptEnds id result => slot.endAttempt policy format id result
  | .pauseEnds id => slot.endPause id

/-- The next thing that happens to the load of a request by itself, when `result` is what each call
of the loader brings; calls count from zero. -/
def next? (result : Nat → AttemptResult Grammar) (slot : GrammarSlot Grammar) (id : RequestId) :
    Option (Event Grammar) :=
  match slot.requests[id]? with
  | some (.loading (.trying _)) => some (.attemptEnds id (result (slot.calls - 1)))
  | some (.loading (.pausing _)) => some (.pauseEnds id)
  | _ => none

/-- Follows the load of a request, at most `fuel` steps. -/
def follow (policy : RetryPolicy) (format : Format) (result : Nat → AttemptResult Grammar)
    (id : RequestId) : Nat → GrammarSlot Grammar → GrammarSlot Grammar
  | 0, slot => slot
  | fuel + 1, slot =>
    match slot.next? result id with
    | some event => follow policy format result id fuel (slot.step policy format event)
    | none => slot

/-- One more request, which gets its turn at once. If it loads, then it does so to the end: every
attempt takes one step, and so does every pause. -/
def load (policy : RetryPolicy) (format : Format) (result : Nat → AttemptResult Grammar)
    (slot : GrammarSlot Grammar) : GrammarSlot Grammar :=
  let id := slot.requests.length
  let slot := (slot.step policy format .arrives).step policy format (.turn id)
  slot.follow policy format result id (2 * policy.attempts)

end GrammarSlot

end StackTemplate
