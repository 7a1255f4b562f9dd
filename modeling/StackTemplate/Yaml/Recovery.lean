import StackTemplate.Text.Lines
import StackTemplate.Yaml.Data.Read
import StackTemplate.Yaml.Data.Value

/-!
Reading YAML that is being typed. A key without its colon makes a whole text unreadable, so the line
that a missing colon is blamed on is left out and the text read again, a bounded number of times.
-/

namespace StackTemplate.Yaml

/-- What follows the first occurrence of a phrase at which `accept` finds something. -/
def findAfter? {α : Type} (phrase : List Char) (accept : List Char → Option α) :
    List Char → Option α
  | [] => none
  | c :: rest =>
    match if phrase.isPrefixOf (c :: rest) then accept ((c :: rest).drop phrase.length) else none with
    | some a => some a
    | none => findAfter? phrase accept rest

def missingPhrase : List Char :=
  "could not find expected ':'".toList

def keyLinePhrase : List Char :=
  "while scanning a simple key at line ".toList

/-- The number at the start of a text, if there is one. It counts as none when it is too large or has
digits of other scripts. -/
def leadingNumber? (text : List Char) : Option (Option Nat) :=
  let digits := text.takeWhile Text.isAnyDigit
  if digits.isEmpty then none
  else if digits.all Text.isDigit then
    some (some (Text.decimalValue digits) |>.filter (· < Nat.pow 2 64))
  else some none

/-- What a load that fails tells: a message, and the line of the place that it names, if any. -/
structure Report where
  message : String
  line? : Option Nat

/-- A message that speaks of a missing colon tells the line of the key it misses; where it does not,
the line of the problem counts. -/
def Report.lineToDrop? (r : Report) : Option Nat :=
  let message := r.message.toList
  match findAfter? missingPhrase (fun _ => some ()) message with
  | none => none
  | some () => ((findAfter? keyLinePhrase leadingNumber? message).bind id).or r.line?

namespace Problem

def report (p : Problem) : Report :=
  ⟨p.message, p.line?⟩

def lineToDrop? (p : Problem) : Option Nat :=
  p.report.lineToDrop?

end Problem

/-- Reads the first document of a text, leaving out at most `budget` lines. To load a text may be any
computation. -/
def recover? {m : Type → Type} [Monad m] (load : List Char → m (Except Report Data)) :
    Nat → List Char → m (Option Value)
  | 0, text => do
    match ← load text with
    | .ok data => return some data.toValue
    | .error _ => return none
  | budget + 1, text => do
    match ← load text with
    | .ok data => return some data.toValue
    | .error report =>
      match report.lineToDrop?.bind (Text.dropLine text) with
      | some next => recover? load budget next
      | none => return none

/-- What comes out where loading is a mere function of the text. -/
def recovered? (load : List Char → Except Report Data) (budget : Nat) (text : List Char) :
    Option Value :=
  Id.run (recover? (m := Id) load budget text)

def Data.load (text : List Char) : Except Report Data :=
  (ofText text).mapError Problem.report

def parse? (budget : Nat) (text : List Char) : Option Value :=
  recovered? Data.load budget text

section Equations

variable {load : List Char → Except Report Data} {budget : Nat} {text : List Char}

theorem recovered?_of_ok {data : Data} (h : load text = .ok data) :
    recovered? load budget text = some data.toValue := by
  cases budget <;>
    rw [recovered?, recover?, h] <;>
    rfl

theorem recovered?_zero {report : Report} (h : load text = .error report) :
    recovered? load 0 text = none := by
  rw [recovered?, recover?, h]
  rfl

theorem recovered?_succ {report : Report} (h : load text = .error report) :
    recovered? load (budget + 1) text =
      (report.lineToDrop?.bind (Text.dropLine text)).bind (recovered? load budget) := by
  rw [recovered?, recover?, h]
  change Id.run (match report.lineToDrop?.bind (Text.dropLine text) with
    | some next => recover? load budget next
    | none => pure none) = _
  cases report.lineToDrop?.bind (Text.dropLine text) <;> rfl

end Equations

end StackTemplate.Yaml
