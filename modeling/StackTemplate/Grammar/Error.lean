import StackTemplate.Document

/-!
Why there is no grammar or no parser for a format, in words.
-/

namespace StackTemplate

inductive FileFault where
  | absent
  | denied
  | other
deriving DecidableEq, Repr

inductive LoadError where
  | notFound (reason : String)
  | unreadable (reason : String)
  | rejected (reason : String)
deriving DecidableEq, Repr

namespace LoadError

def ofFileFault (fault : FileFault) (reason : String) : LoadError :=
  match fault with
  | .absent => notFound reason
  | _ => unreadable reason

def message : LoadError → String
  | notFound reason => s!"grammar asset not found: {reason}"
  | unreadable reason => s!"grammar asset could not be read: {reason}"
  | rejected reason => s!"portable runtime rejected grammar: {reason}"

end LoadError

inductive ParserError where
  | unavailable (format : Format) (reason : String)
  | notReady (format : Format)
  | loadFailed (format : Format) (attempts : Nat) (reason : LoadError)
  | disposed
  | language (reason : String)
deriving DecidableEq, Repr

namespace ParserError

def message : ParserError → String
  | unavailable format reason => s!"no parser backend available for {format.name}: {reason}"
  | notReady format => s!"{format.name} grammar is still loading"
  | loadFailed format attempts reason =>
    s!"{format.name} grammar failed to load after {attempts} attempt(s): {reason.message}"
  | disposed => "parser provider has been disposed"
  | language reason => s!"language error: {reason}"

end ParserError

end StackTemplate
