import StackTemplate.Config.Basic
import StackTemplate.Grammar.Portable
import StackTemplate.Syntax.Tree

/-!
Hands out parsers. Built-in grammars come first; when they are not to be had, portable ones are
loaded, each once; without either, every request fails.
-/

namespace StackTemplate

/-- The parsing engine: every text of a format has a tree. -/
abbrev Engine := Format → String → Syntax.Node

inductive BackendKind where
  | native
  | portable
deriving DecidableEq, Repr

def BackendKind.label : BackendKind → String
  | native => "Native"
  | portable => "Portable"

structure ParserHandle where
  format : Format
  backend : BackendKind
  prepare : Except LoadError Unit
  parseText : String → Syntax.Node

namespace ParserHandle

def debugText (handle : ParserHandle) : String :=
  s!"ParserHandle \x7b format: {handle.format.label}, backend: {handle.backend.label} \x7d"

/-- The tree of a document, which has to be of the format of the handle. -/
def parse (handle : ParserHandle) (document : Document) : Except ParserError SyntaxTree :=
  if handle.format ≠ document.format then
    .error (.language
      s!"{handle.format.name} parser cannot parse a {document.format.name} document")
  else
    match handle.prepare with
    | .error e => .error (.language e.message)
    | .ok () => .ok ⟨document, handle.parseText document.text⟩

end ParserHandle

inductive Backend where
  | native
  | portable (backend : PortableBackend)
  | unavailable (reason : String)

structure Provider where
  engine : Engine
  backend : Backend
  grammars : PortableGrammars
  /-- The loads that were started in the background and have not had their turn. -/
  background : List Format
  disposed : Bool

namespace Provider

def nativeDisabled : ParserError :=
  .unavailable .yaml "native backend disabled by configuration"

def nativeOf (config : ParserConfig) : Except ParserError Unit :=
  if config.preferNative then .ok () else .error nativeDisabled

def chooseBackend (native : Except ParserError Unit) (portable : Option PortableBackend) : Backend :=
  match native, portable with
  | .ok (), _ => .native
  | .error _, some backend => .portable backend
  | .error e, none => .unavailable e.message

/-- Starts the loads of both formats in the background; outside an asynchronous runtime they wait
for a request. -/
def startLoading (inRuntime : Bool) (provider : Provider) : Provider :=
  match provider.backend with
  | .portable _ =>
    if inRuntime && !provider.disposed then
      { provider with background := provider.background ++ Format.all }
    else provider
  | _ => provider

def ofBackends (engine : Engine) (config : ParserConfig) (native : Except ParserError Unit)
    (portable : Option PortableBackend) (inRuntime : Bool) : Provider :=
  startLoading inRuntime {
    engine := engine
    backend := chooseBackend native portable
    grammars := .empty (.ofLimits config.loadAttempts config.loadBackoffMs)
    background := []
    disposed := false }

/-- The provider of a session, which has no portable grammars to fall back to. -/
def ofConfig (engine : Engine) (config : ParserConfig) : Provider :=
  ofBackends engine config (nativeOf config) none false

def backendKind? (provider : Provider) : Option BackendKind :=
  if provider.disposed then none
  else match provider.backend with
    | .native => some .native
    | .portable _ => some .portable
    | .unavailable _ => none

def readiness (provider : Provider) (format : Format) : Readiness :=
  if provider.disposed then .failed
  else match provider.backend with
    | .native => .ready
    | .portable _ => provider.grammars.readiness format
    | .unavailable _ => .failed

def get (provider : Provider) (format : Format) : Except ParserError ParserHandle :=
  if provider.disposed then .error .disposed
  else match provider.backend with
    | .native => .ok ⟨format, .native, .ok (), provider.engine format⟩
    | .portable backend =>
      (provider.grammars.language? format).map fun () =>
        ⟨format, .portable, backend.prepare, provider.engine format⟩
    | .unavailable reason => .error (.unavailable format reason)

def load (provider : Provider) (format : Format) : Provider :=
  match provider.backend with
  | .portable backend =>
    { provider with grammars := provider.grammars.load backend format }
  | _ => provider

def getWaiting (provider : Provider) (format : Format) :
    Except ParserError ParserHandle × Provider :=
  let provider := if provider.disposed then provider else provider.load format
  (provider.get format, provider)

/-- Lets all background loads come to their end, even when the provider is disposed of. -/
def settle (provider : Provider) : Provider :=
  { provider.background.foldl load provider with background := [] }

def dispose (provider : Provider) : Provider :=
  { provider with disposed := true }

def calls (provider : Provider) (format : Format) : Nat :=
  (provider.grammars.slot format).calls

def parse (provider : Provider) (document : Document) : Except ParserError SyntaxTree :=
  (provider.get document.format).bind (·.parse document)

def parseWaiting (provider : Provider) (document : Document) :
    Except ParserError SyntaxTree × Provider :=
  let (handle, provider) := provider.getWaiting document.format
  (handle.bind (·.parse document), provider)

end Provider

end StackTemplate
