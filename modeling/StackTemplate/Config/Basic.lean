/-!
Settings of a session, their defaults, and the ranges they have to keep.
-/

namespace StackTemplate

inductive ConfigError where
  | range (field value min max hint : String)
  | missingVersion
  | unsupportedVersion (found : Nat) (supported : List Nat)
  /-- The file cannot be read. -/
  | unreadable
  /-- The text is not the YAML of a configuration. -/
  | malformed
deriving DecidableEq, Repr

namespace ConfigError

def message : ConfigError → String
  | range field value min max hint =>
    s!"Invalid range for field '{field}': {value} not in {min}..={max}. {hint}"
  | missingVersion =>
    "Missing 'version' field in configuration file. Add 'version: 1' to the top of your YAML file."
  | unsupportedVersion found supported =>
    s!"Unsupported configuration version {found}. Supported versions: " ++
      ", ".intercalate (supported.map toString)
  | unreadable => "IO error"
  | malformed => "YAML parsing error"

end ConfigError

structure ParserConfig where
  preferNative : Bool := true
  assetBaseDir : Option String := none
  loadAttempts : Nat := 3
  loadBackoffMs : Nat := 200
deriving DecidableEq, Repr, Inhabited

structure ValueParserConfig where
  /-- The number of lines that may be left out of a text that misses a colon. -/
  maxRecoveryAttempts : Nat := 5
deriving DecidableEq, Repr, Inhabited

structure ModelConfig where
  version : Nat := 1
  parser : ParserConfig := {}
  values : ValueParserConfig := {}
deriving DecidableEq, Repr, Inhabited

namespace ConfigError

def checkRange (field : String) (value min max : Nat) (hint : String) : Except ConfigError Unit :=
  if value < min ∨ max < value then
    .error (range field (toString value) (toString min) (toString max) hint)
  else .ok ()

end ConfigError

namespace ParserConfig

def name : String := "ParserConfig"

def validate (config : ParserConfig) : Except ConfigError Unit := do
  ConfigError.checkRange "load_attempts" config.loadAttempts 1 10
    "At least one attempt is needed to load a portable grammar"
  ConfigError.checkRange "load_backoff_ms" config.loadBackoffMs 0 10000
    "Backoff grows linearly per attempt; keep the unit small"

end ParserConfig

namespace ValueParserConfig

def name : String := "ValueParserConfig"

def validate (config : ValueParserConfig) : Except ConfigError Unit :=
  ConfigError.checkRange "max_recovery_attempts" config.maxRecoveryAttempts 0 50
    "Each attempt drops one line; large values hide real errors"

/-- Settings that are not given are valid. -/
def validateOption : Option ValueParserConfig → Except ConfigError Unit
  | some config => config.validate
  | none => .ok ()

end ValueParserConfig

namespace ModelConfig

def name : String := "ModelConfig"

def supportedVersions : List Nat := [1]

def validate (config : ModelConfig) : Except ConfigError Unit := do
  config.parser.validate
  config.values.validate

end ModelConfig

end StackTemplate
