import StackTemplate.Config.Basic
import StackTemplate.Yaml.Node
import StackTemplate.Yaml.Scalar

/-!
Configurations from YAML. The version is looked for first, in a reading that passes over all other
fields; the reading that follows refuses fields it does not know.
-/

namespace StackTemplate

namespace Yaml.LoadedDocument

def resolve (d : LoadedDocument) (node : Node) : Node :=
  match node with
  | .alias _ anchor => (d.target? anchor).getD .missing
  | _ => node

def fieldName? (d : LoadedDocument) (key : Node) : Option String :=
  match d.resolve key with
  | .scalar _ _ _ text => some (String.ofList text)
  | _ => none

/-- The fields of a record: a mapping, or a place where nothing is written. No field occurs twice
among those that count. -/
def fields? (d : LoadedDocument) (counts : String → Bool) (node : Node) :
    Option (List (String × Node)) :=
  match d.resolve node with
  | .mapping _ _ pairs => do
    let fields ← pairs.mapM fun (key, value) => (d.fieldName? key).map (·, value)
    let names := (fields.map (·.1)).filter counts
    if names.Nodup then some fields else none
  | .absent => some []
  | .scalar _ _ .plain [] => some []
  | _ => none

def exactFields? (d : LoadedDocument) (names : List String) (node : Node) :
    Option (List (String × Node)) :=
  (d.fields? (fun _ => true) node).filter fun fields => fields.all fun field => names.contains field.1

/-- The text of a scalar that may be typed: a plain one, or a literal one under the tag of the type. -/
def typedText? (d : LoadedDocument) (type : Tag) (node : Node) : Option (List Char) :=
  match d.resolve node with
  | .scalar _ _ .plain text => some text
  | .scalar _ (some tag) .literal text => if tag = type then some text else none
  | _ => none

def nat? (d : LoadedDocument) (limit : Nat) (node : Node) : Option Nat :=
  ((d.typedText? .int node).bind (Scalar.nat? (Nat.pow 2 64))).filter (· < limit)

def bool? (d : LoadedDocument) (node : Node) : Option Bool :=
  (d.typedText? .bool node).bind Scalar.bool?

def string? (d : LoadedDocument) (node : Node) : Option String :=
  match d.resolve node with
  | .scalar _ _ _ text => some (String.ofList text)
  | _ => none

/-- Reads a value that may be left open by a null; the tag of null allows nothing else. -/
def optional? {α : Type} (d : LoadedDocument) (read : Node → Option α) (node : Node) :
    Option (Option α) :=
  let node := d.resolve node
  match node with
  | .absent => some none
  | .scalar _ none .plain text =>
    if text.isEmpty || Scalar.isNull text then some none else (read node).map some
  | .scalar _ (some tag) .plain text =>
    if tag = .null then (if Scalar.isNull text then some none else none) else (read node).map some
  | _ => (read node).map some

def fieldOr? {α : Type} (fields : List (String × Node)) (name : String) (read : Node → Option α)
    (default : α) : Option α :=
  match fields.lookup name with
  | some node => read node
  | none => some default

def isWhole (d : LoadedDocument) : Bool :=
  d.problem.isNone && d.isOnly

end Yaml.LoadedDocument

open Yaml Yaml.LoadedDocument

def ParserConfig.ofNode? (d : LoadedDocument) (node : Yaml.Node) : Option ParserConfig := do
  let fields ← d.exactFields?
    ["prefer_native", "asset_base_dir", "load_attempts", "load_backoff_ms"] node
  return {
    preferNative := ← fieldOr? fields "prefer_native" d.bool? true
    assetBaseDir := ← fieldOr? fields "asset_base_dir" (d.optional? d.string?) none
    loadAttempts := ← fieldOr? fields "load_attempts" (d.nat? (Nat.pow 2 32)) 3
    loadBackoffMs := ← fieldOr? fields "load_backoff_ms" (d.nat? (Nat.pow 2 64)) 200 }

def ValueParserConfig.ofNode? (d : LoadedDocument) (node : Yaml.Node) :
    Option ValueParserConfig := do
  let fields ← d.exactFields? ["max_recovery_attempts"] node
  return { maxRecoveryAttempts := ← fieldOr? fields "max_recovery_attempts" (d.nat? (Nat.pow 2 64)) 5 }

namespace ModelConfig

/-- The version, if one is given; all other fields are passed over unread. -/
def version? (d : LoadedDocument) : Option (Option Nat) := do
  let fields ← d.fields? (· = "version") d.root
  fieldOr? fields "version" (d.optional? (d.nat? (Nat.pow 2 32))) none

def ofDocument? (d : LoadedDocument) : Option ModelConfig := do
  let fields ← d.exactFields? ["version", "parser", "values"] d.root
  return {
    version := ← (fields.lookup "version").bind (d.nat? (Nat.pow 2 32))
    parser := ← fieldOr? fields "parser" (ParserConfig.ofNode? d) {}
    values := ← fieldOr? fields "values" (ValueParserConfig.ofNode? d) {} }

def ofYaml (text : String) : Except ConfigError ModelConfig := do
  let d := LoadedDocument.ofText text.toList
  if !d.isWhole then throw .malformed
  match version? d with
  | none => throw .malformed
  | some none => throw .missingVersion
  | some (some version) =>
    if version ∉ supportedVersions then throw (.unsupportedVersion version supportedVersions)
  match ofDocument? d with
  | none => throw .malformed
  | some config =>
    config.validate
    return config

/-- A file that does not exist has no text. -/
def ofFile (text : Option String) : Except ConfigError ModelConfig :=
  match text with
  | some text => ofYaml text
  | none => .error .unreadable

end ModelConfig

end StackTemplate
