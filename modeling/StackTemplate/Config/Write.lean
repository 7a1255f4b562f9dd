import StackTemplate.Config.Basic
import StackTemplate.Yaml.Data.Print

/-!
Configurations as YAML.
-/

namespace StackTemplate

open Yaml (Data)

def ParserConfig.toData (config : ParserConfig) : Data :=
  .mapping <| [(.str "prefer_native", .bool config.preferNative)] ++
    (config.assetBaseDir.map fun dir => (Data.str "asset_base_dir", Data.str dir)).toList ++
    [(.str "load_attempts", .number (.int config.loadAttempts)),
      (.str "load_backoff_ms", .number (.int config.loadBackoffMs))]

def ValueParserConfig.toData (config : ValueParserConfig) : Data :=
  .mapping [(.str "max_recovery_attempts", .number (.int config.maxRecoveryAttempts))]

def ModelConfig.toData (config : ModelConfig) : Data :=
  .mapping [(.str "version", .number (.int config.version)),
    (.str "parser", config.parser.toData), (.str "values", config.values.toData)]

/-- No key hides that a mapping starts, so the text is always there. -/
def ModelConfig.toYaml (config : ModelConfig) : String :=
  String.ofList (config.toData.print?.getD [])

end StackTemplate
