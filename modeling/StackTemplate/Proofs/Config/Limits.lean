import StackTemplate.Config.Basic

/-!
What a configuration that is accepted is limited to.
-/

namespace StackTemplate

theorem ConfigError.checkRange_eq_ok_iff {field hint : String} {value min max : Nat} :
    checkRange field value min max hint = .ok () ↔ min ≤ value ∧ value ≤ max := by
  unfold checkRange
  split
  · have houtside : ¬(min ≤ value ∧ value ≤ max) := by omega
    simp [houtside]
  · have hinside : min ≤ value ∧ value ≤ max := by omega
    simp [hinside]

/-- Checks in a row are passed when each of them is. -/
theorem Except.seq_eq_ok_iff {ε : Type} {first second : Except ε Unit} :
    (first >>= fun _ => second) = .ok () ↔ first = .ok () ∧ second = .ok () := by
  cases first <;> simp [bind, Except.bind]

open ConfigError

theorem ParserConfig.validate_eq_ok_iff {config : ParserConfig} : config.validate = .ok () ↔
    (1 ≤ config.loadAttempts ∧ config.loadAttempts ≤ 10) ∧ config.loadBackoffMs ≤ 10000 := by
  rw [validate, Except.seq_eq_ok_iff, checkRange_eq_ok_iff, checkRange_eq_ok_iff]
  simp

theorem ValueParserConfig.validate_eq_ok_iff {config : ValueParserConfig} :
    config.validate = .ok () ↔ config.maxRecoveryAttempts ≤ 50 := by
  rw [validate, checkRange_eq_ok_iff]
  simp

theorem ModelConfig.validate_eq_ok_iff {config : ModelConfig} :
    config.validate = .ok () ↔ config.parser.validate = .ok () ∧ config.values.validate = .ok () :=
  Except.seq_eq_ok_iff

end StackTemplate
