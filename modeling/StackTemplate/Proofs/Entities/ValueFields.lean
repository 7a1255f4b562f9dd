import StackTemplate.Proofs.Entities.Addresses
import StackTemplate.Proofs.Entities.TextFields
import StackTemplate.Proofs.Json.Occurrences

/-!
Fields of entities that hold values. Typing the raw value and going to a place in it can be done in
either order, so each field holds the typed value of its place.
-/

namespace StackTemplate

namespace Value

variable {v : Value}

/-! Places in typed values -/

theorem step?_of_isScalar (h : v.isScalar = true) (step : PathStep) : v.step? step = none := by
  cases v <;> first | rfl | cases h

theorem step?_key (v : Value) (key : String) : v.step? (.key key) = v.get? key := by
  cases v <;> rfl

theorem step?_normalize (v : Value) (step : PathStep) :
    v.normalize.step? step = (v.step? step).map normalize := by
  cases step with
  | key key => rw [step?_key, step?_key, get?_normalize]
  | index i =>
    by_cases hscalar : v.isScalar = true
    · rw [step?_of_isScalar hscalar, step?_of_isScalar (isScalar_normalize hscalar)]
      rfl
    · cases v with
      | array items =>
        rw [normalize, normalizeItems_eq_map]
        exact List.getElem?_map
      | object members => rfl
      | _ => exact absurd rfl hscalar

theorem follow?_normalize (v : Value) (path : PropertyPath) :
    v.normalize.follow? path = (v.follow? path).map normalize := by
  induction path generalizing v with
  | nil => rfl
  | cons step path ih =>
    rw [follow?, follow?, step?_normalize]
    cases v.step? step with
    | none => rfl
    | some w => exact ih w

theorem follow?_key (v : Value) (key : String) : v.follow? [.key key] = v.get? key := by
  rw [follow?, step?_key]
  exact Option.bind_fun_some _

theorem follow?_keys (v : Value) (key other : String) :
    v.follow? [.key key, .key other] = (v.get? key).bind (get? other) := by
  rw [follow?, step?_key]
  exact Option.bind_congr fun w _ => w.follow?_key other

end Value

open Value

namespace Entity

/-- The fields that hold values, each with the place of the raw entry that it tells of. -/
def valueFields : Entity → List (PropertyPath × Option Value)
  | .resource r =>
    [([.key "Properties"], r.properties), ([.key "Metadata"], r.metadata),
      ([.key "CreationPolicy"], r.creationPolicy), ([.key "UpdatePolicy"], r.updatePolicy)]
  | .parameter p => [([.key "Default"], p.default)]
  | .mapping _ => []
  | .condition c => [([], some c.expression)]
  | .output o => [([.key "Value"], o.value), ([.key "Export", .key "Name"], o.exportName)]
  | .rule r => [([.key "RuleCondition"], r.ruleCondition)]
  | .metadata m => [([], some m.value)]
  | .transform t => [([], some t.value)]

variable {s : Section} {id : String} {raw : Value}

theorem valueFields_build {field : PropertyPath × Option Value}
    (hm : field ∈ (build s id raw).valueFields) :
    field.2 = (raw.follow? field.1).map normalize := by
  have hall : ∀ paths : List PropertyPath, (build s id raw).valueFields =
      paths.map (fun path => (path, raw.normalize.follow? path)) →
        field.2 = (raw.follow? field.1).map normalize := by
    intro paths heq
    rw [heq] at hm
    obtain ⟨path, -, rfl⟩ := List.mem_map.mp hm
    exact follow?_normalize raw path
  cases s with
  | resources =>
    apply hall [[.key "Properties"], [.key "Metadata"], [.key "CreationPolicy"],
      [.key "UpdatePolicy"]]
    simp only [List.map_cons, List.map_nil, follow?_key]
    rfl
  | parameters =>
    apply hall [[.key "Default"]]
    simp only [List.map_cons, List.map_nil, follow?_key]
    rfl
  | outputs =>
    apply hall [[.key "Value"], [.key "Export", .key "Name"]]
    simp only [List.map_cons, List.map_nil, follow?_key, follow?_keys]
    rfl
  | rules =>
    apply hall [[.key "RuleCondition"]]
    simp only [List.map_cons, List.map_nil, follow?_key]
    rfl
  | mappings => exact hall [] rfl
  | conditions => exact hall [[]] rfl
  | metadata => exact hall [[]] rfl
  | transform => exact hall [[]] rfl

theorem assertions_build {r : Rule} (h : build s id raw = .rule r) :
    r.assertions.map (·.assert) =
      (raw.itemsAt "Assertions").filterMap fun item => (item.get? "Assert").map normalize := by
  cases s with
  | rules =>
    cases h
    calc ((raw.normalize.itemsAt "Assertions").filterMap Assertion.ofValue?).map (·.assert)
      _ = (raw.itemsAt "Assertions").filterMap fun item =>
          (Assertion.ofValue? item.normalize).map (·.assert) := by
        rw [itemsAt_normalize, List.filterMap_map, List.map_filterMap]
        rfl
      _ = _ := by
        apply List.filterMap_congr
        rintro item -
        rw [ofValue?_normalize, Option.map_map]
        rfl
  | _ => cases h

theorem entries_build {m : Mapping} (h : build s id raw = .mapping m) :
    m.entries = raw.normalize.object?.getD [] := by
  cases s with
  | mappings =>
    cases h
    rfl
  | _ => cases h

end Entity

namespace Mapping

variable {s : Section} {id : String} {raw : Value} {m : Mapping}

theorem lookup_build (h : Entity.build s id raw = .mapping m) (top second : String) :
    m.lookup top second = (raw.follow? [.key top, .key second]).map normalize := by
  have hget : m.entries.get? top = raw.normalize.get? top := by
    rw [Entity.entries_build h]
    cases raw.normalize <;> rfl
  rw [lookup, hget, ← follow?_keys, follow?_normalize]

theorem topLevelKeys_build (h : Entity.build s id raw = .mapping m) :
    m.topLevelKeys = Members.keys (raw.object?.getD []) := by
  rw [topLevelKeys, Entity.entries_build h, object?_normalize]
  cases raw.object? with
  | none => rfl
  | some members => exact List.map_map

end Mapping

/-- Typing an entry first changes nothing. A place in the typed value holds the typed value of the
place, if there is one, and so do the fields and lists of the entry that hold values. -/
theorem Entity.build_value_fields (s : Section) (id : String) (raw : Value) :
    build s id raw.normalize = build s id raw ∧
      (∀ path, raw.normalize.follow? path = (raw.follow? path).map normalize) ∧
      (∀ field ∈ (build s id raw).valueFields,
        field.2 = (raw.follow? field.1).map normalize) ∧
      (∀ p, build s id raw = .parameter p →
        p.allowedValues = (raw.itemsAt "AllowedValues").map normalize) ∧
      (∀ r, build s id raw = .rule r → r.assertions.map (·.assert) =
        (raw.itemsAt "Assertions").filterMap fun item => (item.get? "Assert").map normalize) ∧
      ∀ m, build s id raw = .mapping m →
        (∀ top second, m.lookup top second =
          (raw.follow? [.key top, .key second]).map normalize) ∧
        m.topLevelKeys = Members.keys (raw.object?.getD []) := by
  refine ⟨build_normalize, follow?_normalize raw, fun field => valueFields_build, fun p hp => ?_,
    fun r => assertions_build, fun m hm => ⟨Mapping.lookup_build hm, Mapping.topLevelKeys_build hm⟩⟩
  rw [← itemsAt_normalize]
  cases s with
  | parameters =>
    cases hp
    rfl
  | _ => cases hp

end StackTemplate
