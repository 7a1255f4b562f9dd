import StackTemplate.Proofs.Text.Pieces
import StackTemplate.Yaml.Recovery

/-!
The budget of lines that may be left out: how often a text is loaded within it, and which texts are
read. Nothing is assumed of the loader, nor of what it tells when it fails.
-/

namespace StackTemplate.Yaml

variable {load : List Char → Except Report Data} {budget m n : Nat} {text next other : List Char}
  {v : Value}

/-- Loading fails with a message that points to a line, and without that line the text is `next`. -/
def Shortens (load : List Char → Except Report Data) (text next : List Char) : Prop :=
  ∃ report line, load text = .error report ∧ report.lineToDrop? = some (line + 1) ∧
    Text.LeavesOut text line next

theorem shortens_iff : Shortens load text next ↔
    ∃ report, load text = .error report ∧
      report.lineToDrop?.bind (Text.dropLine text) = some next := by
  constructor
  · rintro ⟨report, line, hload, hline, hleaves⟩
    refine ⟨report, hload, ?_⟩
    rw [hline, Option.bind_some, Text.dropLine_eq_some_iff]
    exact hleaves
  · rintro ⟨report, hload, hnext⟩
    obtain ⟨line, hline, hdrop⟩ := Option.bind_eq_some_iff.mp hnext
    cases line with
    | zero => cases hdrop
    | succ line => exact ⟨report, line, hload, hline, Text.dropLine_eq_some_iff.mp hdrop⟩

theorem Shortens.unique (h : Shortens load text next) (hother : Shortens load text other) :
    next = other := by
  obtain ⟨report, hload, hnext⟩ := shortens_iff.mp h
  obtain ⟨report', hload', hother⟩ := shortens_iff.mp hother
  rw [hload] at hload'
  cases hload'
  exact Option.some.inj (hnext.symm.trans hother)

/-! Rounds -/

/-- The loader that writes down what it is given. -/
def recording (load : List Char → Except Report Data) (text : List Char) :
    StateM (List (List Char)) (Except Report Data) := do
  modify (· ++ [text])
  return load text

/-- The outcome, and what was written down before with the texts that are loaded. -/
def record (load : List Char → Except Report Data) (budget : Nat) (text : List Char)
    (log : List (List Char)) : Option Value × List (List Char) :=
  Id.run ((recover? (recording load) budget text).run log)

/-- The texts that are loaded, in order. -/
def loads (load : List Char → Except Report Data) (budget : Nat) (text : List Char) :
    List (List Char) :=
  (record load budget text []).2

/-- A round loads the text. Then either the reading ends, with the value of what was loaded if that
did not fail, or it goes on with one line less in the text and in the budget. -/
theorem round_cases (load : List Char → Except Report Data) (budget : Nat) (text : List Char) :
    (∃ ending, ending = (load text).toOption.map Data.toValue ∧
      recovered? load budget text = ending ∧
      (∀ log, record load budget text log = (ending, log ++ [text])) ∧
      ∀ next, Shortens load text next → budget = 0) ∨
    ∃ left next, budget = left + 1 ∧ Shortens load text next ∧
      recovered? load budget text = recovered? load left next ∧
      ∀ log, record load budget text log = record load left next (log ++ [text]) := by
  cases hload : load text with
  | ok data =>
    refine .inl ⟨_, rfl, recovered?_of_ok hload, fun log => ?_, fun next hnext => ?_⟩
    · cases budget <;> simp [record, recover?, recording, hload, Except.toOption]
    · obtain ⟨report, hfails, -⟩ := shortens_iff.mp hnext
      rw [hload] at hfails
      cases hfails
  | error report =>
    cases budget with
    | zero =>
      refine .inl ⟨_, rfl, recovered?_zero hload, fun log => ?_, fun _ _ => rfl⟩
      simp [record, recover?, recording, hload, Except.toOption]
    | succ left =>
      have hvalue : recovered? load (left + 1) text =
          (report.lineToDrop?.bind (Text.dropLine text)).bind (recovered? load left) :=
        recovered?_succ hload
      cases hnext : report.lineToDrop?.bind (Text.dropLine text) with
      | none =>
        rw [hnext] at hvalue
        refine .inl ⟨_, rfl, hvalue, fun log => ?_, fun next hshorter => ?_⟩
        · simp [record, recover?, recording, hload, hnext, Except.toOption]
        · obtain ⟨report', hfails, hsome⟩ := shortens_iff.mp hshorter
          rw [hload] at hfails
          cases hfails
          rw [hnext] at hsome
          cases hsome
      | some next =>
        rw [hnext] at hvalue
        refine .inr ⟨left, next, rfl, shortens_iff.mpr ⟨report, hload, hnext⟩, hvalue, fun log => ?_⟩
        simp [record, recover?, recording, hload, hnext]

/-- To write down changes no outcome, and at most one text more than the budget is written down. -/
theorem record_eq (load : List Char → Except Report Data) (budget : Nat) (text : List Char) :
    ∃ more, more.length ≤ budget ∧
      ∀ log, record load budget text log = (recovered? load budget text, log ++ text :: more) := by
  induction budget using Nat.strongRecOn generalizing text with
  | ind budget ih =>
    rcases round_cases load budget text with
      ⟨ending, -, hvalue, hrecord, -⟩ | ⟨left, next, rfl, -, hvalue, hrecord⟩
    · refine ⟨[], Nat.zero_le _, fun log => ?_⟩
      rw [hrecord, hvalue]
    · obtain ⟨more, hlength, hnext⟩ := ih left (Nat.lt_succ_self left) next
      refine ⟨next :: more, Nat.succ_le_succ hlength, fun log => ?_⟩
      rw [hrecord, hnext, hvalue, List.append_assoc, List.singleton_append]

theorem length_loads_le (load : List Char → Except Report Data) (budget : Nat) (text : List Char) :
    (loads load budget text).length ≤ budget + 1 := by
  obtain ⟨more, hlength, hrecord⟩ := record_eq load budget text
  rw [loads, hrecord, List.nil_append, List.length_cons]
  exact Nat.succ_le_succ hlength

/-! The texts in turn -/

/-- The `k`-th text after the first loads as a value, and each text before it is shortened to the
next. -/
def LoadsAfter (load : List Char → Except Report Data) (k : Nat) (text : List Char) (v : Value) :
    Prop :=
  ∃ t : Nat → List Char, t 0 = text ∧ (∀ i < k, Shortens load (t i) (t (i + 1))) ∧
    ∃ data, load (t k) = .ok data ∧ v = data.toValue

theorem loadsAfter_zero :
    LoadsAfter load 0 text v ↔ (load text).toOption.map Data.toValue = some v := by
  constructor
  · rintro ⟨t, rfl, -, data, hload, rfl⟩
    rw [hload]
    rfl
  · intro h
    obtain ⟨data, hdata, rfl⟩ := Option.map_eq_some_iff.mp h
    refine ⟨fun _ => text, rfl, fun i hi => absurd hi (Nat.not_lt_zero i), data, ?_, rfl⟩
    cases hload : load text with
    | ok data' =>
      rw [hload] at hdata
      exact congrArg _ (Option.some.inj hdata)
    | error report =>
      rw [hload] at hdata
      cases hdata

theorem loadsAfter_succ {k : Nat} : LoadsAfter load (k + 1) text v ↔
    ∃ next, Shortens load text next ∧ LoadsAfter load k next v := by
  constructor
  · rintro ⟨t, rfl, hshorter, hlast⟩
    exact ⟨t 1, hshorter 0 (Nat.succ_pos k), fun i => t (i + 1), rfl,
      fun i hi => hshorter (i + 1) (Nat.succ_lt_succ hi), hlast⟩
  · rintro ⟨next, hnext, t, rfl, hshorter, hlast⟩
    refine ⟨fun i => i.casesOn text t, rfl, fun i hi => ?_, hlast⟩
    cases i with
    | zero => exact hnext
    | succ i => exact hshorter i (Nat.lt_of_succ_lt_succ hi)

theorem recovered?_eq_some_iff :
    recovered? load budget text = some v ↔ ∃ k ≤ budget, LoadsAfter load k text v := by
  induction budget using Nat.strongRecOn generalizing text with
  | ind budget ih =>
    rcases round_cases load budget text with
      ⟨ending, hending, hvalue, -, hstuck⟩ | ⟨left, next, rfl, hnext, hvalue, -⟩
    · rw [hvalue, hending, ← loadsAfter_zero]
      refine ⟨fun h => ⟨0, Nat.zero_le _, h⟩, ?_⟩
      rintro ⟨k, hk, hafter⟩
      cases k with
      | zero => exact hafter
      | succ k =>
        obtain ⟨next, hnext, -⟩ := loadsAfter_succ.mp hafter
        have hzero := hstuck next hnext
        omega
    · rw [hvalue, ih left (Nat.lt_succ_self left)]
      constructor
      · rintro ⟨k, hk, hafter⟩
        exact ⟨k + 1, Nat.succ_le_succ hk, loadsAfter_succ.mpr ⟨next, hnext, hafter⟩⟩
      · rintro ⟨k, hk, hafter⟩
        cases k with
        | zero =>
          -- A text that loads is not shortened.
          obtain ⟨t, rfl, -, data, hload, -⟩ := hafter
          obtain ⟨report, hfails, -⟩ := shortens_iff.mp hnext
          rw [hload] at hfails
          cases hfails
        | succ k =>
          obtain ⟨other, hother, hafter⟩ := loadsAfter_succ.mp hafter
          rw [hnext.unique hother]
          exact ⟨k, Nat.le_of_succ_le_succ hk, hafter⟩

/-- Within a budget of `n` lines at most `n + 1` texts are loaded. A value comes out just where one of
the first `n + 1` texts loads, each the last without the line that its message points to; and what a
budget gives, a greater one gives too. -/
theorem recovered?_within_budget (load : List Char → Except Report Data) (text : List Char)
    (h : m ≤ n) :
    (loads load n text).length ≤ n + 1 ∧
      (∀ v, recovered? load n text = some v ↔
        ∃ k ≤ n, ∃ t : Nat → List Char, t 0 = text ∧
          (∀ i < k, ∃ report line, load (t i) = .error report ∧
            report.lineToDrop? = some (line + 1) ∧ Text.LeavesOut (t i) line (t (i + 1))) ∧
          ∃ data, load (t k) = .ok data ∧ v = data.toValue) ∧
      ∀ v, recovered? load m text = some v → recovered? load n text = some v := by
  refine ⟨length_loads_le load n text, fun v => recovered?_eq_some_iff, fun v hv => ?_⟩
  obtain ⟨k, hk, hafter⟩ := recovered?_eq_some_iff.mp hv
  exact recovered?_eq_some_iff.mpr ⟨k, Nat.le_trans hk h, hafter⟩

def twoHalfTyped : List Char :=
  "A: 1\nb\nC: 2\nd\n".toList

theorem recovered?_within_budget_twoHalfTyped :
    2 ≤ 5 ∧ (loads Data.load 5 twoHalfTyped).length ≤ 6 ∧
      ∃ v, parse? 2 twoHalfTyped = some v ∧ parse? 5 twoHalfTyped = some v := by
  have hsome : (parse? 2 twoHalfTyped).isSome = true := by decide +kernel
  obtain ⟨v, hv⟩ := Option.isSome_iff_exists.mp hsome
  obtain ⟨hcount, -, hmore⟩ :=
    recovered?_within_budget Data.load twoHalfTyped (show 2 ≤ 5 by decide)
  exact ⟨by decide, hcount, v, hv, hmore v hv⟩

example : parse? 1 twoHalfTyped = none :=
  Option.isNone_iff_eq_none.mp (by decide +kernel)

end StackTemplate.Yaml
