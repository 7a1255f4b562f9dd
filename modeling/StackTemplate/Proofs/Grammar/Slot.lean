import Mathlib.Data.List.Basic
import StackTemplate.Grammar.Slot

/-!
What can happen in the slot of one grammar, and what is true of it at all times: one load at most,
a bounded number of attempts, and one outcome.
-/

namespace StackTemplate

namespace RequestState

variable {Grammar : Type}

@[simp] theorem isLoading_waiting : (waiting : RequestState Grammar).isLoading = false := rfl

@[simp] theorem isLoading_loading (phase : LoadPhase) :
    (loading phase : RequestState Grammar).isLoading = true := rfl

@[simp] theorem isLoading_answered (outcome : LoadOutcome Grammar) :
    (answered outcome).isLoading = false := rfl

theorem isLoading_iff {state : RequestState Grammar} :
    state.isLoading ↔ ∃ phase, state = .loading phase := by
  cases state <;> simp

end RequestState

namespace LoadPhase

def attempt : LoadPhase → Nat
  | trying attempt => attempt
  | pausing attempt => attempt

/-- After a pause there is one more attempt. -/
def Within (limit : Nat) : LoadPhase → Prop
  | trying attempt => attempt ≤ limit
  | pausing attempt => attempt < limit

/-- How many steps there are at most until a load has come to its end. -/
def steps (limit : Nat) : LoadPhase → Nat
  | trying attempt => 2 * (limit - attempt) + 1
  | pausing attempt => 2 * (limit - attempt)

end LoadPhase

namespace GrammarSlot

variable {policy : RetryPolicy} {format : Format} {slot next : GrammarSlot}

/-- All that can happen in a slot. -/
inductive Transition (policy : RetryPolicy) (format : Format) (slot : GrammarSlot) :
    GrammarSlot → Prop
  | stays : Transition policy format slot slot
  | arrives : Transition policy format slot { slot with requests := slot.requests ++ [.waiting] }
  | answers {id : RequestId} {outcome : LoadOutcome} (waits : slot.requests[id]? = some .waiting)
      (kept : slot.outcome? = some outcome) :
      Transition policy format slot (slot.put id (.answered outcome))
  | starts {id : RequestId} (waits : slot.requests[id]? = some .waiting)
      (kept : slot.outcome? = none) (alone : slot.inFlight = 0) :
      Transition policy format slot (slot.startAttempt id 1)
  | succeeds {id : RequestId} {attempt : Nat}
      (tries : slot.requests[id]? = some (.loading (.trying attempt))) :
      Transition policy format slot (slot.finish id (.ok ()))
  | pauses {id : RequestId} {attempt : Nat}
      (tries : slot.requests[id]? = some (.loading (.trying attempt)))
      (more : attempt < policy.attempts) :
      Transition policy format slot (slot.pause policy id attempt)
  | fails {id : RequestId} {attempt : Nat}
      (tries : slot.requests[id]? = some (.loading (.trying attempt)))
      (last : policy.attempts ≤ attempt) (e : LoadError) :
      Transition policy format slot (slot.finish id (.error (.loadFailed format policy.attempts e)))
  | resumes {id : RequestId} {attempt : Nat}
      (pauses : slot.requests[id]? = some (.loading (.pausing attempt))) :
      Transition policy format slot (slot.startAttempt id (attempt + 1))

theorem transition_step (slot : GrammarSlot) (event : Event) :
    Transition policy format slot (slot.step policy format event) := by
  cases event with
  | arrives => exact .arrives
  | turn id =>
    simp only [step, takeTurn]
    split
    · rename_i waits
      split
      · rename_i kept
        exact .answers waits kept
      · rename_i kept
        split
        · rename_i alone
          exact .starts waits kept alone
        · exact .stays
    · exact .stays
  | attemptEnds id result =>
    simp only [step, endAttempt]
    split
    · rename_i tries
      split
      · exact .succeeds tries
      · split
        · rename_i more
          exact .pauses tries more
        · rename_i e last
          exact .fails tries (Nat.not_lt.mp last) e
    · exact .stays
  | pauseEnds id =>
    simp only [step, endPause]
    split
    · rename_i pauses
      exact .resumes pauses
    · exact .stays

/-! One request in another state -/

theorem getElem?_put {Grammar : Type} {slot : GrammarSlot Grammar} {id : RequestId}
    {old : RequestState Grammar} (h : slot.requests[id]? = some old)
    (state : RequestState Grammar) (other : RequestId) :
    (slot.put id state).requests[other]? =
      if other = id then some state else slot.requests[other]? := by
  obtain ⟨hid, -⟩ := List.getElem?_eq_some_iff.mp h
  rw [put, List.getElem?_set]
  by_cases ho : other = id
  · subst ho
    simp [hid]
  · simp [ho, Ne.symm ho]

theorem inFlight_put {id : RequestId} {old : RequestState} (h : slot.requests[id]? = some old)
    (state : RequestState) :
    (slot.put id state).inFlight + old.isLoading.toNat =
      slot.inFlight + state.isLoading.toNat := by
  obtain ⟨hid, rfl⟩ := List.getElem?_eq_some_iff.mp h
  have hle : slot.requests[id].isLoading.toNat ≤ slot.inFlight := by
    cases hl : slot.requests[id].isLoading with
    | false => simp
    | true => exact List.countP_pos_iff.mpr ⟨_, List.getElem_mem hid, hl⟩
  have hset : (slot.put id state).inFlight =
      slot.inFlight - slot.requests[id].isLoading.toNat + state.isLoading.toNat := by
    simp only [put, inFlight, List.countP_set hid]
    cases slot.requests[id].isLoading <;> cases state.isLoading <;> rfl
  omega

theorem inFlight_eq_zero_iff :
    slot.inFlight = 0 ↔ ∀ (id : RequestId) (phase : LoadPhase), slot.requests[id]? ≠ some (.loading phase) := by
  rw [inFlight, List.countP_eq_zero]
  constructor
  · intro h id phase hp
    exact h _ (List.mem_of_getElem? hp) rfl
  · intro h state hm hl
    obtain ⟨phase, rfl⟩ := RequestState.isLoading_iff.mp hl
    obtain ⟨id, hid⟩ := List.getElem?_of_mem hm
    exact h id phase hid

/-- No request but one loads, when that one is all that is under way. -/
theorem not_loading_of_ne {id other : RequestId} {old : RequestState}
    (h : slot.requests[id]? = some old) (alone : slot.inFlight = old.isLoading.toNat)
    (hne : other ≠ id) (phase : LoadPhase) : slot.requests[other]? ≠ some (.loading phase) := by
  have hput := inFlight_put h .waiting
  have hzero : (slot.put id .waiting).inFlight = 0 := by
    simp only [RequestState.isLoading_waiting, Bool.toNat_false] at hput
    omega
  have hother := inFlight_eq_zero_iff.mp hzero other phase
  rwa [getElem?_put h, if_neg hne] at hother

/-! At all times -/

/-- A slot as it is after any events. -/
structure Sound (policy : RetryPolicy) (format : Format) (slot : GrammarSlot) : Prop where
  inFlight_le : slot.inFlight ≤ 1
  calls_le : slot.calls ≤ policy.attempts
  untouched : slot.outcome? = none → slot.inFlight = 0 → slot.calls = 0
  loading : ∀ (id : RequestId) (phase : LoadPhase), slot.requests[id]? = some (.loading phase) →
    slot.outcome? = none ∧ slot.calls = phase.attempt ∧ phase.Within policy.attempts
  answered : ∀ (id : RequestId) (outcome : LoadOutcome),
    slot.requests[id]? = some (.answered outcome) → slot.outcome? = some outcome
  outcome : ∀ outcome, slot.outcome? = some outcome →
    outcome = .ok () ∨ ∃ e, outcome = .error (.loadFailed format policy.attempts e)

theorem sound_empty : Sound policy format empty where
  inFlight_le := Nat.zero_le 1
  calls_le := Nat.zero_le _
  untouched _ _ := rfl
  loading _ _ h := by simp [empty] at h
  answered _ _ h := by simp [empty] at h
  outcome _ h := by simp [empty] at h

theorem Sound.arrives (h : slot.Sound policy format) :
    Sound policy format { slot with requests := slot.requests ++ [.waiting] } := by
  have hflight : inFlight { slot with requests := slot.requests ++ [.waiting] } = slot.inFlight := by
    simp [inFlight]
  have hold : ∀ {id : RequestId} {state : RequestState}, state ≠ .waiting →
      (slot.requests ++ [.waiting])[id]? = some state → slot.requests[id]? = some state := by
    intro id state hne hs
    rw [List.getElem?_append] at hs
    split at hs
    · exact hs
    · rw [List.getElem?_singleton] at hs
      split at hs
      · exact absurd (Option.some.inj hs).symm hne
      · cases hs
  constructor
  · rw [hflight]
    exact h.inFlight_le
  · exact h.calls_le
  · rw [hflight]
    exact h.untouched
  · intro id phase hp
    exact h.loading id phase (hold nofun hp)
  · intro id outcome ho
    exact h.answered id outcome (hold nofun ho)
  · exact h.outcome

theorem Sound.answers (h : slot.Sound policy format) {id : RequestId} {outcome : LoadOutcome}
    (waits : slot.requests[id]? = some .waiting) (kept : slot.outcome? = some outcome) :
    Sound policy format (slot.put id (.answered outcome)) := by
  have hflight : (slot.put id (.answered outcome)).inFlight = slot.inFlight :=
    inFlight_put waits _
  constructor
  · rw [hflight]
    exact h.inFlight_le
  · exact h.calls_le
  · rw [hflight]
    exact h.untouched
  · intro other phase hp
    rw [getElem?_put waits] at hp
    split at hp
    · cases hp
    · exact h.loading other phase hp
  · intro other found hf
    rw [getElem?_put waits] at hf
    split at hf
    · cases hf
      exact kept
    · exact h.answered other found hf
  · exact h.outcome

theorem Sound.inFlight_eq_one (h : slot.Sound policy format) {id : RequestId} {phase : LoadPhase}
    (loads : slot.requests[id]? = some (.loading phase)) : slot.inFlight = 1 := by
  have hne : slot.inFlight ≠ 0 := fun hzero => inFlight_eq_zero_iff.mp hzero id phase loads
  have hle := h.inFlight_le
  omega

/-- A load begins or goes on. -/
theorem Sound.proceeds (h : slot.Sound policy format) {id : RequestId} {old : RequestState}
    (hold : slot.requests[id]? = some old) (kept : slot.outcome? = none)
    (alone : slot.inFlight = old.isLoading.toNat) (phase : LoadPhase) {calls : Nat}
    (hcalls : calls = phase.attempt) (within : phase.Within policy.attempts)
    (pauses : List Duration) :
    Sound policy format
      { slot.put id (.loading phase) with calls := calls, pauses := pauses } := by
  have hflight : (slot.put id (.loading phase)).inFlight = 1 := by
    have hput := inFlight_put hold (.loading phase)
    simp only [RequestState.isLoading_loading, Bool.toNat_true] at hput
    omega
  constructor
  · exact Nat.le_of_eq hflight
  · subst hcalls
    cases phase with
    | trying attempt => exact within
    | pausing attempt => exact Nat.le_of_lt within
  · intro _ hzero
    exact absurd (hflight.symm.trans hzero) Nat.one_ne_zero
  · intro other found hf
    change (slot.put id (.loading phase)).requests[other]? = _ at hf
    rw [getElem?_put hold] at hf
    split at hf
    · cases hf
      exact ⟨kept, hcalls, within⟩
    · rename_i hne
      exact absurd hf (not_loading_of_ne hold alone hne found)
  · intro other outcome ho
    change (slot.put id (.loading phase)).requests[other]? = _ at ho
    rw [getElem?_put hold] at ho
    split at ho
    · cases ho
    · exact h.answered other outcome ho
  · exact h.outcome

theorem Sound.finish (h : slot.Sound policy format) {id : RequestId} {phase : LoadPhase}
    (loads : slot.requests[id]? = some (.loading phase)) {outcome : LoadOutcome}
    (houtcome : outcome = .ok () ∨ ∃ e, outcome = .error (.loadFailed format policy.attempts e)) :
    Sound policy format (slot.finish id outcome) := by
  have hone := h.inFlight_eq_one loads
  obtain ⟨kept, -, -⟩ := h.loading id phase loads
  have hflight : (slot.put id (.answered outcome)).inFlight = 0 := by
    have hput := inFlight_put loads (.answered outcome)
    simp only [RequestState.isLoading_loading, RequestState.isLoading_answered, Bool.toNat_true,
      Bool.toNat_false] at hput
    omega
  constructor
  · exact Nat.le_trans (Nat.le_of_eq hflight) (Nat.zero_le 1)
  · exact h.calls_le
  · nofun
  · intro other found hf
    exact absurd hf (inFlight_eq_zero_iff.mp hflight other found)
  · intro other found hf
    change (slot.put id (.answered outcome)).requests[other]? = _ at hf
    rw [getElem?_put loads] at hf
    split at hf
    · cases hf
      rfl
    · have hother := h.answered other found hf
      rw [kept] at hother
      cases hother
  · intro found hf
    cases hf
    exact houtcome

theorem Sound.transition (h : slot.Sound policy format) (ht : Transition policy format slot next) :
    next.Sound policy format := by
  cases ht with
  | stays => exact h
  | arrives => exact h.arrives
  | answers waits kept => exact h.answers waits kept
  | starts waits kept alone =>
    have hcalls : slot.calls + 1 = 1 := by rw [h.untouched kept alone]
    exact h.proceeds waits kept alone (.trying 1) hcalls policy.attempts_pos slot.pauses
  | succeeds tries => exact h.finish tries (.inl rfl)
  | pauses tries more =>
    obtain ⟨kept, hcalls, -⟩ := h.loading _ _ tries
    exact h.proceeds tries kept (h.inFlight_eq_one tries) (.pausing _) hcalls more _
  | fails tries last e => exact h.finish tries (.inr ⟨e, rfl⟩)
  | @resumes id attempt pauses =>
    obtain ⟨kept, hcalls, more⟩ := h.loading _ _ pauses
    exact h.proceeds pauses kept (h.inFlight_eq_one pauses) (.trying (attempt + 1))
      (congrArg (· + 1) hcalls) more slot.pauses

theorem Sound.step (h : slot.Sound policy format) (event : Event) :
    (slot.step policy format event).Sound policy format :=
  h.transition (transition_step slot event)

/-- What there is an outcome for is not loaded any more. -/
theorem Sound.transition_of_outcome (h : slot.Sound policy format) {outcome : LoadOutcome}
    (kept : slot.outcome? = some outcome) (ht : Transition policy format slot next) :
    next.outcome? = some outcome ∧ next.calls = slot.calls := by
  have hidle : ∀ {id : RequestId} {phase : LoadPhase},
      slot.requests[id]? ≠ some (.loading phase) := by
    intro id phase loads
    rw [(h.loading id phase loads).1] at kept
    cases kept
  cases ht with
  | stays => exact ⟨kept, rfl⟩
  | arrives => exact ⟨kept, rfl⟩
  | answers _ _ => exact ⟨kept, rfl⟩
  | starts _ none _ =>
    rw [none] at kept
    cases kept
  | succeeds tries => exact absurd tries hidle
  | pauses tries _ => exact absurd tries hidle
  | fails tries _ _ => exact absurd tries hidle
  | resumes pauses => exact absurd pauses hidle

/-! Any number of events -/

def run (policy : RetryPolicy) (format : Format) (slot : GrammarSlot) (events : List Event) :
    GrammarSlot :=
  events.foldl (GrammarSlot.step policy format) slot

theorem Sound.run (h : slot.Sound policy format) (events : List Event) :
    (slot.run policy format events).Sound policy format := by
  induction events generalizing slot with
  | nil => exact h
  | cons event events ih => exact ih (h.step event)

theorem Sound.run_of_outcome (h : slot.Sound policy format) {outcome : LoadOutcome}
    (kept : slot.outcome? = some outcome) (events : List Event) :
    (slot.run policy format events).outcome? = some outcome ∧
      (slot.run policy format events).calls = slot.calls := by
  induction events generalizing slot with
  | nil => exact ⟨kept, rfl⟩
  | cons event events ih =>
    obtain ⟨hkept, hcalls⟩ := h.transition_of_outcome kept (transition_step slot event)
    obtain ⟨hlast, hlastCalls⟩ := ih (h.step event) hkept
    exact ⟨hlast, hlastCalls.trans hcalls⟩

/-- A load that is followed on its own is one of the ways in which a slot can go on. -/
theorem exists_run_follow (policy : RetryPolicy) (format : Format) (result : Nat → AttemptResult)
    (id : RequestId) (fuel : Nat) (slot : GrammarSlot) :
    ∃ events, slot.follow policy format result id fuel = slot.run policy format events := by
  fun_induction follow policy format result id fuel slot with
  | case1 slot => exact ⟨[], rfl⟩
  | case2 slot fuel event _ ih =>
    obtain ⟨events, he⟩ := ih
    exact ⟨event :: events, he⟩
  | case3 slot => exact ⟨[], rfl⟩

theorem exists_run_load_of_arrives (policy : RetryPolicy) (format : Format)
    (result : Nat → AttemptResult) (slot : GrammarSlot) :
    ∃ events, slot.load policy format result =
      (slot.step policy format .arrives).run policy format events := by
  obtain ⟨events, he⟩ := exists_run_follow policy format result slot.requests.length
    (2 * policy.attempts)
    ((slot.step policy format .arrives).step policy format (.turn slot.requests.length))
  exact ⟨.turn slot.requests.length :: events, he⟩

theorem exists_run_load (policy : RetryPolicy) (format : Format) (result : Nat → AttemptResult)
    (slot : GrammarSlot) :
    ∃ events, slot.load policy format result = slot.run policy format events := by
  obtain ⟨events, he⟩ := exists_run_load_of_arrives policy format result slot
  exact ⟨.arrives :: events, he⟩

/-! A load that nothing disturbs -/

section Alone

variable {Grammar : Type} {slot : GrammarSlot Grammar} {id : RequestId}

theorem getElem?_put_self {old : RequestState Grammar} (h : slot.requests[id]? = some old)
    (state : RequestState Grammar) : (slot.put id state).requests[id]? = some state := by
  rw [getElem?_put h, if_pos rfl]

theorem follow_of_answered {outcome : LoadOutcome Grammar}
    (h : slot.requests[id]? = some (.answered outcome)) (result : Nat → AttemptResult Grammar)
    (fuel : Nat) : slot.follow policy format result id fuel = slot := by
  cases fuel with
  | zero => rfl
  | succ fuel => simp only [follow, next?, h]

theorem answered_follow_finish {phase : LoadPhase}
    (h : slot.requests[id]? = some (.loading phase)) (outcome : LoadOutcome Grammar)
    (result : Nat → AttemptResult Grammar) (fuel : Nat) :
    ((slot.finish id outcome).follow policy format result id fuel).requests[id]? =
      some (.answered outcome) := by
  have hanswered : (slot.finish id outcome).requests[id]? = some (.answered outcome) :=
    getElem?_put_self h _
  rw [follow_of_answered hanswered]
  exact hanswered

/-- By induction on the steps that are left: each brings the load nearer to its last attempt. -/
theorem answered_follow {phase : LoadPhase} (h : slot.requests[id]? = some (.loading phase))
    (within : phase.Within policy.attempts) (result : Nat → AttemptResult Grammar) {fuel : Nat}
    (hfuel : phase.steps policy.attempts ≤ fuel) :
    ∃ outcome, (slot.follow policy format result id fuel).requests[id]? =
      some (.answered outcome) := by
  induction fuel generalizing slot phase with
  | zero =>
    cases phase <;> simp only [LoadPhase.steps, LoadPhase.Within] at hfuel within <;> omega
  | succ fuel ih =>
    cases phase with
    | trying attempt =>
      simp only [LoadPhase.steps, LoadPhase.Within] at hfuel within
      simp only [follow, next?, h, step, endAttempt]
      split
      · exact ⟨_, answered_follow_finish h _ result fuel⟩
      · split
        · rename_i hmore
          have hpauses : (slot.pause policy id attempt).requests[id]? =
              some (.loading (.pausing attempt)) := getElem?_put_self h _
          apply ih hpauses hmore
          simp only [LoadPhase.steps]
          omega
        · exact ⟨_, answered_follow_finish h _ result fuel⟩
    | pausing attempt =>
      simp only [LoadPhase.steps, LoadPhase.Within] at hfuel within
      simp only [follow, next?, h, step, endPause]
      have htries : (slot.startAttempt id (attempt + 1)).requests[id]? =
          some (.loading (.trying (attempt + 1))) := getElem?_put_self h _
      apply ih htries
      · exact within
      · simp only [LoadPhase.steps]
        omega

theorem answered_follow_takeTurn (waits : slot.requests[id]? = some .waiting)
    (hidle : slot.outcome? = none → slot.inFlight = 0) (result : Nat → AttemptResult Grammar) :
    ∃ outcome, ((slot.takeTurn id).follow policy format result id
      (2 * policy.attempts)).requests[id]? = some (.answered outcome) := by
  unfold takeTurn
  rw [waits]
  cases ho : slot.outcome? with
  | some outcome =>
    have hanswered := getElem?_put_self waits (.answered outcome)
    refine ⟨outcome, ?_⟩
    rw [follow_of_answered hanswered]
    exact hanswered
  | none =>
    simp only [hidle ho, if_true]
    have htries : (slot.startAttempt id 1).requests[id]? = some (.loading (.trying 1)) :=
      getElem?_put_self waits _
    have hpos := policy.attempts_pos
    apply answered_follow htries hpos
    simp only [LoadPhase.steps]
    omega

/-- One more request is answered, if no other one loads. -/
theorem answered_load (hidle : slot.outcome? = none → slot.inFlight = 0)
    (result : Nat → AttemptResult Grammar) :
    ∃ outcome, (slot.load policy format result).requests[slot.requests.length]? =
      some (.answered outcome) := by
  apply answered_follow_takeTurn
  · simp [step]
  · intro ho
    simpa [step, inFlight] using hidle ho

end Alone

end GrammarSlot

end StackTemplate
