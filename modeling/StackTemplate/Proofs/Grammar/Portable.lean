import StackTemplate.Grammar.Portable
import StackTemplate.Proofs.Grammar.Slot

/-!
Requests for grammars, in any number, for both formats, and in any order.
-/

namespace StackTemplate.PortableGrammars

@[simp] theorem policy_run (grammars : PortableGrammars) (events : List Event) :
    (grammars.run events).policy = grammars.policy := by
  induction events generalizing grammars with
  | nil => rfl
  | cons event events ih => exact (ih (grammars.step event)).trans (policy_update _ _ _)

/-- What happens to one format is what its own events do. -/
theorem slot_run (grammars : PortableGrammars) (events : List Event) (format : Format) :
    (grammars.run events).slot format =
      (grammars.slot format).run grammars.policy format
        ((events.filter (·.format = format)).map (·.event)) := by
  induction events generalizing grammars with
  | nil => rfl
  | cons event events ih =>
    have hrun : (grammars.run (event :: events)).slot format =
        ((grammars.step event).run events).slot format := rfl
    have hpolicy : (grammars.step event).policy = grammars.policy := policy_update _ _ _
    rw [hrun, ih, hpolicy]
    by_cases hf : event.format = format
    · subst hf
      have hslot : (grammars.step event).slot event.format =
          (grammars.slot event.format).step grammars.policy event.format event.event :=
        slot_update_self _ _ _
      rw [List.filter_cons_of_pos (by simp), hslot]
      rfl
    · have hslot : (grammars.step event).slot format = grammars.slot format :=
        slot_update_of_ne _ _ (Ne.symm hf)
      rw [List.filter_cons_of_neg (by simpa using hf), hslot]

/-- The grammars after some events, when loads are tried `attempts` times. -/
def after (attempts backoffMs : Nat) (events : List Event) : PortableGrammars :=
  (empty (.ofLimits attempts backoffMs)).run events

section

variable (attempts backoffMs : Nat) (events : List Event) (format : Format)

theorem sound_slot_after :
    ((after attempts backoffMs events).slot format).Sound (.ofLimits attempts backoffMs) format := by
  rw [after, slot_run]
  have hempty : (empty (.ofLimits attempts backoffMs)).slot format = .empty := by
    cases format <;> rfl
  rw [hempty]
  exact GrammarSlot.sound_empty.run _

theorem slot_after_filter :
    (after attempts backoffMs (events.filter (·.format = format))).slot format =
      (after attempts backoffMs events).slot format := by
  rw [after, after, slot_run, slot_run, List.filter_filter]
  simp

theorem after_append (later : List Event) :
    after attempts backoffMs (events ++ later) = (after attempts backoffMs events).run later :=
  List.foldl_append

end

variable {grammars : PortableGrammars} {policy : RetryPolicy} {format : Format}

theorem readiness_eq_loading_iff :
    grammars.readiness format = .loading ↔ (grammars.slot format).outcome? = none := by
  rw [readiness, GrammarSlot.readiness]
  split <;> simp_all

theorem readiness_congr {other : PortableGrammars}
    (h : (other.slot format).outcome? = (grammars.slot format).outcome?) :
    other.readiness format = grammars.readiness format := by
  rw [readiness, readiness, GrammarSlot.readiness, GrammarSlot.readiness, h]

theorem language?_of_outcome {outcome : LoadOutcome}
    (h : (grammars.slot format).outcome? = some outcome) :
    grammars.language? format = outcome := by
  rw [language?, h]
  rfl

theorem outcome_of_readiness (h : grammars.readiness format ≠ .loading) :
    (grammars.slot format).outcome? = some (grammars.language? format) := by
  have hsome := mt readiness_eq_loading_iff.mpr h
  obtain ⟨outcome, ho⟩ := Option.ne_none_iff_exists'.mp hsome
  rw [language?_of_outcome ho, ho]

/-- What can be told of a format is one of three things. -/
theorem language?_cases (h : (grammars.slot format).Sound policy format) :
    (grammars.readiness format = .loading ∧
      grammars.language? format = .error (.notReady format)) ∨
    (grammars.readiness format = .ready ∧ grammars.language? format = .ok ()) ∨
    (grammars.readiness format = .failed ∧
      ∃ e, grammars.language? format = .error (.loadFailed format policy.attempts e)) := by
  cases ho : (grammars.slot format).outcome? with
  | none =>
    refine .inl ⟨readiness_eq_loading_iff.mpr ho, ?_⟩
    rw [language?, ho]
    rfl
  | some outcome =>
    have hl := language?_of_outcome ho
    rcases h.outcome outcome ho with rfl | ⟨e, rfl⟩
    · refine .inr (.inl ⟨?_, hl⟩)
      simp only [readiness, GrammarSlot.readiness, ho]
    · refine .inr (.inr ⟨?_, e, hl⟩)
      simp only [readiness, GrammarSlot.readiness, ho]

theorem run_of_readiness (h : (grammars.slot format).Sound grammars.policy format)
    (settled : grammars.readiness format ≠ .loading) (events : List Event) :
    (grammars.run events).readiness format = grammars.readiness format ∧
      (grammars.run events).language? format = grammars.language? format ∧
      ((grammars.run events).slot format).calls = (grammars.slot format).calls := by
  have ho := outcome_of_readiness settled
  obtain ⟨hkept, hcalls⟩ :=
    h.run_of_outcome ho ((events.filter (·.format = format)).map (·.event))
  rw [← slot_run] at hkept hcalls
  exact ⟨readiness_congr (hkept.trans ho.symm), language?_of_outcome hkept, hcalls⟩

/-- Every format is loaded once, for all requests. Once it is known what the load came to, that
lasts. -/
theorem after_coalesces (attempts backoffMs : Nat) (events : List Event) (format : Format) :
    let reached := after attempts backoffMs events
    (reached.slot format).inFlight ≤ 1 ∧
    (reached.slot format).calls ≤ max 1 attempts ∧
    (∀ (id : RequestId) (outcome : LoadOutcome),
      (reached.slot format).requests[id]? = some (.answered outcome) →
        reached.readiness format ≠ .loading ∧ outcome = reached.language? format) ∧
    (after attempts backoffMs []).readiness format = .loading ∧
    ((reached.readiness format = .loading ∧
        reached.language? format = .error (.notReady format)) ∨
      (reached.readiness format = .ready ∧ reached.language? format = .ok ()) ∨
      (reached.readiness format = .failed ∧
        ∃ e, reached.language? format = .error (.loadFailed format (max 1 attempts) e))) ∧
    (reached.readiness format ≠ .loading →
      (reached.slot format).outcome? = some (reached.language? format) ∧
      ∀ later, (after attempts backoffMs (events ++ later)).readiness format =
          reached.readiness format ∧
        (after attempts backoffMs (events ++ later)).language? format =
          reached.language? format ∧
        ((after attempts backoffMs (events ++ later)).slot format).calls =
          (reached.slot format).calls) ∧
    (after attempts backoffMs (events.filter (·.format = format))).slot format =
      reached.slot format := by
  intro reached
  have sound : (reached.slot format).Sound (.ofLimits attempts backoffMs) format :=
    sound_slot_after attempts backoffMs events format
  have hattempts : (RetryPolicy.ofLimits attempts backoffMs).attempts = max 1 attempts :=
    Nat.max_comm attempts 1
  refine ⟨sound.inFlight_le, ?_, ?_, ?_, ?_, ?_,
    slot_after_filter attempts backoffMs events format⟩
  · rw [← hattempts]
    exact sound.calls_le
  · intro id outcome ha
    have ho := sound.answered id outcome ha
    refine ⟨fun hl => ?_, (language?_of_outcome ho).symm⟩
    rw [readiness_eq_loading_iff.mp hl] at ho
    cases ho
  · cases format <;> rfl
  · rw [← hattempts]
    exact language?_cases sound
  · intro settled
    refine ⟨outcome_of_readiness settled, fun later => ?_⟩
    have hpolicy : reached.policy = .ofLimits attempts backoffMs := policy_run _ _
    rw [← hpolicy] at sound
    rw [after_append]
    exact run_of_readiness sound settled later

/-- Two requests for one format, a failed attempt between them, and a request for the other. -/
def shared : List Event :=
  [⟨.yaml, .arrives⟩, ⟨.yaml, .turn 0⟩, ⟨.yaml, .arrives⟩, ⟨.yaml, .turn 1⟩, ⟨.json, .arrives⟩,
    ⟨.json, .turn 0⟩, ⟨.yaml, .attemptEnds 0 (.error (.unreadable "no disk"))⟩,
    ⟨.yaml, .pauseEnds 0⟩, ⟨.yaml, .attemptEnds 0 (.ok ())⟩, ⟨.yaml, .turn 1⟩]

theorem after_coalesces_shared :
    ((after 2 100 shared).slot .yaml).requests[1]? = some (.answered (.ok ())) ∧
      (after 2 100 shared).language? .yaml = .ok () ∧
      (after 2 100 shared).readiness .yaml ≠ .loading ∧
      (after 2 100 (shared ++ [⟨.yaml, .arrives⟩])).readiness .yaml = .ready ∧
      (after 2 100 shared).readiness .json = .loading := by
  have hcoalesces := after_coalesces 2 100 shared .yaml
  have hanswered : ((after 2 100 shared).slot .yaml).requests[1]? = some (.answered (.ok ())) := rfl
  obtain ⟨hsettled, hlanguage⟩ := hcoalesces.2.2.1 1 _ hanswered
  have hready : (after 2 100 shared).readiness .yaml = .ready := rfl
  obtain ⟨-, hlater⟩ := hcoalesces.2.2.2.2.2.1 hsettled
  exact ⟨hanswered, hlanguage.symm, hsettled, (hlater _).1.trans hready, rfl⟩

end StackTemplate.PortableGrammars
