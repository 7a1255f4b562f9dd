import Mathlib.Data.List.Range
import Mathlib.Tactic.Ring
import StackTemplate.Grammar.Portable
import StackTemplate.Proofs.Config.Limits
import StackTemplate.Proofs.Grammar.Slot

/-!
The course of one load: how often the loader is called, which of its answers is kept, and how long
the pauses between the attempts are.
-/

namespace StackTemplate

namespace RetryPolicy

/-- The pauses after the first `n` attempts. -/
def pauses (policy : RetryPolicy) (n : Nat) : List Duration :=
  (List.range' 1 n).map policy.pauseAfter

theorem pauses_succ (policy : RetryPolicy) (n : Nat) :
    policy.pauses (n + 1) = policy.pauses n ++ [policy.pauseAfter (n + 1)] := by
  rw [pauses, List.range'_1_concat, List.map_append, Nat.add_comm 1 n]
  rfl

end RetryPolicy

namespace PortableBackend

variable {Grammar : Type} {backend : PortableBackend Grammar} {format : Format} {call : Nat}

/-- What a call brings is installed. -/
def Yields (backend : PortableBackend Grammar) (format : Format) (call : Nat)
    (grammar : Grammar) : Prop :=
  ∃ blob, backend.fetch format call = .ok blob ∧ backend.install format blob = .ok grammar

/-- The loader fails, or the runtime does on what the loader brings. -/
def Fails (backend : PortableBackend Grammar) (format : Format) (call : Nat)
    (e : LoadError) : Prop :=
  backend.fetch format call = .error e ∨
    ∃ blob, backend.fetch format call = .ok blob ∧ backend.install format blob = .error e

end PortableBackend

namespace GrammarSlot

variable {Grammar : Type} {policy : RetryPolicy} {format : Format}
  {result : Nat → AttemptResult Grammar} {slot : GrammarSlot Grammar} {event : Event Grammar}

/-- The only request of a slot gets its turn, and its load goes on for some steps. -/
def loading (policy : RetryPolicy) (format : Format) (result : Nat → AttemptResult Grammar)
    (steps : Nat) : GrammarSlot Grammar :=
  (((empty : GrammarSlot Grammar).step policy format .arrives).step policy format (.turn 0)).follow
    policy format result 0 steps

/-- All places a load can be at; `failed` attempts have come to nothing before the one it is at. -/
inductive Course (policy : RetryPolicy) (format : Format) (result : Nat → AttemptResult Grammar) :
    GrammarSlot Grammar → Prop
  | trying {failed : Nat} (before : ∀ call < failed, ∃ e, result call = .error e)
      (within : failed < policy.attempts) :
      Course policy format result
        ⟨none, [.loading (.trying (failed + 1))], failed + 1, policy.pauses failed⟩
  | pausing {failed : Nat} (before : ∀ call < failed + 1, ∃ e, result call = .error e)
      (more : failed + 1 < policy.attempts) :
      Course policy format result
        ⟨none, [.loading (.pausing (failed + 1))], failed + 1, policy.pauses (failed + 1)⟩
  | loaded {failed : Nat} {grammar : Grammar}
      (before : ∀ call < failed, ∃ e, result call = .error e) (within : failed < policy.attempts)
      (success : result failed = .ok grammar) :
      Course policy format result
        ⟨some (.ok grammar), [.answered (.ok grammar)], failed + 1, policy.pauses failed⟩
  | exhausted {failed : Nat} {e : LoadError}
      (before : ∀ call < failed, ∃ e, result call = .error e)
      (last : failed + 1 = policy.attempts) (failure : result failed = .error e) :
      Course policy format result
        ⟨some (.error (.loadFailed format policy.attempts e)),
          [.answered (.error (.loadFailed format policy.attempts e))], failed + 1,
          policy.pauses failed⟩

theorem fails_succ {failed : Nat} {e : LoadError}
    (before : ∀ call < failed, ∃ e, result call = .error e) (failure : result failed = .error e) :
    ∀ call < failed + 1, ∃ e, result call = .error e := by
  intro call hcall
  rcases Nat.lt_succ_iff_lt_or_eq.mp hcall with hlt | rfl
  · exact before call hlt
  · exact ⟨e, failure⟩

theorem Course.start : Course policy format result (loading policy format result 0) := by
  show Course policy format result
    ⟨none, [.loading (.trying (0 + 1))], 0 + 1, policy.pauses 0⟩
  exact .trying (fun call hcall => absurd hcall (Nat.not_lt_zero call)) policy.attempts_pos

theorem Course.step (course : Course policy format result slot)
    (next : slot.next? result 0 = some event) :
    Course policy format result (slot.step policy format event) := by
  cases course with
  | @trying failed before within =>
    cases next
    cases hresult : result failed with
    | ok grammar =>
      have hloaded : Course policy format result _ := .loaded before within hresult
      simpa [GrammarSlot.step, endAttempt, finish, put, hresult] using hloaded
    | error e =>
      by_cases more : failed + 1 < policy.attempts
      · have hpausing : Course policy format result _ := .pausing (fails_succ before hresult) more
        simpa [GrammarSlot.step, endAttempt, pause, put, hresult, more, RetryPolicy.pauses_succ]
          using hpausing
      · have last : failed + 1 = policy.attempts := by omega
        have hexhausted : Course policy format result _ := .exhausted before last hresult
        simpa [GrammarSlot.step, endAttempt, finish, put, hresult, more] using hexhausted
  | pausing before more =>
    cases next
    exact .trying before more
  | loaded before within success => cases next
  | exhausted before last failure => cases next

theorem Course.follow (course : Course policy format result slot) (steps : Nat) :
    Course policy format result (slot.follow policy format result 0 steps) := by
  induction steps generalizing slot with
  | zero => exact course
  | succ steps ih =>
    unfold GrammarSlot.follow
    split
    · rename_i event next
      exact ih (course.step next)
    · exact course

end GrammarSlot

namespace ParserConfig

end ParserConfig

namespace PortableBackend

open GrammarSlot

variable {Grammar : Type}

end PortableBackend

end StackTemplate
