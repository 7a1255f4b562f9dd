import StackTemplate.Grammar.Provider
import StackTemplate.Proofs.Grammar.Portable

/-!
Whatever is asked of a provider, what happens to its grammars is made of requests and loads. So what
is true after any events is true of a provider at all times.
-/

namespace StackTemplate

namespace PortableGrammars

theorem run_map_event (grammars : PortableGrammars) (format : Format)
    (events : List GrammarSlot.Event) :
    grammars.run (events.map (⟨format, ·⟩)) =
      grammars.update format (·.run grammars.policy format events) := by
  induction events generalizing grammars with
  | nil => cases format <;> rfl
  | cons event events ih =>
    have hpolicy : (grammars.step ⟨format, event⟩).policy = grammars.policy := policy_update _ _ _
    have hrest := ih (grammars.step ⟨format, event⟩)
    rw [hpolicy] at hrest
    calc
      grammars.run ((event :: events).map (⟨format, ·⟩))
        = (grammars.step ⟨format, event⟩).run (events.map (⟨format, ·⟩)) := rfl
      _ = (grammars.step ⟨format, event⟩).update format (·.run grammars.policy format events) :=
        hrest
      _ = grammars.update format (·.run grammars.policy format (event :: events)) := by
        cases format <;> rfl

theorem exists_run_load_of_arrives (grammars : PortableGrammars) (backend : PortableBackend)
    (format : Format) :
    ∃ events, grammars.load backend format = (grammars.step ⟨format, .arrives⟩).run events := by
  obtain ⟨events, he⟩ := GrammarSlot.exists_run_load_of_arrives grammars.policy format
    (backend.attempt format) (grammars.slot format)
  refine ⟨events.map (⟨format, ·⟩), ?_⟩
  rw [run_map_event]
  cases format
  · exact congrArg (fun slot => { grammars with yaml := slot }) he
  · exact congrArg (fun slot => { grammars with json := slot }) he

theorem exists_run_load (grammars : PortableGrammars) (backend : PortableBackend)
    (format : Format) : ∃ events, grammars.load backend format = grammars.run events := by
  obtain ⟨events, he⟩ := grammars.exists_run_load_of_arrives backend format
  exact ⟨⟨format, .arrives⟩ :: events, he⟩

end PortableGrammars

namespace Provider

theorem exists_run_load (provider : Provider) (format : Format) :
    ∃ events, (provider.load format).grammars = provider.grammars.run events := by
  rw [load]
  split
  · exact provider.grammars.exists_run_load _ format
  · exact ⟨[], rfl⟩

theorem exists_run_getWaiting (provider : Provider) (format : Format) :
    ∃ events, (provider.getWaiting format).2.grammars = provider.grammars.run events := by
  rw [getWaiting]
  split
  · exact ⟨[], rfl⟩
  · exact provider.exists_run_load format

theorem exists_run_settle (provider : Provider) :
    ∃ events, provider.settle.grammars = provider.grammars.run events := by
  suffices hall : ∀ formats : List Format, ∀ provider : Provider,
      ∃ events, (formats.foldl load provider).grammars = provider.grammars.run events from
    hall provider.background provider
  intro formats
  induction formats with
  | nil => exact fun _ => ⟨[], rfl⟩
  | cons format formats ih =>
    intro provider
    obtain ⟨first, hfirst⟩ := provider.exists_run_load format
    obtain ⟨rest, hrest⟩ := ih (provider.load format)
    refine ⟨first ++ rest, ?_⟩
    rw [List.foldl_cons, hrest, hfirst]
    exact List.foldl_append.symm

end Provider

end StackTemplate
