import StackTemplate.Proofs.Yaml.Blame
import StackTemplate.Yaml.Data.Read

/-!
Which problems a text can have: where one is a missing colon, it is the scanner's, and the key
stands in the text.
-/

namespace StackTemplate.Yaml

variable {text : List Char}

/-! Documents -/

namespace LoadedDocument

theorem problem_of_load {problem : Option Malformed} {events : List Event} {l : Loading}
    {e : Malformed} (h : (load problem events l).problem = some (.malformed e)) :
    problem = some e := by
  induction events generalizing l with
  | nil =>
    obtain ⟨e', he', heq⟩ := Option.map_eq_some_iff.mp h
    rw [he', LoadProblem.malformed.inj heq]
  | cons event rest ih =>
    unfold load at h
    dsimp only at h
    split at h
    · cases h
    · exact ih h
    · cases h
    · split at h
      · exact ih h
      · cases h
    · exact ih h
    · exact ih h
    · exact ih h
    · exact ih h
    · exact ih h

theorem keyIn_of_problem {e : Malformed} (h : (ofText text).problem = some (.malformed e)) :
    e.KeyIn text :=
  Events.keyIn_of_problem (problem_of_load h)

end LoadedDocument

/-! Reading -/

/-- The types that a core tag can ask of a scalar. -/
def typeNames : List String :=
  ["a boolean", "an integer", "a float", "null"]

/-- What is known of a problem in a text, beyond what it quotes of it. -/
def Problem.Arises (text : List Char) : Problem → Prop
  | malformed e => e.KeyIn text
  | unfit _ _ _ expected => expected ∈ typeNames
  | _ => True

/-- Whatever the reading fails with has the property, however many aliases were followed before. -/
def Fails {α : Type} (E : Problem → Prop) (x : Reading α) : Prop :=
  ∀ count problem, x.run count = .error problem → E problem

namespace Fails

variable {α β : Type} {E : Problem → Prop}

theorem pure (a : α) : Fails E (Pure.pure a : Reading α) :=
  nofun

theorem throw {problem : Problem} (h : E problem) :
    Fails E (MonadExcept.throw problem : Reading α) := by
  rintro count _ ⟨⟩
  exact h

theorem throw_bind {problem : Problem} {f : α → Reading β} (h : E problem) :
    Fails E ((MonadExcept.throw problem : Reading α) >>= f) := by
  rintro count _ ⟨⟩
  exact h

theorem bind {x : Reading α} {f : α → Reading β} (hx : Fails E x) (hf : ∀ a, Fails E (f a)) :
    Fails E (x >>= f) := by
  intro count problem h
  rw [StateT.run_bind] at h
  cases hfirst : x.run count with
  | error e =>
    rw [hfirst] at h
    cases h
    exact hx count _ hfirst
  | ok found =>
    rw [hfirst] at h
    exact hf found.1 found.2 problem h

theorem lift {x : Except Problem α} (hx : ∀ problem, x = .error problem → E problem) :
    Fails E (liftM x : Reading α) := by
  intro count problem h
  cases x with
  | error e =>
    cases h
    exact hx _ rfl
  | ok a => cases h

theorem ite {p : Prop} [Decidable p] {x y : Reading α} (hx : p → Fails E x)
    (hy : ¬ p → Fails E y) : Fails E (if p then x else y) := by
  split
  · rename_i hp
    exact hx hp
  · rename_i hp
    exact hy hp

end Fails

namespace Data

variable {d : LoadedDocument}

theorem fails_follow (d : LoadedDocument) (node : Node) :
    Fails (Problem.Arises text) (d.follow node) := by
  unfold LoadedDocument.follow
  split
  · refine .bind (fun count problem h => nomatch h) fun count => ?_
    refine .bind (fun count problem h => nomatch h) fun _ => ?_
    refine .ite (fun _ => .throw_bind trivial) fun _ => ?_
    dsimp only
    split
    · exact .pure _
    · exact .throw trivial
  · exact .pure _

theorem arises_ofPlain {trail : Trail} {mark : Mark} {scalar : List Char} {problem : Problem}
    (h : ofPlain trail mark scalar = .error problem) : problem.Arises text := by
  unfold ofPlain at h
  split at h <;> cases h
  trivial

theorem mem_typeNames {tag : Tag} {scalar : List Char} {data : Option Data} {expected : String}
    (h : ofForced? tag scalar = some (data, expected)) : expected ∈ typeNames := by
  unfold ofForced? at h
  split at h
  · cases h
    decide
  · split at h
    · cases h
      decide
    · split at h
      · cases h
        decide
      · split at h
        · cases h
          decide
        · cases h

theorem arises_ofScalar {trail : Trail} {mark : Mark} {tag : Option Tag} {named : Bool}
    {style : ScalarStyle} {scalar : List Char} {problem : Problem}
    (h : ofScalar trail mark tag named style scalar = .error problem) : problem.Arises text := by
  unfold ofScalar at h
  split at h
  · split at h
    · exact arises_ofPlain h
    · cases h
  · split at h
    · cases h
    · rename_i hforced
      cases h
      exact mem_typeNames hforced
    · split at h
      · exact arises_ofPlain h
      · cases h

theorem fails_readItems {E : Problem → Prop} {readItem : Nat → Node → Reading Data}
    (hread : ∀ i item, Fails E (readItem i item)) (i : Nat) (items : List Node) :
    Fails E (readItems readItem i items) := by
  induction items generalizing i with
  | nil => exact .pure _
  | cons item rest ih =>
    refine (hread i item).bind fun x => ?_
    exact (ih (i + 1)).bind fun xs => .pure _

theorem fails_readPairs {E : Problem → Prop} {readKey : Node → Reading Data}
    {readValue : Node → Node → Reading Data} {duplicate : Data → Problem}
    (hkey : ∀ key, Fails E (readKey key)) (hvalue : ∀ key value, Fails E (readValue key value))
    (hduplicate : ∀ k, E (duplicate k)) (pairs : List (Node × Node)) (done : List (Data × Data)) :
    Fails E (readPairs readKey readValue duplicate pairs done) := by
  induction pairs generalizing done with
  | nil => exact .pure _
  | cons pair rest ih =>
    obtain ⟨key, value⟩ := pair
    refine (hkey key).bind fun k => ?_
    refine .ite (fun _ => .throw_bind (hduplicate k)) fun _ => ?_
    exact (hvalue key value).bind fun v => ih _

/-- The problem at the end of the events is known where it is a malformed text. -/
theorem arises_endProblem (hd : ∀ e, d.problem = some (.malformed e) → e.KeyIn text) :
    d.endProblem.Arises text := by
  unfold LoadedDocument.endProblem
  split
  · rename_i problem hproblem
    cases problem with
    | malformed e => exact hd e hproblem
    | unknownAnchor mark => trivial
  · trivial

theorem fails_readNode (hd : ∀ e, d.problem = some (.malformed e) → e.KeyIn text)
    {inside : Option (Trail → Node → Reading Data)}
    (hinside : ∀ read, inside = some read →
      ∀ trail node, Fails (Problem.Arises text) (read trail node))
    (trail : Trail) (node : Node) : Fails (Problem.Arises text) (readNode d inside trail node) := by
  refine (fails_follow d node).bind fun target => ?_
  split
  · exact (Fails.lift fun _ => arises_ofScalar).bind fun content => .pure _
  · split
    · rename_i read
      exact (fails_readItems (fun i => hinside read rfl _) 0 _).bind fun items => .pure _
    · exact .throw trivial
  · rename_i mark _ _
    split
    · rename_i read
      have hduplicate : ∀ k, Problem.Arises text (.duplicateKey trail mark k) := fun _ => trivial
      have hpairs := fails_readPairs (hinside read rfl trail)
        (fun key => hinside read rfl (memberTrail trail key)) hduplicate
      exact (hpairs _ _).bind fun pairs => .pure _
    · exact .throw trivial
  · exact .pure _
  · exact .throw trivial
  · exact .throw (arises_endProblem hd)

theorem fails_read (hd : ∀ e, d.problem = some (.malformed e) → e.KeyIn text) (depth : Nat)
    (trail : Trail) (node : Node) : Fails (Problem.Arises text) (read d depth trail node) := by
  induction depth generalizing trail node with
  | zero =>
    refine fails_readNode hd ?_ trail node
    rintro _ ⟨⟩
  | succ depth ih =>
    refine fails_readNode hd ?_ trail node
    rintro _ ⟨⟩
    exact ih

/-- Every problem of a text: a missing colon is blamed on a key of the text, and a scalar that does
not fit its tag should have been of one of the core types. -/
theorem arises_of_error {problem : Problem} (h : ofText text = .error problem) :
    problem.Arises text := by
  have hd : ∀ e, (LoadedDocument.ofText text).problem = some (.malformed e) → e.KeyIn text :=
    fun _ => LoadedDocument.keyIn_of_problem
  unfold ofText ofDocument at h
  split at h
  · rename_i hread
    cases h
    exact fails_read hd _ _ _ _ _ hread
  · split at h
    · rename_i problem hproblem
      cases h
      cases problem with
      | malformed e => exact hd e hproblem
      | unknownAnchor mark => trivial
    · cases h

end Data

end StackTemplate.Yaml
