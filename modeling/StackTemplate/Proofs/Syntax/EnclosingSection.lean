import StackTemplate.Proofs.Syntax.EntityRoot
import StackTemplate.Syntax.Context

/-!
The section that a context names: the key that its path starts with. Where the pair of this key does
not stand in the content of the tree, the node lies in no section.
-/

namespace StackTemplate

namespace SyntaxTree

open Syntax Syntax.Place

variable {tree : SyntaxTree} {top : Place}

/-- A place in, or at, a pair of the content that has the key of a section. -/
def LiesIn (tree : SyntaxTree) (s : Section) (p : Place) : Prop :=
  ∃ top ∈ tree.rootValue?, ∃ pair ∈ top.children, pair.isPair tree.format = true ∧
    pair.keyText? tree.format = some s.key ∧ pair ∈ p.lineage

theorem section?_eq_some_iff {p : Place} {s : Section} :
    (Context.mk tree p).section? = some s ↔
      ∃ pair rest, tree.trail p = (.key s.key, pair) :: rest := by
  simp only [Context.section?, Context.path, pathOf, PropertyPath.firstKey?]
  constructor
  · intro h
    obtain ⟨name, hname, hs⟩ := Option.bind_eq_some_iff.mp h
    obtain rfl := Section.ofKey?_eq_some_iff.mp hs
    cases htrail : tree.trail p with
    | nil => simp [htrail] at hname
    | cons first rest =>
      obtain ⟨step, pair⟩ := first
      cases step with
      | key name =>
        obtain rfl : name = s.key := by simpa [htrail, PathStep.key?] using hname
        exact ⟨pair, rest, rfl⟩
      | index i => simp [htrail, PathStep.key?] at hname
  · rintro ⟨pair, rest, htrail⟩
    simp [htrail, PathStep.key?, Section.ofKey?_key]

/-- Outside of entries nothing has added a step. -/
theorem innermost?_of_trail_eq_nil (nested : top.Nested tree.format)
    (htop : top.innermost? tree.format = none) {p : Place} (hp : Below top p)
    (h : tree.trail p = []) : p.innermost? tree.format = none := by
  cases hin : p.innermost? tree.format with
  | none => rfl
  | some entry =>
    obtain ⟨hmem, hentry⟩ := mem_preorder_of_innermost? htop hp hin
    have haround : entry ∈ p.lineage := List.mem_of_find?_eq_some hin
    rcases Relation.ReflTransGen.cases_tail (mem_preorder.mp hmem) with rfl | ⟨q, hq, hc⟩
    · rw [innermost?_of_isEntry hentry] at htop
      cases htop
    · obtain ⟨step, rest, hsteps⟩ := exists_stepsAt nested (mem_preorder.mpr hq) hc hentry
      have hstep : (step, entry) ∈ tree.trail p := mem_trail.mpr ⟨haround, by simp [hsteps]⟩
      rw [h] at hstep
      cases hstep

/-- The first step below the content is added by one of its children. -/
theorem mem_children_of_trail (nested : top.Nested tree.format) (h : tree.rootValue? = some top)
    {p pair : Place} {step : PathStep} {rest : List (PathStep × Place)} (hp : Below top p)
    (htrail : tree.trail p = (step, pair) :: rest) : pair ∈ top.children := by
  have htop := innermost?_content h nested
  have hnil := trail_eq_nil_iff.mpr (pathOf_content nested h)
  induction hp generalizing rest with
  | refl =>
    rw [hnil] at htrail
    cases htrail
  | @tail p q hp hq ih =>
    cases hentry : q.isEntry tree.format with
    | false => exact ih ((trail_of_not_isEntry hq hentry).symm.trans htrail)
    | true =>
      rw [trail_of_mem_children hq] at htrail
      cases hp' : tree.trail p with
      | cons first more =>
        rw [hp'] at htrail
        obtain rfl := (List.cons.inj htrail).1
        exact ih hp'
      | nil =>
        have hmem := mem_preorder.mpr hp
        have hcontainer := nested.isContainer_of_isEntry hmem hq hentry
        have hwrapper := (unwraps_of_rootValue? h).2
        rcases nested.container_cases hwrapper hmem hcontainer with rfl | ⟨entry, he, -⟩
        · have hfirst : (step, pair) ∈ (tree.stepsAt q).map (·, q) := by
            rw [hp', List.nil_append] at htrail
            exact htrail ▸ List.mem_cons_self
          obtain ⟨_, -, hpair⟩ := List.mem_map.mp hfirst
          obtain rfl := (Prod.mk.inj hpair).2
          exact hq
        · rw [innermost?_of_trail_eq_nil nested htop hp hp'] at he
          cases he

theorem liesIn_iff_of_trail (shaped : ∀ top ∈ tree.rootValue?, (top.shape tree.format).isEntry = false)
    {p pair : Place} {s : Section} {rest : List (PathStep × Place)}
    (h : tree.trail p = (.key s.key, pair) :: rest) :
    tree.LiesIn s p ↔ ∃ top ∈ tree.rootValue?, pair ∈ top.children := by
  obtain ⟨haround, hstep⟩ := mem_trail.mp (h ▸ List.mem_cons_self)
  constructor
  · rintro ⟨top, htop, other, hc, hpair, hkey, hother⟩
    obtain ⟨more, hmore⟩ := exists_trail_eq hother
    rw [trail_of_mem_content (pathOf_rootValue htop (shaped top htop)) hc, h] at hmore
    have hsteps : tree.stepsAt other ≠ [] := by simp [stepsAt, hpair, hkey]
    obtain ⟨first, others, hfirst⟩ := List.exists_cons_of_ne_nil hsteps
    rw [hfirst] at hmore
    obtain rfl : pair = other := (Prod.mk.inj (List.cons.inj hmore).1).2
    exact ⟨top, htop, hc⟩
  · rintro ⟨top, htop, hc⟩
    obtain ⟨hpair, hkey⟩ := key_of_mem_stepsAt hstep
    exact ⟨top, htop, pair, hc, hpair, hkey, haround⟩

theorem liesIn_iff_of_nested (nested : ∀ top ∈ tree.rootValue?, top.Nested tree.format)
    {p pair : Place} {s : Section} {rest : List (PathStep × Place)} (hp : p ∈ tree.places)
    (h : tree.trail p = (.key s.key, pair) :: rest) :
    tree.LiesIn s p ↔ ∃ top ∈ tree.rootValue?, p ∈ top.preorder := by
  constructor
  · rintro ⟨top, htop, other, hc, -, -, hother⟩
    obtain ⟨-, hbelow⟩ := below_of_mem_lineage (mem_preorder.mp hp) hother
    exact ⟨top, htop, mem_preorder.mpr (.head hc hbelow)⟩
  · rintro ⟨top, htop, hbelow⟩
    obtain ⟨haround, hstep⟩ := mem_trail.mp (h ▸ List.mem_cons_self)
    obtain ⟨hpair, hkey⟩ := key_of_mem_stepsAt hstep
    have hc := mem_children_of_trail (nested top htop) htop (mem_preorder.mp hbelow) h
    exact ⟨top, htop, pair, hc, hpair, hkey, haround⟩

/-- A context that names a section is right exactly where the pair with this key stands in the
content of the tree. Where keys are scalars, that is exactly where the node lies in the content. -/
theorem liesIn_iff_of_section?
    (shaped : ∀ top ∈ tree.rootValue?, (top.shape tree.format).isEntry = false)
    {p : Place} (hp : p ∈ tree.places) {s : Section}
    (h : (Context.mk tree p).section? = some s) :
    (∃ pair rest, tree.trail p = (.key s.key, pair) :: rest ∧
      (tree.LiesIn s p ↔ ∃ top ∈ tree.rootValue?, pair ∈ top.children)) ∧
    ((∀ top ∈ tree.rootValue?, top.Nested tree.format) →
      (tree.LiesIn s p ↔ ∃ top ∈ tree.rootValue?, p ∈ top.preorder)) := by
  obtain ⟨pair, rest, htrail⟩ := section?_eq_some_iff.mp h
  refine ⟨⟨pair, rest, htrail, liesIn_iff_of_trail shaped htrail⟩, fun nested => ?_⟩
  exact liesIn_iff_of_nested nested hp htrail

def twoDocumentsText : String := "A: 1\n---\nResources:\n  B: 2\n"

def twoDocumentsRows : List Row :=
  [⟨0, "stream", true, false, false, false, false, none, 0, 27⟩,
    ⟨1, "document", true, false, false, false, false, none, 0, 4⟩,
    ⟨2, "block_node", true, false, false, false, false, none, 0, 4⟩,
    ⟨3, "block_mapping", true, false, false, false, false, none, 0, 4⟩,
    ⟨4, "block_mapping_pair", true, false, false, false, false, none, 0, 4⟩,
    ⟨5, "flow_node", true, false, false, false, false, some .key, 0, 1⟩,
    ⟨6, "plain_scalar", true, false, false, false, false, none, 0, 1⟩,
    ⟨7, "string_scalar", true, false, false, false, false, none, 0, 1⟩,
    ⟨5, ":", false, false, false, false, false, none, 1, 2⟩,
    ⟨5, "flow_node", true, false, false, false, false, some .value, 3, 4⟩,
    ⟨6, "plain_scalar", true, false, false, false, false, none, 3, 4⟩,
    ⟨7, "integer_scalar", true, false, false, false, false, none, 3, 4⟩,
    ⟨1, "document", true, false, false, false, false, none, 5, 27⟩,
    ⟨2, "---", false, false, false, false, false, none, 5, 8⟩,
    ⟨2, "block_node", true, false, false, false, false, none, 9, 27⟩,
    ⟨3, "block_mapping", true, false, false, false, false, none, 9, 27⟩,
    ⟨4, "block_mapping_pair", true, false, false, false, false, none, 9, 27⟩,
    ⟨5, "flow_node", true, false, false, false, false, some .key, 9, 18⟩,
    ⟨6, "plain_scalar", true, false, false, false, false, none, 9, 18⟩,
    ⟨7, "string_scalar", true, false, false, false, false, none, 9, 18⟩,
    ⟨5, ":", false, false, false, false, false, none, 18, 19⟩,
    ⟨5, "block_node", true, false, false, false, false, some .value, 22, 27⟩,
    ⟨6, "block_mapping", true, false, false, false, false, none, 22, 27⟩,
    ⟨7, "block_mapping_pair", true, false, false, false, false, none, 22, 26⟩,
    ⟨8, "flow_node", true, false, false, false, false, some .key, 22, 23⟩,
    ⟨9, "plain_scalar", true, false, false, false, false, none, 22, 23⟩,
    ⟨10, "string_scalar", true, false, false, false, false, none, 22, 23⟩,
    ⟨8, ":", false, false, false, false, false, none, 23, 24⟩,
    ⟨8, "flow_node", true, false, false, false, false, some .value, 25, 26⟩,
    ⟨9, "plain_scalar", true, false, false, false, false, none, 25, 26⟩,
    ⟨10, "integer_scalar", true, false, false, false, false, none, 25, 26⟩]

def twoDocuments : SyntaxTree :=
  ⟨.detect "file:///t.yaml" 1 twoDocumentsText,
    (Node.ofRows? twoDocumentsText.toList twoDocumentsRows).getD default⟩

/-- The key of the second document. -/
def secondKey : Place :=
  twoDocuments.places.get ⟨19, by decide⟩

theorem section?_secondKey : (Context.mk twoDocuments secondKey).section? = some .resources := by
  decide

theorem shape_twoDocuments : ∀ top ∈ twoDocuments.rootValue?,
    (top.shape twoDocuments.format).isEntry = false := by
  decide

theorem not_liesIn_secondKey : ¬ twoDocuments.LiesIn .resources secondKey := by
  have hkeys : ∀ top ∈ twoDocuments.rootValue?, ∀ pair ∈ top.children,
      pair.keyText? twoDocuments.format ≠ some (Section.key .resources) := by
    decide
  rintro ⟨top, htop, pair, hc, -, hkey, -⟩
  exact hkeys top htop pair hc hkey

def firstTop : Place :=
  twoDocuments.rootValue?.getD default

theorem nested_firstTop : firstTop.Nested twoDocuments.format where
  keyed := by decide
  pairInContainer := by decide
  itemInSequence := by decide
  wrapsOne := wrapsOne_of_isAt (by decide)
  noDocument := by decide
  containerIsValue := containerIsValue_of_isAt (by decide)

theorem liesIn_iff_of_section?_secondKey :
    (∃ pair rest, twoDocuments.trail secondKey = (.key "Resources", pair) :: rest ∧
      ¬ ∃ top ∈ twoDocuments.rootValue?, pair ∈ top.children) ∧
    ¬ ∃ top ∈ twoDocuments.rootValue?, secondKey ∈ top.preorder := by
  have hnested : ∀ top ∈ twoDocuments.rootValue?, top.Nested twoDocuments.format := by
    intro top htop
    obtain rfl : firstTop = top := Option.some.inj htop
    exact nested_firstTop
  have hmem : secondKey ∈ twoDocuments.places := List.get_mem _ _
  obtain ⟨⟨pair, rest, htrail, hiff⟩, hcontent⟩ :=
    liesIn_iff_of_section? shape_twoDocuments hmem section?_secondKey
  exact ⟨⟨pair, rest, htrail, mt hiff.mpr not_liesIn_secondKey⟩,
    mt (hcontent hnested).mpr not_liesIn_secondKey⟩

theorem not_forall_liesIn :
    ¬ ∀ tree : SyntaxTree, (∀ q ∈ tree.places, q.node.isFault = false) →
      ∀ p ∈ tree.places, ∀ s, (Context.mk tree p).section? = some s → tree.LiesIn s p := by
  intro h
  apply not_liesIn_secondKey
  exact h twoDocuments (by decide) secondKey (List.get_mem _ _) .resources section?_secondKey

end SyntaxTree

end StackTemplate
