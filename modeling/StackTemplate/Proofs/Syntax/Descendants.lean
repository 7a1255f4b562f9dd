import StackTemplate.Proofs.Syntax.EntityRoot
import StackTemplate.Syntax.Context

/-!
What a node hands down to the nodes below it: its way from the root, its path and its entity. An
entity is its own entity, and every node of a tree has a context.
-/

namespace StackTemplate

namespace Syntax.Place

theorem ancestors_isPrefix {p q : Place} (h : Below p q) : p.ancestors <+: q.ancestors := by
  induction h with
  | refl => exact List.prefix_rfl
  | tail _ hc ih =>
    rw [ancestors_of_mem_children hc]
    exact ih.trans (List.prefix_append _ _)

theorem head?_ancestors {node : Node} {p : Place} (h : Below (root node) p) :
    p.ancestors.head? = some (root node) := by
  obtain ⟨rest, hrest⟩ := ancestors_isPrefix h
  rw [← hrest]
  rfl

theorem getLast?_ancestors (p : Place) : p.ancestors.getLast? = some p := by
  obtain ⟨node, above⟩ := p
  cases above <;> simp [ancestors, lineage, upFrom]

theorem mem_ancestors {p q : Place} : q ∈ p.ancestors ↔ q ∈ p.lineage :=
  List.mem_reverse

end Syntax.Place

open Syntax Syntax.Place

namespace SyntaxTree

variable {tree : SyntaxTree} {p q entry : Place}

theorem pathOf_isPrefix (h : Below p q) : tree.pathOf p <+: tree.pathOf q := by
  induction h with
  | refl => exact List.prefix_rfl
  | tail _ hc ih =>
    rw [pathOf_of_mem_children hc]
    exact ih.trans (List.prefix_append _ _)

/-! Entities -/

theorem mem_lineage_of_entityRoot? (h : tree.entityRoot? p = some entry) : entry ∈ p.lineage := by
  obtain ⟨s, pair, step, rest, htrail, -⟩ := entityRoot?_eq_some_iff_trail.mp h
  have hmem : (step, entry) ∈ tree.trail p := by simp [htrail]
  exact (mem_trail.mp hmem).1

/-- The first two steps of a path stay the first two of all paths below. -/
theorem entityRoot?_of_below (h : Below p q) (he : tree.entityRoot? p = some entry) :
    tree.entityRoot? q = some entry := by
  obtain ⟨s, pair, step, rest, htrail, hlevel⟩ := entityRoot?_eq_some_iff_trail.mp he
  obtain ⟨more, hmore⟩ : ∃ more, tree.trail q = tree.trail p ++ more :=
    exists_trail_eq (mem_lineage_of_below h)
  rw [htrail] at hmore
  exact entityRoot?_eq_some_iff_trail.mpr ⟨s, pair, step, rest ++ more, hmore, hlevel⟩

/-- A node that has an entity has that of its parent or is the entity: if one of the first two steps
comes from the node, then the second does. -/
theorem entityRoot?_of_mem_children (hc : q ∈ p.children) (h : tree.entityRoot? q = some entry) :
    tree.entityRoot? p = some entry ∨ entry = q := by
  obtain ⟨s, pair, step, rest, htrail, hlevel⟩ := entityRoot?_eq_some_iff_trail.mp h
  rw [trail_of_mem_children hc] at htrail
  have hown : (step, entry) ∈ (tree.stepsAt q).map (·, q) → entry = q := by
    intro hmem
    obtain ⟨_, -, heq⟩ := List.mem_map.mp hmem
    exact (Prod.mk.inj heq).2.symm
  match hp : tree.trail p with
  | [] =>
    rw [hp, List.nil_append] at htrail
    exact .inr (hown (by simp [htrail]))
  | [first] =>
    rw [hp, List.singleton_append] at htrail
    obtain ⟨-, hsteps⟩ := List.cons.inj htrail
    exact .inr (hown (by simp [hsteps]))
  | first :: second :: above =>
    rw [hp, List.cons_append, List.cons_append] at htrail
    obtain ⟨rfl, hsecond⟩ := List.cons.inj htrail
    obtain ⟨rfl, -⟩ := List.cons.inj hsecond
    exact .inl (entityRoot?_eq_some_iff_trail.mpr ⟨s, pair, step, above, hp, hlevel⟩)

/-- By induction on the way down: an entity comes from the parent, or is the node itself. -/
theorem entityRoot?_entityRoot (hp : Below tree.root p) (h : tree.entityRoot? p = some entry) :
    tree.entityRoot? entry = some entry := by
  induction hp with
  | refl =>
    obtain rfl : entry = tree.root := by
      simpa [root, lineage_root] using mem_lineage_of_entityRoot? h
    exact h
  | tail _ hc ih =>
    rcases entityRoot?_of_mem_children hc h with hparent | rfl
    · exact ih hparent
    · exact h

/-! Contexts -/

theorem ofPlace_of_mem_places (h : p ∈ tree.places) : Context.ofPlace tree p = .ok ⟨tree, p⟩ := by
  obtain ⟨rest, hrest⟩ := List.head?_eq_some_iff.mp (head?_ancestors (mem_preorder.mp h))
  have hroot : Place.root tree.rootNode = tree.root := rfl
  simp [Context.ofPlace, hrest, hroot]

theorem mem_places_of_nodeAt? {position : Position} (h : tree.nodeAt? position = some p) :
    p ∈ tree.places := by
  simp only [nodeAt?] at h
  split at h
  case isTrue =>
    obtain rfl := Option.some.inj h
    exact mem_preorder.mpr (descends_descend _ tree.root).below
  case isFalse => cases h

theorem mem_places_of_step? {step : PathStep} (hp : p ∈ tree.places)
    (h : tree.step? p step = some q) : q ∈ tree.places := by
  obtain ⟨found, hfound, hcase⟩ := step?_eq_some h
  have hcontainer := mem_places_of_below hp (unwraps_unwrap tree.format p).below
  have hmem := mem_places_of_mem_children hcontainer hfound
  rcases hcase with ⟨_, -, -, -, -, rfl⟩ | ⟨_, -, -, -, rfl⟩
  · cases hv : found.field? .value with
    | none => exact hmem
    | some value => exact mem_places_of_mem_children hmem (mem_children_of_field? hv)
  · cases hv : found.itemValue? tree.format with
    | none => exact hmem
    | some value =>
      rcases itemValue?_eq_some hv with ⟨-, hc⟩ | rfl
      · exact mem_places_of_mem_children hmem hc
      · exact hmem

theorem mem_places_of_lookupFrom (path : PropertyPath) (hp : p ∈ tree.places) :
    (tree.lookupFrom p path).place ∈ tree.places := by
  induction path generalizing p with
  | nil => exact hp
  | cons step path ih =>
    cases hs : tree.step? p step with
    | none => simpa [lookupFrom, hs] using hp
    | some q => simpa [lookupFrom, hs] using ih (mem_places_of_step? hp hs)

theorem mem_places_of_lookup (tree : SyntaxTree) (path : PropertyPath) :
    (tree.lookup path).place ∈ tree.places := by
  cases hr : tree.rootValue? with
  | none => simpa [lookup, hr] using root_mem_places tree
  | some content =>
    simpa [lookup, hr] using mem_places_of_lookupFrom path (mem_places_of_rootValue? hr)

/-- The context at a position is that of the node there. -/
theorem contextAt?_eq (tree : SyntaxTree) (position : Position) :
    tree.contextAt? position =
      (tree.nodeAt? position).bind fun p => (Context.ofPlace tree p).toOption := by
  cases h : tree.nodeAt? position with
  | none => simp [contextAt?, h]
  | some p =>
    rw [contextAt?, h, Option.map_some, Option.bind_some,
      ofPlace_of_mem_places (mem_places_of_nodeAt? h)]
    rfl

/-- A path always leads to a node with a context. -/
theorem ofPlace_contextByPath (tree : SyntaxTree) (path : PropertyPath) :
    Context.ofPlace tree (tree.lookup path).place = .ok (tree.contextByPath path).1 :=
  ofPlace_of_mem_places (mem_places_of_lookup tree path)

/-- In every tree, with errors or not, the ancestors and the path of a node start those of every
node below it, and a node with an entity has the same entity as all nodes below it: a node at or
above it that is its own entity. -/
theorem ancestry_of_below (tree : SyntaxTree) {p q : Place} (hp : p ∈ tree.places)
    (hq : q ∈ p.preorder) :
    (p.ancestors <+: q.ancestors ∧
      (p.ancestors.head? = some tree.root ∧ p.ancestors.getLast? = some p) ∧
      q.ancestors.head? = some tree.root ∧ q.ancestors.getLast? = some q) ∧
    tree.pathOf p <+: tree.pathOf q ∧
    (∀ entry, tree.entityRoot? p = some entry →
      tree.entityRoot? q = some entry ∧ entry ∈ p.ancestors ∧
        tree.entityRoot? entry = some entry) ∧
    Context.ofPlace tree p = .ok ⟨tree, p⟩ := by
  have hroot := mem_preorder.mp hp
  have hbelow := mem_preorder.mp hq
  refine ⟨⟨ancestors_isPrefix hbelow, ⟨head?_ancestors hroot, getLast?_ancestors p⟩,
    head?_ancestors (.trans hroot hbelow), getLast?_ancestors q⟩, pathOf_isPrefix hbelow, ?_,
    ofPlace_of_mem_places hp⟩
  intro entry hentry
  exact ⟨entityRoot?_of_below hbelow hentry, mem_ancestors.mpr (mem_lineage_of_entityRoot? hentry),
    entityRoot?_entityRoot hroot hentry⟩

def trailingCommaText : String := "\x7b\"Resources\": \x7b\"B\": \x7b\x7d, \x7d\x7d"

def trailingCommaRows : List Row :=
  [⟨0, "document", true, false, false, false, true, none, 0, 26⟩,
    ⟨1, "object", true, false, false, false, true, none, 0, 26⟩,
    ⟨2, "\x7b", false, false, false, false, false, none, 0, 1⟩,
    ⟨2, "pair", true, false, false, false, true, none, 1, 25⟩,
    ⟨3, "string", true, false, false, false, false, some .key, 1, 12⟩,
    ⟨4, "\"", false, false, false, false, false, none, 1, 2⟩,
    ⟨4, "string_content", true, false, false, false, false, none, 2, 11⟩,
    ⟨4, "\"", false, false, false, false, false, none, 11, 12⟩,
    ⟨3, ":", false, false, false, false, false, none, 12, 13⟩,
    ⟨3, "object", true, false, false, false, true, some .value, 14, 25⟩,
    ⟨4, "\x7b", false, false, false, false, false, none, 14, 15⟩,
    ⟨4, "pair", true, false, false, false, false, none, 15, 22⟩,
    ⟨5, "string", true, false, false, false, false, some .key, 15, 18⟩,
    ⟨6, "\"", false, false, false, false, false, none, 15, 16⟩,
    ⟨6, "string_content", true, false, false, false, false, none, 16, 17⟩,
    ⟨6, "\"", false, false, false, false, false, none, 17, 18⟩,
    ⟨5, ":", false, false, false, false, false, none, 18, 19⟩,
    ⟨5, "object", true, false, false, false, false, some .value, 20, 22⟩,
    ⟨6, "\x7b", false, false, false, false, false, none, 20, 21⟩,
    ⟨6, "\x7d", false, false, false, false, false, none, 21, 22⟩,
    ⟨4, "ERROR", true, true, true, false, true, none, 22, 23⟩,
    ⟨5, ",", false, false, false, false, false, none, 22, 23⟩,
    ⟨4, "\x7d", false, false, false, false, false, none, 24, 25⟩,
    ⟨2, "\x7d", false, false, false, false, false, none, 25, 26⟩]

def trailingComma : SyntaxTree :=
  ⟨.detect "file:///t.json" 1 trailingCommaText,
    (Node.ofRows? trailingCommaText.toList trailingCommaRows).getD default⟩

/-- The one resource of a text with an error behind it, its value, and the brace that opens that. -/
def resourcePair : Place :=
  trailingComma.places.get ⟨11, by decide⟩

def resourceValue : Place :=
  trailingComma.places.get ⟨17, by decide⟩

def resourceBrace : Place :=
  trailingComma.places.get ⟨18, by decide⟩

theorem ancestry_of_below_resource :
    resourceValue ∈ trailingComma.places ∧ resourceBrace ∈ resourceValue.preorder ∧
      trailingComma.hasErrors = true ∧
      trailingComma.entityRoot? resourceValue = some resourcePair ∧
      trailingComma.entityRoot? resourceBrace = some resourcePair ∧
      trailingComma.entityRoot? resourcePair = some resourcePair ∧
      trailingComma.pathOf resourceValue <+: trailingComma.pathOf resourceBrace := by
  have hmem : resourceValue ∈ trailingComma.places := List.get_mem _ _
  have hbelow : resourceBrace ∈ resourceValue.preorder := by decide
  have hentity : trailingComma.entityRoot? resourceValue = some resourcePair := rfl
  obtain ⟨-, hpath, hentities, -⟩ := ancestry_of_below trailingComma hmem hbelow
  obtain ⟨hbrace, -, hself⟩ := hentities resourcePair hentity
  exact ⟨hmem, hbelow, rfl, hentity, hbrace, hself, hpath⟩

end SyntaxTree

end StackTemplate
