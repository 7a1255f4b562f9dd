import StackTemplate.Proofs.Syntax.TopLevelSections

/-!
The content of a YAML stream: what the node of its first document wraps. The way down from the root
takes the first part of the document, and so gets to a directive where there is one.
-/

namespace StackTemplate

namespace Syntax

def Node.isDirective (node : Node) : Bool :=
  node.info.kind ∈ ["yaml_directive", "tag_directive", "reserved_directive"]

/-- Whether a node of a document wraps its content. -/
def Node.wrapsContent (node : Node) : Bool :=
  node.info.kind ∈ ["block_node", "flow_node"]

namespace Place

variable {p c : Place}

/-- What a node wraps, tags and anchors apart. -/
def wrapped? (p : Place) : Option Place :=
  p.contentChildren.find? fun child => !(child.shape .yaml).isDecoration

theorem child?_wraps (h : p.isWrapper .yaml = true) : p.child? (wraps .yaml) = p.wrapped? := by
  have hwrapper : p.node.shape .yaml = .wrapper := shape_of_isWrapper h
  rw [child?, wrapped?, contentChildren, List.find?_filter]
  simp [wraps, hwrapper, Place.shape]

/-- The value of a wrapper is that of what it wraps. -/
theorem rootValue?_of_isWrapper (h : p.isWrapper .yaml = true) :
    p.rootValue? .yaml = p.wrapped?.bind (·.rootValue? .yaml) := by
  have hunwrap : p.unwrap .yaml = (p.wrapped?.map (·.unwrap .yaml)).getD p := by
    rw [unwrap, descend_eq, child?_wraps h]
    rfl
  simp only [rootValue?, hunwrap]
  cases p.wrapped? with
  | none => simp [h]
  | some c => rfl

theorem rootValue?_of_not_isWrapper (h : p.isWrapper .yaml = false) :
    p.rootValue? .yaml = some p := by
  simp [rootValue?, unwrap_of_isWrapper_eq_false h, h]

theorem wrapped?_eq_head? (h : ∀ c ∈ p.contentChildren, (c.shape .yaml).isDecoration = false) :
    p.wrapped? = p.contentChildren.head? := by
  rw [wrapped?]
  cases hc : p.contentChildren with
  | nil => rfl
  | cons c rest =>
    rw [List.find?_cons_of_pos, List.head?_cons]
    rw [h c (hc ▸ List.mem_cons_self)]
    rfl

theorem shape_of_isDirective (h : c.node.isDirective = true) : c.shape .yaml = .other := by
  simp only [Node.isDirective, decide_eq_true_eq, List.mem_cons, List.not_mem_nil, or_false] at h
  rcases h with h | h | h <;> simp [Place.shape, Node.shape, Shape.ofYaml, h]

theorem shape_of_wrapsContent (h : c.node.wrapsContent = true) : c.shape .yaml = .wrapper := by
  simp only [Node.wrapsContent, decide_eq_true_eq, List.mem_cons, List.not_mem_nil, or_false] at h
  rcases h with h | h <;> simp [Place.shape, Node.shape, Shape.ofYaml, h]

end Place

end Syntax

namespace SyntaxTree

open Syntax Syntax.Place

variable {tree : SyntaxTree} {doc part d : Place}

/-- A YAML stream holds documents, a document directives and a node, and a node tags, anchors and
what is no wrapper; comments are no content of either. -/
structure StreamShaped (tree : SyntaxTree) : Prop where
  yaml : tree.format = .yaml
  stream : tree.rootNode.info.kind = "stream"
  documents : ∀ doc ∈ tree.root.contentChildren, doc.node.info.kind = "document"
  parts : ∀ doc ∈ tree.root.contentChildren, ∀ part ∈ doc.contentChildren,
    part.node.isDirective = true ∨ part.node.wrapsContent = true
  contents : ∀ doc ∈ tree.root.contentChildren, ∀ part ∈ doc.contentChildren,
    part.node.wrapsContent = true → ∀ c ∈ part.contentChildren, c.isWrapper .yaml = false

def firstDocument? (tree : SyntaxTree) : Option Place :=
  tree.root.contentChildren.find? (·.node.info.kind = "document")

/-- What the block or flow node of the first document wraps. -/
def documentContent? (tree : SyntaxTree) : Option Place :=
  tree.firstDocument?.bind fun doc => (doc.contentChildren.find? (·.node.wrapsContent)).bind wrapped?

/-- The directive that the first document starts with. -/
def leadingDirective? (tree : SyntaxTree) : Option Place :=
  tree.firstDocument?.bind fun doc => doc.contentChildren.head?.filter (·.node.isDirective)

namespace StreamShaped

theorem firstDocument?_eq (shaped : tree.StreamShaped) :
    tree.firstDocument? = tree.root.contentChildren.head? := by
  rw [firstDocument?]
  cases h : tree.root.contentChildren with
  | nil => rfl
  | cons doc rest =>
    have hdoc := shaped.documents doc (h ▸ List.mem_cons_self)
    rw [List.find?_cons_of_pos (by simpa using hdoc), List.head?_cons]

theorem shape_document (shaped : tree.StreamShaped) (h : doc ∈ tree.root.contentChildren) :
    doc.shape .yaml = .wrapper := by
  simp [Place.shape, Node.shape, Shape.ofYaml, shaped.documents doc h]

theorem mem_firstDocument? (shaped : tree.StreamShaped) (h : tree.firstDocument? = some doc) :
    doc ∈ tree.root.contentChildren :=
  List.mem_of_head? (shaped.firstDocument?_eq ▸ h)

theorem rootValue?_root (shaped : tree.StreamShaped) :
    tree.rootValue? = tree.firstDocument?.bind (·.rootValue? .yaml) := by
  have hroot : tree.root.isWrapper .yaml = true := by
    have hkind := shaped.stream
    simp [root, Place.root, isWrapper, Place.shape, Node.shape, Shape.ofYaml, hkind]
  have hdecoration : ∀ doc ∈ tree.root.contentChildren, (doc.shape .yaml).isDecoration = false := by
    intro doc hdoc
    rw [shaped.shape_document hdoc]
    rfl
  rw [SyntaxTree.rootValue?, shaped.yaml, rootValue?_of_isWrapper hroot,
    wrapped?_eq_head? hdecoration, shaped.firstDocument?_eq]

theorem rootValue?_document (shaped : tree.StreamShaped) (h : doc ∈ tree.root.contentChildren) :
    doc.rootValue? .yaml = doc.contentChildren.head?.bind (·.rootValue? .yaml) := by
  have hdecoration : ∀ part ∈ doc.contentChildren, (part.shape .yaml).isDecoration = false := by
    intro part hpart
    rcases shaped.parts doc h part hpart with hd | hw
    · rw [shape_of_isDirective hd]
      rfl
    · rw [shape_of_wrapsContent hw]
      rfl
  rw [rootValue?_of_isWrapper (by simp [isWrapper, shaped.shape_document h]),
    wrapped?_eq_head? hdecoration]

theorem rootValue?_directive (h : part.node.isDirective = true) :
    part.rootValue? .yaml = some part :=
  rootValue?_of_not_isWrapper (by simp [isWrapper, shape_of_isDirective h])

theorem rootValue?_node (shaped : tree.StreamShaped) (h : doc ∈ tree.root.contentChildren)
    (hpart : part ∈ doc.contentChildren) (hw : part.node.wrapsContent = true) :
    part.rootValue? .yaml = part.wrapped? := by
  rw [rootValue?_of_isWrapper (by simp [isWrapper, shape_of_wrapsContent hw])]
  cases hc : part.wrapped? with
  | none => rfl
  | some c =>
    have hmem : c ∈ part.contentChildren := List.mem_of_find?_eq_some hc
    exact rootValue?_of_not_isWrapper (shaped.contents doc h part hpart hw c hmem)

end StreamShaped

theorem rootValue?_eq_documentContent? (shaped : tree.StreamShaped)
    (h : tree.leadingDirective? = none) : tree.rootValue? = tree.documentContent? := by
  rw [shaped.rootValue?_root, documentContent?]
  cases hdoc : tree.firstDocument? with
  | none => rfl
  | some doc =>
    have hmem := shaped.mem_firstDocument? hdoc
    rw [Option.bind_some, Option.bind_some, shaped.rootValue?_document hmem]
    cases hparts : doc.contentChildren with
    | nil => rfl
    | cons part rest =>
      have hpart : part ∈ doc.contentChildren := hparts ▸ List.mem_cons_self
      have hw : part.node.wrapsContent = true := by
        apply (shaped.parts doc hmem part hpart).resolve_left
        intro hd
        simp [leadingDirective?, hdoc, hparts, hd] at h
      rw [List.head?_cons, Option.bind_some, shaped.rootValue?_node hmem hpart hw,
        List.find?_cons_of_pos (by exact hw), Option.bind_some]

theorem rootValue?_of_leadingDirective? (shaped : tree.StreamShaped)
    (h : tree.leadingDirective? = some d) :
    tree.rootValue? = some d ∧ d.node.isDirective = true := by
  obtain ⟨doc, hdoc, hfirst⟩ := Option.bind_eq_some_iff.mp h
  obtain ⟨hd, hdirective⟩ := Option.filter_eq_some_iff.mp hfirst
  have hmem := shaped.mem_firstDocument? hdoc
  rw [shaped.rootValue?_root, hdoc, Option.bind_some, shaped.rootValue?_document hmem, hd,
    Option.bind_some, StreamShaped.rootValue?_directive hdirective]
  exact ⟨rfl, hdirective⟩

theorem documentContent?_ne_of_leadingDirective?
    (h : tree.leadingDirective? = some d) : tree.documentContent? ≠ some d := by
  intro hcontent
  obtain ⟨doc, hdoc, hfirst⟩ := Option.bind_eq_some_iff.mp h
  obtain ⟨_, hsame, hnode⟩ := Option.bind_eq_some_iff.mp hcontent
  obtain rfl := Option.some.inj (hdoc.symm.trans hsame)
  obtain ⟨part, hpart, hwrapped⟩ := Option.bind_eq_some_iff.mp hnode
  have hd := mem_children_of_mem_contentChildren
    (List.mem_of_head? (Option.filter_eq_some_iff.mp hfirst).1)
  have hpart := mem_children_of_mem_contentChildren (List.mem_of_find?_eq_some hpart)
  have hin := mem_children_of_mem_contentChildren (List.mem_of_find?_eq_some hwrapped)
  -- a directive stands beside the node of its document, and what this wraps lies in it
  obtain rfl := eq_of_below_of_below hd hpart .refl (.single hin)
  exact Nat.lt_irrefl _ (length_above_lt hin .refl)

theorem finds_nothing (hyaml : tree.format = .yaml) (h : tree.rootValue? = some d)
    (hd : d.node.isDirective = true) :
    (∀ wanted, tree.sections wanted = []) ∧
      ∀ step rest, tree.lookup (step :: rest) = ⟨d, false⟩ := by
  have hshape := shape_of_isDirective hd
  have hwrapper : d.isWrapper .yaml = false := by simp [isWrapper, hshape]
  constructor
  · intro wanted
    have hpairs : tree.topLevelPairs = [] := by
      simp [topLevelPairs_eq h, hyaml, isBlock, hshape]
    rw [sections, hpairs]
    rfl
  · intro step rest
    have hstep : tree.step? d step = none := by
      have hunwrap := unwrap_of_isWrapper_eq_false hwrapper
      cases step <;> simp [step?, hyaml, hunwrap, isBlock, isSequence, Shape.isSequence, hshape]
    simp only [lookup, h, lookupFrom, hstep]

/-- The value of a stream is the content of its first document, or nothing without content, exactly
where no directive comes first; otherwise it is this directive, and nothing is found in it. -/
theorem rootValue?_eq_documentContent?_iff (shaped : tree.StreamShaped) :
    (tree.rootValue? = tree.documentContent? ↔ tree.leadingDirective? = none) ∧
      ∀ d, tree.leadingDirective? = some d → tree.rootValue? = some d ∧
        (∀ wanted, tree.sections wanted = []) ∧
        ∀ step rest, tree.lookup (step :: rest) = ⟨d, false⟩ := by
  constructor
  · constructor
    · intro hsame
      rw [Option.eq_none_iff_forall_ne_some]
      intro d hd
      apply documentContent?_ne_of_leadingDirective? hd
      rw [← hsame, (rootValue?_of_leadingDirective? shaped hd).1]
    · exact rootValue?_eq_documentContent? shaped
  · intro d h
    obtain ⟨hroot, hd⟩ := rootValue?_of_leadingDirective? shaped h
    exact ⟨hroot, finds_nothing shaped.yaml hroot hd⟩

def versionedText : String := "%YAML 1.2\n---\nResources: \x7bA: \x7bType: T\x7d\x7d\n"

def versionedRows : List Row :=
  [⟨0, "stream", true, false, false, false, false, none, 0, 40⟩,
    ⟨1, "document", true, false, false, false, false, none, 0, 40⟩,
    ⟨2, "yaml_directive", true, false, false, false, false, none, 0, 9⟩,
    ⟨3, "yaml_version", true, false, false, false, false, none, 6, 9⟩,
    ⟨2, "---", false, false, false, false, false, none, 10, 13⟩,
    ⟨2, "block_node", true, false, false, false, false, none, 14, 40⟩,
    ⟨3, "block_mapping", true, false, false, false, false, none, 14, 40⟩,
    ⟨4, "block_mapping_pair", true, false, false, false, false, none, 14, 39⟩,
    ⟨5, "flow_node", true, false, false, false, false, some .key, 14, 23⟩,
    ⟨6, "plain_scalar", true, false, false, false, false, none, 14, 23⟩,
    ⟨7, "string_scalar", true, false, false, false, false, none, 14, 23⟩,
    ⟨5, ":", false, false, false, false, false, none, 23, 24⟩,
    ⟨5, "flow_node", true, false, false, false, false, some .value, 25, 39⟩,
    ⟨6, "flow_mapping", true, false, false, false, false, none, 25, 39⟩,
    ⟨7, "\x7b", false, false, false, false, false, none, 25, 26⟩,
    ⟨7, "flow_pair", true, false, false, false, false, none, 26, 38⟩,
    ⟨8, "flow_node", true, false, false, false, false, some .key, 26, 27⟩,
    ⟨9, "plain_scalar", true, false, false, false, false, none, 26, 27⟩,
    ⟨10, "string_scalar", true, false, false, false, false, none, 26, 27⟩,
    ⟨8, ":", false, false, false, false, false, none, 27, 28⟩,
    ⟨8, "flow_node", true, false, false, false, false, some .value, 29, 38⟩,
    ⟨9, "flow_mapping", true, false, false, false, false, none, 29, 38⟩,
    ⟨10, "\x7b", false, false, false, false, false, none, 29, 30⟩,
    ⟨10, "flow_pair", true, false, false, false, false, none, 30, 37⟩,
    ⟨11, "flow_node", true, false, false, false, false, some .key, 30, 34⟩,
    ⟨12, "plain_scalar", true, false, false, false, false, none, 30, 34⟩,
    ⟨13, "string_scalar", true, false, false, false, false, none, 30, 34⟩,
    ⟨11, ":", false, false, false, false, false, none, 34, 35⟩,
    ⟨11, "flow_node", true, false, false, false, false, some .value, 36, 37⟩,
    ⟨12, "plain_scalar", true, false, false, false, false, none, 36, 37⟩,
    ⟨13, "string_scalar", true, false, false, false, false, none, 36, 37⟩,
    ⟨10, "\x7d", false, false, false, false, false, none, 37, 38⟩,
    ⟨7, "\x7d", false, false, false, false, false, none, 38, 39⟩]

/-- A template with a `%YAML` directive before it. -/
def versioned : SyntaxTree :=
  ⟨.detect "file:///t.yaml" 1 versionedText,
    (Node.ofRows? versionedText.toList versionedRows).getD default⟩

theorem streamShaped_versioned : versioned.StreamShaped :=
  ⟨by decide, by decide, by decide, by decide, by decide⟩

theorem leadingDirective?_versioned :
    versioned.leadingDirective? = some versioned.places[2]! := by
  decide

theorem documentContent?_versioned :
    versioned.documentContent? = some versioned.places[6]! := by
  decide

theorem rootValue?_eq_documentContent?_iff_versioned :
    versioned.StreamShaped ∧ versioned.leadingDirective? = some versioned.places[2]! ∧
      versioned.rootValue? = some versioned.places[2]! ∧
      versioned.sections Section.all = [] ∧
      versioned.lookup [.key "Resources"] = ⟨versioned.places[2]!, false⟩ ∧
      versioned.rootValue? ≠ versioned.documentContent? := by
  obtain ⟨hiff, hdirective⟩ := rootValue?_eq_documentContent?_iff streamShaped_versioned
  obtain ⟨hroot, hsections, hlookup⟩ := hdirective _ leadingDirective?_versioned
  have hne : versioned.rootValue? ≠ versioned.documentContent? := by
    intro hsame
    have hnone := hiff.mp hsame
    rw [leadingDirective?_versioned] at hnone
    cases hnone
  exact ⟨streamShaped_versioned, leadingDirective?_versioned, hroot, hsections _, hlookup _ _, hne⟩

theorem not_forall_rootValue?_eq :
    ¬ ∀ tree : SyntaxTree, tree.StreamShaped → (∀ p ∈ tree.places, p.node.isFault = false) →
      tree.rootValue? = tree.documentContent? := by
  intro h
  have hsame := h versioned streamShaped_versioned (by decide)
  rw [documentContent?_versioned] at hsame
  have hroot : versioned.rootValue? = some versioned.places[2]! := by decide
  rw [hroot] at hsame
  exact absurd (congrArg (Option.map address) hsame) (by decide)

end SyntaxTree

end StackTemplate
