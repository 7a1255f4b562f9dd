import StackTemplate.Proofs.Syntax.Nesting
import StackTemplate.Proofs.Syntax.PathOfLookup
import StackTemplate.Syntax.Outline

/-!
The entity around a node is the entry one level below a section, found as the second place that the
way down to the node adds a step for.
-/

namespace StackTemplate

namespace Syntax.Place.Nested

variable {format : Format} {top : Place}

theorem isEntry_of_mem_pair (nested : Nested format top) {pair q : Place}
    (hp : pair ∈ top.preorder) (hpair : pair.isPair format = true) (hq : q ∈ pair.children) :
    q.isEntry format = false := by
  have hshape : pair.shape format = .pair := by simpa [isPair] using hpair
  apply nested.isEntry_eq_false (mem_preorder_of_mem_children hp hq) hq
  simp [isBlock, isSequence, hshape, Shape.isSequence]

theorem innermost?_of_pairValue (nested : Nested format top) {pair value : Place}
    (hp : pair ∈ top.preorder) (hpair : pair.isPair format = true)
    (hv : pair.field? .value = some value) : value.innermost? format = some pair := by
  have hc := mem_children_of_field? hv
  rw [innermost?_of_mem_children hc, nested.isEntry_of_mem_pair hp hpair hc,
    innermost?_of_isEntry (by simp [isEntry, hpair])]
  rfl

theorem innermost?_of_itemValue (nested : Nested format top) {item value : Place}
    (hp : item ∈ top.preorder) (hitem : item.isItem format = true)
    (hv : item.itemValue? format = some value) : value.innermost? format = some item := by
  have hself : item.innermost? format = some item :=
    innermost?_of_isEntry (by simp [isEntry, hitem])
  rcases itemValue?_eq_some hv with ⟨hshape, hc⟩ | rfl
  · have hn := nested.isEntry_eq_false (mem_preorder_of_mem_children hp hc) hc
      (by simp [isBlock, isSequence, hshape, Shape.isSequence])
    rw [innermost?_of_mem_children hc, hn, hself]
    rfl
  · exact hself

/-- What a container outside of entries is, and what one right below an entry that is no element. -/
theorem container_cases (nested : Nested format top)
    (hwrapper : top.isWrapper format = false) {p : Place} (hp : p ∈ top.preorder)
    (hc : (p.isBlock format || p.isSequence format) = true) :
    p = top ∨ ∃ entry ∈ p.innermost? format, entry.isItem format = true ∨
      entry.isPair format = true ∧ ∃ value ∈ entry.field? .value, value.unwrap format = p := by
  obtain ⟨value, hv, hu⟩ := nested.containerIsValue p hp hc
  cases hv with
  | content =>
    rcases hu.eq_or_isWrapper with rfl | hw
    · exact Or.inl rfl
    · rw [hw] at hwrapper
      cases hwrapper
  | @pairValue pair _ hpair hkind hvalue =>
    have hmem := mem_preorder_of_mem_children hpair (mem_children_of_field? hvalue)
    have hin := nested.innermost?_of_unwraps hmem hu
    rw [nested.innermost?_of_pairValue hpair hkind hvalue] at hin
    have hp' : p.isWrapper format = false := by
      cases hs : p.shape format <;> simp_all [isBlock, isSequence, Shape.isSequence, isWrapper]
    exact Or.inr ⟨pair, hin, Or.inr ⟨hkind, value, hvalue, nested.unwrap_of_unwraps hmem hu hp'⟩⟩
  | @itemValue item _ hitem hkind hvalue =>
    have hmem : value ∈ top.preorder := by
      rcases itemValue?_eq_some hvalue with ⟨-, hchild⟩ | rfl
      · exact mem_preorder_of_mem_children hitem hchild
      · exact hitem
    have hin := nested.innermost?_of_unwraps hmem hu
    rw [nested.innermost?_of_itemValue hitem hkind hvalue] at hin
    exact Or.inr ⟨item, hin, Or.inl hkind⟩

theorem isContainer_of_isEntry (nested : Nested format top) {p q : Place} (hp : p ∈ top.preorder)
    (hq : q ∈ p.children) (hentry : q.isEntry format = true) :
    (p.isBlock format || p.isSequence format) = true := by
  cases hc : p.isBlock format || p.isSequence format with
  | true => rfl
  | false =>
    rw [nested.isEntry_eq_false (mem_preorder_of_mem_children hp hq) hq hc] at hentry
    cases hentry

end Syntax.Place.Nested

namespace SyntaxTree

open Syntax Syntax.Place

variable {tree : SyntaxTree} {top : Place}

theorem exists_keyText? (nested : top.Nested tree.format) {pair : Place}
    (hp : pair ∈ top.preorder) (hpair : pair.isPair tree.format = true) :
    ∃ name, pair.keyText? tree.format = some name :=
  Option.isSome_iff_exists.mp (nested.keyed pair hp hpair)

theorem stepsAt_of_mem_sequence {p q : Place} (hq : q ∈ p.children)
    (hs : p.isSequence tree.format = true) (hcontent : q.node.isContent = true)
    (hitem : q.isItem tree.format = true) :
    ∃ i, tree.stepsAt q = .index i :: tree.elementKey q := by
  obtain ⟨i, hi⟩ := List.getElem?_of_mem ((mem_items hq hs).mpr ⟨hcontent, hitem⟩)
  exact ⟨i, stepsAt_of_isItem ((itemIndex?_eq_some_iff hs hq).mpr hi)⟩

/-- Every entry adds a step. -/
theorem exists_stepsAt (nested : top.Nested tree.format) {p q : Place} (hp : p ∈ top.preorder)
    (hq : q ∈ p.children) (hentry : q.isEntry tree.format = true) :
    ∃ step rest, tree.stepsAt q = step :: rest := by
  have hmem := mem_preorder_of_mem_children hp hq
  rcases Bool.or_eq_true_iff.mp hentry with hpair | hitem
  · obtain ⟨name, hname⟩ := exists_keyText? nested hmem hpair
    cases hi : q.itemIndex? tree.format <;> simp [stepsAt, hi, hpair, hname]
  · obtain ⟨hcontent, r, hr, hs⟩ := nested.itemInSequence q hmem hitem
    obtain rfl := Option.some.inj (hr.symm.trans (parent?_of_mem_children hq))
    obtain ⟨i, hi⟩ := tree.stepsAt_of_mem_sequence hq hs hcontent hitem
    exact ⟨.index i, tree.elementKey q, hi⟩

/-- Where the way down to a place has come to: to no entry, to a pair of the block at the top, or
beyond, to an entry of what such a pair holds. -/
inductive Reaches (tree : SyntaxTree) (top p : Place) : Prop where
  | content (trail : tree.trail p = []) (innermost : p.innermost? tree.format = none)
  | pair {pair : Place} {name : String} (child : pair ∈ top.children)
      (isPair : pair.isPair tree.format = true) (key : pair.keyText? tree.format = some name)
      (trail : tree.trail p = [(.key name, pair)])
      (innermost : p.innermost? tree.format = some pair)
  | entry {pair value entry : Place} {name : String} {step : PathStep}
      {rest : List (PathStep × Place)} (child : pair ∈ top.children)
      (isPair : pair.isPair tree.format = true) (key : pair.keyText? tree.format = some name)
      (holds : pair.field? .value = some value)
      (inside : entry ∈ (value.unwrap tree.format).children)
      (isEntry : entry.isEntry tree.format = true) (around : entry ∈ p.lineage)
      (trail : tree.trail p = (.key name, pair) :: (step, entry) :: rest)

theorem trail_of_not_isEntry {p q : Place} (hq : q ∈ p.children)
    (h : q.isEntry tree.format = false) : tree.trail q = tree.trail p := by
  rw [trail_of_mem_children hq, stepsAt_of_isEntry_eq_false h, List.map_nil, List.append_nil]

theorem stepsAt_of_mem_block (nested : top.Nested tree.format)
    (hblock : top.isBlock tree.format = true) {q : Place} (hq : q ∈ top.children)
    (hentry : q.isEntry tree.format = true) :
    q.isPair tree.format = true ∧ ∃ name, q.keyText? tree.format = some name ∧
      q.isItem tree.format = false ∧ tree.stepsAt q = [.key name] := by
  have hmem := mem_preorder_of_mem_children (self_mem_preorder top) hq
  have hshape : top.shape tree.format = .block := by simpa [isBlock] using hblock
  have hitem : q.isItem tree.format = false := by
    rw [Bool.eq_false_iff]
    intro hi
    obtain ⟨-, r, hr, hs⟩ := nested.itemInSequence q hmem hi
    obtain rfl := Option.some.inj (hr.symm.trans (parent?_of_mem_children hq))
    simp [isSequence, hshape, Shape.isSequence] at hs
  have hpair : q.isPair tree.format = true := by simpa [Place.isEntry, hitem] using hentry
  obtain ⟨name, hname⟩ := exists_keyText? nested hmem hpair
  exact ⟨hpair, name, hname, stepsAt_of_isPair hq hblock hpair hname⟩

/-- What is no entry adds no step. -/
theorem Reaches.of_not_isEntry {p q : Place} (h : tree.Reaches top p) (hq : q ∈ p.children)
    (hentry : q.isEntry tree.format = false) : tree.Reaches top q := by
  have htrail := trail_of_not_isEntry hq hentry
  have hin : q.innermost? tree.format = p.innermost? tree.format := by
    simp [innermost?_of_mem_children hq, hentry]
  cases h with
  | content trail innermost => exact .content (htrail.trans trail) (hin.trans innermost)
  | pair child isPair key trail innermost =>
    exact .pair child isPair key (htrail.trans trail) (hin.trans innermost)
  | entry child isPair key holds inside isEntry around trail =>
    have haround := List.mem_cons_of_mem q around
    rw [← lineage_of_mem_children hq] at haround
    exact .entry child isPair key holds inside isEntry haround (htrail.trans trail)

/-- By induction on the way down from the top. A step is added by an entry only, whose container
is the top, or what the one pair so far holds. -/
theorem reaches_of_below (nested : top.Nested tree.format)
    (htop : top.innermost? tree.format = none) (hpath : tree.pathOf top = [])
    (hblock : top.isBlock tree.format = true) {p : Place} (hp : Below top p) :
    tree.Reaches top p := by
  have hwrapper : top.isWrapper tree.format = false := by
    cases hs : top.shape tree.format <;> simp_all [isBlock, isWrapper]
  induction hp with
  | refl => exact .content (trail_eq_nil_iff.mpr hpath) htop
  | @tail p q hp hq ih =>
    have hmem := mem_preorder.mpr hp
    cases hentry : q.isEntry tree.format with
    | false => exact ih.of_not_isEntry hq hentry
    | true =>
      have hcontainer := nested.isContainer_of_isEntry hmem hq hentry
      obtain ⟨step, more, hsteps⟩ := exists_stepsAt nested hmem hq hentry
      have htrail := tree.trail_of_mem_children hq
      cases ih with
      | content trail innermost =>
        rcases nested.container_cases hwrapper hmem hcontainer with rfl | ⟨entry, he, -⟩
        · obtain ⟨hpair, name, hname, -, hname'⟩ := stepsAt_of_mem_block nested hblock hq hentry
          refine .pair hq hpair hname ?_ (innermost?_of_isEntry hentry)
          rw [htrail, trail, hname']
          rfl
        · rw [innermost] at he
          cases he
      | @pair pair name child isPair key trail innermost =>
        rcases nested.container_cases hwrapper hmem hcontainer with rfl | ⟨entry, he, hcase⟩
        · rw [htop] at innermost
          cases innermost
        · obtain rfl := Option.some.inj (innermost.symm.trans he)
          obtain ⟨-, -, -, hitem, -⟩ := stepsAt_of_mem_block nested hblock child
            (by simp [Place.isEntry, isPair])
          rcases hcase with hi | ⟨-, value, hvalue, rfl⟩
          · rw [hitem] at hi
            cases hi
          · rw [trail, hsteps] at htrail
            exact .entry child isPair key hvalue hq hentry (self_mem_lineage q) htrail
      | entry child isPair key holds inside isEntry around trail =>
        have haround := List.mem_cons_of_mem q around
        rw [← lineage_of_mem_children hq] at haround
        rw [trail] at htrail
        exact .entry child isPair key holds inside isEntry haround htrail

theorem trail_of_unwraps (nested : top.Nested tree.format) {value p : Place}
    (hv : value ∈ top.preorder) (h : Unwraps tree.format value p) :
    tree.trail p = tree.trail value := by
  induction h with
  | refl => rfl
  | @tail w p hw hp ih =>
    rcases nested.isEntry_of_unwraps hv (.tail hw hp) with rfl | hn
    · rfl
    · rw [trail_of_not_isEntry hp.1 hn, ih]

theorem isTopLevel_iff {pair : Place} (hp : pair ∈ tree.places) :
    tree.isTopLevel pair = true ↔ ∃ top ∈ tree.rootValue?, pair ∈ top.children := by
  unfold isTopLevel
  constructor
  · intro h
    split at h
    · rename_i top parent htop hparent
      obtain ⟨hroot, hc⟩ := mem_children_of_parent? (mem_preorder.mp hp) hparent
      have hbelow := mem_preorder.mp (mem_places_of_rootValue? htop)
      exact ⟨top, htop, eq_of_isAt_of_below hbelow hroot h ▸ hc⟩
    · cases h
  · rintro ⟨top, htop, hc⟩
    rw [Option.mem_def.mp htop, parent?_of_mem_children hc]
    exact isAt_self top

theorem entityRoot?_eq_some_iff_trail {p entry : Place} :
    tree.entityRoot? p = some entry ↔ ∃ (s : Section) (pair : Place) (step : PathStep)
      (rest : List (PathStep × Place)), tree.trail p = (.key s.key, pair) :: (step, entry) :: rest ∧
        tree.isTopLevel pair = true := by
  unfold entityRoot?
  constructor
  · intro h
    split at h
    · rename_i name pair step found rest htrail
      split at h
      · rename_i hif
        obtain rfl := Option.some.inj h
        obtain ⟨hname, hlevel⟩ := Bool.and_eq_true_iff.mp hif
        obtain ⟨s, hs⟩ := Option.isSome_iff_exists.mp hname
        obtain rfl := Section.ofKey?_eq_some_iff.mp hs
        exact ⟨s, pair, step, rest, htrail, hlevel⟩
      · cases h
    · cases h
  · rintro ⟨s, pair, step, rest, htrail, hlevel⟩
    simp [htrail, Section.ofKey?_key, hlevel]

/-- An entry of what a section holds, at or above a place. -/
def IsEntityOf (tree : SyntaxTree) (entry p : Place) : Prop :=
  ∃ top ∈ tree.rootValue?, top.isBlock tree.format = true ∧
    ∃ pair ∈ top.children, pair.isPair tree.format = true ∧
      (∃ s : Section, pair.keyText? tree.format = some s.key) ∧
      ∃ value ∈ pair.field? .value, entry ∈ (value.unwrap tree.format).children ∧
        entry.isEntry tree.format = true ∧ entry ∈ p.lineage

theorem pathOf_content (nested : top.Nested tree.format) (h : tree.rootValue? = some top) :
    tree.pathOf top = [] := by
  apply pathOf_rootValue h
  apply shape_isEntry_eq_false
  rw [Bool.eq_false_iff]
  intro he
  have hnone := innermost?_content h nested
  rw [innermost?_of_isEntry he] at hnone
  cases hnone

theorem trail_of_mem_content (h : tree.pathOf top = []) {q : Place} (hq : q ∈ top.children) :
    tree.trail q = (tree.stepsAt q).map (·, q) := by
  rw [trail_of_mem_children hq, trail_eq_nil_iff.mpr h, List.nil_append]

/-- A way down that starts with a key starts in a block: in a sequence the index comes first. -/
theorem isBlock_of_trail (nested : top.Nested tree.format) (h : tree.rootValue? = some top)
    {p pair : Place} {name : String} {rest : List (PathStep × Place)}
    (hp : tree.trail p = (.key name, pair) :: rest) (hc : pair ∈ top.children) :
    top.isBlock tree.format = true := by
  obtain ⟨haround, hstep⟩ := mem_trail.mp (hp ▸ List.mem_cons_self)
  have hmem := mem_preorder_of_mem_children (self_mem_preorder top) hc
  obtain ⟨hpair, -⟩ := key_of_mem_stepsAt hstep
  obtain ⟨hcontent, q, hq, hb | hl⟩ := nested.pairInContainer pair hmem hpair
  all_goals obtain rfl := Option.some.inj (hq.symm.trans (parent?_of_mem_children hc))
  · exact hb
  · have hitem : pair.isItem tree.format = true :=
      (isItem_of_mem_children hc).mpr (Or.inr ⟨hcontent, hl⟩)
    have hs : q.isSequence tree.format = true := isSequence_iff.mpr (Or.inr hl)
    obtain ⟨i, hsteps⟩ := tree.stepsAt_of_mem_sequence hc hs hcontent hitem
    obtain ⟨more, hmore⟩ := exists_trail_eq haround
    rw [hp, trail_of_mem_content (pathOf_content nested h) hc, hsteps] at hmore
    cases hmore

theorem isEntityOf_of_entityRoot? (nested : ∀ top ∈ tree.rootValue?, top.Nested tree.format)
    {p entry : Place} (hp : p ∈ tree.places) (h : tree.entityRoot? p = some entry) :
    tree.IsEntityOf entry p := by
  obtain ⟨s, pair, step, rest, htrail, hlevel⟩ := entityRoot?_eq_some_iff_trail.mp h
  obtain ⟨haround, -⟩ := mem_trail.mp (htrail ▸ List.mem_cons_self)
  obtain ⟨hroot, hbelow⟩ := below_of_mem_lineage (mem_preorder.mp hp) haround
  obtain ⟨top, htop, hc⟩ := (isTopLevel_iff (mem_preorder.mpr hroot)).mp hlevel
  have hnested := nested top htop
  have hblock := isBlock_of_trail hnested htop htrail hc
  have hreaches := reaches_of_below hnested (innermost?_content htop hnested)
    (pathOf_content hnested htop) hblock (.head hc hbelow)
  cases hreaches with
  | content trail =>
    rw [htrail] at trail
    cases trail
  | pair _ _ _ trail =>
    rw [htrail] at trail
    cases trail
  | entry child isPair key holds inside isEntry around trail =>
    rw [htrail] at trail
    cases trail
    exact ⟨top, htop, hblock, pair, child, isPair, ⟨s, key⟩, _, holds, inside, isEntry, around⟩

theorem entityRoot?_of_isEntityOf (nested : ∀ top ∈ tree.rootValue?, top.Nested tree.format)
    {p entry : Place} (h : tree.IsEntityOf entry p) : tree.entityRoot? p = some entry := by
  obtain ⟨top, htop, hblock, pair, hc, hpair, ⟨s, hkey⟩, value, hvalue, hentry, hkind, haround⟩ := h
  have hnested := nested top htop
  have hpairmem := mem_preorder_of_mem_children (self_mem_preorder top) hc
  have hvc := mem_children_of_field? hvalue
  have hvmem := mem_preorder_of_mem_children hpairmem hvc
  have hu := unwraps_unwrap tree.format value
  have hcontainer : value.unwrap tree.format ∈ top.preorder :=
    mem_preorder.mpr (.trans (mem_preorder.mp hvmem) hu.below)
  obtain ⟨-, name, hname, -, hsteps⟩ := stepsAt_of_mem_block hnested hblock hc
    (by simp [Place.isEntry, hpair])
  obtain rfl := Option.some.inj (hkey.symm.trans hname)
  have hvalueEntry := hnested.isEntry_of_mem_pair hpairmem hpair hvc
  obtain ⟨step, more, hstep⟩ := exists_stepsAt hnested hcontainer hentry hkind
  have htrail : tree.trail entry = (.key s.key, pair) :: (step, entry) :: more.map (·, entry) := by
    rw [trail_of_mem_children hentry, trail_of_unwraps hnested hvmem hu,
      trail_of_not_isEntry hvc hvalueEntry,
      trail_of_mem_content (pathOf_content hnested htop) hc, hsteps, hstep]
    rfl
  obtain ⟨rest, hrest⟩ := exists_trail_eq haround
  rw [htrail] at hrest
  apply entityRoot?_eq_some_iff_trail.mpr
  refine ⟨s, pair, step, more.map (·, entry) ++ rest, hrest, ?_⟩
  apply (isTopLevel_iff (mem_places_of_mem_children (mem_places_of_rootValue? htop) hc)).mpr
  exact ⟨top, htop, hc⟩

theorem entityRoot?_eq_some_iff (nested : ∀ top ∈ tree.rootValue?, top.Nested tree.format)
    {p : Place} (hp : p ∈ tree.places) (entry : Place) :
    tree.entityRoot? p = some entry ↔ tree.IsEntityOf entry p :=
  ⟨isEntityOf_of_entityRoot? nested hp, entityRoot?_of_isEntityOf nested⟩

def transformText : String := "Transform: [? a : 1]\n"

def transformRows : List Row :=
  [⟨0, "stream", true, false, false, false, false, none, 0, 21⟩,
    ⟨1, "document", true, false, false, false, false, none, 0, 21⟩,
    ⟨2, "block_node", true, false, false, false, false, none, 0, 21⟩,
    ⟨3, "block_mapping", true, false, false, false, false, none, 0, 21⟩,
    ⟨4, "block_mapping_pair", true, false, false, false, false, none, 0, 20⟩,
    ⟨5, "flow_node", true, false, false, false, false, some .key, 0, 9⟩,
    ⟨6, "plain_scalar", true, false, false, false, false, none, 0, 9⟩,
    ⟨7, "string_scalar", true, false, false, false, false, none, 0, 9⟩,
    ⟨5, ":", false, false, false, false, false, none, 9, 10⟩,
    ⟨5, "flow_node", true, false, false, false, false, some .value, 11, 20⟩,
    ⟨6, "flow_sequence", true, false, false, false, false, none, 11, 20⟩,
    ⟨7, "[", false, false, false, false, false, none, 11, 12⟩,
    ⟨7, "flow_pair", true, false, false, false, false, none, 12, 19⟩,
    ⟨8, "?", false, false, false, false, false, none, 12, 13⟩,
    ⟨8, "flow_node", true, false, false, false, false, some .key, 14, 15⟩,
    ⟨9, "plain_scalar", true, false, false, false, false, none, 14, 15⟩,
    ⟨10, "string_scalar", true, false, false, false, false, none, 14, 15⟩,
    ⟨8, ":", false, false, false, false, false, none, 16, 17⟩,
    ⟨8, "flow_node", true, false, false, false, false, some .value, 18, 19⟩,
    ⟨9, "plain_scalar", true, false, false, false, false, none, 18, 19⟩,
    ⟨10, "integer_scalar", true, false, false, false, false, none, 18, 19⟩,
    ⟨7, "]", false, false, false, false, false, none, 19, 20⟩]

def transform : SyntaxTree :=
  ⟨.detect "file:///t.yaml" 1 transformText,
    (Node.ofRows? transformText.toList transformRows).getD default⟩

def transformTop : Place :=
  transform.rootValue?.getD default

theorem nested_transformTop : transformTop.Nested transform.format where
  keyed := by decide
  pairInContainer := by decide
  itemInSequence := by decide
  wrapsOne := wrapsOne_of_isAt (by decide)
  noDocument := by decide
  containerIsValue := containerIsValue_of_isAt (by decide)

def transformPair : Place :=
  transform.places.get ⟨12, by decide⟩

def transformScalar : Place :=
  transform.places.get ⟨20, by decide⟩

theorem entityRoot?_eq_some_iff_transform :
    (∀ top ∈ transform.rootValue?, top.Nested transform.format) ∧
      transformScalar ∈ transform.places ∧
      transform.pathOf transformScalar = [.key "Transform", .index 0, .key "a"] ∧
      transform.entityRoot? transformScalar = some transformPair ∧
      transform.IsEntityOf transformPair transformScalar := by
  have hnested : ∀ top ∈ transform.rootValue?, top.Nested transform.format := by
    rintro top htop
    obtain rfl : transformTop = top := Option.some.inj htop
    exact nested_transformTop
  have hmem : transformScalar ∈ transform.places := List.get_mem _ _
  have hroot : transform.entityRoot? transformScalar = some transformPair := rfl
  exact ⟨hnested, hmem, by decide, hroot,
    (entityRoot?_eq_some_iff hnested hmem transformPair).mp hroot⟩

end SyntaxTree

end StackTemplate
