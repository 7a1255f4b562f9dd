import Mathlib.Data.List.Nodup
import StackTemplate.Proofs.Syntax.Nesting
import StackTemplate.Proofs.Syntax.ResolvedPrefix
import StackTemplate.Syntax.Outline

/-!
Reading the path of a node and looking that path up.
-/

namespace StackTemplate

namespace Syntax.Place

variable {format : Format} {top : Place}

/-- Below `top` every pair has a key, and no other pair of its container has the same; pairs and
elements stand in containers; a wrapper wraps one node, and in JSON there are none; and every
container is a value, wrappers apart. -/
structure Regular (format : Format) (top : Place) : Prop where
  keyed : ∀ p ∈ top.preorder, p.isPair format = true → (p.keyText? format).isSome = true
  distinctKeys : ∀ p ∈ top.preorder, p.isBlock format = true →
    ((p.pairs format).map (·.keyText? format)).Nodup
  pairInBlock : ∀ p ∈ top.preorder, p.isPair format = true →
    p.node.isContent = true ∧ ∃ q ∈ p.parent?, q.isBlock format = true
  itemInSequence : ∀ p ∈ top.preorder, p.isItem format = true →
    p.node.isContent = true ∧ ∃ q ∈ p.parent?, q.isSequence format = true
  wrapsOne : ∀ p ∈ top.preorder, ∀ a ∈ p.children, ∀ b ∈ p.children,
    wraps format p.node a.node = true → wraps format p.node b.node = true → a = b
  noDocument : format = .json → ∀ p ∈ top.preorder, p.isWrapper format = false
  containerIsValue : ∀ p ∈ top.preorder, (p.isBlock format || p.isSequence format) = true →
    ∃ value, IsValue format top value ∧ Unwraps format value p

/-- The value of a pair or element, or itself where it has none. -/
def entryValue (format : Format) (entry : Place) : Place :=
  if entry.isPair format then (entry.field? .value).getD entry
  else (entry.itemValue? format).getD entry

/-- The value of the innermost entry around a place, and `top` outside of entries. -/
def valueAround (format : Format) (top p : Place) : Place :=
  match p.innermost? format with
  | some entry => entryValue format entry
  | none => top

namespace Regular

theorem nested (regular : Regular format top) : Nested format top where
  keyed := regular.keyed
  pairInContainer p hp hpair := by
    obtain ⟨hcontent, q, hq, hb⟩ := regular.pairInBlock p hp hpair
    exact ⟨hcontent, q, hq, Or.inl hb⟩
  itemInSequence := regular.itemInSequence
  wrapsOne := regular.wrapsOne
  noDocument := regular.noDocument
  containerIsValue := regular.containerIsValue

theorem entryValue_cases (regular : Regular format top) {entry : Place}
    (he : entry ∈ top.preorder) (hentry : entry.isEntry format = true) :
    entryValue format entry = entry ∨ (entryValue format entry ∈ entry.children ∧
      (entryValue format entry).isEntry format = false) := by
  have hchild {value : Place} (hs : entry.shape format = .pair ∨ entry.shape format = .item)
      (hc : value ∈ entry.children) : value ∈ entry.children ∧ value.isEntry format = false := by
    refine ⟨hc, regular.nested.isEntry_eq_false (mem_preorder_of_mem_children he hc) hc ?_⟩
    rcases hs with hs | hs <;> simp [isBlock, isSequence, hs, Shape.isSequence]
  unfold entryValue
  split
  case isTrue hp =>
    cases hv : entry.field? .value with
    | none => exact Or.inl rfl
    | some value =>
      exact Or.inr (hchild (Or.inl (by simpa [isPair] using hp)) (mem_children_of_field? hv))
  case isFalse hp =>
    cases hv : entry.itemValue? format with
    | none => exact Or.inl rfl
    | some value =>
      rcases itemValue?_eq_some hv with ⟨hs, hc⟩ | rfl
      · exact Or.inr (hchild (Or.inr hs) hc)
      · exact Or.inl rfl

theorem innermost?_entryValue (regular : Regular format top) {entry : Place}
    (he : entry ∈ top.preorder) (hentry : entry.isEntry format = true) :
    (entryValue format entry).innermost? format = some entry := by
  rcases regular.entryValue_cases he hentry with h | ⟨hc, hn⟩
  · rw [h, innermost?_of_isEntry hentry]
  · rw [innermost?_of_mem_children hc, hn, innermost?_of_isEntry hentry]
    rfl

theorem isPair_of_isItem (regular : Regular format top) {p : Place} (hp : p ∈ top.preorder)
    (hi : p.isItem format = true) : p.isPair format = false := by
  rw [Bool.eq_false_iff]
  intro h
  obtain ⟨-, q, hq, hb⟩ := regular.pairInBlock p hp h
  obtain ⟨-, r, hr, hs⟩ := regular.itemInSequence p hp hi
  obtain rfl := Option.some.inj (hq.symm.trans hr)
  have hshape : q.shape format = .block := by simpa [isBlock] using hb
  simp [isSequence, hshape, Shape.isSequence] at hs

/-! The value around a place -/

theorem valueAround_of_isValue (regular : Regular format top)
    (htop : top.innermost? format = none) {value : Place} (hv : IsValue format top value) :
    value ∈ top.preorder ∧ valueAround format top value = value := by
  have key {entry : Place} (he : entry ∈ top.preorder) (hentry : entry.isEntry format = true) :
      entryValue format entry ∈ top.preorder ∧
        valueAround format top (entryValue format entry) = entryValue format entry := by
    constructor
    · rcases regular.entryValue_cases he hentry with h | ⟨hc, -⟩
      · rwa [h]
      · exact mem_preorder_of_mem_children he hc
    · rw [valueAround, regular.innermost?_entryValue he hentry]
  cases hv with
  | content => exact ⟨self_mem_preorder top, by rw [valueAround, htop]⟩
  | @pairValue pair _ hp hpair hv =>
    have he : entryValue format pair = value := by simp [entryValue, hpair, hv]
    exact he ▸ key hp (by simp [isEntry, hpair])
  | @itemValue item _ hp hitem hv =>
    have he : entryValue format item = value := by
      simp [entryValue, regular.isPair_of_isItem hp hitem, hv]
    exact he ▸ key hp (by simp [isEntry, hitem])

theorem unwrap_valueAround (regular : Regular format top) (htop : top.innermost? format = none)
    {p : Place} (hp : p ∈ top.preorder)
    (hc : (p.isBlock format || p.isSequence format) = true) :
    (valueAround format top p).unwrap format = p := by
  obtain ⟨value, hv, hu⟩ := regular.containerIsValue p hp hc
  obtain ⟨hmem, hvalue⟩ := regular.valueAround_of_isValue htop hv
  have hsame : valueAround format top p = value := by
    rw [valueAround, regular.nested.innermost?_of_unwraps hmem hu]
    exact hvalue
  rw [hsame]
  apply regular.nested.unwrap_of_unwraps hmem hu
  cases hs : p.shape format <;>
    simp_all [isBlock, isSequence, Shape.isSequence, isWrapper]

theorem findPair?_eq_some (regular : Regular format top) {p q : Place} {name : String}
    (hp : p ∈ top.preorder) (hb : p.isBlock format = true) (hq : q ∈ p.pairs format)
    (hname : q.keyText? format = some name) : p.findPair? format name = some q := by
  have hfound : (p.findPair? format name).isSome = true :=
    List.find?_isSome.mpr ⟨q, hq, by simp [hname]⟩
  obtain ⟨r, hr⟩ := Option.isSome_iff_exists.mp hfound
  have hrname : r.keyText? format = some name := by simpa using List.find?_some hr
  have hinj := List.inj_on_of_nodup_map (regular.distinctKeys p hp hb)
  rw [hr, hinj (List.mem_of_find?_eq_some hr) hq (hrname.trans hname.symm)]

end Regular

end Syntax.Place

namespace SyntaxTree

open Syntax Syntax.Place

variable {tree : SyntaxTree} {top : Place}

theorem lookupFrom_append {p q r : Place} {path : PropertyPath} {step : PathStep}
    (h : tree.lookupFrom p path = ⟨q, true⟩) (hs : tree.step? q step = some r) :
    tree.lookupFrom p (path ++ [step]) = ⟨r, true⟩ := by
  have hresolved : (tree.lookupFrom p path).resolved = true := by rw [h]
  rw [lookupFrom_append_of_resolved hresolved, h, lookupFrom_cons_of_some hs]
  rfl

theorem innermost?_rootValue (h : tree.rootValue? = some top) (regular : top.Regular tree.format) :
    top.innermost? tree.format = none :=
  innermost?_content h regular.nested

theorem step?_pair (regular : top.Regular tree.format) {p q : Place} (hp : p ∈ top.preorder)
    (hq : q ∈ p.children) (hpair : q.isPair tree.format = true) :
    p.isBlock tree.format = true ∧
      ∃ step, tree.stepsAt q = [step] ∧ ∀ value : Place, value.unwrap tree.format = p →
        tree.step? value step = some (entryValue tree.format q) := by
  have hmem := mem_preorder_of_mem_children hp hq
  obtain ⟨hcontent, r, hr, hb⟩ := regular.pairInBlock q hmem hpair
  obtain rfl := Option.some.inj (hr.symm.trans (parent?_of_mem_children hq))
  obtain ⟨name, hname⟩ := Option.isSome_iff_exists.mp (regular.keyed q hmem hpair)
  have hitem : q.isItem tree.format = false := by
    rw [Bool.eq_false_iff]
    intro hi
    simp [regular.isPair_of_isItem hmem hi] at hpair
  refine ⟨hb, .key name, by simp [stepsAt, itemIndex?, hitem, hpair, hname], ?_⟩
  intro value hv
  have hpairs : q ∈ r.pairs tree.format := by
    simp [pairs, contentChildren, hq, hcontent, hpair]
  simp [step?, hv, hb, regular.findPair?_eq_some hp hb hpairs hname, entryValue, hpair]

theorem step?_item (regular : top.Regular tree.format) {p q : Place} (hp : p ∈ top.preorder)
    (hq : q ∈ p.children) (hitem : q.isItem tree.format = true) :
    p.isSequence tree.format = true ∧
      ∃ step, tree.stepsAt q = [step] ∧ ∀ value : Place, value.unwrap tree.format = p →
        tree.step? value step = some (entryValue tree.format q) := by
  have hmem := mem_preorder_of_mem_children hp hq
  have hpair := regular.isPair_of_isItem hmem hitem
  obtain ⟨hcontent, r, hr, hs⟩ := regular.itemInSequence q hmem hitem
  obtain rfl := Option.some.inj (hr.symm.trans (parent?_of_mem_children hq))
  obtain ⟨i, hi⟩ := List.getElem?_of_mem ((mem_items hq hs).mpr ⟨hcontent, hitem⟩)
  have hindex := (itemIndex?_eq_some_iff hs hq).mpr hi
  refine ⟨hs, .index i, by simp [stepsAt, hindex, hpair], ?_⟩
  intro value hv
  simp [step?, hv, hs, hi, entryValue, hpair]

theorem step?_entryValue (regular : top.Regular tree.format) {p q : Place}
    (hp : p ∈ top.preorder) (hq : q ∈ p.children) (hentry : q.isEntry tree.format = true) :
    (p.isBlock tree.format || p.isSequence tree.format) = true ∧
      ∃ step, tree.stepsAt q = [step] ∧ ∀ value : Place, value.unwrap tree.format = p →
        tree.step? value step = some (entryValue tree.format q) := by
  rcases Bool.or_eq_true_iff.mp hentry with hpair | hitem
  · obtain ⟨hb, h⟩ := step?_pair regular hp hq hpair
    exact ⟨by simp [hb], h⟩
  · obtain ⟨hs, h⟩ := step?_item regular hp hq hitem
    exact ⟨by simp [hs], h⟩

/-- The walk down along the path of a place ends in the value around it. -/
theorem lookupFrom_pathOf (htop : top.innermost? tree.format = none)
    (hpath : tree.pathOf top = []) (regular : top.Regular tree.format) {p : Place}
    (hp : Below top p) :
    tree.lookupFrom top (tree.pathOf p) = ⟨valueAround tree.format top p, true⟩ ∧
      tree.pathOf (valueAround tree.format top p) = tree.pathOf p ∧
      (tree.pathOf p = [] ↔ p.innermost? tree.format = none) := by
  induction hp with
  | refl => simp [hpath, htop, valueAround, lookupFrom]
  | @tail p q hp hq ih =>
    obtain ⟨hlookup, hvalue, hempty⟩ := ih
    have hmem := mem_preorder.mpr hp
    cases hentry : q.isEntry tree.format with
    | false =>
      have hsame : tree.pathOf q = tree.pathOf p := by
        rw [pathOf_of_mem_children hq, stepsAt_of_isEntry_eq_false hentry, List.append_nil]
      have hin : q.innermost? tree.format = p.innermost? tree.format := by
        simp [innermost?_of_mem_children hq, hentry]
      rw [hsame, valueAround, hin]
      exact ⟨hlookup, hvalue, hempty⟩
    | true =>
      have hin : q.innermost? tree.format = some q := innermost?_of_isEntry hentry
      have haround : valueAround tree.format top q = entryValue tree.format q := by
        rw [valueAround, hin]
      obtain ⟨hcontainer, step, hsteps, hstep⟩ := step?_entryValue regular hmem hq hentry
      have hunwrap := regular.unwrap_valueAround htop hmem hcontainer
      have hpathq : tree.pathOf q = tree.pathOf p ++ [step] := by
        rw [pathOf_of_mem_children hq, hsteps]
      rw [haround, hin, hpathq]
      refine ⟨lookupFrom_append hlookup (hstep _ hunwrap), ?_, by simp⟩
      rcases regular.entryValue_cases (mem_preorder.mpr (.tail hp hq)) hentry with h | ⟨hc, hn⟩
      · rw [h, hpathq]
      · rw [pathOf_of_mem_children hc, stepsAt_of_isEntry_eq_false hn, hpathq, List.append_nil]

/-- Where the content of a tree is regular, the path of a place leads to a place with the same path
in the same innermost entry. -/
theorem lookup_pathOf (h : tree.rootValue? = some top) (regular : top.Regular tree.format)
    {p : Place} (hp : p ∈ top.preorder) :
    (tree.lookup (tree.pathOf p)).resolved = true ∧
      tree.pathOf (tree.lookup (tree.pathOf p)).place = tree.pathOf p ∧
      (tree.lookup (tree.pathOf p)).place.innermost? tree.format = p.innermost? tree.format ∧
      (tree.pathOf p = [] ↔ p.innermost? tree.format = none) := by
  have htop := innermost?_rootValue h regular
  have hentry : top.isEntry tree.format = false := by
    rw [Bool.eq_false_iff]
    intro he
    rw [innermost?_of_isEntry he] at htop
    cases htop
  have hpath := pathOf_rootValue h (shape_isEntry_eq_false hentry)
  obtain ⟨hlookup, hvalue, hempty⟩ := lookupFrom_pathOf htop hpath regular (mem_preorder.mp hp)
  have hl : tree.lookup (tree.pathOf p) = ⟨valueAround tree.format top p, true⟩ := by
    simp only [lookup, h, hlookup]
  rw [hl]
  refine ⟨rfl, hvalue, ?_, hempty⟩
  cases hin : p.innermost? tree.format with
  | none => simp only [valueAround, hin, htop]
  | some entry =>
    obtain ⟨hmem, he⟩ := mem_preorder_of_innermost? htop (mem_preorder.mp hp) hin
    simp only [valueAround, hin, regular.innermost?_entryValue hmem he]

def listText : String := "A: [x]\n"

def listRows : List Row :=
  [⟨0, "stream", true, false, false, false, false, none, 0, 7⟩,
    ⟨1, "document", true, false, false, false, false, none, 0, 7⟩,
    ⟨2, "block_node", true, false, false, false, false, none, 0, 7⟩,
    ⟨3, "block_mapping", true, false, false, false, false, none, 0, 7⟩,
    ⟨4, "block_mapping_pair", true, false, false, false, false, none, 0, 6⟩,
    ⟨5, "flow_node", true, false, false, false, false, some .key, 0, 1⟩,
    ⟨6, "plain_scalar", true, false, false, false, false, none, 0, 1⟩,
    ⟨7, "string_scalar", true, false, false, false, false, none, 0, 1⟩,
    ⟨5, ":", false, false, false, false, false, none, 1, 2⟩,
    ⟨5, "flow_node", true, false, false, false, false, some .value, 3, 6⟩,
    ⟨6, "flow_sequence", true, false, false, false, false, none, 3, 6⟩,
    ⟨7, "[", false, false, false, false, false, none, 3, 4⟩,
    ⟨7, "flow_node", true, false, false, false, false, none, 4, 5⟩,
    ⟨8, "plain_scalar", true, false, false, false, false, none, 4, 5⟩,
    ⟨9, "string_scalar", true, false, false, false, false, none, 4, 5⟩,
    ⟨7, "]", false, false, false, false, false, none, 5, 6⟩]

def list : SyntaxTree :=
  ⟨.detect "file:///t.yaml" 1 listText, (Node.ofRows? listText.toList listRows).getD default⟩

def listTop : Place :=
  list.rootValue?.getD default

theorem regular_listTop : listTop.Regular list.format where
  keyed := by decide
  distinctKeys := by decide
  pairInBlock := by decide
  itemInSequence := by decide
  wrapsOne := wrapsOne_of_isAt (by decide)
  noDocument := by decide
  containerIsValue := containerIsValue_of_isAt (by decide)

def listScalar : Place :=
  listTop.preorder.get ⟨11, by decide⟩

theorem lookup_pathOf_listScalar :
    list.rootValue? = some listTop ∧ listTop.Regular list.format ∧
      listScalar ∈ listTop.preorder ∧ list.pathOf listScalar = [.key "A", .index 0] ∧
      (list.lookup (list.pathOf listScalar)).resolved = true ∧
      list.pathOf (list.lookup (list.pathOf listScalar)).place = list.pathOf listScalar ∧
      (list.lookup (list.pathOf listScalar)).place.innermost? list.format =
        listScalar.innermost? list.format ∧
      (list.pathOf listScalar = [] ↔ listScalar.innermost? list.format = none) := by
  have hmem : listScalar ∈ listTop.preorder := List.get_mem _ _
  exact ⟨rfl, regular_listTop, hmem, by decide, lookup_pathOf rfl regular_listTop hmem⟩

end SyntaxTree

end StackTemplate
