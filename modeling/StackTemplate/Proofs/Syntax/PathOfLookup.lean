import StackTemplate.Proofs.Syntax.Steps
import StackTemplate.Syntax.Outline

/-!
Looking a path up and reading the path of the node that is found.
-/

namespace StackTemplate.SyntaxTree

open Syntax

/-- Pairs and marked items stand in containers: none is the content of a document, the value of a
pair or the value of a marked item. A sequence may hold pairs. -/
structure GrammarShaped (tree : SyntaxTree) : Prop where
  content : ∀ p ∈ tree.rootValue?, (p.shape tree.format).isEntry = false
  pairValue : ∀ p ∈ tree.places, p.isPair tree.format = true →
    ∀ q ∈ p.field? .value, (q.shape tree.format).isEntry = false
  itemValue : ∀ p ∈ tree.places, p.shape tree.format = .item →
    ∀ q ∈ p.itemValue? tree.format, (q.shape tree.format).isEntry = false

/-- The key that a pair adds after its index where it stands as an element, as in `[a: 1]`. -/
def elementKey (tree : SyntaxTree) (p : Place) : PropertyPath :=
  if p.isItem tree.format && p.isPair tree.format then
    ((p.keyText? tree.format).map .key).toList
  else []

variable {tree : SyntaxTree}

theorem elementKey_of_not_isPair {p : Place} (h : p.isPair tree.format = false) :
    tree.elementKey p = [] := by
  simp [elementKey, h]

theorem elementKey_of_not_isItem {p : Place} (h : p.isItem tree.format = false) :
    tree.elementKey p = [] := by
  simp [elementKey, h]

theorem stepsAt_of_isItem {p : Place} {i : Nat} (h : p.itemIndex? tree.format = some i) :
    tree.stepsAt p = .index i :: tree.elementKey p := by
  have hi := Place.isItem_of_itemIndex? h
  simp [stepsAt, elementKey, h, hi]

theorem stepsAt_of_isPair {p q : Place} {name : String} (hq : q ∈ p.children)
    (hp : p.isBlock tree.format = true) (hpair : q.isPair tree.format = true)
    (hkey : q.keyText? tree.format = some name) :
    q.isItem tree.format = false ∧ tree.stepsAt q = [.key name] := by
  have hs : p.shape tree.format = .block := by simpa [Place.isBlock] using hp
  have hq' : q.shape tree.format = .pair := by simpa [Place.isPair] using hpair
  have hi : q.isItem tree.format = false := Place.isItem_eq_false hq (by simp [hs]) (by simp [hq'])
  exact ⟨hi, by simp [stepsAt, Place.itemIndex?, hi, hpair, hkey]⟩

/-! One step down -/

theorem step?_eq_some {p q : Place} {step : PathStep} (h : tree.step? p step = some q) :
    ∃ entry ∈ (p.unwrap tree.format).children,
      (∃ name, step = .key name ∧ (p.unwrap tree.format).isBlock tree.format = true ∧
        entry.isPair tree.format = true ∧ entry.keyText? tree.format = some name ∧
        q = (entry.field? .value).getD entry) ∨
      (∃ i, step = .index i ∧ (p.unwrap tree.format).isSequence tree.format = true ∧
        entry.itemIndex? tree.format = some i ∧
        q = (entry.itemValue? tree.format).getD entry) := by
  cases step with
  | key name =>
    simp only [step?] at h
    split at h
    case isTrue hb =>
      obtain ⟨entry, hfind, rfl⟩ := Option.map_eq_some_iff.mp h
      have hmem := List.mem_filter.mp (List.mem_of_find?_eq_some hfind)
      have hkey : entry.keyText? tree.format = some name := by simpa using List.find?_some hfind
      exact ⟨entry, Place.mem_children_of_mem_contentChildren hmem.1,
        Or.inl ⟨name, rfl, hb, hmem.2, hkey, rfl⟩⟩
    case isFalse => cases h
  | index i =>
    simp only [step?] at h
    split at h
    case isTrue hs =>
      obtain ⟨entry, hget, rfl⟩ := Option.map_eq_some_iff.mp h
      have hmem := Place.mem_children_of_mem_items (List.mem_of_getElem? hget)
      exact ⟨entry, hmem, Or.inr ⟨i, rfl, hs, (Place.itemIndex?_eq_some_iff hs hmem).mpr hget, rfl⟩⟩
    case isFalse => cases h

theorem isEntry_of_isContainer {p : Place}
    (h : p.isBlock tree.format = true ∨ p.isSequence tree.format = true) :
    (p.shape tree.format).isEntry = false := by
  cases hs : p.shape tree.format <;>
    simp_all [Place.isBlock, Place.isSequence, Shape.isSequence, Shape.isEntry]

/-- Only what holds a container leads further, and a pair holds none. -/
theorem elementKey_of_step? {p q : Place} {step : PathStep} (h : tree.step? p step = some q) :
    tree.elementKey p = [] ∧ ((p.unwrap tree.format).shape tree.format).isEntry = false := by
  obtain ⟨entry, -, hc⟩ := step?_eq_some h
  have hshape : ((p.unwrap tree.format).shape tree.format).isEntry = false := by
    rcases hc with ⟨_, _, hb, _⟩ | ⟨_, _, hs, _⟩
    · exact isEntry_of_isContainer (Or.inl hb)
    · exact isEntry_of_isContainer (Or.inr hs)
  refine ⟨elementKey_of_not_isPair ?_, hshape⟩
  rcases (Place.unwraps_unwrap tree.format p).eq_or_isWrapper with he | hw
  · exact Place.isPair_eq_false (by rwa [he])
  · exact Place.isPair_eq_false (Place.isEntry_of_isWrapper hw)

theorem pathOf_pairValue (shaped : tree.GrammarShaped) {pair : Place} (hp : pair ∈ tree.places)
    (hpair : pair.isPair tree.format = true) (hi : pair.isItem tree.format = false) :
    (pair.field? .value).getD pair ∈ tree.places ∧
      tree.pathOf ((pair.field? .value).getD pair) = tree.pathOf pair ∧
      tree.elementKey ((pair.field? .value).getD pair) = [] := by
  cases hv : pair.field? .value with
  | none => exact ⟨hp, rfl, elementKey_of_not_isItem hi⟩
  | some value =>
    have hc := Place.mem_children_of_field? hv
    have hs := shaped.pairValue pair hp hpair value hv
    have hshape : pair.shape tree.format = .pair := by simpa [Place.isPair] using hpair
    exact ⟨mem_places_of_mem_children hp hc, pathOf_value hc (by simp [hshape]) hs,
      elementKey_of_not_isPair (Place.isPair_eq_false hs)⟩

theorem pathOf_itemValue (shaped : tree.GrammarShaped) {item : Place} (hp : item ∈ tree.places)
    {i : Nat} (hi : item.itemIndex? tree.format = some i) {above : PropertyPath}
    (ha : tree.pathOf item = above ++ tree.stepsAt item) :
    (item.itemValue? tree.format).getD item ∈ tree.places ∧
      tree.pathOf ((item.itemValue? tree.format).getD item) =
        above ++ [.index i] ++ tree.elementKey ((item.itemValue? tree.format).getD item) := by
  have hself : tree.pathOf item = above ++ [.index i] ++ tree.elementKey item := by
    rw [ha, stepsAt_of_isItem hi]
    simp
  cases hv : item.itemValue? tree.format with
  | none => exact ⟨hp, hself⟩
  | some value =>
    rcases Place.itemValue?_eq_some hv with ⟨hshape, hc⟩ | rfl
    · have hs := shaped.itemValue item hp hshape value hv
      have hkey : tree.elementKey item = [] :=
        elementKey_of_not_isPair (by simp [Place.isPair, hshape])
      refine ⟨mem_places_of_mem_children hp hc, ?_⟩
      rw [Option.getD_some, pathOf_value hc (by simp [hshape]) hs, hself, hkey,
        elementKey_of_not_isPair (Place.isPair_eq_false hs)]
    · exact ⟨hp, hself⟩

theorem pathOf_step? (shaped : tree.GrammarShaped) {p q : Place} {step : PathStep}
    {walked : PropertyPath} (hp : p ∈ tree.places)
    (hw : tree.pathOf p = walked ++ tree.elementKey p) (h : tree.step? p step = some q) :
    q ∈ tree.places ∧ tree.pathOf q = walked ++ [step] ++ tree.elementKey q := by
  obtain ⟨hkey, hshape⟩ := elementKey_of_step? h
  have hu := Place.unwraps_unwrap tree.format p
  have hcontainer : tree.pathOf (p.unwrap tree.format) = walked := by
    rw [pathOf_of_unwraps hu hshape, hw, hkey, List.append_nil]
  obtain ⟨entry, hentry, hc⟩ := step?_eq_some h
  have hmem := mem_places_of_mem_children (mem_places_of_below hp hu.below) hentry
  have hpath : tree.pathOf entry = tree.pathOf (p.unwrap tree.format) ++ tree.stepsAt entry :=
    pathOf_of_mem_children hentry
  rw [hcontainer] at hpath
  rcases hc with ⟨name, rfl, hb, hpair, hname, rfl⟩ | ⟨i, rfl, -, hi, rfl⟩
  · obtain ⟨hitem, hsteps⟩ := stepsAt_of_isPair hentry hb hpair hname
    obtain ⟨hplace, hvalue, hnone⟩ := pathOf_pairValue shaped hmem hpair hitem
    refine ⟨hplace, ?_⟩
    rw [hvalue, hpath, hsteps, hnone, List.append_nil]
  · exact pathOf_itemValue shaped hmem hi hpath

/-! The whole way down -/

theorem pathOf_lookupFrom (shaped : tree.GrammarShaped) (path : PropertyPath) {p : Place}
    {walked : PropertyPath} (hp : p ∈ tree.places)
    (hw : tree.pathOf p = walked ++ tree.elementKey p) :
    ∃ found rest, path = found ++ rest ∧
      ((tree.lookupFrom p path).resolved = true ↔ rest = []) ∧
      tree.pathOf (tree.lookupFrom p path).place =
        walked ++ found ++ tree.elementKey (tree.lookupFrom p path).place := by
  induction path generalizing p walked with
  | nil => exact ⟨[], [], rfl, by simp [lookupFrom], by simpa [lookupFrom] using hw⟩
  | cons step path ih =>
    cases hs : tree.step? p step with
    | none =>
      have hl : tree.lookupFrom p (step :: path) = ⟨p, false⟩ := by simp [lookupFrom, hs]
      exact ⟨[], step :: path, rfl, by simp [hl], by simpa [hl] using hw⟩
    | some q =>
      have hl : tree.lookupFrom p (step :: path) = tree.lookupFrom q path := by
        simp [lookupFrom, hs]
      obtain ⟨hq, hqw⟩ := pathOf_step? shaped hp hw hs
      obtain ⟨found, rest, rfl, hres, hplace⟩ := ih hq hqw
      refine ⟨step :: found, rest, rfl, by rw [hl]; exact hres, ?_⟩
      rw [hl, hplace]
      simp

theorem pathOf_lookup (shaped : tree.GrammarShaped) (path : PropertyPath) :
    ∃ found rest, path = found ++ rest ∧ ((tree.lookup path).resolved = true ↔ rest = []) ∧
      tree.pathOf (tree.lookup path).place =
        found ++ tree.elementKey (tree.lookup path).place := by
  cases hr : tree.rootValue? with
  | none =>
    have hl : tree.lookup path = ⟨tree.root, path.isEmpty⟩ := by simp [lookup, hr]
    have hw := Place.isEntry_of_isWrapper (Place.isWrapper_of_rootValue?_eq_none hr)
    refine ⟨[], path, rfl, by simp [hl], ?_⟩
    rw [hl, pathOf_root_eq_nil hw, elementKey_of_not_isPair (Place.isPair_eq_false hw)]
    rfl
  | some content =>
    have hl : tree.lookup path = tree.lookupFrom content path := by simp [lookup, hr]
    have hc := shaped.content content hr
    have hw : tree.pathOf content = [] ++ tree.elementKey content := by
      rw [pathOf_rootValue hr hc, elementKey_of_not_isPair (Place.isPair_eq_false hc)]
      rfl
    rw [hl]
    simpa using pathOf_lookupFrom shaped path (mem_places_of_rootValue? hr) hw

/-- The node of a path has that path; the node of a path that leads nowhere has a shorter one. -/
def Retraces (tree : SyntaxTree) (path : PropertyPath) : Prop :=
  ((tree.lookup path).resolved = true → tree.pathOf (tree.lookup path).place = path) ∧
    ((tree.lookup path).resolved = false →
      tree.pathOf (tree.lookup path).place <+: path ∧
        tree.pathOf (tree.lookup path).place ≠ path)

theorem append_isPrefix_and_ne_iff {found rest key : PropertyPath} :
    (found ++ key <+: found ++ rest ∧ found ++ key ≠ found ++ rest) ↔
      ∃ more, rest = key ++ more ∧ more ≠ [] := by
  rw [List.prefix_append_right_inj, ne_eq, List.append_cancel_left_eq]
  constructor
  · rintro ⟨⟨more, rfl⟩, hne⟩
    exact ⟨more, rfl, by rintro rfl; simp at hne⟩
  · rintro ⟨more, rfl, hne⟩
    exact ⟨⟨more, rfl⟩, by simpa using hne⟩

/-- The path of the node that is found goes wrong exactly where the node is a pair that stands as
an element: its key comes on top, and only a path that goes on with this key and does not end
there has room for it. -/
theorem retraces_iff (shaped : tree.GrammarShaped) (path : PropertyPath) :
    ∃ found rest, path = found ++ rest ∧ ((tree.lookup path).resolved = true ↔ rest = []) ∧
      tree.pathOf (tree.lookup path).place =
        found ++ tree.elementKey (tree.lookup path).place ∧
      (tree.Retraces path ↔ tree.elementKey (tree.lookup path).place = [] ∨
        ∃ more, rest = tree.elementKey (tree.lookup path).place ++ more ∧ more ≠ []) := by
  obtain ⟨found, rest, rfl, hres, hpath⟩ := pathOf_lookup shaped path
  refine ⟨found, rest, rfl, hres, hpath, ?_⟩
  rw [Retraces, hpath, append_isPrefix_and_ne_iff]
  cases hr : (tree.lookup (found ++ rest)).resolved with
  | true =>
    obtain rfl := hres.mp hr
    simp
  | false =>
    have hne : rest ≠ [] := fun h => by simp [hres.mpr h] at hr
    constructor
    · intro h
      exact Or.inr (h.2 rfl)
    · rintro (h | h)
      · exact ⟨nofun, fun _ => ⟨rest, by simp [h], hne⟩⟩
      · exact ⟨nofun, fun _ => h⟩

def flowPairText : String := "[? x : y]\n"

def flowPairRows : List Row :=
  [⟨0, "stream", true, false, false, false, false, none, 0, 10⟩,
    ⟨1, "document", true, false, false, false, false, none, 0, 9⟩,
    ⟨2, "flow_node", true, false, false, false, false, none, 0, 9⟩,
    ⟨3, "flow_sequence", true, false, false, false, false, none, 0, 9⟩,
    ⟨4, "[", false, false, false, false, false, none, 0, 1⟩,
    ⟨4, "flow_pair", true, false, false, false, false, none, 1, 8⟩,
    ⟨5, "?", false, false, false, false, false, none, 1, 2⟩,
    ⟨5, "flow_node", true, false, false, false, false, some .key, 3, 4⟩,
    ⟨6, "plain_scalar", true, false, false, false, false, none, 3, 4⟩,
    ⟨7, "string_scalar", true, false, false, false, false, none, 3, 4⟩,
    ⟨5, ":", false, false, false, false, false, none, 5, 6⟩,
    ⟨5, "flow_node", true, false, false, false, false, some .value, 7, 8⟩,
    ⟨6, "plain_scalar", true, false, false, false, false, none, 7, 8⟩,
    ⟨7, "string_scalar", true, false, false, false, false, none, 7, 8⟩,
    ⟨4, "]", false, false, false, false, false, none, 8, 9⟩]

def flowPair : SyntaxTree :=
  ⟨.detect "file:///t.yaml" 1 flowPairText,
    (Node.ofRows? flowPairText.toList flowPairRows).getD default⟩

theorem grammarShaped_flowPair : flowPair.GrammarShaped :=
  ⟨by decide, by decide, by decide⟩

theorem not_retraces_flowPair : ¬ flowPair.Retraces [.index 0] := by
  have hpath : flowPair.pathOf (flowPair.lookup [.index 0]).place = [.index 0, .key "x"] := by
    decide
  intro h
  have hr := h.1 (by decide)
  rw [hpath] at hr
  cases hr

theorem retraces_iff_flowPair :
    flowPair.GrammarShaped ∧
      ∃ found rest, [.index 0] = found ++ rest ∧
        ((flowPair.lookup [.index 0]).resolved = true ↔ rest = []) ∧
        flowPair.pathOf (flowPair.lookup [.index 0]).place =
          found ++ flowPair.elementKey (flowPair.lookup [.index 0]).place ∧
        (flowPair.Retraces [.index 0] ↔
          flowPair.elementKey (flowPair.lookup [.index 0]).place = [] ∨
          ∃ more, rest = flowPair.elementKey (flowPair.lookup [.index 0]).place ++ more ∧
            more ≠ []) :=
  ⟨grammarShaped_flowPair, retraces_iff grammarShaped_flowPair [.index 0]⟩

theorem not_forall_retraces :
    ¬ ∀ tree : SyntaxTree, tree.GrammarShaped → ∀ path, tree.Retraces path :=
  fun h => not_retraces_flowPair (h flowPair grammarShaped_flowPair [.index 0])

end StackTemplate.SyntaxTree
