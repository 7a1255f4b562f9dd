import StackTemplate.Proofs.Json.LenientReading
import StackTemplate.Proofs.Sections.Queries
import StackTemplate.Proofs.Syntax.WrittenTree
import StackTemplate.Syntax.Outline

/-!
JSON objects that repeat keys: the tree finds the entry that is written first, the value keeps the
one that is written last.
-/

namespace StackTemplate.SyntaxTree

open Syntax Json

variable {tree : SyntaxTree} {layout : Json.Layout} {value : Value}

/-- The tree of a JSON text. -/
structure Parses (tree : SyntaxTree) (layout : Json.Layout) : Prop where
  format : tree.format = .json
  text : layout.text = tree.document.text.toList
  spaced : layout.Spaced .strict
  root : ∃ top, tree.rootValue? = some top ∧ layout.root.StandsAt top

theorem Parses.value_eq (h : tree.Parses layout)
    (hvalue : parse? tree.document.text.toList = some value) : layout.root.value = value := by
  rw [← h.text, Layout.parse?_text h.spaced] at hvalue
  split at hvalue
  case isTrue => exact Option.some.inj hvalue
  case isFalse => cases hvalue

theorem value?_of_parse? (hformat : tree.format = .json)
    (hvalue : parse? tree.document.text.toList = some value) (budget : Nat) :
    tree.document.value? budget = some value := by
  have hdocument : tree.document.format = .json := hformat
  rw [Document.value?, hdocument]
  rw [Format.readValue?, parseLenient?, hvalue]

theorem Parses.rel_lookup (h : tree.Parses layout) (path : PropertyPath) :
    Option.Rel Written.StandsAt (layout.root.follow? .first path) (tree.lookup path).place? := by
  obtain ⟨top, htop, hstands⟩ := h.root
  simp only [lookup, htop]
  exact rel_lookupFrom h.format hstands path

theorem Parses.exists_sectionPair? (h : tree.Parses layout) {s : Section} {first : Written}
    (hfirst : layout.root.step? .first (.key s.key) = some first) :
    ∃ pair node, tree.sectionPair? s = some pair ∧ pair.field? .value = some node ∧
      first.StandsAt node := by
  obtain ⟨top, htop, hstands⟩ := h.root
  have hrel := rel_sectionPair? h.format htop hstands s
  rw [hfirst] at hrel
  generalize hnode : (tree.sectionPair? s).bind (·.field? .value) = node? at hrel
  cases hrel with
  | @some _ node hfound =>
    obtain ⟨pair, hpair, hvalue⟩ := Option.bind_eq_some_iff.mp hnode
    exact ⟨pair, node, hpair, hvalue, hfound⟩

/-- What the cache holds for a section is what is written last for it. -/
theorem ask_of_last {members : Members} {budget : Nat} {s : Section} {content : Value}
    (hmembers : tree.document.value? budget = some (.object members))
    (hget : Members.get? s.key members = some content) :
    ((SectionCache.empty tree.document budget).ask (.value s)).1 = .value (some content) ∧
    ∃ entries, ((SectionCache.empty tree.document budget).ask (.entries s)).1 =
      .entries (some entries) ∧ entries.entries = (s.entities content).map (·.2) := by
  have hmem := Members.mem_of_get? hget
  have htells := SectionCache.tells_empty hmembers
  refine ⟨?_, htells.entries s content hmem⟩
  obtain ⟨found, hask, hfound⟩ := htells.value s
  rw [hask, (hfound content).mpr hmem]

/-- The tree answers with the first entry of a key, the value keeps what the last one holds. -/
theorem first_in_tree_last_in_value (hvalue : parse? tree.document.text.toList = some value)
    (budget : Nat) :
    (∃ layout : Json.Layout, layout.Spaced .strict ∧
      layout.text = tree.document.text.toList) ∧
    ∀ layout, tree.Parses layout →
      tree.document.value? budget = some value ∧ layout.root.value = value ∧
      (∀ entries p, (Written.object entries).StandsAt p → ∀ key ∈ entries.keys,
        ∃ first last pair node, Occurrence.first.pick? key entries.items = some first ∧
          Occurrence.last.pick? key entries.items = some last ∧
          p.findPair? .json key = some pair ∧ pair.field? .value = some node ∧
          first.StandsAt node ∧ (Written.object entries).value.get? key = some last.value ∧
          (entries.keys.count key = 1 → first = last)) ∧
      (∀ path, Option.Rel Written.StandsAt (layout.root.follow? .first path)
          (tree.lookup path).place? ∧
        value.follow? path = (layout.root.follow? .last path).map Written.value) ∧
      ∀ (s : Section) (first last : Written),
        layout.root.step? .first (.key s.key) = some first →
        layout.root.step? .last (.key s.key) = some last →
          (∃ pair node, (∀ wanted other,
              (s, other) ∈ tree.sections wanted ↔ s ∈ wanted ∧ pair = other) ∧
            pair.field? .value = some node ∧ first.StandsAt node) ∧
          ((SectionCache.empty tree.document budget).ask (.value s)).1 =
            .value (some last.value) ∧
          ∃ entries, ((SectionCache.empty tree.document budget).ask (.entries s)).1 =
            .entries (some entries) ∧ entries.entries = (s.entities last.value).map (·.2) := by
  constructor
  · obtain ⟨layout, hspaced, htext, -⟩ := parse?_eq_some_iff.mp hvalue
    exact ⟨layout, hspaced, htext⟩
  intro layout h
  obtain rfl := h.value_eq hvalue
  have hdocument := value?_of_parse? h.format hvalue budget
  refine ⟨hdocument, rfl, ?_, ?_, ?_⟩
  · intro entries p hstands key hkey
    obtain ⟨first, hfirst⟩ := Occurrence.exists_pick? hkey .first
    obtain ⟨last, hlast⟩ := Occurrence.exists_pick? hkey .last
    obtain ⟨pair, node, hpair, hnode, hfound⟩ := hstands.2.2.exists_findPair? hfirst
    refine ⟨first, last, pair, node, hfirst, hlast, hpair, hnode, hfound, ?_, ?_⟩
    · have hstep := Written.step?_value (.object entries) (.key key)
      rw [Written.step?, hlast] at hstep
      exact hstep
    · intro hcount
      rw [Occurrence.pick?_last (Nat.le_of_eq hcount), hfirst] at hlast
      exact Option.some.inj hlast
  · intro path
    exact ⟨h.rel_lookup path, layout.root.follow?_value path⟩
  · intro s first last hfirst hlast
    obtain ⟨pair, node, hpair, hnode, hfound⟩ := h.exists_sectionPair? hfirst
    refine ⟨⟨pair, node, ?_, hnode, hfound⟩, ?_⟩
    · intro wanted other
      rw [mem_sections_iff, hpair, Option.some_inj]
    · have hstep : layout.root.value.step? (.key s.key) = some last.value := by
        rw [Written.step?_value, hlast, Option.map_some]
      -- Only an object has a section to step into.
      cases hroot : layout.root.value with
      | object members =>
        rw [hroot] at hdocument hstep
        exact ask_of_last hdocument hstep
      | _ =>
        rw [hroot] at hstep
        cases hstep

def repeatedText : String := "\x7b\"Resources\": \x7b\x7d, \"Resources\": \x7b\"B\": 1\x7d\x7d"

def repeatedRows : List Row :=
  [⟨0, "document", true, false, false, false, false, none, 0, 40⟩,
    ⟨1, "object", true, false, false, false, false, none, 0, 40⟩,
    ⟨2, "\x7b", false, false, false, false, false, none, 0, 1⟩,
    ⟨2, "pair", true, false, false, false, false, none, 1, 16⟩,
    ⟨3, "string", true, false, false, false, false, some .key, 1, 12⟩,
    ⟨4, "\"", false, false, false, false, false, none, 1, 2⟩,
    ⟨4, "string_content", true, false, false, false, false, none, 2, 11⟩,
    ⟨4, "\"", false, false, false, false, false, none, 11, 12⟩,
    ⟨3, ":", false, false, false, false, false, none, 12, 13⟩,
    ⟨3, "object", true, false, false, false, false, some .value, 14, 16⟩,
    ⟨4, "\x7b", false, false, false, false, false, none, 14, 15⟩,
    ⟨4, "\x7d", false, false, false, false, false, none, 15, 16⟩,
    ⟨2, ",", false, false, false, false, false, none, 16, 17⟩,
    ⟨2, "pair", true, false, false, false, false, none, 18, 39⟩,
    ⟨3, "string", true, false, false, false, false, some .key, 18, 29⟩,
    ⟨4, "\"", false, false, false, false, false, none, 18, 19⟩,
    ⟨4, "string_content", true, false, false, false, false, none, 19, 28⟩,
    ⟨4, "\"", false, false, false, false, false, none, 28, 29⟩,
    ⟨3, ":", false, false, false, false, false, none, 29, 30⟩,
    ⟨3, "object", true, false, false, false, false, some .value, 31, 39⟩,
    ⟨4, "\x7b", false, false, false, false, false, none, 31, 32⟩,
    ⟨4, "pair", true, false, false, false, false, none, 32, 38⟩,
    ⟨5, "string", true, false, false, false, false, some .key, 32, 35⟩,
    ⟨6, "\"", false, false, false, false, false, none, 32, 33⟩,
    ⟨6, "string_content", true, false, false, false, false, none, 33, 34⟩,
    ⟨6, "\"", false, false, false, false, false, none, 34, 35⟩,
    ⟨5, ":", false, false, false, false, false, none, 35, 36⟩,
    ⟨5, "number", true, false, false, false, false, some .value, 37, 38⟩,
    ⟨4, "\x7d", false, false, false, false, false, none, 38, 39⟩,
    ⟨2, "\x7d", false, false, false, false, false, none, 39, 40⟩]

def repeated : SyntaxTree :=
  ⟨.detect "file:///t.json" 1 repeatedText,
    (Node.ofRows? repeatedText.toList repeatedRows).getD default⟩

def resourcesLabel (before : List Char) : Label :=
  ⟨before, "Resources\"".toList, "Resources", by decide, [], [' ']⟩

def emptyObject : Written := .object (.close [])

def filledObject : Written :=
  .object (.last ⟨[], "B\"".toList, "B", by decide, [], [' ']⟩ (.scalar ⟨['1'], .int 1, rfl⟩) [])

def repeatedLayout : Json.Layout where
  lead := []
  root := .object (.more (resourcesLabel []) emptyObject []
    (.last (resourcesLabel [' ']) filledObject []))
  trail := []

theorem spaced_repeatedLayout : repeatedLayout.Spaced .strict := by
  have hspace : Blank [' '] := List.forall_mem_singleton.mpr (by decide)
  have hfilled : filledObject.Spaced .strict :=
    ⟨⟨blank_nil, blank_nil, hspace⟩, trivial, blank_nil⟩
  exact ⟨blank_nil, ⟨⟨blank_nil, blank_nil, hspace⟩, blank_nil, blank_nil, nofun,
    ⟨hspace, blank_nil, hspace⟩, hfilled, blank_nil⟩, blank_nil⟩

theorem parses_repeated : repeated.Parses repeatedLayout where
  format := by decide
  text := by decide
  spaced := spaced_repeatedLayout
  root := by
    have hlabel : ∀ pair ∈ repeated.topLevelPairs, (resourcesLabel []).StandsAt pair := by
      intro pair hpair
      rcases List.mem_cons.mp hpair with rfl | hpair
      · exact ⟨_, rfl, by decide, by decide⟩
      · rcases List.mem_singleton.mp hpair with rfl
        exact ⟨_, rfl, by decide, by decide⟩
    refine ⟨_, rfl, by decide, by decide, _, _, _, rfl, hlabel _ List.mem_cons_self, rfl, ?_, ?_⟩
    · exact ⟨by decide, by decide, rfl⟩
    · refine ⟨_, _, rfl, hlabel _ (List.mem_cons_of_mem _ List.mem_cons_self), rfl, ?_⟩
      refine ⟨by decide, by decide, _, _, rfl, ⟨_, rfl, by decide, by decide⟩, rfl, ?_⟩
      exact ⟨by decide, by decide⟩

theorem parse?_repeated : parse? repeated.document.text.toList =
    some (.object [("Resources", .object [("B", .int 1)])]) := by
  rw [← parses_repeated.text, Layout.parse?_text parses_repeated.spaced]
  rfl

theorem first_in_tree_last_in_value_repeated :
    parse? repeated.document.text.toList =
      some (.object [("Resources", .object [("B", .int 1)])]) ∧
    repeated.Parses repeatedLayout ∧
    repeated.document.value? 0 = some (.object [("Resources", .object [("B", .int 1)])]) ∧
    ∃ node, (repeated.lookup [.key "Resources"]).place? = some node ∧
      emptyObject.StandsAt node := by
  have hall := (first_in_tree_last_in_value parse?_repeated 0).2 repeatedLayout parses_repeated
  obtain ⟨hdocument, -, -, hpaths, -⟩ := hall
  have hfollow : repeatedLayout.root.follow? .first [.key "Resources"] = some emptyObject := rfl
  have hpath := (hpaths [.key "Resources"]).1
  rw [hfollow] at hpath
  refine ⟨parse?_repeated, parses_repeated, hdocument, ?_⟩
  generalize (repeated.lookup [.key "Resources"]).place? = found at hpath
  cases hpath with
  | @some _ node hnode => exact ⟨node, rfl, hnode⟩

/-- The value of a key that is repeated is not that of the node the tree finds for it. -/
theorem not_forall_value_of_lookup :
    ¬ ∀ (tree : SyntaxTree) (value : Value) (layout : Json.Layout) (entries : Entries),
      parse? tree.document.text.toList = some value → tree.Parses layout →
      layout.root = .object entries → ∀ key ∈ entries.keys, ∀ (w : Written) (p : Place),
        (tree.lookup [.key key]).place? = some p → w.StandsAt p →
        value.get? key = some w.value := by
  intro hall
  have hfollow : repeatedLayout.root.follow? .first [.key "Resources"] = some emptyObject := rfl
  have hpath := parses_repeated.rel_lookup [.key "Resources"]
  rw [hfollow] at hpath
  generalize hfound : (repeated.lookup [.key "Resources"]).place? = found at hpath
  cases hpath with
  | @some _ node hnode =>
    have hget := hall repeated _ repeatedLayout _ parse?_repeated parses_repeated rfl "Resources"
      List.mem_cons_self emptyObject node hfound hnode
    have hvalue : Value.object [("B", .int 1)] = .object [] := Option.some.inj hget
    injection hvalue with hmembers
    cases hmembers

end StackTemplate.SyntaxTree
