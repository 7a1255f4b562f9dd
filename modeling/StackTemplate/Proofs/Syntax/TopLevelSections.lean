import Mathlib.Data.List.Sort
import StackTemplate.Proofs.Syntax.Steps
import StackTemplate.Syntax.Outline

/-!
The top-level sections of a tree, told in three ways: collected from the pairs, looked up by path,
and named in the order of the document. All mean the first pair with the key of a section.
-/

namespace StackTemplate.SyntaxTree

open Syntax Syntax.Place

variable {tree : SyntaxTree} {wanted : List Section} {s : Section} {pair : Place}

/-- The first pair of the content with the key of a section. -/
def sectionPair? (tree : SyntaxTree) (s : Section) : Option Place :=
  tree.topLevelPairs.find? fun pair => pair.keyText? tree.format = some s.key

theorem sectionOf?_eq_some_iff :
    tree.sectionOf? pair = some s ↔ pair.keyText? tree.format = some s.key := by
  rw [sectionOf?, Option.bind_eq_some_iff]
  constructor
  · rintro ⟨name, hname, hs⟩
    rw [hname, Section.ofKey?_eq_some_iff.mp hs]
  · intro h
    exact ⟨s.key, h, Section.ofKey?_key s⟩

/-! Collecting -/

theorem get?_addSection (found : SectionMap Place) :
    (tree.addSection wanted found pair).get? s = (found.get? s).or
      (if s ∈ wanted ∧ pair.keyText? tree.format = some s.key then some pair else none) := by
  rw [addSection]
  cases hs : tree.sectionOf? pair with
  | none =>
    have hkey : pair.keyText? tree.format ≠ some s.key := by
      rw [ne_eq, ← sectionOf?_eq_some_iff, hs]
      exact nofun
    simp [hkey]
  | some t =>
    have hkey : pair.keyText? tree.format = some s.key ↔ s = t := by
      rw [← sectionOf?_eq_some_iff, hs, Option.some_inj, eq_comm]
    by_cases ht : t ∈ wanted
    · have hmem : s ∈ wanted ∧ s = t ↔ s = t := and_iff_right_of_imp fun h => h ▸ ht
      simp only [ht, if_true, SectionMap.get?_insertNew, hkey, hmem]
    · have hmem : ¬ (s ∈ wanted ∧ s = t) := fun h => ht (h.2 ▸ h.1)
      simp only [ht, if_false, hkey, hmem, Option.or_none]

theorem get?_foldl_addSection (pairs : List Place) (found : SectionMap Place) :
    (pairs.foldl (tree.addSection wanted) found).get? s = (found.get? s).or
      (if s ∈ wanted then pairs.find? fun pair => pair.keyText? tree.format = some s.key
        else none) := by
  -- what is found stays, and the first pair that fits is added
  induction pairs generalizing found with
  | nil => simp
  | cons pair pairs ih =>
    rw [List.foldl_cons, ih, get?_addSection, Option.or_assoc, List.find?_cons]
    congr 1
    by_cases hs : s ∈ wanted
    · by_cases hkey : pair.keyText? tree.format = some s.key <;> simp [hs, hkey]
    · simp [hs]

theorem mem_sections_iff :
    (s, pair) ∈ tree.sections wanted ↔ s ∈ wanted ∧ tree.sectionPair? s = some pair := by
  rw [sections, SectionMap.mem_entries_iff, get?_foldl_addSection, SectionMap.get?_empty,
    Option.none_or, sectionPair?]
  split <;> simp_all

theorem mem_sections_all_iff :
    (s, pair) ∈ tree.sections Section.all ↔ tree.sectionPair? s = some pair := by
  rw [mem_sections_iff, and_iff_right s.mem_all]

theorem sections_ranked (tree : SyntaxTree) (wanted : List Section) :
    (tree.sections wanted).Pairwise fun a b => a.1.rank < b.1.rank :=
  SectionMap.sorted _

theorem sections_eq_filter (tree : SyntaxTree) (wanted : List Section) :
    tree.sections wanted = (tree.sections Section.all).filter (·.1 ∈ wanted) := by
  let r := fun a b : Section × Place => a.1.rank < b.1.rank
  have : Std.Antisymm r := ⟨fun _ _ hab hba => absurd hab (Nat.lt_asymm hba)⟩
  have : Std.Irrefl r := ⟨fun _ => Nat.lt_irrefl _⟩
  have hall := (sections_ranked tree Section.all).filter fun found => found.1 ∈ wanted
  refine List.Pairwise.eq_of_mem_iff (sections_ranked tree wanted) hall ?_
  rintro ⟨s, pair⟩
  rw [List.mem_filter, mem_sections_iff, mem_sections_all_iff, and_comm]
  simp

/-! Looking up -/

theorem topLevelPairs_eq {top : Place} (h : tree.rootValue? = some top) :
    tree.topLevelPairs = if top.isBlock tree.format then top.pairs tree.format else [] := by
  simp only [topLevelPairs, h]

theorem step?_rootValue {top : Place} (h : tree.rootValue? = some top) (s : Section) :
    tree.step? top (.key s.key) =
      (tree.sectionPair? s).map fun pair => (pair.field? .value).getD pair := by
  have hunwrap := unwrap_of_isWrapper_eq_false (unwraps_of_rootValue? h).2
  rw [sectionPair?, topLevelPairs_eq h]
  simp only [step?, hunwrap]
  split <;> rfl

theorem lookup_section (tree : SyntaxTree) (s : Section) :
    ((tree.lookup [.key s.key]).resolved = true ↔ ∃ pair, tree.sectionPair? s = some pair) ∧
      ∀ pair, tree.sectionPair? s = some pair →
        (tree.lookup [.key s.key]).place = (pair.field? .value).getD pair := by
  cases hroot : tree.rootValue? with
  | none => simp [lookup, hroot, sectionPair?, topLevelPairs]
  | some top =>
    have hstep := step?_rootValue hroot s
    cases hpair : tree.sectionPair? s <;> simp_all [lookup, lookupFrom]

/-! Naming -/

theorem mem_topLevelPairs (h : tree.sectionPair? s = some pair) : pair ∈ tree.topLevelPairs :=
  List.mem_of_find?_eq_some h

/-- Siblings start one after the other. -/
def InOrder (tree : SyntaxTree) : Prop :=
  ∀ p ∈ tree.places, p.children.Pairwise fun a b => a.node.info.start < b.node.info.start

instance (tree : SyntaxTree) : Decidable tree.InOrder :=
  inferInstanceAs (Decidable (∀ p ∈ tree.places, List.Pairwise _ p.children))

theorem topLevelPairs_inOrder (ordered : tree.InOrder) :
    tree.topLevelPairs.Pairwise fun a b => a.node.info.start < b.node.info.start := by
  cases hroot : tree.rootValue? with
  | none => simp [topLevelPairs, hroot]
  | some top =>
    rw [topLevelPairs_eq hroot]
    split
    · exact ((ordered top (mem_places_of_rootValue? hroot)).filter _).filter _
    · exact .nil

theorem eq_of_start_eq (ordered : tree.InOrder) {a b : Place} (ha : a ∈ tree.topLevelPairs)
    (hb : b ∈ tree.topLevelPairs) (h : a.node.info.start = b.node.info.start) : a = b := by
  have hnodup : (tree.topLevelPairs.map (·.node.info.start)).Nodup :=
    List.pairwise_map.mpr ((topLevelPairs_inOrder ordered).imp Nat.ne_of_lt)
  exact List.inj_on_of_nodup_map hnodup ha hb h

theorem section_unique {t : Section} (hs : tree.sectionPair? s = some pair)
    (ht : tree.sectionPair? t = some pair) : s = t := by
  have hskey : pair.keyText? tree.format = some s.key := by simpa using List.find?_some hs
  have htkey : pair.keyText? tree.format = some t.key := by simpa using List.find?_some ht
  exact Section.key_injective (Option.some.inj (hskey.symm.trans htkey))

theorem startsFirst_iff {a b : Section × Place} : startsFirst a b = true ↔
    a.2.node.info.start < b.2.node.info.start ∨
      a.2.node.info.start = b.2.node.info.start ∧ a.1.rank ≤ b.1.rank := by
  simp [startsFirst]

/-- The sections with their pairs, as they are sorted for their names. -/
def namedPairs (tree : SyntaxTree) : List (Section × Place) :=
  (tree.sections Section.all).mergeSort startsFirst

theorem sectionNames_eq (tree : SyntaxTree) :
    tree.sectionNames = tree.namedPairs.map (·.1) := rfl

theorem mem_namedPairs_iff : (s, pair) ∈ tree.namedPairs ↔ tree.sectionPair? s = some pair := by
  rw [namedPairs, List.mem_mergeSort, mem_sections_all_iff]

theorem nodup_sectionNames (tree : SyntaxTree) : tree.sectionNames.Nodup := by
  have hperm := (List.mergeSort_perm (tree.sections Section.all) startsFirst).map (·.1)
  exact hperm.nodup_iff.mpr (SectionMap.nodup_keys _)

theorem namedPairs_inOrder (ordered : tree.InOrder) :
    tree.namedPairs.Pairwise fun a b => a.2.node.info.start < b.2.node.info.start := by
  have hsorted : tree.namedPairs.Pairwise fun a b => startsFirst a b = true := by
    apply List.pairwise_mergeSort
    · intro a b c
      simp only [startsFirst_iff]
      omega
    · intro a b
      rw [Bool.or_eq_true, startsFirst_iff, startsFirst_iff]
      omega
  have hnodup : tree.namedPairs.Nodup := (nodup_sectionNames tree).of_map
  refine (hsorted.and hnodup).imp_of_mem ?_
  rintro ⟨s, a⟩ ⟨t, b⟩ ha hb ⟨hfirst, hne⟩
  rw [mem_namedPairs_iff] at ha hb
  -- ranks only decide between pairs that start at one place
  refine (startsFirst_iff.mp hfirst).resolve_right fun ⟨hstart, _⟩ => hne ?_
  obtain rfl := eq_of_start_eq ordered (mem_topLevelPairs ha) (mem_topLevelPairs hb) hstart
  rw [section_unique ha hb]

theorem namedPairs_sublist (ordered : tree.InOrder) :
    (tree.namedPairs.map (·.2)).Sublist tree.topLevelPairs := by
  let r := fun a b : Place => a.node.info.start < b.node.info.start
  have : Std.Antisymm r := ⟨fun _ _ hab hba => absurd hab (Nat.lt_asymm hba)⟩
  have hnamed : (tree.namedPairs.map (·.2)).Pairwise r :=
    List.pairwise_map.mpr (namedPairs_inOrder ordered)
  have hnodup : (tree.namedPairs.map (·.2)).Nodup := by
    refine hnamed.imp ?_
    rintro a b hlt rfl
    exact Nat.lt_irrefl _ hlt
  apply List.sublist_of_subperm_of_pairwise _ hnamed (topLevelPairs_inOrder ordered)
  apply List.subperm_of_subset hnodup
  intro pair hpair
  obtain ⟨⟨s, pair⟩, hmem, rfl⟩ := List.mem_map.mp hpair
  exact mem_topLevelPairs (mem_namedPairs_iff.mp hmem)

/-- The first pair of the mapping at the root with the key of a section. -/
def Opens (tree : SyntaxTree) (s : Section) (pair : Place) : Prop :=
  ∃ top ∈ tree.rootValue?, top.isBlock tree.format = true ∧
    ∃ before after, top.pairs tree.format = before ++ pair :: after ∧
      pair.keyText? tree.format = some s.key ∧
        ∀ other ∈ before, other.keyText? tree.format ≠ some s.key

theorem opens_iff : tree.Opens s pair ↔ tree.sectionPair? s = some pair := by
  cases hroot : tree.rootValue? with
  | none => simp [Opens, sectionPair?, topLevelPairs, hroot]
  | some top =>
    rw [sectionPair?, topLevelPairs_eq hroot]
    cases hblock : top.isBlock tree.format with
    | false => simp [Opens, hroot, hblock]
    | true =>
      simp only [Opens, hroot, if_true, List.find?_eq_some_iff_append]
      constructor
      · rintro ⟨_, ⟨⟩, -, before, after, hpairs, hkey, hbefore⟩
        exact ⟨by simpa using hkey, before, after, hpairs, by simpa using hbefore⟩
      · rintro ⟨hkey, before, after, hpairs, hbefore⟩
        exact ⟨top, rfl, hblock, before, after, hpairs, by simpa using hkey,
          by simpa using hbefore⟩

/-- What is collected for sections, what their keys lead to, and the names that are listed all go by
the first pairs with these keys. -/
theorem sections_tell_alike (tree : SyntaxTree) (ordered : tree.InOrder) :
    (∀ wanted, tree.sections wanted = (tree.sections Section.all).filter (·.1 ∈ wanted)) ∧
    (∀ wanted s, (∃ pair, (s, pair) ∈ tree.sections wanted) ↔
      s ∈ wanted ∧ (tree.lookup [.key s.key]).resolved = true) ∧
    (∀ wanted s pair, (s, pair) ∈ tree.sections wanted ↔ s ∈ wanted ∧ tree.Opens s pair) ∧
    (∀ s pair, tree.Opens s pair →
      (tree.lookup [.key s.key]).place = (pair.field? .value).getD pair) ∧
    tree.sectionNames.Nodup ∧
    (∀ s, s ∈ tree.sectionNames ↔ ∃ pair, (s, pair) ∈ tree.sections Section.all) ∧
    ∃ pairs, pairs.Sublist tree.topLevelPairs ∧
      List.Forall₂ tree.Opens tree.sectionNames pairs := by
  refine ⟨sections_eq_filter tree, ?_, ?_, ?_, nodup_sectionNames tree, ?_, ?_⟩
  · intro wanted s
    simp only [mem_sections_iff, exists_and_left, (lookup_section tree s).1]
  · intro wanted s pair
    rw [mem_sections_iff, opens_iff]
  · intro s pair hopens
    exact (lookup_section tree s).2 pair (opens_iff.mp hopens)
  · intro s
    have hmem : s ∈ tree.sectionNames ↔ ∃ pair, (s, pair) ∈ tree.namedPairs := by
      simp [sectionNames_eq]
    simp only [hmem, mem_namedPairs_iff, mem_sections_all_iff]
  · refine ⟨tree.namedPairs.map (·.2), namedPairs_sublist ordered, ?_⟩
    rw [sectionNames_eq, List.forall₂_map_left_iff, List.forall₂_map_right_iff, List.forall₂_same]
    rintro ⟨s, pair⟩ hmem
    exact opens_iff.mpr (mem_namedPairs_iff.mp hmem)

def outputsTwiceText : String :=
  "\x7b\"Outputs\": 1, \"A\": 2, \"Resources\": 3, \"Outputs\": 4\x7d"

def outputsTwiceRows : List Row :=
  [⟨0, "document", true, false, false, false, false, none, 0, 52⟩,
    ⟨1, "object", true, false, false, false, false, none, 0, 52⟩,
    ⟨2, "\x7b", false, false, false, false, false, none, 0, 1⟩,
    ⟨2, "pair", true, false, false, false, false, none, 1, 13⟩,
    ⟨3, "string", true, false, false, false, false, some .key, 1, 10⟩,
    ⟨4, "\"", false, false, false, false, false, none, 1, 2⟩,
    ⟨4, "string_content", true, false, false, false, false, none, 2, 9⟩,
    ⟨4, "\"", false, false, false, false, false, none, 9, 10⟩,
    ⟨3, ":", false, false, false, false, false, none, 10, 11⟩,
    ⟨3, "number", true, false, false, false, false, some .value, 12, 13⟩,
    ⟨2, ",", false, false, false, false, false, none, 13, 14⟩,
    ⟨2, "pair", true, false, false, false, false, none, 15, 21⟩,
    ⟨3, "string", true, false, false, false, false, some .key, 15, 18⟩,
    ⟨4, "\"", false, false, false, false, false, none, 15, 16⟩,
    ⟨4, "string_content", true, false, false, false, false, none, 16, 17⟩,
    ⟨4, "\"", false, false, false, false, false, none, 17, 18⟩,
    ⟨3, ":", false, false, false, false, false, none, 18, 19⟩,
    ⟨3, "number", true, false, false, false, false, some .value, 20, 21⟩,
    ⟨2, ",", false, false, false, false, false, none, 21, 22⟩,
    ⟨2, "pair", true, false, false, false, false, none, 23, 37⟩,
    ⟨3, "string", true, false, false, false, false, some .key, 23, 34⟩,
    ⟨4, "\"", false, false, false, false, false, none, 23, 24⟩,
    ⟨4, "string_content", true, false, false, false, false, none, 24, 33⟩,
    ⟨4, "\"", false, false, false, false, false, none, 33, 34⟩,
    ⟨3, ":", false, false, false, false, false, none, 34, 35⟩,
    ⟨3, "number", true, false, false, false, false, some .value, 36, 37⟩,
    ⟨2, ",", false, false, false, false, false, none, 37, 38⟩,
    ⟨2, "pair", true, false, false, false, false, none, 39, 51⟩,
    ⟨3, "string", true, false, false, false, false, some .key, 39, 48⟩,
    ⟨4, "\"", false, false, false, false, false, none, 39, 40⟩,
    ⟨4, "string_content", true, false, false, false, false, none, 40, 47⟩,
    ⟨4, "\"", false, false, false, false, false, none, 47, 48⟩,
    ⟨3, ":", false, false, false, false, false, none, 48, 49⟩,
    ⟨3, "number", true, false, false, false, false, some .value, 50, 51⟩,
    ⟨2, "\x7d", false, false, false, false, false, none, 51, 52⟩]

def outputsTwice : SyntaxTree :=
  ⟨.detect "file:///t.json" 1 outputsTwiceText,
    (Node.ofRows? outputsTwiceText.toList outputsTwiceRows).getD default⟩

theorem sections_tell_alike_outputsTwice :
    outputsTwice.InOrder ∧
      outputsTwice.sections [.outputs] = [(.outputs, outputsTwice.topLevelPairs[0]!)] ∧
      (outputsTwice.lookup [.key "Outputs"]).place = outputsTwice.places[9]! ∧
      ∃ pairs, pairs.Sublist outputsTwice.topLevelPairs ∧
        List.Forall₂ outputsTwice.Opens outputsTwice.sectionNames pairs := by
  have hordered : outputsTwice.InOrder := by decide
  obtain ⟨-, -, hopens, hplace, -, -, hnames⟩ := sections_tell_alike outputsTwice hordered
  have hfound : outputsTwice.sections [.outputs] = [(.outputs, outputsTwice.topLevelPairs[0]!)] := by
    decide
  have hmem : (.outputs, outputsTwice.topLevelPairs[0]!) ∈ outputsTwice.sections [.outputs] :=
    hfound ▸ List.mem_cons_self
  have hvalue := hplace _ _ ((hopens _ _ _).mp hmem).2
  exact ⟨hordered, hfound, hvalue.trans (by decide), hnames⟩

end StackTemplate.SyntaxTree
