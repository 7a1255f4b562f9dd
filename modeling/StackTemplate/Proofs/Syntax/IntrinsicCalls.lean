import StackTemplate.Proofs.Syntax.Steps
import StackTemplate.Proofs.Yaml.TaggedData
import StackTemplate.Syntax.Context
import StackTemplate.Syntax.Outline

/-!
The intrinsic function that a node is an argument of: the nearest call on the way up. A call as a
pair has to be all of a map, but it is only asked to be the one pair beside its siblings.
-/

namespace StackTemplate

namespace Intrinsic

theorem ofKey?_longKey : ∀ intrinsic ∈ all, ofKey? intrinsic.longKey = some intrinsic := by
  decide

theorem ofKey?_name : ∀ intrinsic ∈ all, ofKey? ("!" ++ intrinsic.name) = some intrinsic := by
  decide

theorem ofKey?_eq_some_iff {key : String} {intrinsic : Intrinsic} :
    ofKey? key = some intrinsic ↔
      intrinsic ∈ all ∧ (key = intrinsic.longKey ∨ key = "!" ++ intrinsic.name) := by
  constructor
  · intro h
    rw [ofKey?] at h
    split at h
    case isTrue hmark =>
      have hmem : intrinsic ∈ all := List.mem_of_find?_eq_some h
      obtain ⟨rest, hrest⟩ := List.head?_eq_some_iff.mp hmark
      have hkey : key = "!" ++ String.ofList rest := by
        rw [← String.toList_inj, hrest]
        simp
      rw [hkey, ofTag?_eq_some_iff hmem] at h
      exact ⟨hmem, .inr (by rw [hkey, h])⟩
    case isFalse =>
      have hkey : intrinsic.longKey = key := by simpa using List.find?_some h
      exact ⟨List.mem_of_find?_eq_some h, .inl hkey.symm⟩
  · rintro ⟨hmem, rfl | rfl⟩
    · exact ofKey?_longKey intrinsic hmem
    · exact ofKey?_name intrinsic hmem

def ref : Intrinsic := ⟨"Ref", "Ref"⟩

def sub : Intrinsic := ⟨"Sub", "Fn::Sub"⟩

end Intrinsic

namespace Syntax.Place

variable {format : Format} {p : Place} {intrinsic : Intrinsic}

/-- The node has a tag that is the name of a function after its marks. -/
def TagNames (format : Format) (p : Place) (intrinsic : Intrinsic) : Prop :=
  ∃ tag ∈ p.children, tag.shape format = .tag ∧ intrinsic ∈ Intrinsic.all ∧
    String.ofList (tag.node.info.text.toList.dropWhile (· = '!')) = intrinsic.name

/-- The node is a pair with the key of a function. -/
def KeyNames (format : Format) (p : Place) (intrinsic : Intrinsic) : Prop :=
  p.isPair format = true ∧ intrinsic ∈ Intrinsic.all ∧
    (p.keyText? format = some intrinsic.longKey ∨ p.keyText? format = some ("!" ++ intrinsic.name))

/-- The pair is the only entry of its map: a mapping with nothing else in it, keys without values
included, or the map of its own that an element of a list is. -/
def IsWholeMap (format : Format) (pair : Place) : Prop :=
  ∃ parent ∈ pair.parent?, parent.shape format = .listed ∨
    parent.shape format = .block ∧ parent.contentChildren.length = 1

/-- No other pair stands beside the pair. -/
def IsOnlyPair (format : Format) (pair : Place) : Prop :=
  ∃ parent ∈ pair.parent?, (parent.pairs format).length = 1

/-- Calls of functions, with a condition on pairs. -/
def Calls (format : Format) (alone : Format → Place → Prop) (p : Place) (intrinsic : Intrinsic) :
    Prop :=
  p.TagNames format intrinsic ∨ p.KeyNames format intrinsic ∧ alone format p

/-- The first of the places on a way that are calls calls the function. -/
def FirstCalls (format : Format) (alone : Format → Place → Prop) (way : List Place)
    (intrinsic : Intrinsic) : Prop :=
  ∃ inner q outer, way = inner ++ q :: outer ∧ q.Calls format alone intrinsic ∧
    ∀ r ∈ inner, ∀ other, ¬ r.Calls format alone other

/-- A call in a list beside other pairs, or beside keys without values only. -/
def IsMiscounted (format : Format) (p : Place) : Prop :=
  (∃ intrinsic, p.KeyNames format intrinsic) ∧ ∃ parent ∈ p.parent?,
    parent.shape format = .listed ∧ 1 < (parent.pairs format).length ∨
      parent.shape format = .block ∧ (parent.pairs format).length = 1 ∧
        1 < parent.contentChildren.length

/-! Calls at one node -/

theorem tagNames_iff (h : (p.children.filter fun c => c.shape format == .tag).length ≤ 1) :
    ((p.tagName? format).bind fun tag => Intrinsic.ofTag? ("!" ++ tag)) = some intrinsic ↔
      p.TagNames format intrinsic := by
  have hnames (tag : Place) : Intrinsic.ofTag? ("!" ++ String.ofList
        (tag.node.info.text.toList.dropWhile (· = '!'))) = some intrinsic ↔
      intrinsic ∈ Intrinsic.all ∧
        String.ofList (tag.node.info.text.toList.dropWhile (· = '!')) = intrinsic.name := by
    constructor
    · intro hfind
      have hmem : intrinsic ∈ Intrinsic.all := List.mem_of_find?_eq_some hfind
      exact ⟨hmem, (Intrinsic.ofTag?_eq_some_iff hmem).mp hfind⟩
    · rintro ⟨hmem, hname⟩
      exact (Intrinsic.ofTag?_eq_some_iff hmem).mpr hname
  have htags : p.TagNames format intrinsic ↔
      ∃ tag ∈ p.children.filter fun c => c.shape format == .tag, intrinsic ∈ Intrinsic.all ∧
        String.ofList (tag.node.info.text.toList.dropWhile (· = '!')) = intrinsic.name := by
    simp [TagNames, and_assoc]
  rw [htags, tagName?, ← List.head?_filter]
  cases hlist : p.children.filter fun c => c.shape format == .tag with
  | nil => simp
  | cons tag rest =>
    obtain rfl : rest = [] := by simpa [hlist] using h
    simp [hnames]

theorem keyNames_iff : (if p.isPair format then (p.keyText? format).bind Intrinsic.ofKey?
    else none) = some intrinsic ↔ p.KeyNames format intrinsic := by
  cases hpair : p.isPair format with
  | false => simp [KeyNames, hpair]
  | true =>
    rw [if_pos rfl, Option.bind_eq_some_iff, KeyNames]
    simp only [Intrinsic.ofKey?_eq_some_iff, hpair, true_and]
    constructor
    · rintro ⟨key, hkey, hmem, rfl | rfl⟩
      · exact ⟨hmem, .inl hkey⟩
      · exact ⟨hmem, .inr hkey⟩
    · rintro ⟨hmem, hkey | hkey⟩
      · exact ⟨_, hkey, hmem, .inl rfl⟩
      · exact ⟨_, hkey, hmem, .inr rfl⟩

/-- In the grammars a node has one tag at most, pairs have none, and they stand in mappings or as
elements of lists. -/
structure IsCallShaped (format : Format) (p : Place) : Prop where
  oneTag : (p.children.filter fun c => c.shape format == .tag).length ≤ 1
  untagged : p.isPair format = true → ∀ c ∈ p.children, c.shape format ≠ .tag
  inMap : p.isPair format = true → ∃ parent ∈ p.parent?, p ∈ parent.contentChildren ∧
    (parent.shape format = .listed ∨ parent.shape format = .block)

theorem not_tagNames_of_isPair (shaped : p.IsCallShaped format) (h : p.isPair format = true) :
    ¬ p.TagNames format intrinsic := by
  rintro ⟨tag, hc, htag, -⟩
  exact shaped.untagged h tag hc htag

theorem isOnlyPair_iff :
    (p.parent?.any fun map => (map.pairs format).length == 1) = true ↔ p.IsOnlyPair format := by
  simp [IsOnlyPair, Option.any_eq_true]

theorem callAt?_eq_some_iff (shaped : p.IsCallShaped format) :
    Context.callAt? format p = some intrinsic ↔ p.Calls format IsOnlyPair intrinsic := by
  have htag (i : Intrinsic) := @tagNames_iff format p i shaped.oneTag
  rw [Context.callAt?, Option.or_eq_some_iff, Option.filter_eq_some_iff, htag, keyNames_iff,
    isOnlyPair_iff, Calls]
  constructor
  · rintro (hnames | ⟨-, hpair⟩)
    · exact .inl hnames
    · exact .inr hpair
  · rintro (hnames | hpair)
    · exact .inl hnames
    · refine .inr ⟨?_, hpair⟩
      rw [Option.eq_none_iff_forall_ne_some]
      intro other hother
      exact not_tagNames_of_isPair shaped hpair.1.1 ((htag other).mp hother)

theorem callAt?_eq_none_iff (shaped : p.IsCallShaped format) :
    Context.callAt? format p = none ↔ ∀ other, ¬ p.Calls format IsOnlyPair other := by
  rw [Option.eq_none_iff_forall_ne_some]
  exact forall_congr' fun other => not_congr (callAt?_eq_some_iff shaped)

/-! Calls on a way -/

variable {alone alone' : Format → Place → Prop} {way : List Place}

theorem findSome?_callAt?_eq_some_iff (shaped : ∀ p ∈ way, p.IsCallShaped format) :
    way.findSome? (Context.callAt? format) = some intrinsic ↔
      FirstCalls format IsOnlyPair way intrinsic := by
  rw [List.findSome?_eq_some_iff, FirstCalls]
  constructor
  · rintro ⟨inner, q, outer, rfl, hq, hinner⟩
    refine ⟨inner, q, outer, rfl, (callAt?_eq_some_iff (shaped q (by simp))).mp hq, ?_⟩
    intro r hr
    exact (callAt?_eq_none_iff (shaped r (by simp [hr]))).mp (hinner r hr)
  · rintro ⟨inner, q, outer, rfl, hq, hinner⟩
    refine ⟨inner, q, outer, rfl, (callAt?_eq_some_iff (shaped q (by simp))).mpr hq, ?_⟩
    intro r hr
    exact (callAt?_eq_none_iff (shaped r (by simp [hr]))).mpr (hinner r hr)

@[simp] theorem firstCalls_nil : ¬ FirstCalls format alone [] intrinsic := by
  rintro ⟨inner, q, outer, h, -⟩
  simp at h

theorem firstCalls_cons : FirstCalls format alone (p :: way) intrinsic ↔
    p.Calls format alone intrinsic ∨
      (∀ other, ¬ p.Calls format alone other) ∧ FirstCalls format alone way intrinsic := by
  constructor
  · rintro ⟨inner, q, outer, hsplit, hq, hinner⟩
    cases inner with
    | nil =>
      obtain ⟨rfl, rfl⟩ := List.cons.inj hsplit
      exact .inl hq
    | cons r inner =>
      obtain ⟨rfl, rfl⟩ := List.cons.inj hsplit
      refine .inr ⟨hinner p List.mem_cons_self, inner, q, outer, rfl, hq, ?_⟩
      intro r hr
      exact hinner r (List.mem_cons_of_mem _ hr)
  · rintro (hp | ⟨hnone, inner, q, outer, rfl, hq, hinner⟩)
    · exact ⟨[], p, way, rfl, hp, by simp⟩
    · exact ⟨p :: inner, q, outer, rfl, hq, List.forall_mem_cons.mpr ⟨hnone, hinner⟩⟩

/-- Two conditions on pairs find the same call if they agree up to the first call by one of them. -/
theorem firstCalls_iff_of_agree
    (agree : ∀ inner q outer, way = inner ++ q :: outer →
      (∀ r ∈ inner, ∀ other, ¬ r.Calls format alone other) →
      ∀ other, q.Calls format alone' other ↔ q.Calls format alone other) :
    FirstCalls format alone' way intrinsic ↔ FirstCalls format alone way intrinsic := by
  induction way with
  | nil => simp
  | cons p way ih =>
    have hp := agree [] p way rfl (by simp)
    rw [firstCalls_cons, firstCalls_cons, forall_congr' fun other => not_congr (hp other), hp]
    apply or_congr_right
    apply and_congr_right
    intro hnone
    apply ih
    intro inner q outer hsplit hinner
    exact agree (p :: inner) q outer (by rw [hsplit, List.cons_append])
      (List.forall_mem_cons.mpr ⟨hnone, hinner⟩)

theorem not_calls (htags : ∀ c ∈ p.children, c.shape format ≠ .tag)
    (hpair : p.isPair format = false) : ¬ p.Calls format alone intrinsic := by
  rintro (⟨tag, hc, htag, -⟩ | ⟨⟨hp, -⟩, -⟩)
  · exact htags tag hc htag
  · rw [hpair] at hp
    cases hp

/-! Where the two ways of counting differ -/

theorem isMiscounted_iff (shaped : p.IsCallShaped format) :
    p.IsMiscounted format ↔ (∃ intrinsic, p.KeyNames format intrinsic) ∧
      ¬ (p.IsOnlyPair format ↔ p.IsWholeMap format) := by
  rw [IsMiscounted]
  apply and_congr_right
  rintro ⟨intrinsic, hpair, -⟩
  obtain ⟨parent, hparent, hmem, hshape⟩ := shaped.inMap hpair
  have hpairs : 1 ≤ (parent.pairs format).length :=
    List.length_pos_of_mem (List.mem_filter.mpr ⟨hmem, hpair⟩)
  have hcontent : (parent.pairs format).length ≤ parent.contentChildren.length :=
    List.length_filter_le _ _
  simp only [IsOnlyPair, IsWholeMap, Option.mem_def.mp hparent, Option.mem_some_iff,
    exists_eq_left']
  rcases hshape with hlist | hblock
  · simp only [hlist, reduceCtorEq, false_and, or_false, true_and, iff_true]
    omega
  · simp only [hblock, reduceCtorEq, false_and, false_or, true_and]
    omega

theorem calls_iff_of_not_isMiscounted (shaped : p.IsCallShaped format)
    (h : ¬ p.IsMiscounted format) :
    p.Calls format IsOnlyPair intrinsic ↔ p.Calls format IsWholeMap intrinsic := by
  apply or_congr_right
  apply and_congr_right
  intro hnames
  by_contra hdiffer
  exact h ((isMiscounted_iff shaped).mpr ⟨⟨intrinsic, hnames⟩, hdiffer⟩)

theorem not_isMiscounted_of_isPair_eq_false (h : p.isPair format = false) :
    ¬ p.IsMiscounted format := by
  rintro ⟨⟨other, hp, -⟩, -⟩
  rw [h] at hp
  cases hp

/-- No call is miscounted up to the first one if none is up to some call. -/
theorem not_isMiscounted_of_calls {inner outer : List Place} {q : Place}
    (hq : q.Calls format alone intrinsic) (counted : ∀ r ∈ inner ++ [q], ¬ r.IsMiscounted format) :
    ∀ inner' r outer', inner ++ q :: outer = inner' ++ r :: outer' →
      (∀ r ∈ inner', ∀ other, ¬ r.Calls format alone other) → ¬ r.IsMiscounted format := by
  intro inner' r outer' hsplit hnone
  apply counted
  rcases List.append_eq_append_iff.mp hsplit with ⟨between, rfl, hrest⟩ | ⟨between, rfl, hrest⟩
  · cases between with
    | nil =>
      obtain ⟨rfl, -⟩ := List.cons.inj hrest
      simp
    | cons first between =>
      obtain ⟨rfl, -⟩ := List.cons.inj hrest
      exact absurd hq (hnone q (by simp) intrinsic)
  · cases between with
    | nil =>
      obtain ⟨rfl, -⟩ := List.cons.inj hrest
      simp
    | cons first between =>
      obtain ⟨rfl, -⟩ := List.cons.inj hrest
      simp

end Syntax.Place

namespace SyntaxTree

open Syntax Syntax.Place

variable {tree : SyntaxTree} {p : Place} {intrinsic : Intrinsic}

def CallShaped (tree : SyntaxTree) : Prop :=
  ∀ p ∈ tree.places, p.IsCallShaped tree.format

theorem mem_places_of_mem_lineage {q : Place} (hp : p ∈ tree.places) (hq : q ∈ p.lineage) :
    q ∈ tree.places :=
  mem_preorder.mpr (below_of_mem_lineage (mem_preorder.mp hp) hq).1

/-- The intrinsic function of a node is that of the first call on the way up, where a pair is a
call if no pair stands beside it. This is the first call on the way up with pairs that are all of
their map, as long as none is miscounted before this call. -/
theorem intrinsic?_eq_some_iff_firstCalls (shaped : tree.CallShaped) (hp : p ∈ tree.places) :
    ((Context.mk tree p).intrinsic? = some intrinsic ↔
        FirstCalls tree.format IsOnlyPair p.lineage intrinsic) ∧
      ((∀ inner q outer, p.lineage = inner ++ q :: outer →
          (∀ r ∈ inner, ∀ other, ¬ r.Calls tree.format IsWholeMap other) →
          ¬ q.IsMiscounted tree.format) →
        ((Context.mk tree p).intrinsic? = some intrinsic ↔
          FirstCalls tree.format IsWholeMap p.lineage intrinsic)) ∧
      ∀ q ∈ p.lineage, q.IsMiscounted tree.format ↔
        (∃ other, q.KeyNames tree.format other) ∧
          ¬ (q.IsOnlyPair tree.format ↔ q.IsWholeMap tree.format) := by
  have hshaped : ∀ q ∈ p.lineage, q.IsCallShaped tree.format := by
    intro q hq
    exact shaped q (mem_places_of_mem_lineage hp hq)
  have hfirst : (Context.mk tree p).intrinsic? = some intrinsic ↔
      FirstCalls tree.format IsOnlyPair p.lineage intrinsic :=
    findSome?_callAt?_eq_some_iff hshaped
  refine ⟨hfirst, ?_, ?_⟩
  · intro counted
    rw [hfirst]
    apply firstCalls_iff_of_agree
    intro inner q outer hsplit hinner other
    have hq : q ∈ p.lineage := by simp [hsplit]
    exact calls_iff_of_not_isMiscounted (hshaped q hq) (counted inner q outer hsplit hinner)
  · intro q hq
    exact isMiscounted_iff (hshaped q hq)

def refPairsText : String := "[Ref: A, Ref: !Sub B]\n"

def refPairsRows : List Row :=
  [⟨0, "stream", true, false, false, false, false, none, 0, 22⟩,
    ⟨1, "document", true, false, false, false, false, none, 0, 21⟩,
    ⟨2, "flow_node", true, false, false, false, false, none, 0, 21⟩,
    ⟨3, "flow_sequence", true, false, false, false, false, none, 0, 21⟩,
    ⟨4, "[", false, false, false, false, false, none, 0, 1⟩,
    ⟨4, "flow_pair", true, false, false, false, false, none, 1, 7⟩,
    ⟨5, "flow_node", true, false, false, false, false, some .key, 1, 4⟩,
    ⟨6, "plain_scalar", true, false, false, false, false, none, 1, 4⟩,
    ⟨7, "string_scalar", true, false, false, false, false, none, 1, 4⟩,
    ⟨5, ":", false, false, false, false, false, none, 4, 5⟩,
    ⟨5, "flow_node", true, false, false, false, false, some .value, 6, 7⟩,
    ⟨6, "plain_scalar", true, false, false, false, false, none, 6, 7⟩,
    ⟨7, "string_scalar", true, false, false, false, false, none, 6, 7⟩,
    ⟨4, ",", false, false, false, false, false, none, 7, 8⟩,
    ⟨4, "flow_pair", true, false, false, false, false, none, 9, 20⟩,
    ⟨5, "flow_node", true, false, false, false, false, some .key, 9, 12⟩,
    ⟨6, "plain_scalar", true, false, false, false, false, none, 9, 12⟩,
    ⟨7, "string_scalar", true, false, false, false, false, none, 9, 12⟩,
    ⟨5, ":", false, false, false, false, false, none, 12, 13⟩,
    ⟨5, "flow_node", true, false, false, false, false, some .value, 14, 20⟩,
    ⟨6, "tag", true, false, false, false, false, none, 14, 18⟩,
    ⟨6, "plain_scalar", true, false, false, false, false, none, 19, 20⟩,
    ⟨7, "string_scalar", true, false, false, false, false, none, 19, 20⟩,
    ⟨4, "]", false, false, false, false, false, none, 20, 21⟩]

/-- A list with two calls, each a map of its own; the argument of the second is a call as well. -/
def refPairs : SyntaxTree :=
  ⟨.detect "file:///t.yaml" 1 refPairsText,
    (Node.ofRows? refPairsText.toList refPairsRows).getD default⟩

theorem callShaped_refPairs : refPairs.CallShaped := by
  have hone : ∀ p ∈ refPairs.places,
      (p.children.filter fun c => c.shape refPairs.format == .tag).length ≤ 1 := by
    decide
  have huntagged : ∀ p ∈ refPairs.places, p.isPair refPairs.format = true →
      ∀ c ∈ p.children, c.shape refPairs.format ≠ .tag := by
    decide
  have hmap : ∀ p ∈ refPairs.places, p.isPair refPairs.format = true →
      ∃ parent ∈ p.parent?, p ∈ parent.contentChildren ∧
        (parent.shape refPairs.format = .listed ∨ parent.shape refPairs.format = .block) := by
    decide
  exact fun p hp => ⟨hone p hp, huntagged p hp, hmap p hp⟩

theorem firstCalls_refPairs :
    FirstCalls refPairs.format IsWholeMap refPairs.places[12]!.lineage .ref := by
  refine ⟨refPairs.places[12]!.lineage.take 3, refPairs.places[5]!,
    refPairs.places[12]!.lineage.drop 4, by decide, .inr ⟨?_, ?_⟩, ?_⟩
  · exact ⟨by decide, by decide, by decide⟩
  · exact ⟨refPairs.places[3]!, by decide, .inl (by decide)⟩
  · intro r hr other
    apply not_calls
    · revert r
      decide
    · revert r
      decide

theorem counted_refPairs :
    ∀ inner q outer, refPairs.places[22]!.lineage = inner ++ q :: outer →
      (∀ r ∈ inner, ∀ other, ¬ r.Calls refPairs.format IsWholeMap other) →
      ¬ q.IsMiscounted refPairs.format := by
  have hsplit : refPairs.places[22]!.lineage = refPairs.places[22]!.lineage.take 2 ++
      refPairs.places[19]! :: refPairs.places[22]!.lineage.drop 3 := by
    decide
  have htag : refPairs.places[19]!.Calls refPairs.format IsWholeMap .sub :=
    .inl ⟨refPairs.places[20]!, by decide, by decide, by decide, by decide⟩
  rw [hsplit]
  -- the tag comes before the second pair on the way up
  apply not_isMiscounted_of_calls htag
  intro r hr
  apply not_isMiscounted_of_isPair_eq_false
  revert r
  decide

theorem intrinsic?_eq_some_iff_firstCalls_refPairs :
    refPairs.CallShaped ∧ refPairs.places[12]! ∈ refPairs.places ∧
      ¬ FirstCalls refPairs.format IsOnlyPair refPairs.places[12]!.lineage .ref ∧
      FirstCalls refPairs.format IsWholeMap refPairs.places[12]!.lineage .ref ∧
      refPairs.places[22]! ∈ refPairs.places ∧
      FirstCalls refPairs.format IsWholeMap refPairs.places[22]!.lineage .sub := by
  have hfirst : refPairs.places[12]! ∈ refPairs.places := by decide
  have hsecond : refPairs.places[22]! ∈ refPairs.places := by decide
  have hnone : (Context.mk refPairs refPairs.places[12]!).intrinsic? ≠ some .ref := by decide
  have hsub : (Context.mk refPairs refPairs.places[22]!).intrinsic? = some .sub := by decide
  refine ⟨callShaped_refPairs, hfirst, ?_, firstCalls_refPairs, hsecond, ?_⟩
  · rwa [← (intrinsic?_eq_some_iff_firstCalls callShaped_refPairs hfirst).1]
  · exact ((intrinsic?_eq_some_iff_firstCalls callShaped_refPairs hsecond).2.1
      counted_refPairs).mp hsub

theorem not_forall_intrinsic?_eq_some_iff :
    ¬ ∀ (tree : SyntaxTree) (p : Place) (intrinsic : Intrinsic), tree.CallShaped →
      (∀ q ∈ tree.places, q.node.isFault = false) → p ∈ tree.places →
      ((Context.mk tree p).intrinsic? = some intrinsic ↔
        FirstCalls tree.format IsWholeMap p.lineage intrinsic) := by
  intro h
  have hiff := h refPairs refPairs.places[12]! .ref callShaped_refPairs (by decide) (by decide)
  exact absurd (hiff.mpr firstCalls_refPairs) (by decide)

end SyntaxTree

end StackTemplate
