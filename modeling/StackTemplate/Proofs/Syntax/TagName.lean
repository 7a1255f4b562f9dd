import StackTemplate.Proofs.Yaml.TaggedData
import StackTemplate.Proofs.Yaml.TagSpelling
import StackTemplate.Syntax.Context
import StackTemplate.Syntax.Outline

/-!
Tags of intrinsic functions in the syntax tree and in the value: the tree takes a tag's name from
the characters it is written with, the value from the tag that they stand for.
-/

namespace StackTemplate

theorem Text.dropWhile_eq_iff {c : Char} {s rest : List Char} (h : rest.head? ≠ some c) :
    s.dropWhile (· = c) = rest ↔ ∃ k, s = List.replicate k c ++ rest := by
  constructor
  · rintro rfl
    refine ⟨(s.takeWhile (· = c)).length, ?_⟩
    have hall : s.takeWhile (· = c) = List.replicate (s.takeWhile (· = c)).length c := by
      apply List.eq_replicate_of_mem
      intro x hx
      have hc := List.mem_takeWhile_imp hx
      exact of_decide_eq_true hc
    rw [← hall, List.takeWhile_append_dropWhile]
  · rintro ⟨k, rfl⟩
    induction k with
    | zero =>
      cases rest with
      | nil => rfl
      | cons x rest =>
        have hx : x ≠ c := fun hx => h (congrArg some hx)
        simp [hx]
    | succ k ih => simpa [List.replicate_succ] using ih

namespace Context

open Syntax

variable {p : Place} {intrinsic : Intrinsic}

theorem callAt?_of_not_pair (h : p.isPair .yaml = false) :
    callAt? .yaml p = (p.tagName? .yaml).bind fun tag => Intrinsic.ofTag? ("!" ++ tag) := by
  simp [callAt?, h]

/-- The innermost call is the one at the node itself, if there is one. -/
theorem intrinsic?_of_callAt? {context : Context}
    (h : callAt? context.format context.place = some intrinsic) :
    context.intrinsic? = some intrinsic := by
  obtain ⟨tree, node, above⟩ := context
  cases above <;> rw [intrinsic?, Place.lineage, Place.upFrom, List.findSome?_cons, h]

end Context

namespace Syntax

open Yaml

/-- A node with a tag: how the tag is written in the tree, the reader before the node, what it
resolves the tag to, and the data that the value parser reads. -/
structure TaggedNode (p : Place) (raw : List Char) (r : Reader) (tag : Tag) (data : Data) :
    Prop where
  notPair : p.isPair .yaml = false
  node : ∃ child, p.children.find? (fun child => child.shape .yaml == .tag) = some child ∧
    child.node.info.text.toList = raw
  value : ∃ handle suffix, WrittenTag raw handle suffix ∧ r.resolveTag handle suffix = .ok tag ∧
    Data.ReadsTagged r handle suffix data

namespace TaggedNode

variable {p : Place} {raw : List Char} {r : Reader} {tag : Tag} {data : Data}
  {intrinsic : Intrinsic}

theorem callAt?_eq_some_iff (h : TaggedNode p raw r tag data) (hmem : intrinsic ∈ Intrinsic.all) :
    Context.callAt? .yaml p = some intrinsic ↔
      ∃ k, raw = List.replicate (k + 1) '!' ++ intrinsic.name.toList := by
  obtain ⟨child, hchild, hraw⟩ := h.node
  obtain ⟨_, _, hwritten, -⟩ := h.value
  obtain ⟨rest, hrest⟩ := hwritten.spelling.exists_cons
  have htag : p.tagName? .yaml = some (String.ofList (raw.dropWhile (· = '!'))) := by
    rw [Place.tagName?, hchild, Option.map_some, hraw]
  have hname : String.ofList (raw.dropWhile (· = '!')) = intrinsic.name ↔
      raw.dropWhile (· = '!') = intrinsic.name.toList := by
    rw [← String.toList_inj, String.toList_ofList]
  rw [Context.callAt?_of_not_pair h.notPair, htag, Option.bind_some,
    Intrinsic.ofTag?_eq_some_iff hmem, hname, Text.dropWhile_eq_iff (Intrinsic.head?_name hmem)]
  constructor
  · rintro ⟨k, hk⟩
    cases k with
    | zero =>
      have hhead : raw.head? ≠ some '!' := hk ▸ Intrinsic.head?_name hmem
      exact absurd (congrArg List.head? hrest) hhead
    | succ k => exact ⟨k, hk⟩
  · rintro ⟨k, hk⟩
    exact ⟨k + 1, hk⟩

theorem calls_iff (h : TaggedNode p raw r tag data) (hmem : intrinsic ∈ Intrinsic.all) :
    data.Calls intrinsic ↔ tag.text? = some ('!' :: intrinsic.name.toList) ∨
      tag.text? = some ('!' :: '!' :: intrinsic.name.toList) := by
  obtain ⟨handle, suffix, -, htag, hreads⟩ := h.value
  exact hreads.calls_iff htag hmem

/-- Where no handle is declared, a tag without escapes names an intrinsic function to the value in
three ways of writing. -/
theorem calls_iff_of_plain (h : TaggedNode p raw r tag data) (hmem : intrinsic ∈ Intrinsic.all)
    (hr : r.handles = Reader.standardHandles) (hplain : '%' ∉ raw) :
    data.Calls intrinsic ↔ raw = '!' :: intrinsic.name.toList ∨
      raw = '!' :: '<' :: '!' :: (intrinsic.name.toList ++ ['>']) ∨
      raw = '!' :: '<' :: '!' :: '!' :: (intrinsic.name.toList ++ ['>']) := by
  obtain ⟨handle, suffix, hwritten, htag, -⟩ := h.value
  rw [h.calls_iff hmem]
  exact hwritten.spelling.text?_eq_iff hr htag hplain (Intrinsic.name_ne_nil intrinsic hmem)
    (Intrinsic.isWordChar_of_mem_name intrinsic hmem)

/-- The tree and the value call the same function, unless the tag is written with more than one mark
before the name, or stands for the local tag in another way. -/
theorem callAt?_iff_calls (h : TaggedNode p raw r tag data) (hmem : intrinsic ∈ Intrinsic.all) :
    (Context.callAt? .yaml p = some intrinsic ↔
      ∃ k, raw = List.replicate (k + 1) '!' ++ intrinsic.name.toList) ∧
    (data.Calls intrinsic ↔ tag.text? = some ('!' :: intrinsic.name.toList) ∨
      tag.text? = some ('!' :: '!' :: intrinsic.name.toList)) ∧
    data.keyText = data.untagged.2.keyText ∧
    (r.handles = Reader.standardHandles →
      ((Context.callAt? .yaml p = some intrinsic ↔ data.Calls intrinsic) ↔
        (∀ k, raw ≠ List.replicate (k + 2) '!' ++ intrinsic.name.toList) ∧
          (data.Calls intrinsic → raw = '!' :: intrinsic.name.toList)) ∧
      ('%' ∉ raw → (data.Calls intrinsic ↔ raw = '!' :: intrinsic.name.toList ∨
        raw = '!' :: '<' :: '!' :: (intrinsic.name.toList ++ ['>']) ∨
        raw = '!' :: '<' :: '!' :: '!' :: (intrinsic.name.toList ++ ['>'])))) := by
  have htree := h.callAt?_eq_some_iff hmem
  refine ⟨htree, h.calls_iff hmem, data.keyText_eq_untagged, ?_⟩
  intro hr
  have hplain : ∀ {k : Nat}, '%' ∉ List.replicate k '!' ++ intrinsic.name.toList := by
    intro k hk
    rcases List.mem_append.mp hk with hk | hk
    · exact absurd (List.eq_of_mem_replicate hk) (by decide)
    · exact Intrinsic.not_mem_name hmem rfl hk
  have hone : raw = '!' :: intrinsic.name.toList → data.Calls intrinsic := by
    intro hraw
    have hcalls := h.calls_iff_of_plain hmem hr (hraw ▸ hplain (k := 1))
    exact hcalls.mpr (.inl hraw)
  have hmore : ∀ k, raw = List.replicate (k + 2) '!' ++ intrinsic.name.toList →
      ¬ data.Calls intrinsic := by
    intro k hraw hcalls
    rw [h.calls_iff_of_plain hmem hr (hraw ▸ hplain), hraw] at hcalls
    rcases hcalls with hcalls | hcalls | hcalls
    · exact Intrinsic.head?_name hmem (congrArg List.head? (List.cons.inj hcalls).2.symm)
    · cases (List.cons.inj (List.cons.inj hcalls).2).1
    · cases (List.cons.inj (List.cons.inj hcalls).2).1
  refine ⟨⟨?_, ?_⟩, h.calls_iff_of_plain hmem hr⟩
  · intro hsame
    refine ⟨fun k hraw => hmore k hraw (hsame.mp (htree.mpr ⟨k + 1, hraw⟩)), ?_⟩
    intro hcalls
    obtain ⟨k, hraw⟩ := htree.mp (hsame.mpr hcalls)
    cases k with
    | zero => exact hraw
    | succ k => exact absurd hcalls (hmore k hraw)
  · rintro ⟨hnot, hraw⟩
    constructor
    · intro hcall
      obtain ⟨k, hk⟩ := htree.mp hcall
      cases k with
      | zero => exact hone hk
      | succ k => exact absurd hk (hnot k)
    · intro hcalls
      exact htree.mpr ⟨0, hraw hcalls⟩

end TaggedNode

def coreTagText : String := "A: !!Ref B\n"

def coreTagRows : List Row :=
  [⟨0, "stream", true, false, false, false, false, none, 0, 11⟩,
    ⟨1, "document", true, false, false, false, false, none, 0, 11⟩,
    ⟨2, "block_node", true, false, false, false, false, none, 0, 11⟩,
    ⟨3, "block_mapping", true, false, false, false, false, none, 0, 11⟩,
    ⟨4, "block_mapping_pair", true, false, false, false, false, none, 0, 10⟩,
    ⟨5, "flow_node", true, false, false, false, false, some .key, 0, 1⟩,
    ⟨6, "plain_scalar", true, false, false, false, false, none, 0, 1⟩,
    ⟨7, "string_scalar", true, false, false, false, false, none, 0, 1⟩,
    ⟨5, ":", false, false, false, false, false, none, 1, 2⟩,
    ⟨5, "flow_node", true, false, false, false, false, some .value, 3, 10⟩,
    ⟨6, "tag", true, false, false, false, false, none, 3, 8⟩,
    ⟨6, "plain_scalar", true, false, false, false, false, none, 9, 10⟩,
    ⟨7, "string_scalar", true, false, false, false, false, none, 9, 10⟩]

def coreTag : SyntaxTree :=
  ⟨.detect "file:///t.yaml" 1 coreTagText,
    (Node.ofRows? coreTagText.toList coreTagRows).getD default⟩

def coreTagValue : Place :=
  ((coreTag.topLevelPairs[0]?).bind (·.field? .value)).getD default

def ref : Intrinsic := ⟨"Ref", "Ref"⟩

/-- A reader before the value. -/
def coreTagReader : Reader :=
  ⟨[⟨.tag ['!', '!'] ("Ref".toList.map some), ⟨3, 0, 3⟩, ⟨8, 0, 8⟩⟩,
    ⟨.scalar ['B'] .plain, ⟨9, 0, 9⟩, ⟨10, 0, 10⟩⟩], none, [], Reader.standardHandles⟩

theorem writtenTag_core : WrittenTag "!!Ref".toList ['!', '!'] ("Ref".toList.map some) where
  cut := ⟨.start "!!Ref B".toList, _, .start, ⟨5, 0, 5⟩, by decide, rfl, rfl, by decide⟩

theorem readsTagged_core :
    Data.ReadsTagged coreTagReader ['!', '!'] ("Ref".toList.map some) (.str "B") :=
  ⟨_, _, _, true, false, _, _, .ofText [], 0, 0, 0, .root, rfl, rfl, rfl,
    .scalar _ _ _ _ .start, rfl⟩

theorem taggedNode_core :
    TaggedNode coreTagValue "!!Ref".toList coreTagReader (.ofText "tag:yaml.org,2002:Ref")
      (.str "B") where
  notPair := by decide
  node := ⟨_, rfl, by decide⟩
  value := ⟨_, _, writtenTag_core, rfl, readsTagged_core⟩

theorem TaggedNode.callAt?_iff_calls_core :
    ref ∈ Intrinsic.all ∧
      TaggedNode coreTagValue "!!Ref".toList coreTagReader (.ofText "tag:yaml.org,2002:Ref")
        (.str "B") ∧
      (Context.mk coreTag coreTagValue).intrinsic? = some ref ∧ ¬ (Data.str "B").Calls ref := by
  have hmem : ref ∈ Intrinsic.all := by decide
  obtain ⟨htree, -, -, hstandard⟩ := taggedNode_core.callAt?_iff_calls hmem
  have hvalue := (hstandard rfl).2 (by decide)
  refine ⟨hmem, taggedNode_core, Context.intrinsic?_of_callAt? (htree.mpr ⟨1, by decide⟩), ?_⟩
  rw [hvalue]
  decide

/-- The tree reads the core tag `!!Ref` as a call, and the value does not. -/
theorem TaggedNode.not_forall_callAt?_iff_calls :
    ¬ ∀ p raw r tag data, TaggedNode p raw r tag data → ∀ intrinsic ∈ Intrinsic.all,
      (Context.callAt? .yaml p = some intrinsic ↔ data.Calls intrinsic) := by
  intro h
  have hsame := h _ _ _ _ _ taggedNode_core ref (by decide)
  have hnot : ¬ (Data.str "B").Calls ref := nofun
  exact hnot (hsame.mp (by decide))

end Syntax

end StackTemplate
