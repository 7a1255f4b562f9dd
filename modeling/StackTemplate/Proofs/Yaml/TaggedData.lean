import StackTemplate.Proofs.Yaml.Cursor
import StackTemplate.Yaml.Data.Read
import StackTemplate.Yaml.Data.Value

/-!
From a tag to a value: what a reader makes of a node with a tag, and when the value calls an
intrinsic function.
-/

namespace StackTemplate

namespace Intrinsic

theorem name_ne_nil : ∀ intrinsic ∈ all, intrinsic.name.toList ≠ [] := by decide

theorem isWordChar_of_mem_name (intrinsic : Intrinsic) (h : intrinsic ∈ all) :
    ∀ c ∈ intrinsic.name.toList, Yaml.isWordChar c = true := by
  have hall : (all.all fun intrinsic => intrinsic.name.toList.all Yaml.isWordChar) = true := rfl
  exact List.all_eq_true.mp (List.all_eq_true.mp hall intrinsic h)

theorem not_mem_name {intrinsic : Intrinsic} {c : Char} (h : intrinsic ∈ all)
    (hc : Yaml.isWordChar c = false) : c ∉ intrinsic.name.toList := by
  intro hmem
  rw [isWordChar_of_mem_name intrinsic h c hmem] at hc
  cases hc

theorem head?_name {intrinsic : Intrinsic} (h : intrinsic ∈ all) :
    intrinsic.name.toList.head? ≠ some '!' := fun hhead =>
  not_mem_name h rfl (List.mem_of_head? hhead)

theorem ofTag?_name : ∀ intrinsic ∈ all, ofTag? ("!" ++ intrinsic.name) = some intrinsic := by
  decide

theorem isTag_name : ∀ intrinsic ∈ all, isTag intrinsic.name = true := by decide

theorem ofTag?_eq_some_iff {name : String} {intrinsic : Intrinsic} (h : intrinsic ∈ all) :
    ofTag? ("!" ++ name) = some intrinsic ↔ name = intrinsic.name := by
  constructor
  · intro hfind
    have hname : intrinsic.name = name := by simpa [bareTag] using List.find?_some hfind
    exact hname.symm
  · rintro rfl
    exact ofTag?_name intrinsic h

end Intrinsic

namespace Yaml

/-! Reading -/

namespace Event.Kind

def tag? : Event.Kind → Option Tag
  | scalar _ tag _ _ => tag
  | sequenceStart _ tag => tag
  | mappingStart _ tag => tag
  | _ => none

/-- The node that starts with an event. -/
inductive Opens : Event.Kind → Node → Prop
  | scalar (anchor tag text style mark) :
      Opens (.scalar anchor tag text style) (.scalar mark tag style text)
  | sequence (anchor tag mark items) : Opens (.sequenceStart anchor tag) (.sequence mark tag items)
  | mapping (anchor tag mark pairs) : Opens (.mappingStart anchor tag) (.mapping mark tag pairs)

end Event.Kind

namespace Reader

variable {r after : Reader} {props : Properties}

theorem handles_of_properties (h : r.properties = .ok (props, after)) :
    after.handles = r.handles := by
  obtain ⟨first, -, h⟩ := Except.of_bind_eq_ok h
  split at h
  · obtain ⟨second, -, h⟩ := Except.of_bind_eq_ok h
    split at h <;> cases h <;> rfl
  · obtain ⟨second, -, h⟩ := Except.of_bind_eq_ok h
    split at h <;> cases h <;> rfl
  · cases h
    rfl

theorem tag?_of_node {handle : List Char} {suffix : TagChars} {block indentless : Bool}
    {event : Event} {next : Reader} (hprops : r.properties = .ok (props, after))
    (htag : props.tag = some (handle, suffix)) (h : r.node block indentless = .ok (event, next)) :
    ∃ tag, r.resolveTag handle suffix = .ok tag ∧
      (event.kind.tag? = some tag ∨ event.kind.tag? = none ∧ tag = .nonSpecific) := by
  obtain ⟨first, hfirst, h⟩ := Except.of_bind_eq_ok h
  split at h
  · rename_i hkind
    rw [Reader.properties, hfirst] at hprops
    obtain ⟨_, hfound, hprops⟩ := Except.of_bind_eq_ok hprops
    cases hfound
    rw [hkind] at hprops
    cases hprops
    cases htag
  · obtain ⟨⟨_, _⟩, hfound, h⟩ := Except.of_bind_eq_ok h
    cases hprops.symm.trans hfound
    obtain ⟨token, -, h⟩ := Except.of_bind_eq_ok h
    obtain ⟨_, hmap, h⟩ := Except.of_bind_eq_ok h
    rw [htag] at hmap
    obtain ⟨tag, hresolve, hsome⟩ := Except.of_bind_eq_ok hmap
    cases hsome
    have hhandles : after.resolveTag handle suffix = r.resolveTag handle suffix := by
      rw [resolveTag, resolveTag, handles_of_properties hprops]
    refine ⟨tag, hhandles.symm.trans hresolve, ?_⟩
    simp only [Option.isSome_some, Bool.or_true, ↓reduceIte, Option.some.injEq] at h
    split at h
    -- A scalar drops the non-specific tag, every other node keeps the tag as it is resolved.
    case h_2 =>
      cases h
      by_cases hspecific : tag = .nonSpecific
      · exact .inr ⟨if_pos hspecific, hspecific⟩
      · exact .inl (if_neg hspecific)
    all_goals
      first
        | cases h
        | (split at h <;> cases h)
      all_goals exact .inl rfl

end Reader

namespace Data

theorem untagged_ofPlain {trail : Trail} {mark : Mark} {text : List Char} {data : Data}
    (h : ofPlain trail mark text = .ok data) : data.untagged = (none, data) := by
  rw [ofPlain] at h
  split at h <;> cases h <;> rfl

theorem untagged_ofForced? {tag : Tag} {text : List Char} {data : Data} {expected : String}
    (h : ofForced? tag text = some (some data, expected)) : data.untagged = (none, data) := by
  rw [ofForced?] at h
  split at h
  · obtain ⟨hbool, -⟩ := Prod.mk.inj (Option.some.inj h)
    obtain ⟨b, -, rfl⟩ := Option.map_eq_some_iff.mp hbool
    rfl
  split at h
  · obtain ⟨hint, -⟩ := Prod.mk.inj (Option.some.inj h)
    split at hint <;> cases hint
    rfl
  split at h
  · obtain ⟨hfloat, -⟩ := Prod.mk.inj (Option.some.inj h)
    obtain ⟨x, -, rfl⟩ := Option.map_eq_some_iff.mp hfloat
    rfl
  split at h
  · obtain ⟨hnull, -⟩ := Prod.mk.inj (Option.some.inj h)
    split at hnull <;> cases hnull
    rfl
  · cases h

theorem untagged_ofScalar {trail : Trail} {mark : Mark} {tag : Option Tag} {named : Bool}
    {style : ScalarStyle} {text : List Char} {data : Data}
    (h : ofScalar trail mark tag named style text = .ok data) : data.untagged = (none, data) := by
  have htext : ∀ {plain : Prop} [Decidable plain],
      (if plain then ofPlain trail mark text else .ok (.str (String.ofList text))) = .ok data →
        data.untagged = (none, data) := by
    intro plain _ h
    split at h
    · exact untagged_ofPlain h
    · cases h
      rfl
  rw [ofScalar] at h
  split at h
  · exact htext h
  · split at h
    · rename_i hforced
      cases h
      exact untagged_ofForced? hforced
    · cases h
    · exact htext h

/-- What is read under a tag is named by the tag, or it stands without a name. -/
theorem exists_wrap_of_run_read {d : LoadedDocument} {depth n m : Nat} {trail : Trail} {node : Node}
    {kind : Event.Kind} {data : Data} (opens : kind.Opens node)
    (h : (read d depth trail node).run n = .ok (data, m)) :
    ∃ content, data = wrap kind.tag? content ∧ content.untagged = (none, content) := by
  obtain ⟨inside, hread⟩ : ∃ inside, read d depth trail node = readNode d inside trail node := by
    cases depth with
    | zero => exact ⟨_, rfl⟩
    | succ depth => exact ⟨_, rfl⟩
  rw [hread] at h
  cases opens with
  | scalar anchor tag text style mark =>
    obtain ⟨⟨content, _⟩, hcontent, h⟩ := Except.of_bind_eq_ok h
    cases h
    obtain ⟨found, hfound, hcontent⟩ := Except.of_bind_eq_ok hcontent
    cases hcontent
    exact ⟨content, rfl, untagged_ofScalar hfound⟩
  | sequence anchor tag mark items =>
    cases inside with
    | none => cases h
    | some inside =>
      obtain ⟨⟨items, _⟩, -, h⟩ := Except.of_bind_eq_ok h
      cases h
      exact ⟨.sequence items, rfl, rfl⟩
  | mapping anchor tag mark pairs =>
    cases inside with
    | none => cases h
    | some inside =>
      obtain ⟨⟨pairs, _⟩, -, h⟩ := Except.of_bind_eq_ok h
      cases h
      exact ⟨.mapping pairs, rfl, rfl⟩

/-! Values -/

theorem unmarked_eq_iff {name text : List Char} (hname : name ≠ [])
    (hmark : name.head? ≠ some '!') : unmarked text = name ↔ text = name ∨ text = '!' :: name := by
  obtain ⟨c, rest, rfl⟩ := List.exists_cons_of_ne_nil hname
  rw [unmarked.eq_def]
  split
  · rename_i first more
    refine ⟨fun h => .inr (congrArg _ h), ?_⟩
    rintro (h | h)
    · cases h
      exact absurd rfl hmark
    · exact (List.cons.inj h).2
  · rename_i hnot
    refine ⟨.inl, ?_⟩
    rintro (h | h)
    · exact h
    · exact absurd h (hnot c rest)

theorem ne_object_self (value : Value) (key : String) : value ≠ .object [(key, value)] := by
  intro h
  have hsize := congrArg sizeOf h
  simp at hsize
  omega

/-- The value of tagged data is an object with one key, that of an intrinsic function, which holds
the value behind the tag. -/
def Calls (data : Data) (intrinsic : Intrinsic) : Prop :=
  data.toValue = .object [("!" ++ intrinsic.name, data.untagged.2.toValue)]

theorem taggedValue_eq_iff {intrinsic : Intrinsic} (hmem : intrinsic ∈ Intrinsic.all)
    {name : List Char} {value : Value} :
    taggedValue name value = .object [("!" ++ intrinsic.name, value)] ↔
      unmarked name = intrinsic.name.toList := by
  have hofList : String.ofList (unmarked name) = intrinsic.name ↔
      unmarked name = intrinsic.name.toList := by
    constructor
    · intro h
      rw [← h, String.toList_ofList]
    · intro h
      rw [h, String.ofList_toList]
  rw [← hofList]
  simp only [taggedValue]
  split
  · simp
  · rename_i hnot
    refine iff_of_false (ne_object_self value _) ?_
    intro h
    rw [h] at hnot
    exact hnot (Intrinsic.isTag_name intrinsic hmem)

theorem localName?_eq_some_iff {tag : Tag} {name : List Char} (hname : name ≠ [])
    (hmark : name ≠ ['!']) : tag.localName? = some name ↔ tag.text? = some ('!' :: name) := by
  rw [Tag.localName?]
  split
  · rename_i h
    simp [h, hname, hmark.symm]
  · rename_i rest _ h
    simp [h]
  · rename_i hnot
    refine iff_of_false nofun ?_
    intro h
    exact hnot _ h

theorem calls_wrap_iff {intrinsic : Intrinsic} (hmem : intrinsic ∈ Intrinsic.all) {tag : Option Tag}
    {content : Data} (hcontent : content.untagged = (none, content)) :
    (wrap tag content).Calls intrinsic ↔
      tag.bind Tag.text? = some ('!' :: intrinsic.name.toList) ∨
        tag.bind Tag.text? = some ('!' :: '!' :: intrinsic.name.toList) := by
  have hname := Intrinsic.name_ne_nil intrinsic hmem
  have hmark := Intrinsic.head?_name hmem
  have hlocal : ∀ {name : List Char}, name ≠ [] → name ≠ ['!'] →
      (tag.bind Tag.localName? = some name ↔ tag.bind Tag.text? = some ('!' :: name)) := by
    intro name hne hmark
    cases tag with
    | none => simp
    | some tag => exact localName?_eq_some_iff hne hmark
  have hsingle : intrinsic.name.toList ≠ ['!'] := fun h => hmark (by rw [h]; rfl)
  rw [← hlocal hname hsingle, ← hlocal (List.cons_ne_nil _ _) (by simpa using hname)]
  cases hbind : tag.bind Tag.localName? with
  | none =>
    have hwrap : wrap tag content = content := by rw [wrap, hbind]
    rw [hwrap, Calls, hcontent]
    exact iff_of_false (ne_object_self _ _) (by simp)
  | some name =>
    have hwrap : wrap tag content = .tagged name content := by rw [wrap, hbind]
    rw [hwrap, Option.some.injEq, Option.some.injEq, ← unmarked_eq_iff hname hmark]
    exact taggedValue_eq_iff hmem

/-- A node with a tag starts at a reader, and this data is read from it. -/
def ReadsTagged (r : Reader) (handle : List Char) (suffix : TagChars) (data : Data) : Prop :=
  ∃ (props : Reader.Properties) (after next : Reader) (block indentless : Bool) (event : Event)
    (node : Node) (d : LoadedDocument) (depth n m : Nat) (trail : Trail),
    r.properties = .ok (props, after) ∧ props.tag = some (handle, suffix) ∧
    r.node block indentless = .ok (event, next) ∧ event.kind.Opens node ∧
    (read d depth trail node).run n = .ok (data, m)

theorem ReadsTagged.calls_iff {r : Reader} {handle : List Char} {suffix : TagChars} {data : Data}
    (h : ReadsTagged r handle suffix data) {tag : Tag} (htag : r.resolveTag handle suffix = .ok tag)
    {intrinsic : Intrinsic} (hmem : intrinsic ∈ Intrinsic.all) :
    data.Calls intrinsic ↔ tag.text? = some ('!' :: intrinsic.name.toList) ∨
      tag.text? = some ('!' :: '!' :: intrinsic.name.toList) := by
  obtain ⟨props, after, next, block, indentless, event, node, d, depth, n, m, trail, hprops,
    hhandle, hnode, hopens, hread⟩ := h
  obtain ⟨found, hfound, hkind⟩ := Reader.tag?_of_node hprops hhandle hnode
  cases htag.symm.trans hfound
  obtain ⟨content, rfl, huntagged⟩ := exists_wrap_of_run_read hopens hread
  rw [calls_wrap_iff hmem huntagged]
  rcases hkind with hkind | ⟨hkind, rfl⟩
  · rw [hkind, Option.bind_some]
  · have hmark : Tag.nonSpecific.text? = some ['!'] := rfl
    simp [hkind, hmark, Intrinsic.name_ne_nil intrinsic hmem]

theorem keyText_eq_untagged (data : Data) : data.keyText = data.untagged.2.keyText := by
  cases data <;> rfl

end Data

end Yaml

end StackTemplate
