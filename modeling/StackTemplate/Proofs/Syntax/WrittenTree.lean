import Mathlib.Data.List.Forall2
import StackTemplate.Proofs.Json.Occurrences
import StackTemplate.Proofs.Syntax.TopLevelSections

/-!
Trees of JSON that is written: what a node stands for, and the first entry of a key among the pairs
of an object.
-/

namespace StackTemplate

section

variable {α β : Type} {r : α → β → Prop} {xs : List α} {ys : List β}

theorem rel_find? (h : List.Forall₂ r xs ys) {p : α → Bool} {q : β → Bool}
    (hpq : ∀ {x y}, r x y → p x = q y) : Option.Rel r (xs.find? p) (ys.find? q) := by
  induction h with
  | nil => exact .none
  | @cons x y xs ys hxy _ ih =>
    rw [List.find?_cons, List.find?_cons, hpq hxy]
    cases q y with
    | true => exact .some hxy
    | false => exact ih

theorem rel_map {γ δ : Type} {t : γ → δ → Prop} {a : Option α} {b : Option β} (h : Option.Rel r a b)
    {f : α → γ} {g : β → δ} (hfg : ∀ {x y}, r x y → t (f x) (g y)) :
    Option.Rel t (a.map f) (b.map g) := by
  cases h with
  | none => exact .none
  | some h => exact .some (hfg h)

theorem rel_bind {γ δ : Type} {t : γ → δ → Prop} {a : Option α} {b : Option β}
    (h : Option.Rel r a b) {f : α → Option γ} {g : β → Option δ}
    (hfg : ∀ {x y}, r x y → Option.Rel t (f x) (g y)) : Option.Rel t (a.bind f) (b.bind g) := by
  cases h with
  | none => exact .none
  | some h => exact hfg h

theorem rel_getElem? (h : List.Forall₂ r xs ys) (i : Nat) : Option.Rel r xs[i]? ys[i]? := by
  induction h generalizing i with
  | nil => exact .none
  | cons hxy _ ih =>
    cases i with
    | zero => exact .some hxy
    | succ i => exact ih i

end

namespace Json

open Syntax

/-- The pair has the key of a label. -/
def Label.StandsAt (label : Label) (pair : Place) : Prop :=
  ∃ key, pair.field? .key = some key ∧ key.shape .json = .scalar .double ∧
    key.node.info.text.toList = '"' :: label.key

mutual

/-- The node at a place is made of what is written: its text, and the children of containers in
order. -/
def Written.StandsAt : Written → Place → Prop
  | .scalar scalar, p => p.node.info.text.toList = scalar.text ∧ p.isScalar .json = true
  | .array elements, p =>
    p.node.info.text.toList = '[' :: elements.text ∧ p.shape .json = .listed ∧
      elements.StandAt (p.items .json)
  | .object entries, p =>
    p.node.info.text.toList = '\x7b' :: entries.text ∧ p.shape .json = .block ∧
      entries.StandAt (p.pairs .json)

def Elements.StandAt : Elements → List Place → Prop
  | .close _, places => places = []
  | .last _ item _, places => ∃ p, places = [p] ∧ item.StandsAt p
  | .more _ item _ rest, places =>
    ∃ p others, places = p :: others ∧ item.StandsAt p ∧ rest.StandAt others

def Entries.StandAt : Entries → List Place → Prop
  | .close _, pairs => pairs = []
  | .last label item _, pairs =>
    ∃ pair p, pairs = [pair] ∧ label.StandsAt pair ∧ pair.field? .value = some p ∧ item.StandsAt p
  | .more label item _ rest, pairs =>
    ∃ pair p others, pairs = pair :: others ∧ label.StandsAt pair ∧ pair.field? .value = some p ∧
      item.StandsAt p ∧ rest.StandAt others

end

/-- A pair with the key of an entry, whose value node is made of what the entry holds. -/
def EntryStandsAt (entry : String × Written) (pair : Place) : Prop :=
  pair.keyText? .json = some entry.1 ∧
    ∃ p, pair.field? .value = some p ∧ entry.2.StandsAt p

theorem Label.StandsAt.keyText? {label : Label} {pair : Place} (h : label.StandsAt pair) :
    pair.keyText? .json = some label.name := by
  obtain ⟨key, hkey, hshape, htext⟩ := h
  have hread : string? ('"' :: label.key) = some label.name := by
    rw [string?, skipSpace_cons (by decide)]
    simp only [label.reads, skipSpace, List.dropWhile_nil, List.isEmpty_nil, if_true]
  simp only [Place.keyText?, hkey, Option.bind_some, Place.scalarText?, hshape, htext, jsonText,
    hread, Option.getD_some]

theorem Elements.StandAt.forall₂ : ∀ {elements : Elements} {places : List Place},
    elements.StandAt places → List.Forall₂ Written.StandsAt elements.items places
  | .close _, _, rfl => .nil
  | .last .., _, ⟨_, rfl, hp⟩ => .cons hp .nil
  | .more .., _, ⟨_, _, rfl, hp, hrest⟩ => .cons hp (Elements.StandAt.forall₂ hrest)

theorem Entries.StandAt.forall₂ : ∀ {entries : Entries} {pairs : List Place},
    entries.StandAt pairs → List.Forall₂ EntryStandsAt entries.items pairs
  | .close _, _, rfl => .nil
  | .last .., _, ⟨_, _, rfl, hlabel, hvalue, hp⟩ =>
    .cons ⟨Label.StandsAt.keyText? hlabel, _, hvalue, hp⟩ .nil
  | .more .., _, ⟨_, _, _, rfl, hlabel, hvalue, hp, hrest⟩ =>
    .cons ⟨Label.StandsAt.keyText? hlabel, _, hvalue, hp⟩ (Entries.StandAt.forall₂ hrest)

variable {w : Written} {p : Place}

theorem Written.StandsAt.scalar_shape {scalar : Scalar} (h : (Written.scalar scalar).StandsAt p) :
    ∃ quoting, p.shape .json = .scalar quoting := by
  have hscalar := h.2
  cases hs : p.shape .json with
  | scalar quoting => exact ⟨quoting, rfl⟩
  | _ => simp [Place.isScalar, Shape.isScalar, hs] at hscalar

theorem Written.StandsAt.shape_cases (h : w.StandsAt p) :
    (∃ quoting, p.shape .json = .scalar quoting) ∨ p.shape .json = .listed ∨
      p.shape .json = .block := by
  cases w with
  | scalar scalar => exact .inl h.scalar_shape
  | array elements => exact .inr (.inl h.2.1)
  | object entries => exact .inr (.inr h.2.1)

theorem Written.StandsAt.isWrapper (h : w.StandsAt p) : p.isWrapper .json = false := by
  rcases h.shape_cases with ⟨quoting, hs⟩ | hs | hs <;> simp [Place.isWrapper, hs]

theorem Written.StandsAt.unwrap (h : w.StandsAt p) : p.unwrap .json = p := by
  rcases (Place.unwraps_unwrap .json p).eq_or_isWrapper with he | hw
  · exact he.symm
  · rw [h.isWrapper] at hw
    cases hw

theorem Written.StandsAt.itemValue? (h : w.StandsAt p) : p.itemValue? .json = some p := by
  rcases h.shape_cases with ⟨quoting, hs⟩ | hs | hs <;> simp [Place.itemValue?, hs]

theorem Entries.StandAt.rel_findPair? {entries : Entries} (h : entries.StandAt (p.pairs .json))
    (key : String) : Option.Rel EntryStandsAt (entries.items.find? (·.1 = key))
      (p.findPair? .json key) := by
  apply rel_find? h.forall₂
  intro entry pair hentry
  simp [hentry.1]

theorem Entries.StandAt.exists_findPair? {entries : Entries} {key : String} {first : Written}
    (h : entries.StandAt (p.pairs .json))
    (hfirst : Occurrence.first.pick? key entries.items = some first) :
    ∃ pair node, p.findPair? .json key = some pair ∧ pair.field? .value = some node ∧
      first.StandsAt node := by
  obtain ⟨entry, hentry, rfl⟩ := Option.map_eq_some_iff.mp hfirst
  have hfind := h.rel_findPair? key
  rw [hentry] at hfind
  cases hpair : p.findPair? .json key with
  | none =>
    rw [hpair] at hfind
    cases hfind
  | some pair =>
    rw [hpair] at hfind
    cases hfind with
    | some h =>
      obtain ⟨-, node, hnode, hstands⟩ := h
      exact ⟨pair, node, rfl, hnode, hstands⟩

end Json

namespace SyntaxTree

open Syntax Json

variable {tree : SyntaxTree} {w : Written} {p : Place}

/-- The place a path leads to, if the whole path does. -/
def Lookup.place? (found : Lookup) : Option Place :=
  if found.resolved then some found.place else none

theorem step?_key (hformat : tree.format = .json) (h : w.StandsAt p) (name : String) :
    tree.step? p (.key name) =
      if p.shape .json = .block then
        (p.findPair? .json name).map fun pair => (pair.field? .value).getD pair
      else none := by
  simp [SyntaxTree.step?, hformat, h.unwrap, Place.isBlock]

theorem step?_index (hformat : tree.format = .json) (h : w.StandsAt p) (i : Nat) :
    tree.step? p (.index i) =
      if p.shape .json = .itemized ∨ p.shape .json = .listed then
        (p.items .json)[i]?.map fun item => (item.itemValue? .json).getD item
      else none := by
  simp [SyntaxTree.step?, hformat, h.unwrap, Place.isSequence_iff]

/-- A step in the tree leads to the first occurrence of a key. -/
theorem rel_step? (hformat : tree.format = .json) (h : w.StandsAt p) (step : PathStep) :
    Option.Rel Written.StandsAt (w.step? .first step) (tree.step? p step) := by
  cases step with
  | key name =>
    rw [step?_key hformat h]
    cases w with
    | scalar scalar =>
      obtain ⟨quoting, hshape⟩ := h.scalar_shape
      rw [hshape, if_neg nofun]
      exact .none
    | array elements =>
      rw [h.2.1, if_neg nofun]
      exact .none
    | object entries =>
      rw [if_pos h.2.1]
      apply rel_map (h.2.2.rel_findPair? name)
      rintro entry pair ⟨-, node, hnode, hstands⟩
      rw [hnode]
      exact hstands
  | index i =>
    rw [step?_index hformat h]
    cases w with
    | scalar scalar =>
      obtain ⟨quoting, hshape⟩ := h.scalar_shape
      rw [hshape, if_neg nofun]
      exact .none
    | array elements =>
      rw [if_pos (.inr h.2.1)]
      have hitem := rel_map (rel_getElem? h.2.2.forall₂ i) (t := Written.StandsAt) (f := id)
        (g := fun item => (item.itemValue? .json).getD item)
      rw [Option.map_id_fun, id] at hitem
      apply hitem
      intro inner item hinner
      rw [hinner.itemValue?]
      exact hinner
    | object entries =>
      rw [h.2.1, if_neg nofun]
      exact .none

theorem rel_lookupFrom (hformat : tree.format = .json) (h : w.StandsAt p) (path : PropertyPath) :
    Option.Rel Written.StandsAt (w.follow? .first path) (tree.lookupFrom p path).place? := by
  induction path generalizing w p with
  | nil => exact .some h
  | cons step rest ih =>
    have hstep := rel_step? hformat h step
    rw [Written.follow?, lookupFrom]
    revert hstep
    generalize w.step? .first step = inner
    generalize tree.step? p step = next
    intro hstep
    cases hstep with
    | none => exact .none
    | some hnext => exact ih hnext

theorem rel_sectionPair? (hformat : tree.format = .json) (hroot : tree.rootValue? = some p)
    (h : w.StandsAt p) (s : Section) :
    Option.Rel Written.StandsAt (w.step? .first (.key s.key))
      ((tree.sectionPair? s).bind (·.field? .value)) := by
  have hpair : tree.sectionPair? s =
      if p.shape .json = .block then p.findPair? .json s.key else none := by
    simp only [sectionPair?, topLevelPairs, hroot, hformat, Place.isBlock, beq_iff_eq]
    split
    · rfl
    · rfl
  rw [hpair]
  cases w with
  | scalar scalar =>
    obtain ⟨quoting, hshape⟩ := h.scalar_shape
    rw [hshape, if_neg (by simp)]
    exact .none
  | array elements =>
    rw [h.2.1, if_neg (by simp)]
    exact .none
  | object entries =>
    rw [if_pos h.2.1, Written.step?, Occurrence.pick?, Option.map_eq_bind]
    apply rel_bind (h.2.2.rel_findPair? s.key)
    rintro entry pair ⟨-, node, hnode, hstands⟩
    rw [hnode]
    exact .some hstands

end SyntaxTree

end StackTemplate
