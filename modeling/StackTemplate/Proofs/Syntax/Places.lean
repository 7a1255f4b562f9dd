import Mathlib.Data.List.Nodup
import Mathlib.Logic.Relation
import StackTemplate.Syntax.Container

/-!
The order of places: children and their parent, the way down that a test picks, and preorder.
-/

namespace StackTemplate.Syntax.Place

/-! Children -/

theorem mem_childrenFrom {p q : Place} {i : Nat} {nodes : List Node} :
    q ∈ p.childrenFrom i nodes ↔
      ∃ k child, nodes[k]? = some child ∧ q = ⟨child, (p.node, i + k) :: p.above⟩ := by
  induction nodes generalizing i with
  | nil => simp [childrenFrom]
  | cons node rest ih =>
    simp only [childrenFrom, List.mem_cons, ih]
    constructor
    · rintro (rfl | ⟨k, child, hk, rfl⟩)
      · exact ⟨0, node, rfl, rfl⟩
      · exact ⟨k + 1, child, hk, by rw [Nat.add_right_comm, Nat.add_assoc]⟩
    · rintro ⟨k, child, hk, rfl⟩
      cases k with
      | zero =>
        obtain rfl : node = child := by simpa using hk
        exact Or.inl rfl
      | succ k => exact Or.inr ⟨k, child, hk, by rw [Nat.add_right_comm, Nat.add_assoc]⟩

theorem mem_children {p q : Place} :
    q ∈ p.children ↔ ∃ k child, p.node.children[k]? = some child ∧
      q = ⟨child, (p.node, k) :: p.above⟩ := by
  simp [children, mem_childrenFrom]

theorem nodup_childrenFrom (p : Place) (i : Nat) (nodes : List Node) :
    (p.childrenFrom i nodes).Nodup := by
  induction nodes generalizing i with
  | nil => exact List.nodup_nil
  | cons node rest ih =>
    refine List.nodup_cons.mpr ⟨?_, ih (i + 1)⟩
    intro h
    obtain ⟨k, child, -, he⟩ := mem_childrenFrom.mp h
    have hi : i = i + 1 + k := by simpa using congrArg (fun q => q.above.head?.map (·.2)) he
    omega

theorem nodup_children (p : Place) : p.children.Nodup :=
  nodup_childrenFrom p 0 p.node.children

theorem parent?_of_mem_children {p q : Place} (h : q ∈ p.children) : q.parent? = some p := by
  obtain ⟨k, child, -, rfl⟩ := mem_children.mp h
  rfl

theorem eq_of_isAt {p q r : Place} (hq : q ∈ p.children) (hr : r ∈ p.children)
    (h : q.isAt r = true) : q = r := by
  obtain ⟨k, a, ha, rfl⟩ := mem_children.mp hq
  obtain ⟨j, b, hb, rfl⟩ := mem_children.mp hr
  have hkj : k = j := by
    simp only [isAt, address, List.map_cons, beq_iff_eq, List.cons.injEq] at h
    exact h.1
  subst hkj
  obtain rfl : a = b := Option.some.inj (ha.symm.trans hb)
  rfl

theorem isAt_self (p : Place) : p.isAt p = true := by
  simp [isAt]

theorem mem_children_of_mem_contentChildren {p q : Place} (h : q ∈ p.contentChildren) :
    q ∈ p.children :=
  (List.mem_filter.mp h).1

theorem mem_children_of_field? {p q : Place} {side : Side} (h : p.field? side = some q) :
    q ∈ p.children :=
  List.mem_of_find?_eq_some h

/-! The way up -/

theorem lineage_of_mem_children {p q : Place} (h : q ∈ p.children) :
    q.lineage = q :: p.lineage := by
  obtain ⟨k, child, -, rfl⟩ := mem_children.mp h
  rfl

theorem lineage_root (node : Node) : (root node).lineage = [root node] := rfl

theorem ancestors_of_mem_children {p q : Place} (h : q ∈ p.children) :
    q.ancestors = p.ancestors ++ [q] := by
  simp [ancestors, lineage_of_mem_children h]

theorem above_of_mem_children {p q : Place} (h : q ∈ p.children) :
    ∃ k, q.above = (p.node, k) :: p.above := by
  obtain ⟨k, child, -, rfl⟩ := mem_children.mp h
  exact ⟨k, rfl⟩

/-! Places below a place, itself included -/

def Below : Place → Place → Prop :=
  Relation.ReflTransGen fun p q => q ∈ p.children

theorem address_of_mem_children {p q : Place} (h : q ∈ p.children) :
    ∃ k child, p.node.children[k]? = some child ∧ q.address = k :: p.address ∧
      q = ⟨child, (p.node, k) :: p.above⟩ := by
  obtain ⟨k, child, hk, rfl⟩ := mem_children.mp h
  exact ⟨k, child, hk, rfl, rfl⟩

theorem length_address_le {top p : Place} (h : Below top p) :
    top.address.length ≤ p.address.length := by
  induction h with
  | refl => exact Nat.le_refl _
  | tail _ hc ih =>
    obtain ⟨k, child, -, ha, -⟩ := address_of_mem_children hc
    rw [ha, List.length_cons]
    omega

/-- Within a tree the address tells places apart. -/
theorem eq_of_isAt_of_below {top p q : Place} (hp : Below top p) (hq : Below top q)
    (h : p.isAt q = true) : p = q := by
  replace h : p.address = q.address := by simpa [isAt] using h
  induction hp generalizing q with
  | refl =>
    rcases Relation.ReflTransGen.cases_tail hq with rfl | ⟨r, hr, hc⟩
    · rfl
    · obtain ⟨k, child, -, ha, -⟩ := address_of_mem_children hc
      have hle := length_address_le hr
      rw [h, ha, List.length_cons] at hle
      omega
  | @tail r p hr hc ih =>
    obtain ⟨k, child, hk, ha, rfl⟩ := address_of_mem_children hc
    rcases Relation.ReflTransGen.cases_tail hq with rfl | ⟨t, ht, hd⟩
    · have hle := length_address_le hr
      rw [← h, ha, List.length_cons] at hle
      omega
    · obtain ⟨j, other, hj, hb, rfl⟩ := address_of_mem_children hd
      rw [ha, hb, List.cons.injEq] at h
      obtain ⟨rfl, h⟩ := h
      obtain rfl := ih ht h
      obtain rfl : child = other := Option.some.inj (hk.symm.trans hj)
      rfl

theorem self_mem_lineage (p : Place) : p ∈ p.lineage := by
  obtain ⟨node, above⟩ := p
  cases above <;> simp [lineage, upFrom]

/-- The way up from a place goes on as the way up from any place on it. -/
theorem exists_lineage_eq {p q : Place} (h : q ∈ p.lineage) :
    ∃ front, p.lineage = front ++ q.lineage := by
  obtain ⟨node, above⟩ := p
  induction above generalizing node with
  | nil =>
    obtain rfl : q = ⟨node, []⟩ := List.mem_singleton.mp h
    exact ⟨[], rfl⟩
  | cons parent above ih =>
    rcases List.mem_cons.mp h with rfl | h
    · exact ⟨[], rfl⟩
    · obtain ⟨front, hfront⟩ := ih parent.1 h
      exact ⟨⟨node, parent :: above⟩ :: front, congrArg _ hfront⟩

theorem below_of_mem_lineage {node : Node} {p q : Place} (hp : Below (root node) p)
    (h : q ∈ p.lineage) : Below (root node) q ∧ Below q p := by
  induction hp with
  | refl =>
    obtain rfl : q = root node := List.mem_singleton.mp h
    exact ⟨.refl, .refl⟩
  | @tail parent p hp hc ih =>
    rw [lineage_of_mem_children hc, List.mem_cons] at h
    rcases h with rfl | h
    · exact ⟨hp.tail hc, .refl⟩
    · obtain ⟨hroot, hbelow⟩ := ih h
      exact ⟨hroot, hbelow.tail hc⟩

theorem mem_lineage_of_below {p q : Place} (h : Below q p) : q ∈ p.lineage := by
  induction h with
  | refl => exact self_mem_lineage q
  | tail _ hc ih =>
    rw [lineage_of_mem_children hc]
    exact List.mem_cons_of_mem _ ih

theorem mem_children_of_parent? {node : Node} {p parent : Place} (hp : Below (root node) p)
    (h : p.parent? = some parent) : Below (root node) parent ∧ p ∈ parent.children := by
  rcases Relation.ReflTransGen.cases_tail hp with rfl | ⟨q, hq, hc⟩
  · cases h
  · obtain rfl := Option.some.inj (h.symm.trans (parent?_of_mem_children hc))
    exact ⟨hq, hc⟩

mutual

theorem below_of_mem_preorderFrom {above : List (Node × Nat)} :
    ∀ {node : Node} {p : Place}, p ∈ preorderFrom above node → Below ⟨node, above⟩ p
  | .mk info children, p, h => by
    rw [preorderFrom, List.mem_cons] at h
    rcases h with rfl | h
    · exact .refl
    · exact below_of_mem_preorderAll 0 children [] rfl rfl h

theorem below_of_mem_preorderAll {above : List (Node × Nat)} {parent : Node} :
    ∀ (i : Nat) (nodes before : List Node) {p : Place}, i = before.length →
      parent.children = before ++ nodes →
      p ∈ preorderAll parent above i nodes → Below ⟨parent, above⟩ p
  | _, [], _, _, _, _, h => by simp [preorderAll] at h
  | i, child :: rest, before, p, hi, hn, h => by
    rw [preorderAll, List.mem_append] at h
    rcases h with h | h
    · have hc : (⟨child, (parent, i) :: above⟩ : Place) ∈ children ⟨parent, above⟩ :=
        mem_children.mpr ⟨i, child, by simp [hn, hi], rfl⟩
      exact .head hc (below_of_mem_preorderFrom h)
    · exact below_of_mem_preorderAll (i + 1) rest (before ++ [child]) (by simp [hi])
        (by simp [hn]) h

end

theorem preorderAll_eq (p : Place) (i : Nat) (nodes : List Node) :
    preorderAll p.node p.above i nodes = (p.childrenFrom i nodes).flatMap preorder := by
  induction nodes generalizing i with
  | nil => rfl
  | cons node rest ih =>
    rw [preorderAll, childrenFrom, List.flatMap_cons, ih]
    rfl

theorem preorder_eq (p : Place) : p.preorder = p :: p.children.flatMap preorder := by
  obtain ⟨⟨info, nodes⟩, above⟩ := p
  rw [preorder, preorderFrom]
  exact congrArg _ (preorderAll_eq ⟨.mk info nodes, above⟩ 0 nodes)

theorem mem_preorder {p q : Place} : q ∈ p.preorder ↔ Below p q := by
  constructor
  · exact below_of_mem_preorderFrom
  · intro h
    induction h using Relation.ReflTransGen.head_induction_on with
    | refl =>
      rw [preorder_eq]
      exact List.mem_cons_self
    | head hc _ ih =>
      rw [preorder_eq]
      exact List.mem_cons_of_mem _ (List.mem_flatMap.mpr ⟨_, hc, ih⟩)

theorem above_isSuffix {p q : Place} (h : Below p q) : p.above <:+ q.above := by
  induction h with
  | refl => exact List.suffix_rfl
  | tail _ hc ih =>
    obtain ⟨k, hk⟩ := above_of_mem_children hc
    rw [hk]
    exact ih.trans (List.suffix_cons _ _)

theorem self_mem_preorder (p : Place) : p ∈ p.preorder :=
  mem_preorder.mpr .refl

theorem length_above_lt {p q r : Place} (hc : q ∈ p.children) (h : Below q r) :
    p.above.length < r.above.length := by
  obtain ⟨k, hk⟩ := above_of_mem_children hc
  have hle := (above_isSuffix h).length_le
  rw [hk, List.length_cons] at hle
  exact hle

/-- No place is below two children of one parent. -/
theorem eq_of_below_of_below {p a b r : Place} (ha : a ∈ p.children) (hb : b ∈ p.children)
    (har : Below a r) (hbr : Below b r) : a = b := by
  obtain ⟨j, hj⟩ := above_of_mem_children ha
  obtain ⟨k, hk⟩ := above_of_mem_children hb
  have hlength : a.above.length = b.above.length := by rw [hj, hk, List.length_cons, List.length_cons]
  have hsuffix : a.above <:+ b.above :=
    List.suffix_of_suffix_length_le (above_isSuffix har) (above_isSuffix hbr)
      (Nat.le_of_eq hlength)
  have habove : a.above = b.above := hsuffix.eq_of_length hlength
  exact eq_of_isAt ha hb (by simp [isAt, address, habove])

theorem size_le_weight {p : Place} {stack : List Place} (h : p ∈ stack) :
    p.node.size ≤ weight stack := by
  induction stack with
  | nil => cases h
  | cons q stack ih =>
    rw [weight]
    rcases List.mem_cons.mp h with rfl | h
    · exact Nat.le_add_right _ _
    · exact Nat.le_add_left_of_le (ih h)

theorem size_lt_of_mem_children {p q : Place} (h : q ∈ p.children) : q.node.size < p.node.size := by
  have hsize : q.node.size ≤ weight p.children := size_le_weight h
  have hweight := weight_push p []
  rw [push_eq, List.append_nil, weight, weight] at hweight
  exact Nat.lt_of_lt_of_le (Nat.lt_succ_of_le hsize) (Nat.le_of_eq hweight)

theorem childrenInduction {motive : Place → Prop}
    (step : ∀ p, (∀ q ∈ p.children, motive q) → motive p) (p : Place) : motive p :=
  step p fun q _ => childrenInduction step q
termination_by p.node.size
decreasing_by exact size_lt_of_mem_children ‹_›

theorem nodup_preorder (p : Place) : p.preorder.Nodup := by
  induction p using childrenInduction with
  | step p ih =>
    rw [preorder_eq, List.nodup_cons, List.nodup_flatMap]
    refine ⟨?_, ih, ?_⟩
    · intro h
      obtain ⟨q, hc, hq⟩ := List.mem_flatMap.mp h
      exact Nat.lt_irrefl _ (length_above_lt hc (mem_preorder.mp hq))
    · refine List.Pairwise.imp_of_mem ?_ (nodup_children p)
      intro a b ha hb hne r har hbr
      exact hne (eq_of_below_of_below ha hb (mem_preorder.mp har) (mem_preorder.mp hbr))

theorem mem_preorder_of_mem_children {top p q : Place} (h : p ∈ top.preorder)
    (hc : q ∈ p.children) : q ∈ top.preorder :=
  mem_preorder.mpr ((mem_preorder.mp h).tail hc)

/-! The way down that a test picks -/

theorem mem_of_child? {pick : Node → Node → Bool} {p q : Place} (h : p.child? pick = some q) :
    q ∈ p.children ∧ pick p.node q.node = true := by
  have hq := List.find?_some h
  exact ⟨List.mem_of_find?_eq_some h, hq⟩

def Descends (pick : Node → Node → Bool) : Place → Place → Prop :=
  Relation.ReflTransGen fun p q => q ∈ p.children ∧ pick p.node q.node = true

theorem Descends.below {pick : Node → Node → Bool} {p q : Place} (h : Descends pick p q) :
    Below p q :=
  Relation.ReflTransGen.mono (fun _ _ (hq : _ ∧ _) => hq.1) _ _ h

mutual

theorem descends_descendFrom (pick : Node → Node → Bool) (above : List (Node × Nat)) :
    ∀ node : Node, Descends pick ⟨node, above⟩ (descendFrom pick above node)
  | .mk info nodes => by
    rw [descendFrom]
    cases h : descendFirst pick (.mk info nodes) above 0 nodes with
    | none => exact .refl
    | some q => exact descends_descendFirst pick _ above 0 nodes [] rfl rfl h

theorem descends_descendFirst (pick : Node → Node → Bool) (parent : Node)
    (above : List (Node × Nat)) :
    ∀ (i : Nat) (nodes before : List Node) {q : Place}, i = before.length →
      parent.children = before ++ nodes → descendFirst pick parent above i nodes = some q →
      Descends pick ⟨parent, above⟩ q
  | _, [], _, _, _, _, h => by simp [descendFirst] at h
  | i, child :: rest, before, q, hi, hn, h => by
    rw [descendFirst] at h
    split at h
    case isTrue hp =>
      obtain rfl := Option.some.inj h
      have hc : (⟨child, (parent, i) :: above⟩ : Place) ∈ children ⟨parent, above⟩ :=
        mem_children.mpr ⟨i, child, by simp [hn, hi], rfl⟩
      exact .head ⟨hc, hp⟩ (descends_descendFrom pick _ child)
    case isFalse =>
      exact descends_descendFirst pick parent above (i + 1) rest (before ++ [child])
        (by simp [hi]) (by simp [hn]) h

end

theorem descends_descend (pick : Node → Node → Bool) (p : Place) :
    Descends pick p (p.descend pick) :=
  descends_descendFrom pick p.above p.node

theorem descendFirst_eq (pick : Node → Node → Bool) (p : Place) (i : Nat) (nodes : List Node) :
    descendFirst pick p.node p.above i nodes =
      ((p.childrenFrom i nodes).find? fun q => pick p.node q.node).map (·.descend pick) := by
  induction nodes generalizing i with
  | nil => rfl
  | cons node rest ih =>
    rw [descendFirst, childrenFrom, List.find?_cons, ih]
    cases pick p.node node <;> rfl

theorem descend_eq (pick : Node → Node → Bool) (p : Place) :
    p.descend pick = ((p.child? pick).map (·.descend pick)).getD p := by
  obtain ⟨⟨info, nodes⟩, above⟩ := p
  have h := descendFirst_eq pick ⟨.mk info nodes, above⟩ 0 nodes
  rw [descend, descendFrom, h]
  rfl

mutual

theorem child?_descendFrom (pick : Node → Node → Bool) (above : List (Node × Nat)) :
    ∀ node : Node, (descendFrom pick above node).child? pick = none
  | .mk info nodes => by
    rw [descendFrom]
    cases h : descendFirst pick (.mk info nodes) above 0 nodes with
    | none => exact Option.map_eq_none_iff.mp ((descendFirst_eq pick ⟨_, above⟩ 0 nodes).symm.trans h)
    | some q => exact child?_descendFirst pick _ above 0 nodes h

theorem child?_descendFirst (pick : Node → Node → Bool) (parent : Node)
    (above : List (Node × Nat)) :
    ∀ (i : Nat) (nodes : List Node) {q : Place},
      descendFirst pick parent above i nodes = some q → q.child? pick = none
  | _, [], _, h => by simp [descendFirst] at h
  | i, child :: rest, q, h => by
    rw [descendFirst] at h
    split at h
    case isTrue =>
      obtain rfl := Option.some.inj h
      exact child?_descendFrom pick _ child
    case isFalse => exact child?_descendFirst pick parent above (i + 1) rest h

end

/-- The way down ends where the test picks no child. -/
theorem child?_descend (pick : Node → Node → Bool) (p : Place) :
    (p.descend pick).child? pick = none :=
  child?_descendFrom pick p.above p.node

theorem descend_eq_of_descends {pick : Node → Node → Bool} {p r : Place} (h : Descends pick p r)
    (hone : ∀ q ∈ p.preorder, ∀ a ∈ q.children, ∀ b ∈ q.children,
      pick q.node a.node = true → pick q.node b.node = true → a = b)
    (hend : ∀ q ∈ r.children, pick r.node q.node = false) : p.descend pick = r := by
  induction h using Relation.ReflTransGen.head_induction_on with
  | refl =>
    have hnone : r.child? pick = none := List.find?_eq_none.mpr fun q hq => by simp [hend q hq]
    rw [descend_eq, hnone]
    rfl
  | @head q c hc _ ih =>
    obtain ⟨a, ha⟩ : ∃ a, q.child? pick = some a :=
      Option.isSome_iff_exists.mp (List.find?_isSome.mpr ⟨c, hc.1, hc.2⟩)
    obtain ⟨hac, hap⟩ := mem_of_child? ha
    obtain rfl : a = c := hone q (self_mem_preorder q) a hac c hc.1 hap hc.2
    rw [descend_eq, ha]
    exact ih fun d hd => hone d (mem_preorder.mpr (.head hc.1 (mem_preorder.mp hd)))

end StackTemplate.Syntax.Place
