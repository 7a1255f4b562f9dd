import StackTemplate.Proofs.Syntax.Descendants

/-!
The side of a pair that a node is on, told by going up: through wrappers only, and past whatever
stands between. Below a wrapper, its content has the same role.
-/

namespace StackTemplate

namespace Syntax.Place

variable {format : Format} {p q pair child : Place} {side : Side}

/-! One step up -/

theorem pairSide?_of_mem_children (h : q ∈ p.children) :
    q.pairSide? format =
      if p.isPair format then p.sideIn? q
      else if p.isWrapper format then p.pairSide? format else none := by
  obtain ⟨k, hk⟩ := above_of_mem_children h
  rw [pairSide?, hk, sideFrom]
  rfl

theorem sideAbove_of_mem_children (h : q ∈ p.children) :
    Context.sideAbove format q q.above =
      if p.isPair format then p.sideIn? q else Context.sideAbove format p p.above := by
  obtain ⟨k, hk⟩ := above_of_mem_children h
  rw [hk, Context.sideAbove]

theorem any_isAt_iff (h : child ∈ pair.children) :
    (pair.field? side).any (·.isAt child) = true ↔ pair.field? side = some child := by
  constructor
  · intro hany
    obtain ⟨found, hfound, hat⟩ := (Option.any_eq_true _ _).mp hany
    rw [hfound, eq_of_isAt (mem_children_of_field? hfound) h hat]
  · intro hfield
    rw [hfield]
    exact isAt_self child

/-- No child is on both sides. -/
theorem eq_of_field? {other : Side} (h : pair.field? side = some child)
    (hother : pair.field? other = some child) : side = other := by
  rw [field?, List.find?_eq_some_iff_append] at h hother
  exact Option.some.inj ((of_decide_eq_true h.1).symm.trans (of_decide_eq_true hother.1))

theorem sideIn?_eq_some_iff (h : child ∈ pair.children) :
    pair.sideIn? child = some side ↔ pair.field? side = some child := by
  have hside : ∀ other, pair.field? other = some child →
      (some other = some side ↔ pair.field? side = some child) := by
    intro other hother
    rw [Option.some.injEq]
    constructor
    · rintro rfl
      exact hother
    · exact eq_of_field? hother
  rw [sideIn?]
  split
  · rename_i hkey
    exact hside .key ((any_isAt_iff h).mp hkey)
  · rename_i hkey
    split
    · rename_i hvalue
      exact hside .value ((any_isAt_iff h).mp hvalue)
    · rename_i hvalue
      rw [any_isAt_iff h] at hkey hvalue
      cases side <;> simp [hkey, hvalue]

/-! The nearest pair above -/

/-- The places from one on the way to another down to before that one. -/
def Between (child p q : Place) : Prop :=
  Below child q ∧ Below q p ∧ q ≠ p

/-- The nearest pair above a place, and its child on the way down. -/
structure NearestPair (format : Format) (p pair child : Place) : Prop where
  isPair : pair.isPair format = true
  mem : child ∈ pair.children
  below : Below child p
  nearest : ∀ q, Between child p q → q.isPair format = false

theorem not_below_of_mem_children (h : q ∈ p.children) : ¬ Below q p := by
  intro hbelow
  have hle := length_address_le hbelow
  obtain ⟨k, node, -, haddress, -⟩ := address_of_mem_children h
  rw [haddress, List.length_cons] at hle
  omega

theorem eq_or_below_of_mem_children (h : q ∈ p.children) (hbelow : Below child q) :
    child = q ∨ Below child p := by
  rcases Relation.ReflTransGen.cases_tail hbelow with rfl | ⟨r, hr, hq⟩
  · exact .inl rfl
  · have hparent := (parent?_of_mem_children hq).symm.trans (parent?_of_mem_children h)
    obtain rfl := Option.some.inj hparent
    exact .inr hr

theorem between_iff_of_mem_children (h : q ∈ p.children) (hbelow : Below child p) (r : Place) :
    Between child q r ↔ r = p ∨ Between child p r := by
  constructor
  · rintro ⟨hr, hrq, hne⟩
    rcases eq_or_below_of_mem_children h hrq with rfl | hrp
    · exact absurd rfl hne
    · by_cases heq : r = p
      · exact .inl heq
      · exact .inr ⟨hr, hrp, heq⟩
  · rintro (rfl | ⟨hr, hrp, -⟩)
    · refine ⟨hbelow, .single h, ?_⟩
      rintro rfl
      exact not_below_of_mem_children h .refl
    · refine ⟨hr, hrp.tail h, ?_⟩
      rintro rfl
      exact not_below_of_mem_children h hrp

theorem Below.antisymm (h : Below p q) (hback : Below q p) : p = q := by
  rcases Relation.ReflTransGen.cases_tail h with rfl | ⟨r, hr, hq⟩
  · rfl
  · exact absurd (.trans hback hr) (not_below_of_mem_children hq)

theorem not_between_self (r : Place) : ¬ Between p p r :=
  fun ⟨hpr, hrp, hne⟩ => hne (hrp.antisymm hpr)

theorem nearestPair_child (h : q ∈ p.children) (hpair : p.isPair format = true) :
    NearestPair format q pair child ↔ pair = p ∧ child = q := by
  constructor
  · intro hnear
    rcases eq_or_below_of_mem_children h hnear.below with rfl | hbelow
    · have hparent := (parent?_of_mem_children hnear.mem).symm.trans (parent?_of_mem_children h)
      exact ⟨Option.some.inj hparent, rfl⟩
    · have hbetween := (between_iff_of_mem_children h hbelow p).mpr (.inl rfl)
      rw [hnear.nearest p hbetween] at hpair
      cases hpair
  · rintro ⟨rfl, rfl⟩
    exact ⟨hpair, h, .refl, fun r hr => absurd hr (not_between_self r)⟩

theorem nearestPair_of_not_pair (h : q ∈ p.children) (hpair : p.isPair format = false) :
    NearestPair format q pair child ↔ NearestPair format p pair child := by
  constructor
  · intro hnear
    rcases eq_or_below_of_mem_children h hnear.below with rfl | hbelow
    · have hparent := (parent?_of_mem_children hnear.mem).symm.trans (parent?_of_mem_children h)
      rw [← Option.some.inj hparent, hnear.isPair] at hpair
      cases hpair
    · refine ⟨hnear.isPair, hnear.mem, hbelow, fun r hr => ?_⟩
      exact hnear.nearest r ((between_iff_of_mem_children h hbelow r).mpr (.inr hr))
  · intro hnear
    refine ⟨hnear.isPair, hnear.mem, hnear.below.tail h, fun r hr => ?_⟩
    rcases (between_iff_of_mem_children h hnear.below r).mp hr with rfl | hr
    · exact hpair
    · exact hnear.nearest r hr

theorem not_nearestPair_root (node : Node) : ¬ NearestPair format (root node) pair child := by
  intro hnear
  have hle := length_address_le hnear.below
  obtain ⟨k, other, -, haddress, -⟩ := address_of_mem_children hnear.mem
  rw [haddress, List.length_cons] at hle
  exact absurd hle (by simp [root, address])

/-! Both ways up -/

/-- By induction on the way down: a pair ends the way up, and what is no pair is passed. -/
theorem sideAbove_eq_some_iff {node : Node} (h : Below (root node) p) :
    Context.sideAbove format p p.above = some side ↔
      ∃ pair child, NearestPair format p pair child ∧ pair.field? side = some child := by
  induction h with
  | refl =>
    refine iff_of_false nofun ?_
    rintro ⟨pair, child, hnear, -⟩
    exact not_nearestPair_root node hnear
  | @tail p q _ hq ih =>
    rw [sideAbove_of_mem_children hq]
    cases hpair : p.isPair format with
    | true =>
      rw [if_pos rfl, sideIn?_eq_some_iff hq]
      simp only [nearestPair_child hq hpair]
      constructor
      · intro hfield
        exact ⟨p, q, ⟨rfl, rfl⟩, hfield⟩
      · rintro ⟨_, _, ⟨rfl, rfl⟩, hfield⟩
        exact hfield
    | false =>
      rw [if_neg Bool.false_ne_true, ih]
      simp only [nearestPair_of_not_pair hq hpair]

/-- The same, but the way up ends at the first node that is neither a pair nor a wrapper. -/
theorem pairSide?_eq_some_iff {node : Node} (h : Below (root node) p) :
    p.pairSide? format = some side ↔
      ∃ pair child, NearestPair format p pair child ∧
        (∀ q, Between child p q → q.isWrapper format = true) ∧ pair.field? side = some child := by
  induction h with
  | refl =>
    refine iff_of_false nofun ?_
    rintro ⟨pair, child, hnear, -⟩
    exact not_nearestPair_root node hnear
  | @tail p q _ hq ih =>
    rw [pairSide?_of_mem_children hq]
    cases hpair : p.isPair format with
    | true =>
      rw [if_pos rfl, sideIn?_eq_some_iff hq]
      simp only [nearestPair_child hq hpair]
      constructor
      · intro hfield
        exact ⟨p, q, ⟨rfl, rfl⟩, fun r hr => absurd hr (not_between_self r), hfield⟩
      · rintro ⟨_, _, ⟨rfl, rfl⟩, -, hfield⟩
        exact hfield
    | false =>
      rw [if_neg Bool.false_ne_true]
      simp only [nearestPair_of_not_pair hq hpair]
      cases hwrapper : p.isWrapper format with
      | true =>
        rw [if_pos rfl, ih]
        refine exists_congr fun pair => exists_congr fun child => and_congr_right fun hnear => ?_
        refine and_congr_left fun _ => ?_
        simp only [between_iff_of_mem_children hq hnear.below, forall_eq_or_imp, hwrapper, true_and]
      | false =>
        rw [if_neg Bool.false_ne_true]
        refine iff_of_false nofun ?_
        rintro ⟨pair, child, hnear, hwrappers, -⟩
        have hbetween := (between_iff_of_mem_children hq hnear.below p).mpr (.inl rfl)
        rw [hwrappers p hbetween] at hwrapper
        cases hwrapper

end Syntax.Place

namespace SyntaxTree

open Syntax Syntax.Place

/-- What a tree of one of the grammars never breaks: wrappers hold no marked items, and in JSON only
the root is a wrapper. -/
structure WrapsWell (tree : SyntaxTree) : Prop where
  items : ∀ p ∈ tree.places, p.isWrapper tree.format = true →
    ∀ q ∈ p.children, q.shape tree.format ≠ .item
  root : tree.format = .json → ∀ p ∈ tree.places, p.isWrapper tree.format = true → p = tree.root

namespace WrapsWell

variable {tree : SyntaxTree} {p : Place}

/-- Unwrapping goes all the way. -/
theorem unwrap_unwrap (h : tree.WrapsWell) (hp : p ∈ tree.places) :
    (p.unwrap tree.format).unwrap tree.format = p.unwrap tree.format := by
  have hbelow : Below p (p.unwrap tree.format) := (unwraps_unwrap tree.format p).below
  have hmem := mem_places_of_below hp hbelow
  have hroot := h.root
  cases hformat : tree.format with
  | yaml =>
    have hend := child?_descend (wraps .yaml) p
    rw [unwrap, unwrap, descend_eq _ (p.descend _), hend]
    rfl
  | json =>
    rw [hformat] at hroot hbelow hmem
    cases hwrapper : (p.unwrap .json).isWrapper .json with
    | false => exact unwrap_of_isWrapper_eq_false hwrapper
    | true =>
      -- A wrapper is the root, and nothing but the root has the root below it.
      have htop := hroot rfl _ hmem hwrapper
      rw [htop] at hbelow
      have hself : p = tree.root := hbelow.antisymm (mem_preorder.mp hp)
      rw [htop, ← hself, htop, ← hself]

theorem isItem_unwrap (h : tree.WrapsWell) (hp : p ∈ tree.places)
    (hitem : p.isItem tree.format = false) : (p.unwrap tree.format).isItem tree.format = false := by
  rcases Relation.ReflTransGen.cases_tail (unwraps_unwrap tree.format p) with
    hself | ⟨q, hq, hcontent⟩
  · rwa [hself]
  · have hwrapper := isWrapper_of_wraps hcontent.2
    have hlisted : q.shape tree.format ≠ .listed := by
      rw [shape_of_isWrapper hwrapper]
      exact nofun
    have hmem := mem_places_of_below hp (Unwraps.below hq)
    exact isItem_eq_false hcontent.1 hlisted (h.items q hmem hwrapper _ hcontent.1)

theorem role_unwrap (h : tree.WrapsWell) (hp : p ∈ tree.places)
    (hitem : p.isItem tree.format = false) :
    (p.unwrap tree.format).role tree.format = p.role tree.format := by
  simp only [role, hitem, h.isItem_unwrap hp hitem, h.unwrap_unwrap hp]

end WrapsWell

/-- A wrapper stands for what it wraps, and the side of a pair that a node is on is found through
wrappers alone; there it is the side that the context of the node tells. -/
theorem wrappers_see_through (tree : SyntaxTree) (h : tree.WrapsWell) {p : Place}
    (hp : p ∈ tree.places) :
    (p.unwrap tree.format).unwrap tree.format = p.unwrap tree.format ∧
    (p.isWrapper tree.format = true → p.isItem tree.format = false →
      p.role tree.format = (p.unwrap tree.format).role tree.format) ∧
    ∀ side, (p.pairSide? tree.format = some side ↔
        ∃ pair child, NearestPair tree.format p pair child ∧
          (∀ q, Between child p q → q.isWrapper tree.format = true) ∧
          pair.field? side = some child) ∧
      (p.pairSide? tree.format = some side →
        ∃ context, Context.ofPlace tree p = .ok context ∧
          context.isKey = decide (side = .key) ∧ context.isValue = decide (side = .value)) := by
  have hbelow : Below (.root tree.rootNode) p := mem_preorder.mp hp
  refine ⟨h.unwrap_unwrap hp, fun _ hitem => (h.role_unwrap hp hitem).symm, fun side => ?_⟩
  have hside : p.pairSide? tree.format = some side ↔ _ := pairSide?_eq_some_iff hbelow
  refine ⟨hside, fun hpair => ⟨_, ofPlace_of_mem_places hp, ?_⟩⟩
  obtain ⟨pair, child, hnear, -, hfield⟩ := hside.mp hpair
  have habove : (Context.mk tree p).side? = some side :=
    (sideAbove_eq_some_iff hbelow).mpr ⟨pair, child, hnear, hfield⟩
  rw [Context.isKey, Context.isValue, habove]
  cases side <;> decide

def decoratedText : String := "A: !T &x b\n"

def decoratedRows : List Row :=
  [⟨0, "stream", true, false, false, false, false, none, 0, 11⟩,
    ⟨1, "document", true, false, false, false, false, none, 0, 11⟩,
    ⟨2, "block_node", true, false, false, false, false, none, 0, 11⟩,
    ⟨3, "block_mapping", true, false, false, false, false, none, 0, 11⟩,
    ⟨4, "block_mapping_pair", true, false, false, false, false, none, 0, 10⟩,
    ⟨5, "flow_node", true, false, false, false, false, some .key, 0, 1⟩,
    ⟨6, "plain_scalar", true, false, false, false, false, none, 0, 1⟩,
    ⟨7, "string_scalar", true, false, false, false, false, none, 0, 1⟩,
    ⟨5, ":", false, false, false, false, false, none, 1, 2⟩,
    ⟨5, "flow_node", true, false, false, false, false, some .value, 3, 10⟩,
    ⟨6, "tag", true, false, false, false, false, none, 3, 5⟩,
    ⟨6, "anchor", true, false, false, false, false, none, 6, 8⟩,
    ⟨7, "anchor_name", true, false, false, false, false, none, 7, 8⟩,
    ⟨6, "plain_scalar", true, false, false, false, false, none, 9, 10⟩,
    ⟨7, "string_scalar", true, false, false, false, false, none, 9, 10⟩]

def decorated : SyntaxTree :=
  ⟨.detect "file:///t.yaml" 1 decoratedText,
    (Node.ofRows? decoratedText.toList decoratedRows).getD default⟩

/-- The value with its tag and anchor, and the scalar behind them. -/
def decoratedValue : Place :=
  decorated.places.get ⟨9, by decide⟩

def decoratedScalar : Place :=
  decorated.places.get ⟨13, by decide⟩

theorem wrappers_see_through_decorated :
    decorated.WrapsWell ∧ decoratedValue ∈ decorated.places ∧
      decoratedScalar ∈ decorated.places ∧ decoratedValue.isWrapper .yaml = true ∧
      decoratedValue.isItem .yaml = false ∧
      decoratedValue.role .yaml = decoratedScalar.role .yaml ∧
      ∃ context, Context.ofPlace decorated decoratedScalar = .ok context ∧
        context.isKey = false ∧ context.isValue = true := by
  have hwraps : decorated.WrapsWell := ⟨by decide, fun hjson => absurd hjson (by decide)⟩
  have hvalue : decoratedValue ∈ decorated.places := List.get_mem _ _
  have hscalar : decoratedScalar ∈ decorated.places := List.get_mem _ _
  have hwrapper : decoratedValue.isWrapper .yaml = true := by decide
  have hitem : decoratedValue.isItem .yaml = false := by decide
  have hrole := (wrappers_see_through decorated hwraps hvalue).2.1 hwrapper hitem
  have hcontent : decoratedValue.unwrap decorated.format = decoratedScalar := by decide
  rw [hcontent] at hrole
  have hpair : decoratedScalar.pairSide? .yaml = some .value := by decide
  exact ⟨hwraps, hvalue, hscalar, hwrapper, hitem, hrole,
    ((wrappers_see_through decorated hwraps hscalar).2.2 .value).2 hpair⟩

end SyntaxTree

end StackTemplate
