import StackTemplate.Proofs.Syntax.Steps

/-!
How far a path leads: its longest prefix that is resolved, and the node that all longer ones stop
at.
-/

namespace StackTemplate.SyntaxTree

open Syntax

variable {tree : SyntaxTree}

/-! Paths that go on -/

theorem lookupFrom_cons_of_some {p q : Place} {step : PathStep} (h : tree.step? p step = some q)
    (rest : PropertyPath) : tree.lookupFrom p (step :: rest) = tree.lookupFrom q rest := by
  simp [lookupFrom, h]

theorem lookupFrom_cons_of_none {p : Place} {step : PathStep} (h : tree.step? p step = none)
    (rest : PropertyPath) : tree.lookupFrom p (step :: rest) = ⟨p, false⟩ := by
  simp [lookupFrom, h]

theorem lookupFrom_append_of_resolved {p : Place} {path : PropertyPath}
    (h : (tree.lookupFrom p path).resolved = true) (rest : PropertyPath) :
    tree.lookupFrom p (path ++ rest) = tree.lookupFrom (tree.lookupFrom p path).place rest := by
  induction path generalizing p with
  | nil => rfl
  | cons step path ih =>
    cases hs : tree.step? p step with
    | none =>
      rw [lookupFrom_cons_of_none hs] at h
      cases h
    | some q =>
      rw [List.cons_append, lookupFrom_cons_of_some hs, lookupFrom_cons_of_some hs]
      rw [lookupFrom_cons_of_some hs] at h
      exact ih h

theorem lookupFrom_append_of_not_resolved {p : Place} {path : PropertyPath}
    (h : (tree.lookupFrom p path).resolved = false) (rest : PropertyPath) :
    tree.lookupFrom p (path ++ rest) = tree.lookupFrom p path := by
  induction path generalizing p with
  | nil => cases h
  | cons step path ih =>
    cases hs : tree.step? p step with
    | none => rw [List.cons_append, lookupFrom_cons_of_none hs, lookupFrom_cons_of_none hs]
    | some q =>
      rw [List.cons_append, lookupFrom_cons_of_some hs, lookupFrom_cons_of_some hs]
      rw [lookupFrom_cons_of_some hs] at h
      exact ih h

/-! The place where a path starts -/

/-- Nothing is found below a wrapper that wraps no content. -/
theorem step?_of_isWrapper {p : Place} (h : (p.unwrap tree.format).isWrapper tree.format = true)
    (step : PathStep) : tree.step? p step = none := by
  have hshape := Place.shape_of_isWrapper h
  cases step with
  | key name => simp [step?, Place.isBlock, hshape]
  | index i => simp [step?, Place.isSequence, Shape.isSequence, hshape]

/-- The content of a tree, or its root where it has no content. -/
def start (tree : SyntaxTree) : Place :=
  tree.rootValue?.getD tree.root

theorem lookup_eq_lookupFrom (tree : SyntaxTree) (path : PropertyPath) :
    tree.lookup path = tree.lookupFrom tree.start path := by
  cases hr : tree.rootValue? with
  | some content => simp [lookup, start, hr]
  | none =>
    have hw : (tree.root.unwrap tree.format).isWrapper tree.format = true := by
      simpa [rootValue?, Place.rootValue?] using hr
    cases path with
    | nil => simp [lookup, lookupFrom, start, hr]
    | cons step path =>
      rw [start, hr, Option.getD_none, lookupFrom_cons_of_none (step?_of_isWrapper hw step)]
      simp [lookup, hr]

/-! The longest prefix -/

/-- The number of steps of a path that can be followed. -/
def followed (tree : SyntaxTree) (p : Place) : PropertyPath → Nat
  | [] => 0
  | step :: rest =>
    match tree.step? p step with
    | some next => tree.followed next rest + 1
    | none => 0

theorem followed_cons_of_some {p q : Place} {step : PathStep} (h : tree.step? p step = some q)
    (rest : PropertyPath) : tree.followed p (step :: rest) = tree.followed q rest + 1 := by
  simp [followed, h]

theorem followed_cons_of_none {p : Place} {step : PathStep} (h : tree.step? p step = none)
    (rest : PropertyPath) : tree.followed p (step :: rest) = 0 := by
  simp [followed, h]

theorem followed_le (tree : SyntaxTree) (p : Place) (path : PropertyPath) :
    tree.followed p path ≤ path.length := by
  induction path generalizing p with
  | nil => exact Nat.le_refl 0
  | cons step path ih =>
    cases hs : tree.step? p step with
    | none =>
      rw [followed_cons_of_none hs]
      exact Nat.zero_le _
    | some q =>
      rw [followed_cons_of_some hs]
      exact Nat.succ_le_succ (ih q)

theorem resolved_take_iff (tree : SyntaxTree) (p : Place) (path : PropertyPath) (j : Nat) :
    (tree.lookupFrom p (path.take j)).resolved = true ↔
      (path.take j).length ≤ tree.followed p path := by
  induction path generalizing p j with
  | nil => simp [lookupFrom]
  | cons step path ih =>
    cases j with
    | zero => simp [lookupFrom]
    | succ j =>
      rw [List.take_succ_cons, List.length_cons]
      cases hs : tree.step? p step with
      | none => simp [lookupFrom_cons_of_none hs, followed_cons_of_none hs]
      | some q =>
        rw [lookupFrom_cons_of_some hs, followed_cons_of_some hs, Nat.add_le_add_iff_right]
        exact ih q j

theorem lookupFrom_take_of_followed_lt {p : Place} {path : PropertyPath} {j : Nat}
    (h : tree.followed p path < (path.take j).length) :
    tree.lookupFrom p (path.take j) =
      ⟨(tree.lookupFrom p (path.take (tree.followed p path))).place, false⟩ := by
  induction path generalizing p j with
  | nil => simp at h
  | cons step path ih =>
    cases j with
    | zero => simp at h
    | succ j =>
      rw [List.take_succ_cons] at h ⊢
      cases hs : tree.step? p step with
      | none =>
        rw [lookupFrom_cons_of_none hs, followed_cons_of_none hs]
        rfl
      | some q =>
        rw [followed_cons_of_some hs, List.length_cons, Nat.add_lt_add_iff_right] at h
        rw [lookupFrom_cons_of_some hs, followed_cons_of_some hs, List.take_succ_cons,
          lookupFrom_cons_of_some hs]
        exact ih h

/-- Every prefix up to one length is resolved, and every longer one stops at the node of the prefix
of this length. A path that is not resolved leads no further however it goes on. -/
theorem lookup_take (tree : SyntaxTree) (path : PropertyPath) :
    ∃ k ≤ path.length,
      (∀ j ≤ k, (tree.lookup (path.take j)).resolved = true) ∧
      (∀ j, k < (path.take j).length →
        (tree.lookup (path.take j)).resolved = false ∧
          (tree.lookup (path.take j)).place = (tree.lookup (path.take k)).place) ∧
      ((tree.lookup path).resolved = true ↔ k = path.length) ∧
      ∀ more, (tree.lookup path).resolved = false →
        tree.lookup (path ++ more) = tree.lookup path := by
  simp only [lookup_eq_lookupFrom]
  have hle := tree.followed_le tree.start path
  refine ⟨tree.followed tree.start path, hle, ?_, ?_, ?_, ?_⟩
  · intro j hj
    apply (tree.resolved_take_iff _ path j).mpr
    exact Nat.le_trans (List.length_take_le j path) hj
  · intro j hj
    rw [lookupFrom_take_of_followed_lt hj]
    exact ⟨rfl, rfl⟩
  · have hwhole := tree.resolved_take_iff tree.start path path.length
    rw [List.take_length] at hwhole
    rw [hwhole]
    exact ⟨Nat.le_antisymm hle, fun h => Nat.le_of_eq h.symm⟩
  · intro more h
    exact lookupFrom_append_of_not_resolved h more

end StackTemplate.SyntaxTree
