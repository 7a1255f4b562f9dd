/-!
Places in a text. Lines and characters count from zero; `character` counts bytes of the line.
-/

namespace StackTemplate

structure Position where
  line : Nat
  character : Nat
deriving DecidableEq, Repr, Ord, Inhabited

namespace Position

def zero : Position := ⟨0, 0⟩

/-- Line first, then character. -/
protected def le (a b : Position) : Prop :=
  a.line < b.line ∨ (a.line = b.line ∧ a.character ≤ b.character)

instance : LE Position := ⟨Position.le⟩

instance : DecidableLE Position := fun a b =>
  inferInstanceAs (Decidable (a.line < b.line ∨ (a.line = b.line ∧ a.character ≤ b.character)))

def text (p : Position) : String :=
  s!"{p.line}:{p.character}"

theorem le_iff {a b : Position} :
    a ≤ b ↔ a.line < b.line ∨ (a.line = b.line ∧ a.character ≤ b.character) := Iff.rfl

@[refl] protected theorem le_refl (a : Position) : a ≤ a := Or.inr ⟨rfl, Nat.le_refl _⟩

protected theorem le_trans {a b c : Position} (hab : a ≤ b) (hbc : b ≤ c) : a ≤ c := by
  simp only [le_iff] at *
  omega

protected theorem le_total (a b : Position) : a ≤ b ∨ b ≤ a := by
  simp only [le_iff]
  omega

protected theorem le_antisymm {a b : Position} (hab : a ≤ b) (hba : b ≤ a) : a = b := by
  obtain ⟨al, ac⟩ := a
  obtain ⟨bl, bc⟩ := b
  simp only [le_iff] at hab hba
  simp only [Position.mk.injEq]
  omega

/-- The position a character leads to; a newline ends its line. -/
def next (p : Position) (c : Char) : Position :=
  if c = '\n' then ⟨p.line + 1, 0⟩ else ⟨p.line, p.character + c.utf8Size⟩

end Position

structure Range where
  start : Position
  stop : Position
deriving DecidableEq, Repr, Inhabited

namespace Range

/-- Both ends belong to a range, so a cursor right after a token still hits it. -/
def contains (r : Range) (p : Position) : Bool :=
  r.start ≤ p && p ≤ r.stop

def containsRange (r other : Range) : Bool :=
  r.start ≤ other.start && other.stop ≤ r.stop

def isEmpty (r : Range) : Bool :=
  r.start == r.stop

def lineCount (r : Range) : Nat :=
  r.stop.line - r.start.line + 1

def text (r : Range) : String :=
  s!"{r.start.text}-{r.stop.text}"

theorem contains_iff {r : Range} {p : Position} :
    r.contains p = true ↔ r.start ≤ p ∧ p ≤ r.stop := by
  simp [contains]

theorem containsRange_iff {r other : Range} :
    r.containsRange other = true ↔ r.start ≤ other.start ∧ other.stop ≤ r.stop := by
  simp [containsRange]

theorem containsRange_self (r : Range) : r.containsRange r = true :=
  containsRange_iff.mpr ⟨Position.le_refl _, Position.le_refl _⟩

theorem containsRange_trans {r s t : Range} (hrs : r.containsRange s = true)
    (hst : s.containsRange t = true) : r.containsRange t = true := by
  rw [containsRange_iff] at *
  exact ⟨Position.le_trans hrs.1 hst.1, Position.le_trans hst.2 hrs.2⟩

theorem contains_of_containsRange {r other : Range} {p : Position}
    (h : r.containsRange other = true) (hp : other.contains p = true) : r.contains p = true := by
  rw [containsRange_iff] at h
  rw [contains_iff] at *
  exact ⟨Position.le_trans h.1 hp.1, Position.le_trans hp.2 h.2⟩

end Range

end StackTemplate
