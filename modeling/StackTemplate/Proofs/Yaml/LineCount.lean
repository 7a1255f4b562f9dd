import Mathlib.Data.List.TakeWhile
import Mathlib.Logic.Relation
import StackTemplate.Proofs.Yaml.Cursor

/-!
Lines as marks count them: a cursor that moves through a text by characters and line breaks carries
the number of breaks that it has passed.
-/

namespace StackTemplate.Yaml

/-- Whether a line ends with a character. It goes on behind a carriage return before a line feed. -/
def endsLine (c : Char) (rest : List Char) : Bool :=
  isBreak c && !(c = '\r' && rest.head? = some '\n')

def breakCount : List Char → Nat
  | [] => 0
  | c :: rest => breakCount rest + if endsLine c rest then 1 else 0

/-- Cut between them, two characters that are one line break would count twice. -/
def SplitsBreak (before after : List Char) : Prop :=
  before.getLast? = some '\r' ∧ after.head? = some '\n'

theorem SplitsBreak.of_cons {c : Char} {before after : List Char} (h : SplitsBreak before after) :
    SplitsBreak (c :: before) after := by
  refine ⟨?_, h.2⟩
  rw [List.getLast?_cons, h.1]
  rfl

theorem endsLine_append {c : Char} {a b : List Char} (h : ¬ SplitsBreak (c :: a) b) :
    endsLine c (a ++ b) = endsLine c a := by
  cases a with
  | cons x a => rfl
  | nil =>
    by_cases hc : c = '\r'
    · have hb : b.head? ≠ some '\n' := fun hb => h ⟨by simp [hc], hb⟩
      simp [endsLine, hb]
    · simp [endsLine, hc]

theorem breakCount_append {a b : List Char} (h : ¬ SplitsBreak a b) :
    breakCount (a ++ b) = breakCount a + breakCount b := by
  induction a with
  | nil => simp [breakCount]
  | cons c a ih =>
    rw [List.cons_append, breakCount, breakCount, endsLine_append h, ih (mt SplitsBreak.of_cons h)]
    omega

/-- Each line ends with a newline, whatever stands before it in the line. -/
def NewlinesOnly (text : List Char) : Prop :=
  ∀ before c rest, text = before ++ c :: rest → endsLine c rest = true → c = '\n'

theorem newlinesOnly_cons {c : Char} {rest : List Char} :
    NewlinesOnly (c :: rest) ↔ (endsLine c rest = true → c = '\n') ∧ NewlinesOnly rest := by
  constructor
  · intro h
    refine ⟨h [] c rest rfl, fun before x more hrest => h (c :: before) x more ?_⟩
    rw [hrest, List.cons_append]
  · rintro ⟨hc, hrest⟩ before x more heq
    cases before with
    | nil =>
      obtain ⟨rfl, rfl⟩ := List.cons.inj heq
      exact hc
    | cons _ before =>
      obtain ⟨rfl, hbefore⟩ := List.cons.inj heq
      exact hrest before x more hbefore

theorem count_le_breakCount (text : List Char) : text.count '\n' ≤ breakCount text := by
  induction text with
  | nil => exact Nat.le_refl 0
  | cons c rest ih =>
    rw [List.count_cons, breakCount]
    by_cases hc : c = '\n'
    · simp [hc, endsLine, isBreak, ih]
    · simp [hc, Nat.le_add_right_of_le ih]

theorem breakCount_le_length (text : List Char) : breakCount text ≤ text.length := by
  induction text with
  | nil => exact Nat.le_refl 0
  | cons c rest ih =>
    rw [breakCount, List.length_cons]
    split <;> omega

/-- Newlines and line breaks count the same lines where no line ends otherwise. -/
theorem count_eq_breakCount_iff {text : List Char} :
    text.count '\n' = breakCount text ↔ NewlinesOnly text := by
  induction text with
  | nil => exact iff_of_true rfl (by simp [NewlinesOnly])
  | cons c rest ih =>
    rw [newlinesOnly_cons, ← ih, List.count_cons, breakCount]
    have hle := count_le_breakCount rest
    by_cases hc : c = '\n'
    · simp [hc, endsLine, isBreak]
    · cases endsLine c rest with
      | true =>
        simp only [hc, beq_iff_eq, if_true, if_false, imp_false, not_true_eq_false, false_and,
          iff_false]
        omega
      | false => simp [hc]

def breaks : List Char :=
  ['\r', '\n', '\u0085', '\u2028', '\u2029']

theorem mem_breaks {c : Char} (h : isBreak c = true) : c ∈ breaks := by
  simpa [isBreak, breaks, or_assoc] using h

/-- A class of characters that none of the line breaks belongs to. -/
theorem isBreak_eq_false_of {p : Char → Bool} {c : Char} (hp : breaks.any p = false)
    (h : p c = true) : isBreak c = false := by
  rw [Bool.eq_false_iff]
  intro hbreak
  rw [List.any_eq_false] at hp
  exact hp c (mem_breaks hbreak) h

namespace Cursor

/-! Ways through a text -/

/-- What a line break is made of, and the mark behind it. -/
structure PassesBreak (c next : Cursor) (passed : List Char) : Prop where
  rest : c.rest = passed ++ next.rest
  mark : next.mark = ⟨c.mark.index + passed.length, c.mark.line + 1, 0⟩
  count : breakCount passed = 1
  whole : ¬ SplitsBreak passed next.rest

theorem passesBreak_of_lineBreak? {c next : Cursor} {x : Char}
    (h : c.lineBreak? = some (x, next)) : ∃ passed, c.PassesBreak next passed := by
  obtain ⟨rest, mark⟩ := c
  simp only [lineBreak?] at h
  split at h
  · cases h
    exact ⟨['\r', '\n'], rfl, rfl, rfl, by simp [SplitsBreak]⟩
  · rename_i b rest hpair
    have hpasses : isBreak b = true →
        PassesBreak ⟨b :: rest, mark⟩ ⟨rest, ⟨mark.index + 1, mark.line + 1, 0⟩⟩ [b] := by
      refine fun hb => ⟨rfl, rfl, by simp [breakCount, endsLine, hb], ?_⟩
      rintro ⟨hlast, hhead⟩
      obtain rfl : b = '\r' := by simpa using hlast
      obtain ⟨more, rfl⟩ := List.head?_eq_some_iff.mp hhead
      exact hpair more rfl rfl
    split at h
    · rename_i hseparator
      cases h
      refine ⟨[x], hpasses ?_⟩
      simp only [Bool.or_eq_true, decide_eq_true_eq] at hseparator
      rcases hseparator with rfl | rfl <;> decide
    · split at h
      · rename_i hbreak
        cases h
        exact ⟨[b], hpasses hbreak⟩
      · cases h
  · cases h

inductive Step : Cursor → Cursor → Prop
  | char {c : Cursor} {x : Char} {rest : List Char} (hrest : c.rest = x :: rest)
      (inLine : isBreak x = false) : Step c (c.skip 1)
  | lineBreak {c next : Cursor} {passed : List Char} (passes : c.PassesBreak next passed) :
      Step c next

/-- One cursor is reached from another by characters within a line and by line breaks. -/
def Moves : Cursor → Cursor → Prop :=
  Relation.ReflTransGen Step

theorem moves_lineBreak? {c next : Cursor} {x : Char} (h : c.lineBreak? = some (x, next)) :
    c.Moves next := by
  obtain ⟨passed, hpassed⟩ := passesBreak_of_lineBreak? h
  exact .single (.lineBreak hpassed)

theorem moves_skipLineBreak (c : Cursor) : c.Moves c.skipLineBreak := by
  unfold skipLineBreak
  split
  · rename_i h
    exact moves_lineBreak? h
  · exact .refl

theorem moves_skip {c : Cursor} {n : Nat} (hle : n ≤ c.rest.length)
    (hline : OneLine (c.rest.take n)) : c.Moves (c.skip n) := by
  induction n generalizing c with
  | zero => exact .refl
  | succ n ih =>
    obtain ⟨x, rest, hrest⟩ := List.exists_cons_of_length_pos (Nat.lt_of_lt_of_le n.succ_pos hle)
    rw [hrest, List.take_succ_cons, OneLine.cons_iff] at hline
    have hafter : (c.skip 1).rest = rest := by simp [skip, hrest]
    have hmore : n ≤ (c.skip 1).rest.length := by
      rw [hafter]
      simpa [hrest] using hle
    rw [Nat.add_comm, ← skip_skip]
    exact .head (.char hrest hline.1) (ih hmore (by rw [hafter]; exact hline.2))

theorem moves_skip_one {c : Cursor} {x : Char} (hhead : c.rest.head? = some x)
    (hx : isBreak x = false) : c.Moves (c.skip 1) := by
  obtain ⟨rest, hrest⟩ := List.head?_eq_some_iff.mp hhead
  exact .single (.char hrest hx)

theorem moves_prefix {c : Cursor} {word : List Char} (hword : word <+: c.rest)
    (hline : OneLine word) : c.Moves (c.skip word.length) := by
  apply moves_skip hword.length_le
  rwa [← List.prefix_iff_eq_take.mp hword]

theorem moves_span {p : Char → Bool} (c : Cursor) (hp : ∀ x, p x = true → isBreak x = false) :
    c.Moves (c.span p).2 := by
  apply moves_prefix (List.takeWhile_prefix p)
  intro x hx
  exact hp x (List.mem_takeWhile_imp hx)

theorem moves_skipToLineEnd (c : Cursor) : c.Moves c.skipToLineEnd :=
  c.moves_span fun x hx => by simpa using hx

theorem moves_skipBlanks (c : Cursor) : c.Moves c.skipBlanks :=
  c.moves_span fun _ => isBreak_eq_false_of (by decide)

/-! Where a cursor stands -/

/-- The mark of a cursor counts the characters and the lines of the text before it. -/
structure StandsIn (text : List Char) (c : Cursor) (before : List Char) : Prop where
  text_eq : text = before ++ c.rest
  index : c.mark.index = before.length
  line : c.mark.line = breakCount before
  start : c.mark.atStart = true → before = []
  whole : ¬ SplitsBreak before c.rest

variable {text before : List Char} {c next : Cursor}

theorem StandsIn.step (h : c.StandsIn text before) (hstep : Step c next) :
    ∃ passed, next.StandsIn text (before ++ passed) := by
  cases hstep with
  | @char x rest hrest inLine =>
    have hafter : (c.skip 1).rest = rest := by simp [skip, hrest]
    have hsplit : ¬ SplitsBreak before [x] := by
      intro hs
      apply h.whole
      rw [hrest]
      exact hs
    have hcount : breakCount [x] = 0 := by simp [breakCount, endsLine, inLine]
    refine ⟨[x], ?_, ?_, ?_, ?_, ?_⟩
    · rw [h.text_eq, hrest, hafter, List.append_assoc, List.singleton_append]
    · simp [skip, h.index]
    · rw [breakCount_append hsplit, hcount, ← h.line]
      rfl
    · intro hstart
      simp [skip, Mark.atStart] at hstart
    · rintro ⟨hlast, -⟩
      obtain rfl : x = '\r' := by simpa using hlast
      cases inLine
  | @lineBreak _ passed passes =>
    have hpos : passed ≠ [] := by
      rintro rfl
      cases passes.count
    have hsplit : ¬ SplitsBreak before passed := by
      rintro ⟨hlast, hhead⟩
      refine h.whole ⟨hlast, ?_⟩
      rw [passes.rest, List.head?_append, hhead]
      rfl
    refine ⟨passed, ?_, ?_, ?_, ?_, ?_⟩
    · rw [h.text_eq, passes.rest, List.append_assoc]
    · rw [passes.mark, h.index, List.length_append]
    · rw [passes.mark, breakCount_append hsplit, passes.count, ← h.line]
    · intro hstart
      simp [passes.mark, Mark.atStart] at hstart
    · rintro ⟨hlast, hhead⟩
      rw [List.getLast?_append, List.getLast?_eq_some_getLast hpos, Option.some_or,
        ← List.getLast?_eq_some_getLast hpos] at hlast
      exact passes.whole ⟨hlast, hhead⟩

theorem StandsIn.moves (h : c.StandsIn text before) (hmoves : c.Moves next) :
    ∃ passed, next.StandsIn text (before ++ passed) := by
  induction hmoves with
  | refl => exact ⟨[], by rwa [List.append_nil]⟩
  | tail _ hstep ih =>
    obtain ⟨passed, hpassed⟩ := ih
    obtain ⟨more, hmore⟩ := hpassed.step hstep
    exact ⟨passed ++ more, by rwa [← List.append_assoc]⟩

theorem standsIn_start (text : List Char) : (Cursor.start text).StandsIn text [] :=
  ⟨rfl, rfl, rfl, fun _ => rfl, nofun⟩

end Cursor

end StackTemplate.Yaml
