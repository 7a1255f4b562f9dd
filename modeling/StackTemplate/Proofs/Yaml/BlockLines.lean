import StackTemplate.Proofs.Yaml.PathWords
import StackTemplate.Proofs.Yaml.Standalone

/-!
Block mappings that are written a key to a line, and the tokens they are cut into.
-/

namespace StackTemplate.Yaml

open Lexer

/-! Lines -/

/-- A word behind a key, plain or between single quotes. -/
structure Word where
  text : List Char
  isQuoted : Bool
  isPath : IsPath text
  /-- A hyphen alone would be an indicator. -/
  starts : isQuoted = false → text ≠ [] ∧ text ≠ ['-']

namespace Word

def written (w : Word) : List Char :=
  if w.isQuoted then '\'' :: (w.text ++ ['\'']) else w.text

def style (w : Word) : ScalarStyle :=
  if w.isQuoted then .singleQuoted else .plain

end Word

/-- No first character of a key hides that a plain scalar starts, also where the line starts. -/
def isLineKey (key : List Char) : Bool :=
  key.all isPathChar && key.head?.any (fun c => c ≠ '-' && c ≠ '.') && key.length ≤ 1024

/-- A key, and a word behind its colon unless more lines follow. -/
structure BlockLine where
  column : Nat
  key : List Char
  value : Option Word
  isKey : isLineKey key = true := by decide

namespace BlockLine

def tail (line : BlockLine) : List Char :=
  match line.value with
  | some w => ' ' :: (w.written ++ ['\n'])
  | none => ['\n']

def text (line : BlockLine) : List Char :=
  List.replicate line.column ' ' ++ line.key ++ ':' :: line.tail

end BlockLine

/-! Rounds -/

/-- In `n` rounds the tokens are handed out. -/
def Rounds (n : Nat) (l : Lexer) (tokens : List Token) (next : Lexer) : Prop :=
  ∀ fuel, Tokens.collect (fuel + n) l =
    ⟨tokens ++ (Tokens.collect fuel next).list, (Tokens.collect fuel next).problem⟩

theorem Rounds.trans {m n : Nat} {l middle next : Lexer} {a b : List Token}
    (first : Rounds m l a middle) (second : Rounds n middle b next) :
    Rounds (n + m) l (a ++ b) next := by
  intro fuel
  rw [← Nat.add_assoc, first, second, List.append_assoc]

section

variable {c : Cursor} {indent : Int} {outer : List Int} {allowed : Bool} {tokens : List Token}
  {n : Nat}

theorem handOut_all :
    handOut tokens ⟨c, indent, outer, none, [], allowed, tokens, n⟩ =
      .ok (tokens, ⟨c, indent, outer, none, [], allowed, [], n + tokens.length⟩) := by
  induction tokens generalizing n with
  | nil => rfl
  | cons token tokens ih =>
    have hstep :
        handOut (token :: tokens) ⟨c, indent, outer, none, [], allowed, token :: tokens, n⟩ =
          (handOut tokens ⟨c, indent, outer, none, [], allowed, tokens, n + 1⟩).map
            fun found => (token :: found.1, found.2) := rfl
    rw [hstep, ih, List.length_cons, Nat.add_comm tokens.length, ← Nat.add_assoc]
    rfl

/-- Before the token that may be a key all others are handed out. -/
theorem handOut_pending {key : PendingKey} {token : Token}
    (hplace : key.token = n + tokens.length) :
    handOut (tokens ++ [token])
        ⟨c, indent, outer, some key, [], allowed, tokens ++ [token], n⟩ =
      .ok (tokens, ⟨c, indent, outer, some key, [], allowed, [token], n + tokens.length⟩) := by
  induction tokens generalizing n with
  | nil => simp [handOut, mustWait, hplace]
  | cons first tokens ih =>
    rw [List.length_cons, Nat.add_comm tokens.length, ← Nat.add_assoc] at hplace
    have hwait : mustWait ⟨c, indent, outer, some key, [], allowed, first :: (tokens ++ [token]),
        n⟩ = false := by
      simp only [mustWait, List.any_cons, Option.any_some, List.any_nil, Bool.or_false, hplace,
        beq_eq_false_iff_ne]
      omega
    rw [List.cons_append, handOut, hwait, List.length_cons, Nat.add_comm tokens.length,
      ← Nat.add_assoc]
    simp only [Bool.false_eq_true, if_false, ih hplace]
    rfl

/-- Without a pending key all that waits is handed out, and one more token is cut. -/
theorem rounds_of_advance {next : Lexer} (hgoing : ∀ token ∈ tokens, token.kind ≠ .streamEnd)
    (hnext : advance ⟨c, indent, outer, none, [], allowed, [], n + tokens.length⟩ = .ok next) :
    Rounds 1 ⟨c, indent, outer, none, [], allowed, tokens, n⟩ tokens next :=
  collect_more rfl handOut_all hgoing hnext

theorem collect_last (hend : ∃ token ∈ tokens, token.kind = .streamEnd) (fuel : Nat) :
    Tokens.collect (fuel + 1) ⟨c, indent, outer, none, [], allowed, tokens, n⟩ =
      ⟨tokens, none⟩ := by
  have hkeys : refreshKeys ⟨c, indent, outer, none, [], allowed, tokens, n⟩ =
      .ok ⟨c, indent, outer, none, [], allowed, tokens, n⟩ := rfl
  exact collect_end hkeys handOut_all hend fuel

end

/-! Indentation -/

/-- The indentations of block collections at these columns, the innermost first. -/
def indents (columns : List Nat) : List Int :=
  columns.map (fun n : Nat => (n : Int)) ++ [-1]

@[simp] theorem indents_cons (n : Nat) (columns : List Nat) :
    indents (n :: columns) = (n : Int) :: indents columns := rfl

/-- The columns of the blocks that end before a token at `column`. -/
def closedBy (column : Nat) (columns : List Nat) : List Nat :=
  columns.takeWhile (column < ·)

def leftBy (column : Nat) (columns : List Nat) : List Nat :=
  columns.dropWhile (column < ·)

/-- The columns of the open blocks after a key at `column`. -/
def openedBy (column : Nat) (columns : List Nat) : List Nat :=
  if (leftBy column columns).head? = some column then leftBy column columns
  else column :: leftBy column columns

def blockEnds (mark : Mark) (columns : List Nat) : List Token :=
  columns.map fun _ => ⟨.blockEnd, mark, mark⟩

section

variable {indent : Int} {outer : List Int} {columns : List Nat}

theorem closeBlocksFrom_eq (column : Nat) (mark : Mark) (h : indent :: outer = indents columns) :
    ∃ kept more, kept :: more = indents (leftBy column columns) ∧
      closeBlocksFrom column mark indent outer =
        (kept, more, blockEnds mark (closedBy column columns)) := by
  induction columns generalizing indent outer with
  | nil =>
    cases h
    exact ⟨-1, [], rfl, rfl⟩
  | cons n columns ih =>
    rw [indents_cons] at h
    obtain ⟨rfl, rfl⟩ := List.cons.inj h
    cases houter : indents columns with
    | nil => simp [indents] at houter
    | cons next outer =>
      rw [closeBlocksFrom]
      by_cases hn : column < n
      · obtain ⟨kept, more, hkept, hclose⟩ := ih houter.symm
        refine ⟨kept, more, ?_, ?_⟩
        · rw [hkept, leftBy, leftBy, List.dropWhile_cons_of_pos (by simpa using hn)]
        · rw [if_pos (by omega), hclose, closedBy, closedBy,
            List.takeWhile_cons_of_pos (by simpa using hn)]
          rfl
      · refine ⟨n, next :: outer, ?_, ?_⟩
        · rw [leftBy, List.dropWhile_cons_of_neg (by simpa using hn), indents_cons, houter]
        · rw [if_neg (by omega), closedBy, List.takeWhile_cons_of_neg (by simpa using hn)]
          rfl

theorem closeBlocksFrom_end (mark : Mark) (h : indent :: outer = indents columns) :
    closeBlocksFrom (-1) mark indent outer = (-1, [], blockEnds mark columns) := by
  induction columns generalizing indent outer with
  | nil =>
    cases h
    rfl
  | cons n columns ih =>
    rw [indents_cons] at h
    obtain ⟨rfl, rfl⟩ := List.cons.inj h
    cases houter : indents columns with
    | nil => simp [indents] at houter
    | cons next outer =>
      rw [closeBlocksFrom, if_pos (by omega), ih houter.symm]
      rfl

theorem le_of_head?_leftBy {column n : Nat} (h : (leftBy column columns).head? = some n) :
    n ≤ column := by
  have hhead := List.head?_dropWhile_not (fun n => decide (column < n)) columns
  rw [leftBy] at h
  rw [h] at hhead
  simpa using hhead

theorem head?_openedBy (column : Nat) (columns : List Nat) :
    (openedBy column columns).head? = some column := by
  rw [openedBy]
  split
  · assumption
  · rfl

theorem closes_nothing {column : Nat} (h : ∀ n, columns.head? = some n → n ≤ column) :
    closedBy column columns = [] ∧ leftBy column columns = columns := by
  cases columns with
  | nil => exact ⟨rfl, rfl⟩
  | cons n columns =>
    have hn : ¬ (decide (column < n)) = true := by simpa using h n rfl
    exact ⟨List.takeWhile_cons_of_neg hn, List.dropWhile_cons_of_neg hn⟩

theorem indents_leftBy {column : Nat} (h : indent :: outer = indents (leftBy column columns)) :
    if (leftBy column columns).head? = some column then indent = column else indent < column := by
  cases hleft : leftBy column columns with
  | nil =>
    rw [hleft] at h
    cases h
    rw [List.head?_nil, if_neg (by simp)]
    omega
  | cons n left =>
    have hn : n ≤ column := le_of_head?_leftBy (by rw [hleft]; rfl)
    rw [hleft] at h
    obtain ⟨rfl, -⟩ := List.cons.inj h
    simp only [List.head?_cons, Option.some.injEq]
    split
    · omega
    · omega

end

/-! Tokens -/

section

variable {c next : Cursor} {indent : Int} {outer : List Int} {columns : List Nat}
  {key : Option PendingKey} {allowed found : Bool} {n : Nat}

theorem advance_eq (hskip : skipToToken false (c.rest.length + 1) allowed c = (found, next))
    (hkey : refresh next.mark key = .ok key) (h : indent :: outer = indents columns)
    (waiting : List Token) :
    ∃ kept more, kept :: more = indents (leftBy next.mark.column columns) ∧
      advance ⟨c, indent, outer, key, [], allowed, waiting, n⟩ =
        cutToken ⟨next, kept, more, key, [], found,
          waiting ++ blockEnds next.mark (closedBy next.mark.column columns), n⟩ := by
  obtain ⟨kept, more, hkept, hclose⟩ := closeBlocksFrom_eq next.mark.column next.mark h
  refine ⟨kept, more, hkept, ?_⟩
  have hflow : inFlow ⟨c, indent, outer, key, [], allowed, waiting, n⟩ = false := rfl
  have hkeys : refreshKeys ⟨next, indent, outer, key, [], found, waiting, n⟩ =
      .ok ⟨next, indent, outer, key, [], found, waiting, n⟩ := by
    simp [refreshKeys, hkey, bind, Except.bind, pure, Except.pure]
  simp only [advance, hflow, hskip, moveTo, hkeys]
  simp only [bind, Except.bind, closeBlocks, inFlow, List.isEmpty_nil, Bool.not_true,
    Bool.false_eq_true, if_false, hclose]

theorem plain_key {text tail : List Char} {waiting : List Token} (hkey : isLineKey text = true)
    (hrest : c.rest = text ++ ':' :: tail) (htail : startsGap tail = true) :
    cutToken ⟨c, indent, outer, none, [], true, waiting, n⟩ =
      .ok ⟨c.skip text.length, indent, outer,
        some ⟨n + waiting.length, indent == c.mark.column, c.mark⟩, [], false,
        waiting ++ [⟨.scalar text .plain, c.mark, (c.skip text.length).mark⟩], n⟩ := by
  simp only [isLineKey, Bool.and_eq_true, List.all_eq_true, decide_eq_true_eq] at hkey
  obtain ⟨⟨hpath, hhead⟩, -⟩ := hkey
  cases text with
  | nil => cases hhead
  | cons x text =>
    simp only [List.head?_cons, Option.any_some, Bool.and_eq_true, decide_eq_true_eq] at hhead
    have hmark : c.atDocumentMark = false := atDocumentMark_of_ne hrest hhead.1 hhead.2
    have hscalar := plainScalar_key hpath (List.cons_ne_nil _ _) hrest htail hmark
      (indent + 1).toNat
    have hplain : plain ⟨c, indent, outer, none, [], true, waiting, n⟩ =
        plainScalar false (indent + 1).toNat c >>= fun s => .ok ⟨s.next, indent, outer,
          some ⟨n + waiting.length, indent == c.mark.column, c.mark⟩, [], s.broken,
          waiting ++ [⟨.scalar s.text .plain, c.mark, s.stop⟩], n⟩ := rfl
    rw [cutToken_plain hrest hmark (hpath x List.mem_cons_self) fun h => absurd h hhead.1, hplain,
      hscalar]
    rfl

def blockStarts (mark : Mark) (columns : List Nat) : List Token :=
  if (leftBy mark.column columns).head? = some mark.column then []
  else [⟨.blockMappingStart, mark, mark⟩]

/-- The colon tells that the word is a key, and that a mapping starts if none is open there. -/
theorem valueMark_eq {mark : Mark} {token : Token} {required : Bool}
    (h : indent :: outer = indents (leftBy mark.column columns)) :
    ∃ more, (mark.column : Int) :: more = indents (openedBy mark.column columns) ∧
      valueMark ⟨c, indent, outer, some ⟨n, required, mark⟩, [], false, [token], n⟩ =
        .ok ⟨c.skip 1, mark.column, more, none, [], false,
          blockStarts mark columns ++
            [⟨.key, mark, mark⟩, token, ⟨.value, c.mark, (c.skip 1).mark⟩],
          n⟩ := by
  have hindent := indents_leftBy h
  by_cases hopen : (leftBy mark.column columns).head? = some mark.column
  · rw [if_pos hopen] at hindent
    subst hindent
    refine ⟨outer, ?_, ?_⟩
    · rw [openedBy, if_pos hopen, h]
    · rw [blockStarts, if_pos hopen]
      simp [valueMark, emitBefore, openBlock, cut, emit]
  · rw [if_neg hopen] at hindent
    refine ⟨indent :: outer, ?_, ?_⟩
    · rw [openedBy, if_neg hopen, indents_cons, h]
    · rw [blockStarts, if_neg hopen]
      simp [valueMark, emitBefore, openBlock, inFlow, cut, emit, hindent]

end

section

variable {c next : Cursor} {mark : Mark} {indent : Int} {outer : List Int} {columns : List Nat}
  {text tail : List Char} {allowed : Bool} {waiting ends : List Token} {token : Token} {n : Nat}

theorem rounds_word
    (hskip : skipToToken false (c.rest.length + 1) allowed c = (true, ⟨text ++ ':' :: tail, mark⟩))
    (hindents : indent :: outer = indents columns)
    (hgoing : ∀ token ∈ waiting, token.kind ≠ .streamEnd) (hkey : isLineKey text = true)
    (htail : startsGap tail = true) :
    ∃ kept more required stop m, kept :: more = indents (leftBy mark.column columns) ∧
      Rounds 1 ⟨c, indent, outer, none, [], allowed, waiting, n⟩ waiting
        ⟨Cursor.skip ⟨text ++ ':' :: tail, mark⟩ text.length, kept, more,
          some ⟨m + (blockEnds mark (closedBy mark.column columns)).length, required, mark⟩, [],
          false,
          blockEnds mark (closedBy mark.column columns) ++ [⟨.scalar text .plain, mark, stop⟩],
          m⟩ := by
  have hnone : refresh mark none = .ok none := rfl
  obtain ⟨kept, more, hkept, hadvance⟩ :=
    advance_eq (n := n + waiting.length) hskip hnone hindents []
  rw [List.nil_append, plain_key hkey rfl htail] at hadvance
  exact ⟨kept, more, _, _, _, hkept, rounds_of_advance hgoing hadvance⟩

/-- The colon is cut, and what waits for it is a key. -/
theorem rounds_colon {required : Bool} (hrest : c.rest = ':' :: tail)
    (htail : startsGap tail = true) (hcolumn : mark.column < c.mark.column)
    (hline : c.mark.line = mark.line) (hindex : c.mark.index ≤ mark.index + 1024)
    (hindents : indent :: outer = indents (leftBy mark.column columns))
    (hgoing : ∀ token ∈ ends, token.kind ≠ .streamEnd) :
    ∃ more, (mark.column : Int) :: more = indents (openedBy mark.column columns) ∧
      Rounds 1 ⟨c, indent, outer, some ⟨n + ends.length, required, mark⟩, [], false,
          ends ++ [token], n⟩ ends
        ⟨c.skip 1, mark.column, more, none, [], false,
          blockStarts mark columns ++
            [⟨.key, mark, mark⟩, token, ⟨.value, c.mark, (c.skip 1).mark⟩],
          n + ends.length⟩ := by
  have hfresh : refresh c.mark (some ⟨n + ends.length, required, mark⟩) =
      .ok (some ⟨n + ends.length, required, mark⟩) := by
    have hlived : outlived c.mark ⟨n + ends.length, required, mark⟩ = false := by
      simp only [outlived, hline, Bool.or_eq_false_iff, decide_eq_false_iff_not]
      omega
    simp only [refresh, hlived, Bool.false_eq_true, if_false]
  have hkeys : refreshKeys ⟨c, indent, outer, some ⟨n + ends.length, required, mark⟩, [], false,
      ends ++ [token], n⟩ = .ok ⟨c, indent, outer, some ⟨n + ends.length, required, mark⟩, [],
      false, ends ++ [token], n⟩ := by
    simp [refreshKeys, hfresh, bind, Except.bind, pure, Except.pure]
  have hstart : LineStart (':' :: tail) 0 (':' :: tail) := by
    refine ⟨rfl, fun x hx => ?_⟩
    cases hx
    exact ⟨rfl, by decide⟩
  have hskip := hstart.skipToToken_eq hrest c.rest.length false
  have hmark : c.atDocumentMark = false :=
    atDocumentMark_of_ne hrest (by decide) (by decide)
  have hfurther : ∀ m, (leftBy mark.column columns).head? = some m → m ≤ c.mark.column := by
    intro m hm
    have hle := le_of_head?_leftBy hm
    omega
  obtain ⟨hclosed, hleft⟩ := closes_nothing hfurther
  obtain ⟨kept, more, hkept, hadvance⟩ := advance_eq (n := n + ends.length) hskip hfresh hindents
    [token]
  rw [Cursor.skip_zero, hleft] at hkept
  rw [Cursor.skip_zero, hclosed, cutToken_colon hrest hmark rfl htail] at hadvance
  obtain ⟨opened, hopened, hvalue⟩ := valueMark_eq hkept
  refine ⟨opened, hopened, ?_⟩
  exact collect_more hkeys (handOut_pending rfl) hgoing (hadvance.trans hvalue)

end

/-- The next token comes at a column, and a key may start there. -/
def AtFront (column : Nat) (front : List Char) (c : Cursor) (allowed : Bool) : Prop :=
  ∃ mark : Mark, mark.column = column ∧
    skipToToken false (c.rest.length + 1) allowed c = (true, ⟨front, mark⟩)

theorem LineStart.atFront {text front : List Char} {column : Nat} {c : Cursor}
    (h : LineStart text column front) (hc : c.rest = '\n' :: text) (allowed : Bool) :
    AtFront column front c allowed := by
  refine ⟨_, ?_, (congrArg (skipToToken false · allowed c) ?_).trans
    (h.skipToToken_lineBreak hc text.length allowed)⟩
  · rfl
  · rw [hc]
    rfl

theorem LineStart.atFront_self {text front : List Char} {column : Nat} {c : Cursor}
    (h : LineStart text column front) (hc : c.rest = text) :
    AtFront (c.mark.column + column) front c true := by
  have hnext : c.skip column = ⟨front, (c.skip column).mark⟩ := by
    rw [← h.rest_skip hc]
  refine ⟨(c.skip column).mark, rfl, ?_⟩
  rw [← hnext]
  exact h.skipToToken_eq hc c.rest.length true

/-- Between two lines: what waits are no pending keys, and the next token comes first on its
line. -/
structure AtLine (columns : List Nat) (column : Nat) (front : List Char) (l : Lexer) : Prop where
  key : l.key = none
  outerKeys : l.outerKeys = []
  indents : l.indent :: l.outerIndents = indents columns
  going : ∀ token ∈ l.waiting, token.kind ≠ .streamEnd
  atFront : AtFront column front l.cursor l.keyAllowed

def keyKinds (columns : List Nat) (column : Nat) (key : List Char) : List Token.Kind :=
  (closedBy column columns).map (fun _ => .blockEnd) ++
    (if (leftBy column columns).head? = some column then [] else [.blockMappingStart]) ++
    [.key, .scalar key .plain, .value]

theorem kinds_blockStarts (mark : Mark) (columns : List Nat) :
    (blockStarts mark columns).map Token.kind =
      if (leftBy mark.column columns).head? = some mark.column then []
      else [.blockMappingStart] := by
  rw [blockStarts]
  split <;> rfl

theorem going_blockStarts (mark : Mark) (columns : List Nat) :
    ∀ token ∈ blockStarts mark columns, token.kind ≠ .streamEnd := by
  rw [blockStarts]
  split <;> simp

theorem kinds_blockEnds (mark : Mark) (columns : List Nat) :
    (blockEnds mark columns).map Token.kind = columns.map fun _ => .blockEnd := by
  simp [blockEnds]

theorem going_blockEnds (mark : Mark) (columns : List Nat) :
    ∀ token ∈ blockEnds mark columns, token.kind ≠ .streamEnd := by
  simp [blockEnds]

theorem AtLine.rounds_key {l : Lexer} {columns : List Nat} {column : Nat} {text tail : List Char}
    (hl : AtLine columns column (text ++ ':' :: tail) l) (hkey : isLineKey text = true)
    (htail : startsGap tail = true) :
    ∃ c more tokens waiting n, c.rest = tail ∧ column < c.mark.column ∧
      (column : Int) :: more = Yaml.indents (openedBy column columns) ∧
      (∀ token ∈ waiting, token.kind ≠ .streamEnd) ∧
      Rounds 2 l tokens ⟨c, column, more, none, [], false, waiting, n⟩ ∧
      tokens.map Token.kind ++ waiting.map Token.kind =
        l.waiting.map Token.kind ++ keyKinds columns column text := by
  obtain ⟨c, indent, outer, key, outerKeys, allowed, waiting, n⟩ := l
  obtain ⟨rfl, rfl, hindents, hgoing, mark, rfl, hskip⟩ := hl
  -- The word is cut in one round and waits; the colon of the next round makes it a key.
  obtain ⟨kept, left, required, stop, m, hkept, hword⟩ :=
    rounds_word hskip hindents hgoing hkey htail
  simp only [isLineKey, Bool.and_eq_true, decide_eq_true_eq] at hkey
  have hlength : 0 < text.length := by
    apply List.length_pos_iff.mpr
    rintro rfl
    cases hkey.1.2
  have hrest : (Cursor.skip ⟨text ++ ':' :: tail, mark⟩ text.length).rest = ':' :: tail :=
    Cursor.rest_skip rfl
  have hcolumn : mark.column < mark.column + text.length := Nat.lt_add_of_pos_right hlength
  obtain ⟨more, hmore, hcolon⟩ := rounds_colon hrest htail hcolumn rfl
    (Nat.add_le_add_left hkey.2 _) hkept (going_blockEnds mark _)
  refine ⟨_, more, _, _, _, ?_, ?_, hmore, ?_, hword.trans hcolon, ?_⟩
  · simp [Cursor.skip]
  · simp only [Cursor.skip]
    omega
  · exact List.forall_mem_append.mpr ⟨going_blockStarts mark columns, by simp⟩
  · simp [kinds_blockEnds, kinds_blockStarts, keyKinds]

namespace Word

variable {w : Word} {c : Cursor} {rest front : List Char}

def kind (w : Word) : Token.Kind :=
  .scalar w.text w.style

theorem lineStart (w : Word) (rest : List Char) :
    LineStart (' ' :: (w.written ++ '\n' :: rest)) 1 (w.written ++ '\n' :: rest) where
  text_eq := rfl
  solid x hx := by
    rw [written] at hx
    split at hx
    · cases hx
      exact ⟨rfl, by decide⟩
    · rename_i hplain
      obtain ⟨y, more, hy⟩ := List.exists_cons_of_ne_nil (w.starts (Bool.eq_false_iff.mpr hplain)).1
      have hpath := w.isPath y (by rw [hy]; exact List.mem_cons_self)
      rw [hy] at hx
      cases hx
      exact ⟨isGap_of_isPathChar hpath, ne_of_isPathChar hpath (by decide)⟩

variable {indent column : Nat} {outer : List Int} {waiting : List Token} {n : Nat}

theorem cutToken_quoted (hquoted : w.isQuoted = true) (hrest : c.rest = w.written ++ '\n' :: rest)
    (hmark : c.atDocumentMark = false) :
    (c.skip (w.text.length + 2)).rest = '\n' :: rest ∧
      cutToken ⟨c, indent, outer, none, [], false, waiting, n⟩ =
        .ok ⟨c.skip (w.text.length + 2), indent, outer, none, [], false,
          waiting ++ [⟨w.kind, c.mark, (c.skip (w.text.length + 2)).mark⟩], n⟩ := by
  rw [written, hquoted] at hrest
  simp only [if_true, List.cons_append, List.append_assoc, List.nil_append] at hrest
  have hscalar := quotedScalar_path w.isPath hrest (by simp)
  have hcut : quoted ⟨c, indent, outer, none, [], false, waiting, n⟩ .singleQuoted =
      quotedScalar true c >>= fun found => .ok ⟨found.2, indent, outer, none, [], false,
        waiting ++ [⟨.scalar found.1 .singleQuoted, c.mark, found.2.mark⟩], n⟩ := rfl
  refine ⟨by simp [Cursor.skip, hrest], ?_⟩
  rw [cutToken_single hrest hmark rfl, hcut, hscalar, kind, style, hquoted]
  rfl

/-- Only the next line shows that a plain word is at its end. -/
theorem cutToken_bare (hquoted : w.isQuoted = false) (hrest : c.rest = w.written ++ '\n' :: rest)
    (hmark : c.atDocumentMark = false) (hstart : LineStart rest column front)
    (hindent : column ≤ indent) :
    cutToken ⟨c, indent, outer, none, [], false, waiting, n⟩ =
      .ok ⟨⟨front, ⟨c.mark.index + w.text.length + 1 + column, c.mark.line + 1, column⟩⟩, indent,
        outer, none, [], true,
        waiting ++ [⟨w.kind, c.mark, (c.skip w.text.length).mark⟩], n⟩ := by
  rw [written, hquoted] at hrest
  simp only [Bool.false_eq_true, if_false] at hrest
  obtain ⟨hne, hhyphen⟩ := w.starts hquoted
  have hscalar := plainScalar_lineEnd w.isPath hne hrest hstart
    (show column < ((indent : Int) + 1).toNat by omega) hmark
  have hcut : plain ⟨c, indent, outer, none, [], false, waiting, n⟩ =
      plainScalar false ((indent : Int) + 1).toNat c >>= fun s => .ok ⟨s.next, indent, outer,
        none, [], s.broken, waiting ++ [⟨.scalar s.text .plain, c.mark, s.stop⟩], n⟩ := rfl
  have hplain : cutToken ⟨c, indent, outer, none, [], false, waiting, n⟩ =
      plain ⟨c, indent, outer, none, [], false, waiting, n⟩ := by
    obtain ⟨x, more, hx⟩ := List.exists_cons_of_ne_nil hne
    have hpath := w.isPath
    rw [hx, IsPath, List.forall_mem_cons] at hpath
    rw [hx] at hrest
    refine cutToken_plain hrest hmark hpath.1 fun hfirst => ?_
    cases more with
    | nil => exact absurd (hx.trans (by rw [hfirst])) hhyphen
    | cons y more => exact isGap_of_isPathChar (hpath.2 y List.mem_cons_self)
  rw [hplain, hcut, hscalar, kind, style, hquoted]
  rfl

theorem cutToken_eq (hrest : c.rest = w.written ++ '\n' :: rest) (hcolumn : 0 < c.mark.column)
    (hstart : LineStart rest column front) (hindent : column ≤ indent) :
    ∃ next allowed stop,
      cutToken ⟨c, indent, outer, none, [], false, waiting, n⟩ =
        .ok ⟨next, indent, outer, none, [], allowed, waiting ++ [⟨w.kind, c.mark, stop⟩], n⟩ ∧
      AtFront column front next allowed := by
  have hmark : c.atDocumentMark = false := by
    have hne : c.mark.column ≠ 0 := Nat.ne_of_gt hcolumn
    simp [Cursor.atDocumentMark, hne]
  cases hquoted : w.isQuoted with
  | true =>
    obtain ⟨hend, hcut⟩ := cutToken_quoted hquoted hrest hmark
    exact ⟨_, _, _, hcut, hstart.atFront hend false⟩
  | false =>
    have hfront : LineStart front 0 front := ⟨rfl, hstart.solid⟩
    exact ⟨_, _, _, cutToken_bare hquoted hrest hmark hstart hindent,
      hfront.atFront_self (c := ⟨front, ⟨_, _, column⟩⟩) rfl⟩

end Word

/-- What is cut on a line; the blocks that end before it come first. -/
def BlockLine.kinds (line : BlockLine) (columns : List Nat) : List Token.Kind :=
  keyKinds columns line.column line.key ++ (line.value.map Word.kind).toList

section

variable {l : Lexer} {columns : List Nat} {line : BlockLine} {rest front : List Char}
  {column : Nat}

theorem AtLine.rounds_line
    (h : AtLine columns line.column (line.key ++ ':' :: (line.tail ++ rest)) l)
    (hstart : LineStart rest column front) (hvalue : line.value.isSome → column ≤ line.column) :
    ∃ m tokens next, m ≤ 3 ∧ Rounds m l tokens next ∧
      AtLine (openedBy line.column columns) column front next ∧
      tokens.map Token.kind ++ next.waiting.map Token.kind =
        l.waiting.map Token.kind ++ line.kinds columns := by
  have htail : startsGap (line.tail ++ rest) = true := by
    rw [BlockLine.tail]
    split <;> rfl
  obtain ⟨c, more, tokens, waiting, n, hrest, hcolumn, hindents, hgoing, hrounds, hkinds⟩ :=
    h.rounds_key line.isKey htail
  cases hv : line.value with
  | none =>
    have hbreak : c.rest = '\n' :: rest := by
      rw [hrest, BlockLine.tail, hv]
      rfl
    refine ⟨2, tokens, _, by omega, hrounds,
      ⟨rfl, rfl, hindents, hgoing, hstart.atFront hbreak _⟩, ?_⟩
    rw [hkinds, BlockLine.kinds, hv]
    simp
  | some w =>
    have hblank : c.rest = ' ' :: (w.written ++ '\n' :: rest) := by
      rw [hrest, BlockLine.tail, hv]
      simp
    have hskip := (w.lineStart rest).skipToToken_eq hblank c.rest.length false
    have hnone : refresh (c.skip 1).mark none = .ok none := rfl
    obtain ⟨kept, left, hkept, hadvance⟩ :=
      advance_eq (n := n + waiting.length) hskip hnone hindents []
    have hfurther : ∀ m, (openedBy line.column columns).head? = some m →
        m ≤ (c.skip 1).mark.column := by
      intro m hm
      rw [head?_openedBy] at hm
      cases hm
      simp only [Cursor.skip]
      omega
    obtain ⟨hclosed, hleft⟩ := closes_nothing hfurther
    rw [hleft, ← hindents] at hkept
    obtain ⟨rfl, rfl⟩ := List.cons.inj hkept
    rw [hclosed] at hadvance
    have hword : (c.skip 1).rest = w.written ++ '\n' :: rest := by
      simp [Cursor.skip, hblank]
    have hinside : 0 < (c.skip 1).mark.column := Nat.succ_pos _
    obtain ⟨next, allowed, stop, hcut, hfront⟩ :=
      w.cutToken_eq hword hinside hstart (hvalue (by rw [hv]; rfl))
    have hlast := rounds_of_advance hgoing (hadvance.trans hcut)
    refine ⟨3, tokens ++ waiting, _, Nat.le_refl 3, hrounds.trans hlast,
      ⟨rfl, rfl, hindents, ?_, hfront⟩, ?_⟩
    · simp [blockEnds, Word.kind]
    · rw [List.map_append, hkinds, BlockLine.kinds, hv]
      simp [blockEnds]

end

theorem AtLine.rounds_end {l : Lexer} {columns : List Nat} (h : AtLine columns 0 [] l)
    (fuel : Nat) :
    ∃ tokens, Tokens.collect (fuel + 2) l = ⟨tokens, none⟩ ∧
      tokens.map Token.kind =
        l.waiting.map Token.kind ++ columns.map (fun _ => .blockEnd) ++ [.streamEnd] := by
  obtain ⟨c, indent, outer, key, outerKeys, allowed, waiting, n⟩ := l
  obtain ⟨rfl, rfl, hindents, hgoing, mark, hcolumn, hskip⟩ := h
  have hnone : refresh mark none = .ok none := rfl
  obtain ⟨kept, more, hkept, hadvance⟩ :=
    advance_eq (n := n + waiting.length) hskip hnone hindents []
  have hend : cutToken ⟨⟨[], mark⟩, kept, more, none, [], true,
      blockEnds mark (closedBy mark.column columns), n + waiting.length⟩ =
      .ok ⟨⟨[], mark⟩, -1, [], none, [], false, blockEnds mark (closedBy mark.column columns) ++
        blockEnds mark (leftBy mark.column columns) ++ [⟨.streamEnd, mark, mark⟩],
        n + waiting.length⟩ := by
    simp [cutToken, streamEnd, hcolumn, closeBlocks, inFlow, closeBlocksFrom_end mark hkept,
      dropKey, emit, bind, Except.bind, pure, Except.pure]
  have hlast := rounds_of_advance hgoing (hadvance.trans hend) (fuel + 1)
  have hout : ∃ token ∈ blockEnds mark (closedBy mark.column columns) ++
      blockEnds mark (leftBy mark.column columns) ++ [⟨.streamEnd, mark, mark⟩],
      token.kind = .streamEnd := ⟨_, List.mem_append_right _ List.mem_cons_self, rfl⟩
  rw [collect_last hout] at hlast
  refine ⟨_, hlast, ?_⟩
  have hall : blockEnds mark (closedBy mark.column columns) ++
      blockEnds mark (leftBy mark.column columns) = blockEnds mark columns := by
    rw [blockEnds, blockEnds, ← List.map_append, closedBy, leftBy, List.takeWhile_append_dropWhile,
      blockEnds]
  rw [hall]
  simp [kinds_blockEnds]

/-! Whole texts -/

namespace BlockLine

def textOf (lines : List BlockLine) : List Char :=
  lines.flatMap text

def columnOf : List BlockLine → Nat
  | [] => 0
  | line :: _ => line.column

def frontOf : List BlockLine → List Char
  | [] => []
  | line :: rest => line.key ++ ':' :: (line.tail ++ textOf rest)

/-- What follows a value is not further in than its key. -/
def Ordered : List BlockLine → Prop
  | [] => True
  | line :: rest => (line.value.isSome → columnOf rest ≤ line.column) ∧ Ordered rest

/-- The tokens of the lines when blocks are open at these columns. -/
def kindsOf : List Nat → List BlockLine → List Token.Kind
  | columns, [] => columns.map (fun _ => .blockEnd) ++ [.streamEnd]
  | columns, line :: rest => line.kinds columns ++ kindsOf (openedBy line.column columns) rest

theorem exists_cons_key (line : BlockLine) :
    ∃ x rest, line.key = x :: rest ∧ isPathChar x = true := by
  have hkey := line.isKey
  simp only [isLineKey, Bool.and_eq_true] at hkey
  cases hk : line.key with
  | nil =>
    rw [hk] at hkey
    cases hkey.1.2
  | cons x rest =>
    rw [hk, List.all_cons, Bool.and_eq_true] at hkey
    exact ⟨x, rest, rfl, hkey.1.1.1⟩

theorem lineStart_textOf (lines : List BlockLine) :
    LineStart (textOf lines) (columnOf lines) (frontOf lines) := by
  cases lines with
  | nil => exact ⟨rfl, nofun⟩
  | cons line rest =>
    obtain ⟨x, more, hkey, hx⟩ := line.exists_cons_key
    have htext : textOf (line :: rest) =
        List.replicate line.column ' ' ++ frontOf (line :: rest) := by
      simp [textOf, text, frontOf]
    rw [htext, frontOf, hkey]
    exact .of_isPathChar hx line.column

theorem three_le_length_text (line : BlockLine) : 3 ≤ line.text.length := by
  obtain ⟨x, more, hkey, -⟩ := line.exists_cons_key
  have htail : 1 ≤ line.tail.length := by
    rw [tail]
    split <;> simp
  simp only [text, hkey, List.length_append, List.length_cons]
  omega

end BlockLine

open BlockLine

theorem AtLine.rounds_lines {l : Lexer} {columns : List Nat} {lines : List BlockLine}
    (h : AtLine columns (columnOf lines) (frontOf lines) l) (hordered : Ordered lines) :
    ∃ m, m ≤ (textOf lines).length ∧ ∀ fuel, ∃ tokens,
      Tokens.collect (fuel + 2 + m) l = ⟨tokens, none⟩ ∧
        tokens.map Token.kind = l.waiting.map Token.kind ++ kindsOf columns lines := by
  -- Each line takes the lexer from its own start to the start of the next.
  induction lines generalizing l columns with
  | nil =>
    refine ⟨0, Nat.zero_le _, fun fuel => ?_⟩
    obtain ⟨tokens, hcollect, hkinds⟩ := h.rounds_end fuel
    exact ⟨tokens, hcollect, by rw [hkinds, kindsOf, List.append_assoc]⟩
  | cons line rest ih =>
    obtain ⟨m, first, next, hm, hrounds, hnext, hfirst⟩ :=
      h.rounds_line (lineStart_textOf rest) hordered.1
    obtain ⟨k, hk, hrest⟩ := ih hnext hordered.2
    refine ⟨k + m, ?_, fun fuel => ?_⟩
    · have hline := line.three_le_length_text
      simp only [textOf, List.flatMap_cons, List.length_append] at hk ⊢
      omega
    · obtain ⟨tokens, hcollect, hkinds⟩ := hrest fuel
      refine ⟨first ++ tokens, ?_, ?_⟩
      · rw [← Nat.add_assoc, hrounds, hcollect]
      · rw [List.map_append, hkinds, kindsOf, ← List.append_assoc, hfirst, List.append_assoc]

namespace BlockLine

theorem mem_text {line : BlockLine} {c : Char} (hc : c ∈ line.text) :
    isPathChar c = true ∨ c ∈ [' ', ':', '\n', '\''] := by
  have hkey := line.isKey
  simp only [isLineKey, Bool.and_eq_true, List.all_eq_true] at hkey
  rw [text, List.mem_append, List.mem_append, List.mem_cons, List.mem_replicate] at hc
  rcases hc with (⟨-, rfl⟩ | hc) | rfl | hc
  · decide
  · exact .inl (hkey.1.1 c hc)
  · decide
  · rw [tail] at hc
    split at hc
    · rename_i w _
      have hpath := w.isPath c
      rw [Word.written] at hc
      split at hc
      · simp only [List.mem_cons, List.mem_append, List.not_mem_nil, or_false] at hc ⊢
        grind
      · simp only [List.mem_cons, List.mem_append, List.not_mem_nil, or_false] at hc ⊢
        grind
    · simp only [List.mem_cons, List.not_mem_nil, or_false] at hc ⊢
      exact .inr (.inr (.inr (.inl hc)))

theorem of_mem_textOf {lines : List BlockLine} {p : Char → Bool}
    (hpath : ∀ c, isPathChar c = true → p c = true)
    (hmarks : [' ', ':', '\n', '\''].all p = true) : ∀ c ∈ textOf lines, p c = true := by
  intro c hc
  obtain ⟨line, -, hline⟩ := List.mem_flatMap.mp hc
  rcases mem_text hline with hc | hc
  · exact hpath c hc
  · exact List.all_eq_true.mp hmarks c hc

theorem tokens_ofText (lines : List BlockLine) (hordered : Ordered lines) :
    ∃ tokens, Tokens.ofText (textOf lines) = ⟨tokens, none⟩ ∧
      tokens.map Token.kind = .streamStart :: kindsOf [] lines := by
  have hall : (textOf lines).all Tokens.isAllowed = true :=
    List.all_eq_true.mpr (of_mem_textOf (fun c => isAllowed_of_isPathChar) (by decide))
  have hstart := lineStart_textOf lines
  have hcursor : Lexer.start (textOf lines) = ⟨.start (textOf lines), -1, [], none, [], true,
      [⟨.streamStart, .start, .start⟩], 0⟩ := by
    have hhead : (textOf lines).head? ≠ some '\ufeff' := by
      intro hc
      have hmark := of_mem_textOf (p := (· ≠ '\ufeff'))
        (fun c h => decide_eq_true (ne_of_isPathChar h (by decide))) (by decide) _
        (List.mem_of_head? hc)
      exact absurd rfl (of_decide_eq_true hmark)
    rw [Lexer.start, if_neg hhead]
  have hat : AtLine [] (columnOf lines) (frontOf lines) (Lexer.start (textOf lines)) := by
    rw [hcursor]
    refine ⟨rfl, rfl, rfl, by simp, ?_⟩
    simpa [Cursor.start, Mark.start] using hstart.atFront_self (c := .start (textOf lines)) rfl
  obtain ⟨m, hm, hrounds⟩ := hat.rounds_lines hordered
  obtain ⟨tokens, hcollect, hkinds⟩ := hrounds ((textOf lines).length - m)
  refine ⟨tokens, ?_, ?_⟩
  · rw [Tokens.ofText, if_pos hall, ← hcollect]
    congr 1
    omega
  · rw [hkinds, hcursor]
    rfl

end BlockLine

end StackTemplate.Yaml
