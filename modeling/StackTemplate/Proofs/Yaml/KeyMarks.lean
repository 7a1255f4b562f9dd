import StackTemplate.Proofs.Yaml.TagScans
import StackTemplate.Yaml.Token.Lexer

/-!
Where a key stands that a missing colon is blamed on. The lexer keeps the marks of the keys that may
still get their colon, and each of them is a place in the text with the line that the breaks before
it count.
-/

namespace StackTemplate.Yaml

variable {text : List Char}

/-! Marks of keys -/

/-- A mark of a character of the text, on the line that the breaks before it count. -/
structure Mark.PointsInto (text : List Char) (mark : Mark) : Prop where
  inside : mark.index < text.length
  line : mark.line = breakCount (text.take mark.index)

structure PendingKey.PointsInto (text : List Char) (key : PendingKey) : Prop where
  mark : key.mark.PointsInto text
  required : key.required = true → key.mark.atStart = false

/-- A missing colon is blamed on a key of the text that does not open it. -/
def Malformed.KeyIn (text : List Char) : Malformed → Prop
  | missingColon key _ => key.PointsInto text ∧ key.atStart = false
  | _ => True

theorem Malformed.keyIn_of_not_missingColon {e : Malformed} (h : e.isMissingColon = false) :
    e.KeyIn text := by
  unfold KeyIn
  split
  · cases h
  · trivial

theorem Yields.of_scans {α : Type} {P : α → Prop} {x : Except Malformed α} (h : Scans P x) :
    Yields (Malformed.KeyIn text) P x :=
  h.blame fun _ => Malformed.keyIn_of_not_missingColon

namespace Cursor

variable {c next : Cursor}

/-- Before the end of the text, the mark counts what was passed. -/
def Stands (text : List Char) (c : Cursor) : Prop :=
  c.rest ≠ [] → ∃ before, c.StandsIn text before

theorem Step.rest_ne_nil (h : Step c next) : c.rest ≠ [] := by
  cases h with
  | char hrest => simp [hrest]
  | lineBreak passes =>
    intro hnil
    have hrest := passes.rest
    have hcount := passes.count
    rw [hnil] at hrest
    rw [(List.append_eq_nil_iff.mp hrest.symm).1] at hcount
    cases hcount

theorem Step.index_le (h : Step c next) : c.mark.index ≤ next.mark.index := by
  cases h with
  | char => exact Nat.le_add_right _ _
  | lineBreak passes =>
    rw [passes.mark]
    exact Nat.le_add_right _ _

theorem Moves.index_le (h : c.Moves next) : c.mark.index ≤ next.mark.index := by
  induction h with
  | refl => exact Nat.le_refl _
  | tail _ hstep ih => exact Nat.le_trans ih hstep.index_le

theorem Stands.moves (h : c.Stands text) (hmoves : c.Moves next) : next.Stands text := by
  induction hmoves with
  | refl => exact h
  | tail _ hstep ih =>
    intro _
    obtain ⟨before, hbefore⟩ := ih hstep.rest_ne_nil
    obtain ⟨passed, hpassed⟩ := hbefore.step hstep
    exact ⟨before ++ passed, hpassed⟩

theorem StandsIn.pointsInto {before : List Char} (h : c.StandsIn text before)
    (hrest : c.rest ≠ []) : c.mark.PointsInto text := by
  have htake : text.take c.mark.index = before := by
    rw [h.text_eq, h.index, List.take_left]
  refine ⟨?_, by rw [htake, h.line]⟩
  have hpos := List.length_pos_iff.mpr hrest
  rw [h.index, h.text_eq, List.length_append]
  omega

end Cursor

namespace Lexer

open Cursor

variable {l : Lexer}

/-- What holds of the keys, also while a block is being opened. -/
structure Keyed (text : List Char) (l : Lexer) : Prop where
  cursor : l.cursor.Stands text
  keys : ∀ key, some key ∈ l.key :: l.outerKeys → key.PointsInto text

/-- Blocks are open only behind the first character, so that no key has to open the text. -/
structure Sound (text : List Char) (l : Lexer) : Prop extends Keyed text l where
  indents : ∀ column ∈ l.indent :: l.outerIndents, 0 ≤ column → 0 < l.cursor.mark.index

/-! Pending keys -/

theorem Keyed.keyIn (h : l.Keyed text) {key : PendingKey} (found : Mark)
    (hkey : some key ∈ l.key :: l.outerKeys) (hrequired : key.required = true) :
    (Malformed.missingColon key.mark found).KeyIn text :=
  ⟨(h.keys key hkey).mark, (h.keys key hkey).required hrequired⟩

theorem Keyed.withKey (h : l.Keyed text) {key : Option PendingKey}
    (hkey : ∀ k, key = some k → k.PointsInto text) : Keyed text { l with key := key } where
  cursor := h.cursor
  keys k hk := by
    rcases List.mem_cons.mp hk with hk | hk
    · exact hkey k hk.symm
    · exact h.keys k (List.mem_cons_of_mem _ hk)

theorem Sound.withKey (h : l.Sound text) {key : Option PendingKey}
    (hkey : ∀ k, key = some k → k.PointsInto text) : Sound text { l with key := key } :=
  ⟨h.toKeyed.withKey hkey, h.indents⟩

theorem Sound.withoutKey (h : l.Sound text) : Sound text { l with key := none } :=
  h.withKey nofun

theorem Keyed.withoutKey (h : l.Keyed text) : Keyed text { l with key := none } :=
  h.withKey nofun

theorem Keyed.dropKey (h : l.Keyed text) :
    Yields (Malformed.KeyIn text) (· = { l with key := none }) l.dropKey := by
  unfold Lexer.dropKey
  split
  · rename_i key hkey
    refine .ite (fun hrequired => ?_) fun _ => rfl
    exact h.keyIn l.cursor.mark (by rw [hkey]; exact List.mem_cons_self) hrequired
  · rename_i hkey
    exact congrArg (fun key => { l with key := key }) hkey

theorem yields_refresh {at_ : Mark} {key : Option PendingKey}
    (hkey : ∀ k, key = some k → k.PointsInto text) :
    Yields (Malformed.KeyIn text) (fun key => ∀ k, key = some k → k.PointsInto text)
      (refresh at_ key) := by
  unfold refresh
  split
  · rename_i k
    refine .ite (fun _ => ?_) fun _ => hkey
    refine .ite (fun hrequired => ?_) fun _ => nofun
    exact ⟨(hkey k rfl).mark, (hkey k rfl).required hrequired⟩
  · exact nofun

theorem yields_refreshAll {at_ : Mark} {keys : List (Option PendingKey)}
    (hkeys : ∀ k, some k ∈ keys → k.PointsInto text) :
    Yields (Malformed.KeyIn text) (fun keys => ∀ k, some k ∈ keys → k.PointsInto text)
      (keys.mapM (refresh at_)) := by
  induction keys with
  | nil => exact nofun
  | cons key keys ih =>
    rw [List.mapM_cons]
    apply (yields_refresh fun k hk => hkeys k (by rw [hk]; exact List.mem_cons_self)).bind
    intro fresh hfresh
    apply (ih fun k hk => hkeys k (List.mem_cons_of_mem _ hk)).bind
    intro others hothers k hk
    rcases List.mem_cons.mp hk with hk | hk
    · exact hfresh k hk.symm
    · exact hothers k hk

theorem Sound.refreshKeys (h : l.Sound text) :
    Yields (Malformed.KeyIn text) (fun m => m.Sound text ∧ m.cursor = l.cursor) l.refreshKeys := by
  have houter : ∀ k, some k ∈ l.outerKeys.reverse → k.PointsInto text :=
    fun k hk => h.keys k (List.mem_cons_of_mem _ (List.mem_reverse.mp hk))
  apply (yields_refreshAll houter).bind
  intro outer houter
  apply (yields_refresh fun k hk => h.keys k (by rw [hk]; exact List.mem_cons_self)).bind
  intro key hkey
  refine ⟨⟨⟨h.cursor, fun k hk => ?_⟩, h.indents⟩, rfl⟩
  rcases List.mem_cons.mp hk with hk | hk
  · exact hkey k hk.symm
  · exact houter k (List.mem_reverse.mp hk)

/-- A key has to follow only inside a block, so it does not open the text. -/
theorem Sound.saveKey (h : l.Sound text) (hrest : l.cursor.rest ≠ []) :
    Yields (Malformed.KeyIn text) (fun m => m.Sound text ∧ m.cursor = l.cursor) l.saveKey := by
  refine .ite (fun _ => ?_) fun _ => ⟨h, rfl⟩
  apply h.dropKey.bind
  rintro _ rfl
  refine ⟨h.withKey fun k hk => ?_, rfl⟩
  cases hk
  obtain ⟨before, hbefore⟩ := h.cursor hrest
  refine ⟨hbefore.pointsInto hrest, fun hrequired => ?_⟩
  have hcolumn : l.indent = l.cursor.mark.column := by
    simpa using (Bool.and_eq_true_iff.mp hrequired).2
  have hindex := h.indents l.indent List.mem_cons_self (by omega)
  rw [Bool.eq_false_iff]
  intro hstart
  rw [hbefore.index, hbefore.start hstart] at hindex
  exact Nat.lt_irrefl 0 hindex

/-! Blocks -/

theorem openBlock_eq (column : Nat) (before : Option Nat) (kind : Token.Kind) (mark : Mark) :
    ∃ indent outer waiting, l.openBlock column before kind mark =
      { l with indent := indent, outerIndents := outer, waiting := waiting } := by
  unfold openBlock
  split
  · cases before with
    | none => exact ⟨_, _, _, rfl⟩
    | some n => exact ⟨_, _, _, rfl⟩
  · exact ⟨_, _, _, rfl⟩

theorem closeBlocksFrom_subset (column : Int) (mark : Mark) (indent : Int) (outer : List Int) :
    (closeBlocksFrom column mark indent outer).1 :: (closeBlocksFrom column mark indent outer).2.1 ⊆
      indent :: outer := by
  induction outer generalizing indent with
  | nil => exact List.Subset.refl _
  | cons next outer ih =>
    unfold closeBlocksFrom
    split
    · exact List.Subset.trans (ih next) (List.subset_cons_self _ _)
    · exact List.Subset.refl _

theorem closeBlocks_eq (column : Int) :
    ∃ indent outer waiting, indent :: outer ⊆ l.indent :: l.outerIndents ∧ l.closeBlocks column =
      { l with indent := indent, outerIndents := outer, waiting := waiting } := by
  unfold closeBlocks
  split
  · exact ⟨l.indent, l.outerIndents, l.waiting, List.Subset.refl _, rfl⟩
  · exact ⟨_, _, _, closeBlocksFrom_subset column l.cursor.mark l.indent l.outerIndents, rfl⟩

theorem Sound.closeBlocks (h : l.Sound text) (column : Int) :
    (l.closeBlocks column).Sound text ∧ (l.closeBlocks column).cursor = l.cursor := by
  obtain ⟨indent, outer, waiting, hsubset, heq⟩ := l.closeBlocks_eq column
  rw [heq]
  exact ⟨⟨⟨h.cursor, h.keys⟩, fun x hx => h.indents x (hsubset hx)⟩, rfl⟩

/-! Tokens -/

variable {m : Lexer} {x : Char}

/-- Once a character is cut off, it does not matter which blocks were opened before it. -/
theorem Keyed.cut (h : l.Keyed text) (hcursor : m.cursor = l.cursor)
    (hkeys : m.key :: m.outerKeys ⊆ none :: l.key :: l.outerKeys) {n : Nat} (hpos : 0 < n)
    (hmoves : l.cursor.Moves (l.cursor.skip n)) {kind : Token.Kind} :
    (m.cut n kind).Sound text where
  cursor := by
    show (m.cursor.skip n).Stands text
    rw [hcursor]
    exact h.cursor.moves hmoves
  keys k hk := by
    rcases List.mem_cons.mp (hkeys hk) with hk | hk
    · cases hk
    · exact h.keys k hk
  indents _ _ _ := Nat.lt_of_lt_of_le hpos (Nat.le_add_left n _)

theorem Keyed.cutChar (h : l.Keyed text) (hcursor : m.cursor = l.cursor)
    (hkeys : m.key :: m.outerKeys ⊆ none :: l.key :: l.outerKeys)
    (hhead : l.cursor.rest.head? = some x) (hx : isBreak x = false) {kind : Token.Kind} :
    Yields (Malformed.KeyIn text) (Sound text) (.ok (m.cut 1 kind)) :=
  h.cut hcursor hkeys Nat.one_pos (moves_skip_one hhead hx)

theorem subset_dropped (key : Option PendingKey) (outer : List (Option PendingKey)) :
    none :: outer ⊆ none :: key :: outer :=
  List.cons_subset_cons _ (List.subset_cons_self _ _)

theorem Sound.moveTo (h : l.Sound text) {next : Cursor} (hmoves : l.cursor.Moves next)
    (keyAllowed : Bool) : (l.moveTo next keyAllowed).Sound text where
  cursor := h.cursor.moves hmoves
  keys := h.keys
  indents column hc hle := Nat.lt_of_lt_of_le (h.indents column hc hle) hmoves.index_le

theorem Sound.emit (h : l.Sound text) (token : Token) : (l.emit token).Sound text :=
  ⟨⟨h.cursor, h.keys⟩, h.indents⟩

theorem Keyed.openBlock (h : l.Keyed text) (column : Nat) (before : Option Nat)
    (kind : Token.Kind) (mark : Mark) : (l.openBlock column before kind mark).Keyed text ∧
      (l.openBlock column before kind mark).cursor = l.cursor := by
  obtain ⟨indent, outer, waiting, heq⟩ := l.openBlock_eq column before kind mark
  rw [heq]
  exact ⟨⟨h.cursor, h.keys⟩, rfl⟩

theorem moves_skipToToken (inFlow : Bool) (fuel : Nat) (keyAllowed : Bool) (c : Cursor) :
    c.Moves (skipToToken inFlow fuel keyAllowed c).2 := by
  induction fuel generalizing keyAllowed c with
  | zero => exact .refl
  | succ fuel ih =>
    have hblanks :
        c.Moves (c.span fun x => x = ' ' || (x = '\t' && (inFlow || !keyAllowed))).2 := by
      refine c.moves_span fun x hx => ?_
      have hx : x = ' ' ∨ x = '\t' := by
        simp only [Bool.or_eq_true, Bool.and_eq_true, decide_eq_true_eq] at hx
        exact hx.imp_right And.left
      rcases hx with rfl | rfl <;> decide
    have hcomment := hblanks.trans (moves_comment _)
    rw [skipToToken]
    dsimp only
    split
    · rename_i hbreak
      exact (hcomment.trans (moves_lineBreak? hbreak)).trans (ih _ _)
    · exact hcomment

/-- The end counts as a new line, where nothing is left to pass. -/
theorem Sound.streamEnd (h : l.Sound text) (hrest : l.cursor.rest = []) :
    Yields (Malformed.KeyIn text) (Sound text) l.streamEnd := by
  have hend : ∀ mark : Mark, mark.index = l.cursor.mark.index →
      Sound text { l with cursor := ⟨l.cursor.rest, mark⟩ } := by
    intro mark hindex
    refine ⟨⟨fun hne => absurd hrest hne, h.keys⟩, fun column hc hle => ?_⟩
    show 0 < mark.index
    rw [hindex]
    exact h.indents column hc hle
  have hmark : (if l.cursor.mark.column = 0 then l.cursor.mark
      else ⟨l.cursor.mark.index, l.cursor.mark.line + 1, 0⟩).index = l.cursor.mark.index := by
    split <;> rfl
  obtain ⟨hclosed, -⟩ := (hend _ hmark).closeBlocks (-1)
  apply hclosed.dropKey.bind
  rintro _ rfl
  have hdropped := hclosed.withoutKey
  exact ⟨⟨hdropped.cursor, hdropped.keys⟩, hdropped.indents⟩

theorem Sound.directiveLine (h : l.Sound text) (hhead : l.cursor.rest.head? = some '%') :
    Yields (Malformed.KeyIn text) (Sound text) l.directiveLine := by
  obtain ⟨hclosed, hcursor⟩ := h.closeBlocks (-1)
  apply hclosed.dropKey.bind
  rintro _ rfl
  have hscan := moves_directive (c := (l.closeBlocks (-1)).cursor) (by rwa [hcursor])
  apply hscan.of_scans.bind
  rintro ⟨kind, stop, next⟩ hnext
  exact (hclosed.withoutKey.moveTo hnext false).emit _

theorem moves_documentMark {c : Cursor} (h : c.atDocumentMark = true) : c.Moves (c.skip 3) := by
  unfold atDocumentMark at h
  split at h
  · rename_i x y z rest hrest
    simp only [Bool.and_eq_true, Bool.or_eq_true, decide_eq_true_eq] at h
    obtain ⟨-, ⟨⟨hx, rfl⟩, rfl⟩, -⟩ := h
    apply moves_skip (by simp [hrest])
    rw [hrest]
    rcases hx with rfl | rfl <;> simp [OneLine, isBreak]
  · simp at h

theorem Sound.documentMark (h : l.Sound text) (hmark : l.cursor.atDocumentMark = true)
    (kind : Token.Kind) : Yields (Malformed.KeyIn text) (Sound text) (l.documentMark kind) := by
  obtain ⟨hclosed, hcursor⟩ := h.closeBlocks (-1)
  apply hclosed.dropKey.bind
  rintro _ rfl
  rw [← hcursor] at hmark
  refine hclosed.toKeyed.cut (by rfl) ?_ (by decide) (moves_documentMark hmark)
  exact subset_dropped _ _

theorem rest_ne_nil (hhead : l.cursor.rest.head? = some x) : l.cursor.rest ≠ [] := by
  intro hnil
  rw [hnil] at hhead
  cases hhead

theorem Sound.flowStart (h : l.Sound text) (hhead : l.cursor.rest.head? = some x)
    (hx : isBreak x = false) (kind : Token.Kind) :
    Yields (Malformed.KeyIn text) (Sound text) (l.flowStart kind) := by
  apply (h.saveKey (rest_ne_nil hhead)).bind
  rintro saved ⟨hsaved, hcursor⟩
  rw [← hcursor] at hhead
  refine hsaved.toKeyed.cutChar (by rfl) ?_ hhead hx
  exact List.Subset.refl _

theorem Sound.flowEnd (h : l.Sound text) (hhead : l.cursor.rest.head? = some x)
    (hx : isBreak x = false) (kind : Token.Kind) :
    Yields (Malformed.KeyIn text) (Sound text) (l.flowEnd kind) := by
  apply h.dropKey.bind
  rintro _ rfl
  dsimp only
  split
  · rename_i key outer hkeys
    refine h.toKeyed.cutChar (by rfl) ?_ hhead hx
    rw [hkeys]
    exact List.Subset.trans (List.subset_cons_self _ _) (List.subset_cons_self _ _)
  · refine h.toKeyed.cutChar (by rfl) ?_ hhead hx
    exact subset_dropped _ _

theorem Sound.flowEntry (h : l.Sound text) (hhead : l.cursor.rest.head? = some x)
    (hx : isBreak x = false) : Yields (Malformed.KeyIn text) (Sound text) l.flowEntry := by
  apply h.dropKey.bind
  rintro _ rfl
  refine h.toKeyed.cutChar (by rfl) ?_ hhead hx
  exact subset_dropped _ _

theorem Sound.blockEntry (h : l.Sound text) (hhead : l.cursor.rest.head? = some x)
    (hx : isBreak x = false) : Yields (Malformed.KeyIn text) (Sound text) l.blockEntry := by
  refine .ite (fun _ => trivial) fun _ => ?_
  obtain ⟨hopen, hcursor⟩ :=
    h.toKeyed.openBlock l.cursor.mark.column none .blockSequenceStart l.cursor.mark
  apply hopen.dropKey.bind
  rintro _ rfl
  rw [← hcursor] at hhead
  refine hopen.cutChar (by rfl) ?_ hhead hx
  exact subset_dropped _ _

theorem Sound.keyMark (h : l.Sound text) (hhead : l.cursor.rest.head? = some x)
    (hx : isBreak x = false) : Yields (Malformed.KeyIn text) (Sound text) l.keyMark := by
  refine .ite (fun _ => trivial) fun _ => ?_
  obtain ⟨hopen, hcursor⟩ :=
    h.toKeyed.openBlock l.cursor.mark.column none .blockMappingStart l.cursor.mark
  apply hopen.dropKey.bind
  rintro _ rfl
  rw [← hcursor] at hhead
  refine hopen.cutChar (by rfl) ?_ hhead hx
  exact subset_dropped _ _

theorem Sound.valueMark (h : l.Sound text) (hhead : l.cursor.rest.head? = some x)
    (hx : isBreak x = false) : Yields (Malformed.KeyIn text) (Sound text) l.valueMark := by
  unfold Lexer.valueMark
  split
  · rename_i key _
    have hkeyed : (l.emitBefore key.token ⟨.key, key.mark, key.mark⟩).Keyed text :=
      ⟨h.cursor, h.keys⟩
    obtain ⟨hopen, hcursor⟩ :=
      hkeyed.openBlock key.mark.column (some key.token) .blockMappingStart key.mark
    refine hopen.cutChar (by rfl) ?_ (by rw [hcursor]; exact hhead) hx
    exact subset_dropped _ _
  · refine .ite (fun _ => trivial) fun _ => ?_
    obtain ⟨hopen, hcursor⟩ :=
      h.toKeyed.openBlock l.cursor.mark.column none .blockMappingStart l.cursor.mark
    rw [← hcursor] at hhead
    refine hopen.cutChar (by rfl) ?_ hhead hx
    exact List.subset_cons_self _ _

theorem Sound.anchorMark (h : l.Sound text) (hhead : l.cursor.rest.head? = some x)
    (hx : isBreak x = false) (kind : List Char → Token.Kind) :
    Yields (Malformed.KeyIn text) (Sound text) (l.anchorMark kind) := by
  apply (h.saveKey (rest_ne_nil hhead)).bind
  rintro saved ⟨hsaved, hcursor⟩
  rw [← hcursor] at hhead
  apply (moves_anchorName hhead hx).of_scans.bind
  rintro ⟨name, next⟩ hnext
  exact (hsaved.moveTo hnext false).emit _

theorem Sound.tagMark (h : l.Sound text) (hhead : l.cursor.rest.head? = some '!') :
    Yields (Malformed.KeyIn text) (Sound text) l.tagMark := by
  apply (h.saveKey (rest_ne_nil hhead)).bind
  rintro saved ⟨hsaved, hcursor⟩
  rw [← hcursor] at hhead
  apply (moves_tag saved.inFlow hhead).of_scans.bind
  rintro ⟨kind, next⟩ hnext
  exact (hsaved.moveTo hnext false).emit _

theorem Sound.quoted (h : l.Sound text) (hhead : l.cursor.rest.head? = some x)
    (hx : isBreak x = false) (style : ScalarStyle) :
    Yields (Malformed.KeyIn text) (Sound text) (l.quoted style) := by
  apply (h.saveKey (rest_ne_nil hhead)).bind
  rintro saved ⟨hsaved, hcursor⟩
  rw [← hcursor] at hhead
  apply (moves_quotedScalar hhead hx).of_scans.bind
  rintro ⟨scalar, next⟩ hnext
  exact (hsaved.moveTo hnext false).emit _

theorem Sound.plain (h : l.Sound text) (hrest : l.cursor.rest ≠ []) :
    Yields (Malformed.KeyIn text) (Sound text) l.plain := by
  apply (h.saveKey hrest).bind
  rintro saved ⟨hsaved, -⟩
  apply (moves_plainScalar saved.inFlow (saved.indent + 1).toNat saved.cursor).of_scans.bind
  intro scalar hnext
  exact (hsaved.moveTo hnext scalar.broken).emit _

theorem Sound.block (h : l.Sound text) (hhead : l.cursor.rest.head? = some x)
    (hx : isBreak x = false) (style : ScalarStyle) :
    Yields (Malformed.KeyIn text) (Sound text) (l.block style) := by
  apply h.dropKey.bind
  rintro _ rfl
  apply (moves_blockScalar (decide (style = .folded)) l.indent hhead hx).of_scans.bind
  rintro ⟨scalar, next⟩ hnext
  exact (h.withoutKey.moveTo hnext true).emit _

/-- Every token starts with a character of the line, or the text is at its end. -/
theorem Sound.cutToken (h : l.Sound text) :
    Yields (Malformed.KeyIn text) (Sound text) l.cutToken := by
  unfold Lexer.cutToken
  split
  · rename_i hrest
    exact h.streamEnd hrest
  · rename_i c rest hrest
    have hhead : l.cursor.rest.head? = some c := by rw [hrest]; rfl
    have hne := rest_ne_nil hhead
    refine .ite (fun hc => ?_) fun _ => ?_
    · obtain rfl : c = '%' := by simpa using (Bool.and_eq_true_iff.mp hc).2
      exact h.directiveLine hhead
    refine .ite (fun hmark => h.documentMark hmark _) fun _ => ?_
    refine .ite (fun hc => h.flowStart hhead (by rw [hc]; decide) _) fun _ => ?_
    refine .ite (fun hc => h.flowStart hhead (by rw [hc]; decide) _) fun _ => ?_
    refine .ite (fun hc => h.flowEnd hhead (by rw [hc]; decide) _) fun _ => ?_
    refine .ite (fun hc => h.flowEnd hhead (by rw [hc]; decide) _) fun _ => ?_
    refine .ite (fun hc => h.flowEntry hhead (by rw [hc]; decide)) fun _ => ?_
    have hfirst : ∀ {x : Char} {rest : Bool}, (decide (c = x) && rest) = true → c = x :=
      fun hc => by simpa using (Bool.and_eq_true_iff.mp hc).1
    refine .ite (fun hc => h.blockEntry hhead (by rw [hfirst hc]; decide)) fun _ => ?_
    refine .ite (fun hc => h.keyMark hhead (by rw [hfirst hc]; decide)) fun _ => ?_
    refine .ite (fun hc => h.valueMark hhead (by rw [hfirst hc]; decide)) fun _ => ?_
    refine .ite (fun hc => h.anchorMark hhead (by rw [hc]; decide) _) fun _ => ?_
    refine .ite (fun hc => h.anchorMark hhead (by rw [hc]; decide) _) fun _ => ?_
    refine .ite (fun hc => h.tagMark (by rw [hhead, hc])) fun _ => ?_
    refine .ite (fun hc => h.block hhead (by rw [hfirst hc]; decide) _) fun _ => ?_
    refine .ite (fun hc => h.block hhead (by rw [hfirst hc]; decide) _) fun _ => ?_
    refine .ite (fun hc => h.quoted hhead (by rw [hc]; decide) _) fun _ => ?_
    refine .ite (fun hc => h.quoted hhead (by rw [hc]; decide) _) fun _ => ?_
    exact .ite (fun _ => h.plain hne) fun _ => trivial

theorem Sound.advance (h : l.Sound text) :
    Yields (Malformed.KeyIn text) (Sound text) l.advance := by
  have hmoves := moves_skipToToken l.inFlow (l.cursor.rest.length + 1) l.keyAllowed l.cursor
  unfold Lexer.advance
  generalize skipToToken l.inFlow (l.cursor.rest.length + 1) l.keyAllowed l.cursor = found
    at hmoves ⊢
  obtain ⟨keyAllowed, cursor⟩ := found
  apply (h.moveTo hmoves keyAllowed).refreshKeys.bind
  rintro fresh ⟨hfresh, -⟩
  exact (hfresh.closeBlocks fresh.cursor.mark.column).1.cutToken

/-! Handing out -/

theorem Sound.handOut (h : l.Sound text) (waiting : List Token) :
    Yields (Malformed.KeyIn text) (fun found => found.2.Sound text) (handOut waiting l) := by
  induction waiting generalizing l with
  | nil => exact h
  | cons token rest ih =>
    unfold Lexer.handOut
    refine .ite (fun _ => ⟨⟨h.cursor, h.keys⟩, h.indents⟩) fun _ => ?_
    have hnext : Sound text { l with waiting := rest, handedOut := l.handedOut + 1 } :=
      ⟨⟨h.cursor, h.keys⟩, h.indents⟩
    apply (ih hnext).map
    rintro ⟨tokens, last⟩ hlast
    exact hlast

theorem sound_start (text : List Char) : (start text).Sound text := by
  refine ⟨⟨?_, ?_⟩, ?_⟩
  · have hstart : (Cursor.start text).Stands text := fun _ => ⟨[], standsIn_start text⟩
    unfold start
    dsimp only
    split
    · rename_i hmark
      exact hstart.moves (moves_skip_one hmark (by decide))
    · exact hstart
  · intro key hkey
    simp [start] at hkey
  · intro column hcolumn hle
    obtain rfl : column = -1 := by simpa [start] using hcolumn
    omega

end Lexer

namespace Tokens

theorem keyIn_of_collect {fuel : Nat} {l : Lexer} (h : l.Sound text) {e : Malformed}
    (he : (collect fuel l).problem = some e) : e.KeyIn text := by
  induction fuel generalizing l with
  | zero => cases he
  | succ fuel ih =>
    have hrefresh := h.refreshKeys
    unfold collect at he
    split at he
    · rename_i hproblem
      rw [hproblem] at hrefresh
      cases he
      exact hrefresh
    · rename_i fresh hfresh
      rw [hfresh] at hrefresh
      have hhand := hrefresh.1.handOut fresh.waiting
      split at he
      · rename_i hproblem
        rw [hproblem] at hhand
        cases he
        exact hhand
      · rename_i tokens next hnext
        rw [hnext] at hhand
        split at he
        · cases he
        · have hadvance := hhand.advance
          split at he
          · rename_i hproblem
            rw [hproblem] at hadvance
            cases he
            exact hadvance
          · rename_i hmore
            rw [hmore] at hadvance
            exact ih hadvance he

/-- A missing colon is blamed on a key that stands in the text. -/
theorem keyIn_of_problem {e : Malformed} (he : (ofText text).problem = some e) : e.KeyIn text := by
  unfold ofText at he
  split at he
  · exact keyIn_of_collect (Lexer.sound_start text) he
  · cases he
    trivial

end Tokens

end StackTemplate.Yaml
