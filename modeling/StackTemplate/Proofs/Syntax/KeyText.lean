import StackTemplate.Proofs.Yaml.Cut
import StackTemplate.Proofs.Yaml.Plain
import StackTemplate.Proofs.Yaml.Standalone
import StackTemplate.Proofs.Yaml.Typing
import StackTemplate.Syntax.Outline
import StackTemplate.Syntax.Tree

/-!
Keys of YAML in the syntax tree and in the value: the tree takes a key from the characters it is
written with, the value prints what the key stands for.
-/

namespace StackTemplate

namespace Text

theorem stripQuotes_quoted (quote : Char) (inner : List Char) :
    stripQuotes quote (quote :: (inner ++ [quote])) = inner := by
  simp [stripQuotes]

theorem undouble_of_spells {inner text : List Char} (h : Yaml.Spells true inner text) :
    undouble inner = text := by
  induction h with
  | done => rfl
  | @same c inner text ordinary _ ih =>
    have hc : c ≠ '\'' := by simpa [Yaml.isOrdinary] using ordinary
    rw [undouble.eq_def]
    split
    · rename_i heq
      exact absurd (List.cons.inj heq).1 hc
    · rename_i heq
      cases heq
      rw [ih]
    · rename_i heq
      cases heq
  | doubled _ _ ih => rw [undouble, ih]
  | escaped isDouble _ _ _ => cases isDouble

end Text

namespace Syntax

open Yaml

/-- The style in which a scalar with these quotes is read. -/
def Quoting.style : Quoting → ScalarStyle
  | .bare => .plain
  | .single => .singleQuoted
  | .double => .doubleQuoted

/-- A scalar of a text: the characters it is written with, and the text it is read as. -/
structure Written (quoting : Quoting) (raw text : List Char) : Prop where
  allowed : raw.all Tokens.isAllowed = true
  cut : ∃ (l next : Lexer) (start stop : Mark), l.cutToken = .ok next ∧
    next.waiting.getLast? = some ⟨.scalar text quoting.style, start, stop⟩ ∧
    raw = l.cursor.rest.take (stop.index - l.cursor.mark.index)

namespace Written

variable {raw text : List Char}

theorem text_of_bare (h : Written .bare raw text) (hline : OneLine raw) : text = raw := by
  obtain ⟨l, next, start, stop, hcut, hlast, rfl⟩ := h.cut
  cases l.cutsScalar_cutToken hcut hlast with
  | plain scans counts ends =>
    subst counts ends
    exact text_of_plainScalar scans hline

theorem yamlText_of_single (h : Written .single raw text) (hline : OneLine raw) :
    yamlText .single raw = String.ofList text := by
  obtain ⟨l, next, start, stop, hcut, hlast, rfl⟩ := h.cut
  cases l.cutsScalar_cutToken hcut hlast with
  | single opens scans ends =>
    subst ends
    obtain ⟨inner, hraw, -, hspells⟩ := take_of_quotedScalar opens scans hline
    rw [hraw, yamlText, quote, if_pos rfl, Text.stripQuotes_quoted, Text.undouble_of_spells hspells]

theorem yamlText_of_double (h : Written .double raw text) (hline : OneLine raw) :
    yamlText .double raw = String.ofList text := by
  have hallowed := h.allowed
  obtain ⟨l, next, start, stop, hcut, hlast, rfl⟩ := h.cut
  cases l.cutsScalar_cutToken hcut hlast with
  | double opens scans ends =>
    subst ends
    obtain ⟨inner, hraw, hinner, hspells⟩ := take_of_quotedScalar opens scans hline
    rw [hraw, quote, if_neg Bool.false_ne_true] at hallowed ⊢
    rw [List.all_cons, List.all_append, Bool.and_eq_true, Bool.and_eq_true] at hallowed
    rw [yamlText, scalar?_of_spells hspells hinner hallowed.2.1]
    rfl

end Written

/-- A key of a pair: how it is written in the tree, and the data that the value parser makes of it. -/
structure ScalarKey (pair : Place) (quoting : Quoting) (raw : List Char) (data : Data) : Prop where
  node : ∃ content, (pair.field? .key).map (·.unwrap .yaml) = some content ∧
    content.shape .yaml = .scalar quoting ∧ content.node.info.text.toList = raw
  value : ∃ text, Written quoting raw text ∧
    ∃ (d : LoadedDocument) (depth : Nat) (trail : Trail) (mark : Mark) (n m : Nat),
      (Data.read d depth trail (.scalar mark none quoting.style text)).run n = .ok (data, m)

namespace ScalarKey

variable {pair : Place} {quoting : Quoting} {raw : List Char} {data : Data}

theorem keyText?_eq (h : ScalarKey pair quoting raw data) :
    pair.keyText? .yaml = some (yamlText quoting raw) := by
  obtain ⟨content, hcontent, hshape, rfl⟩ := h.node
  obtain ⟨key, hkey, rfl⟩ := Option.map_eq_some_iff.mp hcontent
  simp only [Place.keyText?, hkey, Option.bind_some, Place.scalarText?, hshape]

/-- On one line a quoted key is the same in the tree and in the value, and a plain one is if it is
printed as it is written. -/
theorem keyText?_eq_iff (h : ScalarKey pair quoting raw data) (hline : OneLine raw) :
    pair.keyText? .yaml = some data.keyText ↔
      quoting ≠ .bare ∨ Scalar.printsAsWritten raw = true := by
  obtain ⟨text, hwritten, d, depth, trail, mark, n, m, hread⟩ := h.value
  rw [Data.run_read_scalar] at hread
  obtain ⟨found, hscalar, hfound⟩ := Except.of_bind_eq_ok hread
  cases hfound
  rw [h.keyText?_eq, Option.some.injEq]
  cases quoting with
  | bare =>
    obtain rfl := hwritten.text_of_bare hline
    have hplain : Data.ofPlain trail mark text = .ok data := hscalar
    rw [yamlText, Data.trim_eq_keyText_iff hplain]
    simp
  | single =>
    cases hscalar
    rw [hwritten.yamlText_of_single hline]
    exact iff_of_true rfl (.inl nofun)
  | double =>
    cases hscalar
    rw [hwritten.yamlText_of_double hline]
    exact iff_of_true rfl (.inl nofun)

end ScalarKey

def twoKeysText : String := "~: a\n'It''s': b\n"

def twoKeysRows : List Row :=
  [⟨0, "stream", true, false, false, false, false, none, 0, 16⟩,
    ⟨1, "document", true, false, false, false, false, none, 0, 16⟩,
    ⟨2, "block_node", true, false, false, false, false, none, 0, 16⟩,
    ⟨3, "block_mapping", true, false, false, false, false, none, 0, 16⟩,
    ⟨4, "block_mapping_pair", true, false, false, false, false, none, 0, 4⟩,
    ⟨5, "flow_node", true, false, false, false, false, some .key, 0, 1⟩,
    ⟨6, "plain_scalar", true, false, false, false, false, none, 0, 1⟩,
    ⟨7, "null_scalar", true, false, false, false, false, none, 0, 1⟩,
    ⟨5, ":", false, false, false, false, false, none, 1, 2⟩,
    ⟨5, "flow_node", true, false, false, false, false, some .value, 3, 4⟩,
    ⟨6, "plain_scalar", true, false, false, false, false, none, 3, 4⟩,
    ⟨7, "string_scalar", true, false, false, false, false, none, 3, 4⟩,
    ⟨4, "block_mapping_pair", true, false, false, false, false, none, 5, 15⟩,
    ⟨5, "flow_node", true, false, false, false, false, some .key, 5, 12⟩,
    ⟨6, "single_quote_scalar", true, false, false, false, false, none, 5, 12⟩,
    ⟨7, "'", false, false, false, false, false, none, 5, 6⟩,
    ⟨7, "escape_sequence", true, false, false, false, false, none, 8, 10⟩,
    ⟨7, "'", false, false, false, false, false, none, 11, 12⟩,
    ⟨5, ":", false, false, false, false, false, none, 12, 13⟩,
    ⟨5, "flow_node", true, false, false, false, false, some .value, 14, 15⟩,
    ⟨6, "plain_scalar", true, false, false, false, false, none, 14, 15⟩,
    ⟨7, "string_scalar", true, false, false, false, false, none, 14, 15⟩]

def twoKeys : SyntaxTree :=
  ⟨.detect "file:///t.yaml" 1 twoKeysText,
    (Node.ofRows? twoKeysText.toList twoKeysRows).getD default⟩

def nullPair : Place :=
  (twoKeys.topLevelPairs[0]?).getD default

def quotedPair : Place :=
  (twoKeys.topLevelPairs[1]?).getD default

/-- A lexer where the first token of a text starts. -/
def atFirst (text : List Char) : Lexer :=
  ⟨⟨text, .start⟩, -1, [], none, [], true, [], 1⟩

theorem written_null : Written .bare "~".toList "~".toList where
  allowed := by decide
  cut := ⟨atFirst ['~', ':', ' ', 'a'], _, .start, ⟨1, 0, 1⟩, rfl, rfl, by decide⟩

theorem scalarKey_null : ScalarKey nullPair .bare "~".toList .null where
  node := ⟨_, rfl, rfl, rfl⟩
  value := ⟨_, written_null, .ofText [], 0, .root, .start, 0, 0, rfl⟩

theorem written_quoted : Written .single "'It''s'".toList "It's".toList where
  allowed := by decide
  cut :=
    ⟨atFirst ['\'', 'I', 't', '\'', '\'', 's', '\'', ':', ' ', 'b'], _, .start, ⟨7, 0, 7⟩, rfl, rfl,
      by decide⟩

theorem scalarKey_quoted : ScalarKey quotedPair .single "'It''s'".toList (.str "It's") where
  node := ⟨_, rfl, rfl, rfl⟩
  value := ⟨_, written_quoted, .ofText [], 0, .root, .start, 0, 0, rfl⟩

theorem ScalarKey.keyText?_eq_iff_quoted :
    ScalarKey quotedPair .single "'It''s'".toList (.str "It's") ∧ OneLine "'It''s'".toList ∧
      quotedPair.keyText? .yaml = some "It's" := by
  have hline : OneLine "'It''s'".toList := by decide
  exact ⟨scalarKey_quoted, hline, (scalarKey_quoted.keyText?_eq_iff hline).mpr (.inl nofun)⟩

/-- The key `~` of the tree is the key `null` of the value. -/
theorem ScalarKey.not_forall_keyText?_eq :
    ¬ ∀ pair quoting raw data, ScalarKey pair quoting raw data →
      (quoting = .double → OneLine raw) → pair.keyText? .yaml = some data.keyText := by
  intro h
  have hkey := h nullPair .bare _ _ scalarKey_null nofun
  have htree : nullPair.keyText? .yaml = some "~" := by decide
  rw [htree] at hkey
  exact absurd (Option.some.inj hkey) (by decide)

end Syntax

end StackTemplate
