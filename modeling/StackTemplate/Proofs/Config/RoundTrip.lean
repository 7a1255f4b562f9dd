import StackTemplate.Config.Read
import StackTemplate.Config.Write
import StackTemplate.Proofs.Config.Limits
import StackTemplate.Proofs.Yaml.Integers
import StackTemplate.Proofs.Yaml.PrintedBlocks

/-!
A configuration that is written as YAML is read back.
-/

namespace StackTemplate

namespace Yaml

theorem inlineText_nat (n : Nat) : (Data.number (.int n)).inlineText false =
    some (⟨(Word.ofNat n).written, '\n'⟩, []) := by
  have htext : (toString (n : Int)).toList = Nat.toDigits 10 n := Text.toList_toString_natCast n
  show some (Line.mk (toString (n : Int)).toList '\n', []) = _
  rw [htext]
  rfl

theorem inlineText_bool (b : Bool) : (Data.bool b).inlineText false =
    some (⟨(Word.ofBool b).written, '\n'⟩, []) := rfl

theorem inlineText_path {s : String} (h : IsPath s.toList) : (Data.str s).inlineText false =
    some (⟨(Word.ofPath s.toList h).written, '\n'⟩, []) :=
  congrArg some (stringLines_path h)

theorem not_null_of_needsQuotes {s : List Char} (h : needsQuotes s = false) :
    (s.isEmpty || Scalar.isNull s) = false := by
  rw [Bool.eq_false_iff]
  intro hnull
  rw [needsQuotes, Scalar.ofPlain, if_pos hnull, Bool.or_eq_false_iff] at h
  cases h.2

theorem not_null_toDigits (n : Nat) :
    ((Nat.toDigits 10 n).isEmpty || Scalar.isNull (Nat.toDigits 10 n)) = false := by
  have htext : IntegerText (Nat.toDigits 10 n) :=
    .digits Nat.toDigits_ne_nil (Text.all_isDigit_toDigits n)
  obtain ⟨d, hd, hdigit⟩ := htext.exists_digit
  rw [Bool.or_eq_false_iff]
  exact ⟨List.isEmpty_eq_false_iff.mpr htext.ne_nil,
    Scalar.not_any_of_digit (by decide) hd hdigit⟩

namespace LoadedDocument

variable (d : LoadedDocument) (mark : Mark)

theorem nat?_ofNat {n limit : Nat} (h : n < limit) (hlimit : limit ≤ Nat.pow 2 64) :
    d.nat? limit (.scalar mark none (Word.ofNat n).style (Word.ofNat n).text) = some n := by
  have hn : n < Nat.pow 2 64 := Nat.lt_of_lt_of_le h hlimit
  have htext : d.typedText? .int (.scalar mark none (Word.ofNat n).style (Word.ofNat n).text) =
      some (Nat.toDigits 10 n) := rfl
  rw [nat?, htext, Option.bind_some, Scalar.nat?_toDigits hn, Option.filter_some, decide_eq_true h]
  rfl

theorem optional?_ofNat {n limit : Nat} (h : n < limit) (hlimit : limit ≤ Nat.pow 2 64) :
    d.optional? (d.nat? limit) (.scalar mark none (Word.ofNat n).style (Word.ofNat n).text) =
      some (some n) := by
  have hnumber := d.nat?_ofNat mark h hlimit
  have hnull : ((Word.ofNat n).text.isEmpty || Scalar.isNull (Word.ofNat n).text) = false :=
    not_null_toDigits n
  have hstyle : (Word.ofNat n).style = .plain := rfl
  rw [hstyle] at hnumber ⊢
  simp only [optional?, resolve, hnull, hnumber]
  rfl

theorem bool?_ofBool (b : Bool) :
    d.bool? (.scalar mark none (Word.ofBool b).style (Word.ofBool b).text) = some b := by
  cases b <;> rfl

theorem optional?_ofPath {s : String} (h : IsPath s.toList) :
    d.optional? d.string?
      (.scalar mark none (Word.ofPath s.toList h).style (Word.ofPath s.toList h).text) =
        some (some s) := by
  have hstring (style : ScalarStyle) : d.string? (.scalar mark none style s.toList) = some s :=
    congrArg some String.ofList_toList
  -- Only a plain scalar can be a null, and what would be one is quoted.
  by_cases hplain : styleOf false s.toList = .plain
  · have hstyle : (Word.ofPath s.toList h).style = .plain := by
      simp [Word.style, Word.ofPath, hplain]
    have hnull := not_null_of_needsQuotes (needsQuotes_of_plain h hplain)
    rw [hstyle]
    simp only [optional?, resolve, Word.ofPath, hnull, hstring]
    rfl
  · have hstyle : (Word.ofPath s.toList h).style = .singleQuoted := by
      simp [Word.style, Word.ofPath, hplain]
    rw [hstyle]
    simp only [optional?, resolve, Word.ofPath, hstring]
    rfl

end LoadedDocument

/-! Records -/

def Block.keys : Block → List String
  | .done => []
  | .word key _ _ rest => String.ofList key :: rest.keys
  | .block key _ _ rest => String.ofList key :: rest.keys

theorem Block.Matches.mapM_fieldName? (d : LoadedDocument) {b : Block} {nodes : List (Node × Node)}
    (h : b.Matches nodes) :
    nodes.mapM (fun (key, value) => (d.fieldName? key).map (·, value)) =
      some (b.keys.zip (nodes.map (·.2))) := by
  induction h with
  | done => rfl
  | word keyMark mark more ih => rw [List.mapM_cons, ih]; rfl
  | block keyMark mark inside more _ ih => rw [List.mapM_cons, ih]; rfl

theorem Block.Matches.length_eq {b : Block} {nodes : List (Node × Node)} (h : b.Matches nodes) :
    b.keys.length = nodes.length := by
  induction h with
  | done => rfl
  | word keyMark mark more ih => exact congrArg (· + 1) ih
  | block keyMark mark inside more _ ih => exact congrArg (· + 1) ih

namespace LoadedDocument

variable (d : LoadedDocument) (mark : Mark) {b : Block} {nodes : List (Node × Node)}

theorem fields?_of_matches (h : b.Matches nodes) {counts : String → Bool}
    (hnodup : (b.keys.filter counts).Nodup) :
    d.fields? counts (.mapping mark none nodes) = some (b.keys.zip (nodes.map (·.2))) := by
  have hnames : (b.keys.zip (nodes.map (·.2))).map (·.1) = b.keys := by
    rw [List.map_fst_zip (by rw [List.length_map, h.length_eq])]
  simp only [fields?, resolve, h.mapM_fieldName? d, bind, Option.bind, hnames, if_pos hnodup]

theorem exactFields?_of_matches (h : b.Matches nodes) {names : List String}
    (hnodup : b.keys.Nodup) (hknown : ∀ key ∈ b.keys, key ∈ names) :
    d.exactFields? names (.mapping mark none nodes) =
      some (b.keys.zip (nodes.map (·.2))) := by
  have hall : (b.keys.zip (nodes.map (·.2))).all (fun field => names.contains field.1) = true := by
    rw [List.all_eq_true]
    intro field hfield
    exact List.contains_iff_mem.mpr (hknown _ (List.of_mem_zip hfield).1)
  rw [exactFields?, d.fields?_of_matches mark h (hnodup.filter _), Option.filter_some, if_pos hall]

end LoadedDocument

end Yaml

open Yaml Yaml.LoadedDocument

/-- A record is printed as a mapping, and read from what the lines of that are loaded as. -/
structure ReadsBack {Record : Type} (read : LoadedDocument → Node → Option Record)
    (record : Record) (pairs : List (Data × Data)) (block : Block) : Prop where
  filled : pairs ≠ []
  prints : Prints pairs block
  reads : ∀ d mark nodes, block.Matches nodes → read d (.mapping mark none nodes) = some record

theorem ValueParserConfig.readsBack {config : ValueParserConfig}
    (valid : config.validate = .ok ()) :
    ∃ pairs block, config.toData = .mapping pairs ∧ ReadsBack ofNode? config pairs block := by
  have hlimit : config.maxRecoveryAttempts < Nat.pow 2 64 :=
    Nat.lt_of_le_of_lt (validate_eq_ok_iff.mp valid) (by decide)
  refine ⟨_, _, rfl, List.cons_ne_nil _ _,
    .word (by decide) (inlineText_nat config.maxRecoveryAttempts) .done, ?_⟩
  intro d mark nodes hnodes
  rw [ofNode?, d.exactFields?_of_matches mark hnodes (by simp [Block.keys]) (by simp [Block.keys])]
  rcases hnodes with _ | ⟨_, m, _ | _⟩
  have hvalue := d.nat?_ofNat m hlimit (Nat.le_refl _)
  simp [fieldOr?, Block.keys, hvalue]

namespace ParserConfig

theorem ofNode?_of_fields {config : ParserConfig} {d : LoadedDocument} {node : Node}
    {fields : List (String × Node)}
    (hfields : d.exactFields?
      ["prefer_native", "asset_base_dir", "load_attempts", "load_backoff_ms"] node = some fields)
    (hnative : fieldOr? fields "prefer_native" d.bool? true = some config.preferNative)
    (hdir : fieldOr? fields "asset_base_dir" (d.optional? d.string?) none =
      some config.assetBaseDir)
    (hattempts : fieldOr? fields "load_attempts" (d.nat? (Nat.pow 2 32)) 3 =
      some config.loadAttempts)
    (hbackoff : fieldOr? fields "load_backoff_ms" (d.nat? (Nat.pow 2 64)) 200 =
      some config.loadBackoffMs) :
    ofNode? d node = some config := by
  rw [ofNode?, hfields]
  simp only [bind, Option.bind, hnative, hdir, hattempts, hbackoff]
  rfl

theorem readsBack {config : ParserConfig} (valid : config.validate = .ok ())
    (hdir : ∀ dir ∈ config.assetBaseDir, IsPath dir.toList) :
    ∃ pairs block, config.toData = .mapping pairs ∧ ReadsBack ofNode? config pairs block := by
  obtain ⟨⟨-, hattempts⟩, hbackoff⟩ := validate_eq_ok_iff.mp valid
  replace hattempts : config.loadAttempts < Nat.pow 2 32 :=
    Nat.lt_of_le_of_lt hattempts (by decide)
  replace hbackoff : config.loadBackoffMs < Nat.pow 2 64 := Nat.lt_of_le_of_lt hbackoff (by decide)
  have hlast := Prints.word (by decide : isPlainKey "load_attempts" = true)
    (inlineText_nat config.loadAttempts) <|
      .word (by decide : isPlainKey "load_backoff_ms" = true)
        (inlineText_nat config.loadBackoffMs) .done
  -- A directory that is not given leaves no line, so there are two forms of the text.
  cases hgiven : config.assetBaseDir with
  | none =>
    refine ⟨_, _, by rw [toData, hgiven]; rfl, List.cons_ne_nil _ _,
      .word (by decide) (inlineText_bool config.preferNative) hlast, ?_⟩
    intro d mark nodes hnodes
    refine ofNode?_of_fields (d.exactFields?_of_matches mark hnodes (by simp [Block.keys])
      (by simp [Block.keys])) ?_ ?_ ?_ ?_
    all_goals
      rcases hnodes with _ | ⟨_, m₁, _ | ⟨_, m₂, _ | ⟨_, m₃, _ | _⟩⟩⟩
      simp only [Block.keys, String.ofList_toList, List.map_cons, List.map_nil,
        List.zip_cons_cons, List.zip_nil_right]
    · exact d.bool?_ofBool m₁ _
    · rw [hgiven]; rfl
    · exact d.nat?_ofNat m₂ hattempts (by decide)
    · exact d.nat?_ofNat m₃ hbackoff (Nat.le_refl _)
  | some dir =>
    have hpath : IsPath dir.toList := hdir dir hgiven
    refine ⟨_, _, by rw [toData, hgiven]; rfl, List.cons_ne_nil _ _,
      .word (by decide) (inlineText_bool config.preferNative) <|
        .word (by decide) (inlineText_path hpath) hlast, ?_⟩
    intro d mark nodes hnodes
    refine ofNode?_of_fields (d.exactFields?_of_matches mark hnodes (by simp [Block.keys])
      (by simp [Block.keys])) ?_ ?_ ?_ ?_
    all_goals
      rcases hnodes with _ | ⟨_, m₁, _ | ⟨_, m₂, _ | ⟨_, m₃, _ | ⟨_, m₄, _ | _⟩⟩⟩⟩
      simp only [Block.keys, String.ofList_toList, List.map_cons, List.map_nil,
        List.zip_cons_cons, List.zip_nil_right]
    · exact d.bool?_ofBool m₁ _
    · rw [hgiven]
      exact d.optional?_ofPath m₂ hpath
    · exact d.nat?_ofNat m₃ hattempts (by decide)
    · exact d.nat?_ofNat m₄ hbackoff (Nat.le_refl _)

end ParserConfig

namespace ModelConfig

theorem readsBack {config : ModelConfig} (hversion : config.version < Nat.pow 2 32)
    (valid : config.validate = .ok ())
    (hdir : ∀ dir ∈ config.parser.assetBaseDir, IsPath dir.toList) :
    ∃ pairs block, config.toData = .mapping pairs ∧ pairs ≠ [] ∧ Prints pairs block ∧
      ∀ d mark nodes, block.Matches nodes → d.root = .mapping mark none nodes →
        version? d = some (some config.version) ∧ ofDocument? d = some config := by
  obtain ⟨hparser, hvalues⟩ := validate_eq_ok_iff.mp valid
  obtain ⟨parserPairs, parserBlock, hparserData, parser⟩ := ParserConfig.readsBack hparser hdir
  obtain ⟨valuesPairs, valuesBlock, hvaluesData, values⟩ := ValueParserConfig.readsBack hvalues
  refine ⟨_, _, by rw [toData, hparserData, hvaluesData], List.cons_ne_nil _ _,
    .word (by decide) (inlineText_nat config.version) <|
      .block (by decide) parser.filled parser.prints <|
        .block (by decide) values.filled values.prints .done, ?_⟩
  intro d mark nodes hnodes hroot
  rw [version?, ofDocument?, hroot,
    d.fields?_of_matches mark hnodes (by simp [Block.keys]),
    d.exactFields?_of_matches mark hnodes (by simp [Block.keys]) (by simp [Block.keys])]
  rcases hnodes with
    _ | ⟨_, m₁, _ | _ | ⟨_, m₂, hparserNodes, _ | _ | ⟨_, m₃, hvaluesNodes, _ | _⟩⟩⟩
  have hparser := parser.reads d m₂ _ hparserNodes
  have hvalues := values.reads d m₃ _ hvaluesNodes
  have hnumber := d.nat?_ofNat m₁ hversion (by decide)
  have hgiven := d.optional?_ofNat m₁ hversion (by decide)
  constructor
  · simp [fieldOr?, Block.keys, hgiven]
  · simp [fieldOr?, Block.keys, List.lookup_cons, hnumber, hparser, hvalues]

/-- A directory is any text of the characters that paths are made of here, also one that would be
a number, a null or the mark of a document's end when it is not quoted. -/
theorem ofYaml_toYaml (config : ModelConfig) (hversion : config.version = 1)
    (valid : config.validate = .ok ())
    (hdir : ∀ dir ∈ config.parser.assetBaseDir, IsPath dir.toList) :
    ofYaml config.toYaml = .ok config := by
  have hlimit : config.version < Nat.pow 2 32 := by rw [hversion]; decide
  obtain ⟨pairs, block, hdata, filled, prints, hreads⟩ := readsBack hlimit valid hdir
  obtain ⟨text, mark, nodes, hprint, hnodes, hroot, hwhole⟩ := prints.loads filled
  obtain ⟨hread, hdocument⟩ := hreads _ mark nodes hnodes hroot
  have htext : config.toYaml.toList = text := by
    rw [toYaml, hdata, hprint, Option.getD_some, String.toList_ofList]
  have hsupported : config.version ∈ supportedVersions := by rw [hversion]; decide
  simp only [ofYaml, htext, hwhole, hread, hdocument, hsupported, valid]
  rfl

/-- All settings but the directory are the defaults. -/
def withDir (dir : String) : ModelConfig :=
  { parser := { assetBaseDir := some dir } }

theorem ofYaml_toYaml_null : (withDir "null").validate = .ok () ∧
    ofYaml (withDir "null").toYaml = .ok (withDir "null") :=
  ⟨rfl, ofYaml_toYaml (withDir "null") rfl rfl (by decide)⟩

example : (withDir "...").toYaml = "version: 1\nparser:\n  prefer_native: true\n" ++
    "  asset_base_dir: '...'\n  load_attempts: 3\n  load_backoff_ms: 200\n" ++
    "values:\n  max_recovery_attempts: 5\n" := by
  decide +kernel

end ModelConfig

end StackTemplate
