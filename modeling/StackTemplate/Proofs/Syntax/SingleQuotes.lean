import StackTemplate.Proofs.Syntax.KeyText
import StackTemplate.Yaml.Data.Print

/-!
Single quotes: a text that is written with every quote doubled, between two quotes, and the text
that the syntax tree takes from there.
-/

namespace StackTemplate

namespace Yaml

/-- Wherever quotes stand, alone or in runs, each is one pair, so that no pair is taken apart. -/
theorem spells_flatMap_doubled (s : List Char) :
    Spells true (s.flatMap fun c => if c = '\'' then ['\'', '\''] else [c]) s := by
  induction s with
  | nil => exact .done
  | cons c s ih =>
    rw [List.flatMap_cons]
    by_cases hc : c = '\''
    · subst hc
      exact .doubled rfl ih
    · rw [if_neg hc]
      exact .same (by simpa [isOrdinary] using hc) ih

end Yaml

namespace Syntax

open Yaml

/-- The quotes that are stripped are the outer ones, even where the text has quotes at its ends. -/
theorem yamlText_singleQuoted (s : String) : yamlText .single (singleQuoted s.toList) = s := by
  have hinner := Text.undouble_of_spells (spells_flatMap_doubled s.toList)
  rw [yamlText, singleQuoted, List.cons_append, Text.stripQuotes_quoted, hinner,
    String.ofList_toList]

namespace Place

/-- Whatever wraps a single-quoted scalar, its text is the one that was written. -/
theorem scalarText?_singleQuoted (p : Place) (s : String)
    (hshape : (p.unwrap .yaml).shape .yaml = .scalar .single)
    (htext : (p.unwrap .yaml).node.info.text.toList = singleQuoted s.toList) :
    p.scalarText? .yaml = some s := by
  simp only [scalarText?, hshape, htext, yamlText_singleQuoted]

def quotedTwiceText : String := "!T '''it''''s'''"

def quotedTwiceRows : List Row :=
  [⟨0, "stream", true, false, false, false, false, none, 0, 16⟩,
    ⟨1, "document", true, false, false, false, false, none, 0, 16⟩,
    ⟨2, "flow_node", true, false, false, false, false, none, 0, 16⟩,
    ⟨3, "tag", true, false, false, false, false, none, 0, 2⟩,
    ⟨3, "single_quote_scalar", true, false, false, false, false, none, 3, 16⟩]

/-- A scalar that starts and ends with quotes, below a tag. -/
def quotedTwice : Place :=
  .root ((Node.ofRows? quotedTwiceText.toList quotedTwiceRows).getD default)

theorem scalarText?_singleQuoted_quotedTwice :
    (quotedTwice.unwrap .yaml).shape .yaml = .scalar .single ∧
      (quotedTwice.unwrap .yaml).node.info.text.toList = singleQuoted "'it''s'".toList ∧
      quotedTwice.scalarText? .yaml = some "'it''s'" := by
  have hshape : (quotedTwice.unwrap .yaml).shape .yaml = .scalar .single := by decide
  have htext : (quotedTwice.unwrap .yaml).node.info.text.toList =
      singleQuoted "'it''s'".toList := by decide
  exact ⟨hshape, htext, scalarText?_singleQuoted quotedTwice _ hshape htext⟩

end Place

end Syntax

end StackTemplate
