import Mathlib.Computability.Language
import RegexAutomaton.Regex

/-!
The language of a regular expression, by union, product and Kleene star of languages.
-/
namespace RegexAutomaton.Regex
open scoped Computability

/-- The words that a regular expression denotes. -/
def language {α : Type} : Regex α → Language α
  | .symbol a => {[a]}
  | .union left right => left.language + right.language
  | .concat left right => left.language * right.language
  | .star operand => operand.language∗

end RegexAutomaton.Regex
