/-!
Regular expressions as such: what remains of an expression when characters, groups
and positions are forgotten.
-/
namespace RegexAutomaton

/-- A regular expression over an alphabet. -/
inductive Regex (α : Type) where
  | symbol (a : α)
  | union (left right : Regex α)
  | concat (left right : Regex α)
  | star (operand : Regex α)
  deriving DecidableEq

end RegexAutomaton
