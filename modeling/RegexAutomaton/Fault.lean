/-!
What can be wrong with an expression. A fault names its cause; `message` words it
and `index?` says where the offending token was read.
-/
namespace RegexAutomaton

/-- The cause for which an expression is rejected. -/
inductive Fault where
  /-- A group is closed that was never opened. -/
  | unmatchedClosing (index : Nat)
  /-- A group is opened and never closed. -/
  | unmatchedOpening (index : Nat)
  /-- The concatenation marker is written where concatenation is implicit. -/
  | reservedMarker (marker : Char) (index : Nat)
  /-- An operator found fewer operands than it takes. -/
  | missingOperand (operator : Char) (index expected found : Nat)
  /-- An operator was given a fragment that is part of another one already. -/
  | closedFragment (operator : Char) (index : Nat)
  /-- Several fragments are left and no operator joins them. -/
  | leftoverFragments (count : Nat)
  /-- Nothing is left: there was no operand at all. -/
  | emptyExpression
  deriving DecidableEq

namespace Fault

/-- The wording of a fault. -/
def message : Fault → String
  | .unmatchedClosing index => s!"unmatched closing delimiter at index {index}"
  | .unmatchedOpening index => s!"unmatched opening delimiter at index {index}"
  | .reservedMarker marker index => s!"concatenation marker '{marker}' at index {index} is reserved"
  | .missingOperand operator index expected found =>
    s!"operator '{operator}' at index {index} expects {expected} operand(s), found {found}"
  | .closedFragment operator index => s!"operator '{operator}' at index {index} was given a closed fragment"
  | .leftoverFragments count => s!"{count} fragments remain after construction"
  | .emptyExpression => "empty regular expression"

/-- The position of the offending token, where one token is to blame. -/
def index? : Fault → Option Nat
  | .unmatchedClosing index => some index
  | .unmatchedOpening index => some index
  | .reservedMarker _ index => some index
  | .missingOperand _ index _ _ => some index
  | .closedFragment _ index => some index
  | .leftoverFragments _ => none
  | .emptyExpression => none

end Fault

end RegexAutomaton
