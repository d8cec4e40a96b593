/-!
Tokens: a character of an expression, what it stands for, and where it was read.
The kind alone decides what a token does; the character and the position are
kept for output and for reports.
-/
namespace RegexAutomaton

/-- What a character of an expression stands for. -/
inductive Token.Kind where
  | literal
  | union
  | concat
  | closure
  | opening
  | closing
  deriving DecidableEq

/-- A character with what it stands for and the position it was read at. -/
structure Token where
  kind : Token.Kind
  char : Char
  index : Nat
  deriving DecidableEq

namespace Token.Kind

/-- How tightly an operator binds, a larger number tighter; other tokens do not bind. -/
def precedence : Kind → Option Nat
  | .closure => some 3
  | .concat => some 2
  | .union => some 1
  | .literal | .opening | .closing => none

/-- The number of operands that a token takes. -/
def arity : Kind → Nat
  | .union | .concat => 2
  | .closure => 1
  | .literal | .opening | .closing => 0

/-- An operand can end with such a token. -/
def canEndOperand : Kind → Bool
  | .literal | .closing | .closure => true
  | .union | .concat | .opening => false

/-- An operand can begin with such a token. -/
def canBeginOperand : Kind → Bool
  | .literal | .opening => true
  | .union | .concat | .closure | .closing => false

end Token.Kind

/-- The text of a token list: its characters in order. -/
def Token.render (tokens : List Token) : String := String.ofList (tokens.map Token.char)

theorem Token.toList_render (tokens : List Token) : (render tokens).toList = tokens.map Token.char :=
  String.toList_ofList

end RegexAutomaton
