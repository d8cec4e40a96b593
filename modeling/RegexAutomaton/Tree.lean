import RegexAutomaton.Token
import RegexAutomaton.Regex

/-!
Operator trees of token lists. `Reads` is the grammar of expressions: a closure binds
tightest, then concatenation, then union, and both binary operators group to the
left. It is one grammar for expressions that write their concatenations and for
those that leave them out; only what stands between two factors differs.
-/
namespace RegexAutomaton

/-- An expression as a tree, with the tokens that it was read from. Delimiters leave no
    trace, and a concatenation that was left out has no token. -/
inductive Tree where
  | literal (token : Token)
  | union (operator : Token) (left right : Tree)
  | concat (operator : Option Token) (left right : Tree)
  | star (operator : Token) (operand : Tree)
  deriving DecidableEq

namespace Tree

/-- The tokens of a tree, each operator after its operands and the left operand first. -/
def postorder : Tree → List Token
  | .literal t => [t]
  | .union operator left right => left.postorder ++ right.postorder ++ [operator]
  | .concat operator left right => left.postorder ++ right.postorder ++ operator.toList
  | .star operator operand => operand.postorder ++ [operator]

/-- The regular expression that a tree stands for. -/
def regex : Tree → Regex Char
  | .literal t => .symbol t.char
  | .union _ left right => .union left.regex right.regex
  | .concat _ left right => .concat left.regex right.regex
  | .star _ operand => .star operand.regex

/-- How loose the outermost operator of an expression may be. -/
inductive Level where
  | atom
  | power
  | product
  | sum
  deriving DecidableEq

/-- What may stand between two factors: a concatenation where they are written, and
    nothing where they are left out. -/
def Joint (written : Bool) : Option Token → Prop
  | some operator => written = true ∧ operator.kind = .concat
  | none => written = false

/-- A token list, read at a level, is an expression with the given tree. -/
inductive Reads (written : Bool) : Level → List Token → Tree → Prop where
  | literal {t : Token} (kind : t.kind = .literal) : Reads written .atom [t] (.literal t)
  | group {opening closing : Token} {tokens : List Token} {tree : Tree}
      (opens : opening.kind = .opening) (closes : closing.kind = .closing)
      (inner : Reads written .sum tokens tree) :
      Reads written .atom (opening :: tokens ++ [closing]) tree
  | atom {tokens : List Token} {tree : Tree} (inner : Reads written .atom tokens tree) :
      Reads written .power tokens tree
  | star {operator : Token} {tokens : List Token} {tree : Tree} (kind : operator.kind = .closure)
      (operand : Reads written .power tokens tree) :
      Reads written .power (tokens ++ [operator]) (.star operator tree)
  | power {tokens : List Token} {tree : Tree} (inner : Reads written .power tokens tree) :
      Reads written .product tokens tree
  | concat {operator : Option Token} {front back : List Token} {left right : Tree} (joint : Joint written operator)
      (first : Reads written .product front left) (second : Reads written .power back right) :
      Reads written .product (front ++ operator.toList ++ back) (.concat operator left right)
  | product {tokens : List Token} {tree : Tree} (inner : Reads written .product tokens tree) :
      Reads written .sum tokens tree
  | union {operator : Token} {front back : List Token} {left right : Tree} (kind : operator.kind = .union)
      (first : Reads written .sum front left) (second : Reads written .product back right) :
      Reads written .sum (front ++ operator :: back) (.union operator left right)

/-- The token list is an expression that leaves its concatenations out. -/
def ReadsImplicit (tokens : List Token) (tree : Tree) : Prop := Reads false .sum tokens tree

/-- The token list is an expression that writes its concatenations. -/
def ReadsExplicit (tokens : List Token) (tree : Tree) : Prop := Reads true .sum tokens tree

end Tree

end RegexAutomaton
