import RegexAutomaton.Token
import RegexAutomaton.Fault

/-!
From infix order to postorder. Operators and opening delimiters wait on a stack.
An operator is written once an operator that does not bind tighter arrives, once
its group is closed, or at the end; literals are written at once and delimiters
never. Only unbalanced delimiters are faults.
-/
namespace RegexAutomaton.Postorder

def isOpening (t : Token) : Bool := t.kind = .opening

/-- A waiting operator goes before an arriving one when it is the same operator or binds
    tighter; so equal operators group to the left. -/
def goesBefore (waiting arriving : Token.Kind) : Bool :=
  waiting = arriving || arriving.precedence.getD 0 < waiting.precedence.getD 0

/-- A waiting token is written when an operator arrives. -/
def makesWay (arriving : Token) (waiting : Token) : Bool :=
  !isOpening waiting && goesBefore waiting.kind arriving.kind

/-- The postorder of the tokens that are still to come, when `waiting` tokens are on
    the stack, the latest first. -/
def arrange : (tokens waiting : List Token) → Except Fault (List Token)
  | [], waiting =>
    match waiting.find? isOpening with
    | some t => .error (.unmatchedOpening t.index)
    | none => .ok waiting
  | t :: rest, waiting =>
    match t.kind with
    | .literal => (t :: ·) <$> arrange rest waiting
    | .opening => arrange rest (t :: waiting)
    | .closing =>
      match waiting.dropWhile (!isOpening ·) with
      | [] => .error (.unmatchedClosing t.index)
      | _ :: outer => (waiting.takeWhile (!isOpening ·) ++ ·) <$> arrange rest outer
    | .union | .concat | .closure =>
      (waiting.takeWhile (makesWay t) ++ ·) <$> arrange rest (t :: waiting.dropWhile (makesWay t))

/-- The tokens of an explicit expression in postorder. -/
def ofExplicit (tokens : List Token) : Except Fault (List Token) := arrange tokens []

end RegexAutomaton.Postorder
