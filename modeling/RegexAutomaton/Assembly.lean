import RegexAutomaton.Token
import RegexAutomaton.Fault
import RegexAutomaton.Automaton.Basic

/-!
From postorder to an automaton. The tokens are taken in order, with a stack of the
fragments that no operator has joined yet. One fragment has to be left; its start
is where the automaton begins.
-/
namespace RegexAutomaton

/-- An arena and the fragments in it that are still to be joined, the latest first. -/
structure Assembly where
  arena : Arena Char := {}
  stack : List Fragment := []
  deriving DecidableEq

namespace Assembly

/-- Puts the fragment that a composition made on what the operator left of the stack. -/
def place (operator : Token) (rest : List Fragment) : Option (Fragment × Arena Char) → Except Fault Assembly
  | some (f, arena) => .ok ⟨arena, f :: rest⟩
  | none => .error (.closedFragment operator.char operator.index)

/-- Takes one token. An operator replaces its operands, of which the last is on top, by
    their composition; delimiters have no place in postorder. -/
def take (a : Assembly) (t : Token) : Except Fault Assembly :=
  match t.kind, a.stack with
  | .literal, stack => place t stack (some (a.arena.literal t.char))
  | .union, g :: f :: rest => place t rest (a.arena.union? f g)
  | .concat, g :: f :: rest => place t rest (a.arena.concat? f g)
  | .closure, f :: rest => place t rest (a.arena.star? f)
  | .opening, _ => .error (.unmatchedOpening t.index)
  | .closing, _ => .error (.unmatchedClosing t.index)
  | kind, stack => .error (.missingOperand t.char t.index kind.arity stack.length)

/-- Takes the tokens in order. -/
def takeAll (a : Assembly) (tokens : List Token) : Except Fault Assembly := tokens.foldlM take a

/-- The automaton of the only fragment left. -/
def finish (a : Assembly) : Except Fault (Automaton Char) :=
  match a.stack with
  | [] => .error .emptyExpression
  | [f] => .ok (a.arena.finish f)
  | several => .error (.leftoverFragments several.length)

theorem takeAll_append (a : Assembly) (front back : List Token) :
    a.takeAll (front ++ back) = (a.takeAll front).bind (·.takeAll back) := by
  simp [takeAll, List.foldlM_append, bind]

end Assembly

/-- The automaton of a token list in postorder, not labelled. -/
def assemble (tokens : List Token) : Except Fault (Automaton Char) :=
  (({} : Assembly).takeAll tokens).bind Assembly.finish

end RegexAutomaton
