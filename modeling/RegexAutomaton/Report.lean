import RegexAutomaton.Compiler
import RegexAutomaton.Table.Layout

/-!
What the command line prints for an expression: its forms and its transition table,
or why it is rejected.
-/
namespace RegexAutomaton

/-- Everything a run of the command line produces. -/
structure Report where
  code : UInt32 := 0
  out : String := ""
  err : String := ""
  deriving DecidableEq

namespace Report

/-- The expression that is compiled when none is given. -/
def defaultExpression : String := "a(a+b)*b"

/-- The forms of a compiled expression and its table. -/
def ofCompiled (c : Compiled) : Report where
  out :=
    "regular expression:    " ++ c.expression ++ "\n" ++
    "normalized expression: " ++ c.explicit ++ "\n" ++
    "postfix expression:    " ++ c.postorder ++ "\n\n" ++
    (Table.ofAutomaton {} c.automaton).text

/-- The fault of an expression. -/
def ofFault (expression : String) (fault : Fault) : Report where
  code := 1
  err := expression ++ ": " ++ fault.message ++ "\n"

/-- The report on the first argument; further arguments are ignored. -/
def ofArguments (arguments : List String) : Report :=
  let expression := arguments.head?.getD defaultExpression
  match ({} : Dialect).compile expression with
  | .ok c => ofCompiled c
  | .error fault => ofFault expression fault

end Report

end RegexAutomaton
