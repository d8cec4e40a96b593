import RegexAutomaton.Compiler
import RegexAutomaton.Table.Basic
import RegexAutomaton.Text.Quoted

/-!
The journal of a compilation: what each stage reports when it is done, and every
fragment as it is composed. A stage that fails reports nothing, and the journal
ends before it.
-/
namespace RegexAutomaton

namespace Journal

/-- A way to make a fragment. -/
inductive Composition where
  | literal
  | union
  | concatenation
  | star
  deriving DecidableEq

/-- What is reported. -/
inductive Event where
  /-- The postorder is done. -/
  | arranged (explicitCount postorderCount : Nat)
  /-- The texts of the stages before the assembly. -/
  | compiling (expression explicit postorder : String)
  /-- A fragment was made. -/
  | composed (composition : Composition) (fragment : Fragment)
  /-- The automaton is assembled. -/
  | assembled (states tokenCount : Nat)
  /-- The table is extracted. -/
  | tabulated (rows columns : Nat)
  deriving DecidableEq

/-- How closely an event follows the work. -/
inductive Level where
  | debug
  | trace
  deriving DecidableEq

/-- The composition that a token asks for; delimiters ask for none. -/
def Composition.ofKind? : Token.Kind → Option Composition
  | .literal => some .literal
  | .union => some .union
  | .concat => some .concatenation
  | .closure => some .star
  | .opening | .closing => none

def Composition.name : Composition → String
  | .literal => "literal"
  | .union => "union"
  | .concatenation => "concatenation"
  | .star => "kleene star"

/-- Single compositions are traced; all other events are for debugging. -/
def Event.level : Event → Level
  | .composed _ _ => .trace
  | .arranged _ _ | .compiling _ _ _ | .assembled _ _ | .tabulated _ _ => .debug

/-- The line that reports an event. -/
def Event.message : Event → String
  | .arranged explicitCount postorderCount =>
    s!"converted {explicitCount} infix tokens to {postorderCount} postfix tokens"
  | .compiling expression explicit postorder =>
    "compiling " ++ Text.quote expression ++ ": normalized " ++ Text.quote explicit ++
      ", postfix " ++ Text.quote postorder
  | .composed composition fragment =>
    composition.name ++ " " ++ fragment.start.render ++ " -> " ++ fragment.stop.render
  | .assembled states tokenCount => s!"built {states} states from {tokenCount} postfix tokens"
  | .tabulated rows columns => s!"extracted transition table: {rows} states x {columns} symbols"

/-- The event of a token that was taken: what it composed is on top of the stack. -/
def composed? (t : Token) (after : Assembly) : Option Event := do
  let composition ← Composition.ofKind? t.kind
  let fragment ← after.stack.head?
  return .composed composition fragment

/-- The compositions of an assembly that takes the tokens, up to the first fault. -/
def compositions (a : Assembly) : List Token → List Event
  | [] => []
  | t :: rest =>
    match a.take t with
    | .error _ => []
    | .ok after => (composed? t after).toList ++ compositions after rest

end Journal

/-- The events of compiling an expression and, if that succeeds, extracting its table. -/
def Dialect.journal (d : Dialect) (expression : String) : List Journal.Event :=
  match d.readImplicit expression with
  | .error _ => []
  | .ok tokens =>
    let explicit := d.makeExplicit tokens
    match Postorder.ofExplicit explicit with
    | .error _ => []
    | .ok postorder =>
      .arranged explicit.length postorder.length ::
        .compiling expression (Token.render explicit) (Token.render postorder) ::
        Journal.compositions {} postorder ++
        match assemble postorder with
        | .error _ => []
        | .ok automaton =>
          let table := Table.ofAutomaton {} automaton.relabel
          [.assembled automaton.size postorder.length, .tabulated table.rows.length table.header.length]

end RegexAutomaton
