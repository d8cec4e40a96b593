import RegexAutomaton.Explicit
import RegexAutomaton.Postorder
import RegexAutomaton.Assembly

/-!
Compiling an expression: read it, write its concatenations, put it into postorder,
assemble the automaton and label its states. `compile` runs all stages on tokens;
the stages are also there one by one, each reading the text that the one before
it wrote.
-/
namespace RegexAutomaton

/-- A compiled expression with the forms it went through. -/
structure Compiled where
  expression : String
  explicit : String
  postorder : String
  automaton : Automaton Char
  deriving DecidableEq

namespace Dialect

/-- Compiles an expression; the first stage that fails decides the fault. -/
def compile (d : Dialect) (expression : String) : Except Fault Compiled := do
  let tokens ← d.readImplicit expression
  let explicit := d.makeExplicit tokens
  let postorder ← Postorder.ofExplicit explicit
  let automaton ← assemble postorder
  return {
    expression
    explicit := Token.render explicit
    postorder := Token.render postorder
    automaton := automaton.relabel }

theorem compile_eq_ok_iff {d : Dialect} {expression : String} {c : Compiled} :
    d.compile expression = .ok c ↔
      ∃ tokens postorder automaton, d.readImplicit expression = .ok tokens ∧
        Postorder.ofExplicit (d.makeExplicit tokens) = .ok postorder ∧ assemble postorder = .ok automaton ∧
        c = ⟨expression, Token.render (d.makeExplicit tokens), Token.render postorder, automaton.relabel⟩ := by
  cases read : d.readImplicit expression with
  | error fault => simp [compile, read, bind, Except.bind]
  | ok tokens =>
    cases arranged : Postorder.ofExplicit (d.makeExplicit tokens) with
    | error fault => simp [compile, read, arranged, bind, Except.bind]
    | ok postorder =>
      cases built : assemble postorder with
      | error fault => simp [compile, read, arranged, built, bind, Except.bind]
      | ok automaton => simp [compile, read, arranged, built, bind, Except.bind, pure, Except.pure, eq_comm]

/-! ## The stages on texts -/

/-- The expression with its concatenations written. -/
def explicitText (d : Dialect) (expression : String) : Except Fault String := do
  let tokens ← d.readImplicit expression
  return Token.render (d.makeExplicit tokens)

/-- The postorder of an explicit text. -/
def postorderText (d : Dialect) (explicit : String) : Except Fault String := do
  let postorder ← Postorder.ofExplicit (d.readExplicit explicit)
  return Token.render postorder

/-- The automaton of a text in postorder, not labelled. -/
def assembleText (d : Dialect) (postorder : String) : Except Fault (Automaton Char) :=
  assemble (d.readExplicit postorder)

end Dialect

end RegexAutomaton
