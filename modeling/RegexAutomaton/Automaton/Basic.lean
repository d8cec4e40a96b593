import RegexAutomaton.Automaton.Fragment
import RegexAutomaton.Automaton.Breadth

/-!
Automata with edges that read no symbol. An automaton is an arena with a start state
and the stop state of the fragment it was finished from. What it does is decided
by the states that can be reached from the start; `order` lists them, and `relabel`
names them by their place in it.
-/
namespace RegexAutomaton

/-- An arena with a start state and a designated accepting state. -/
structure Automaton (α : Type) extends Arena α where
  start : StateId
  accepting : StateId
  deriving DecidableEq

variable {α : Type}

/-- The arena as an automaton that begins at the fragment's start. -/
def Arena.finish (a : Arena α) (f : Fragment) : Automaton α := { a with start := f.start, accepting := f.stop }

/-- The label of the state at a place in the breadth-first order: `q0`, `q1`, and so on. -/
def placeLabel (place : Nat) : String := "q" ++ Nat.repr place

namespace Automaton

/-- The states that can be reached, in breadth-first order. -/
def order (m : Automaton α) : List StateId := m.bfs m.start

/-- The states that can be reached and that no edge leaves, in breadth-first order. -/
def acceptingStates (m : Automaton α) : List StateId := m.order.filter m.isAccepting

/-- Labels the states of `order` by their place and removes all other labels. -/
def relabel (m : Automaton α) : Automaton α :=
  let order := m.order
  { m with states := m.states.mapIdx fun s state => { state with label := (order.idxOf? s).map placeLabel } }

/-- Every state that can be reached has a label. -/
def isLabelled (m : Automaton α) : Bool := m.order.all fun s => (m.label s).isSome

@[simp] theorem start_relabel (m : Automaton α) : m.relabel.start = m.start := rfl

@[simp] theorem accepting_relabel (m : Automaton α) : m.relabel.accepting = m.accepting := rfl

@[simp] theorem size_relabel (m : Automaton α) : m.relabel.size = m.size := by
  simp [relabel, Arena.size]

@[simp] theorem edges_relabel (m : Automaton α) (s : StateId) : m.relabel.edges s = m.edges s := by
  simp [relabel, Arena.edges, Function.comp_def]

theorem label_relabel {m : Automaton α} {s : StateId} (inside : s < m.size) :
    m.relabel.label s = (m.order.idxOf? s).map placeLabel := by
  simp [relabel, Arena.label, Array.getElem?_eq_getElem (show s < m.states.size from inside)]

end Automaton

end RegexAutomaton
