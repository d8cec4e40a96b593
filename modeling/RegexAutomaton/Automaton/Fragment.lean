import RegexAutomaton.Automaton.Arena

/-!
Fragments and their composition. A fragment is the part of an arena between a start
and a stop state. A composition takes open fragments, whose stop state has no
edges yet, adds edges that carry no symbol, and returns the fragment it made;
given anything else it refuses. The symbol-free edges are added in the order in
which they are written here.
-/
namespace RegexAutomaton

/-- A part of an automaton under construction. -/
structure Fragment where
  start : StateId
  stop : StateId
  deriving DecidableEq

namespace Arena
variable {α : Type}

/-- Both states of the fragment belong to the arena and nothing continues it yet. -/
def isOpen (a : Arena α) (f : Fragment) : Bool := f.start < a.size && a.isAccepting f.stop

/-- Two fragments can be composed: both are open and they do not end in the same state. -/
def composable (a : Arena α) (f g : Fragment) : Bool := a.isOpen f && a.isOpen g && f.stop != g.stop

/-- The fragment of the two states that a composition is about to add. -/
def fresh (a : Arena α) : Fragment := ⟨a.size, a.size + 1⟩

/-- Adds the two states of `fresh`. -/
def grow (a : Arena α) : Arena α := a.addState.addState

/-- Two new states, joined by an edge on the symbol. -/
def literal (a : Arena α) (symbol : α) : Fragment × Arena α :=
  (a.fresh, a.grow.link a.fresh.start (some symbol) a.fresh.stop)

/-- Two new states, one leading into both fragments and one that both lead into. -/
def union? (a : Arena α) (f g : Fragment) : Option (Fragment × Arena α) :=
  if a.composable f g then
    some (a.fresh, a.grow
      |>.link a.fresh.start none f.start
      |>.link a.fresh.start none g.start
      |>.link f.stop none a.fresh.stop
      |>.link g.stop none a.fresh.stop)
  else none

/-- The first fragment continued by the second; no state is added. -/
def concat? (a : Arena α) (f g : Fragment) : Option (Fragment × Arena α) :=
  if a.composable f g then some (⟨f.start, g.stop⟩, a.link f.stop none g.start) else none

/-- Two new states around the fragment: it may be skipped, and its end may lead back to
    its start. -/
def star? (a : Arena α) (f : Fragment) : Option (Fragment × Arena α) :=
  if a.isOpen f then
    some (a.fresh, a.grow
      |>.link a.fresh.start none f.start
      |>.link a.fresh.start none a.fresh.stop
      |>.link f.stop none f.start
      |>.link f.stop none a.fresh.stop)
  else none

/-! ## Sizes and refusals -/

@[simp] theorem size_grow (a : Arena α) : a.grow.size = a.size + 2 := by simp [grow]

@[simp] theorem edges_grow (a : Arena α) (s : StateId) : a.grow.edges s = a.edges s := by simp [grow]

theorem size_literal (a : Arena α) (symbol : α) : (a.literal symbol).2.size = a.size + 2 := by simp [literal]

theorem isOpen_iff (a : Arena α) (f : Fragment) :
    a.isOpen f = true ↔ f.start < a.size ∧ f.stop < a.size ∧ a.edges f.stop = [] := by
  simp [isOpen, isAccepting]

theorem composable_iff (a : Arena α) (f g : Fragment) :
    a.composable f g = true ↔ a.isOpen f = true ∧ a.isOpen g = true ∧ f.stop ≠ g.stop := by
  simp [composable, and_assoc]

theorem isOpen_literal (a : Arena α) (symbol : α) : (a.literal symbol).2.isOpen (a.literal symbol).1 = true := by
  have untouched : a.edges (a.size + 1) = [] := edges_of_size_le (Nat.le_succ _)
  simp [isOpen_iff, literal, fresh, edges_link, untouched]

end Arena

end RegexAutomaton
