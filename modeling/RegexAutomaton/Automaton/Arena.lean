/-!
The arena that holds the states of an automaton. A state is named by its position,
so fragments may share states and cycles need nothing special. States are only
ever added, and edges only ever appended to a state's list.
-/
namespace RegexAutomaton

/-- A state is named by its position in the arena. -/
abbrev StateId := Nat

/-- The printed name of a state id. -/
def StateId.render (s : StateId) : String := "s" ++ Nat.repr s

/-- An edge to a state: on a symbol, or on no input at all. -/
structure Edge (α : Type) where
  symbol : Option α
  target : StateId
  deriving DecidableEq

/-- A state: its label, once one is assigned, and its outgoing edges in the order they
    were added. -/
structure State (α : Type) where
  label : Option String := none
  edges : List (Edge α) := []
  deriving DecidableEq

/-- The states allocated so far. -/
structure Arena (α : Type) where
  states : Array (State α) := #[]
  deriving DecidableEq

namespace Arena
variable {α : Type}

/-- The number of states, which is also the id of the next one. -/
def size (a : Arena α) : Nat := a.states.size

/-- The edges that leave a state; an id outside the arena has none. -/
def edges (a : Arena α) (s : StateId) : List (Edge α) := (a.states[s]?.map State.edges).getD []

/-- The targets of the edges that leave a state. -/
def targets (a : Arena α) (s : StateId) : List StateId := (a.edges s).map Edge.target

/-- The label of a state, if it has one. -/
def label (a : Arena α) (s : StateId) : Option String := a.states[s]?.bind State.label

/-- A state of the arena that no edge leaves. -/
def isAccepting (a : Arena α) (s : StateId) : Bool := s < a.size && (a.edges s).isEmpty

/-- Adds a state without edges; its id is the size before. -/
def addState (a : Arena α) : Arena α := ⟨a.states.push {}⟩

/-- Appends an edge to those of a state; an id outside the arena is ignored. -/
def link (a : Arena α) (source : StateId) (symbol : Option α) (target : StateId) : Arena α :=
  ⟨a.states.modify source fun state => { state with edges := state.edges ++ [⟨symbol, target⟩] }⟩

/-- Adds an edge between two states of the arena. -/
def addEdge? (a : Arena α) (source target : StateId) (symbol : Option α) : Option (Arena α) :=
  if source < a.size ∧ target < a.size then some (a.link source symbol target) else none

/-! ## What the operations do to sizes and edges -/

theorem edges_of_size_le {a : Arena α} {s : StateId} (outside : a.size ≤ s) : a.edges s = [] := by
  simp [edges, Array.getElem?_eq_none outside]

@[simp] theorem size_addState (a : Arena α) : a.addState.size = a.size + 1 := by
  simp [size, addState]

@[simp] theorem edges_addState (a : Arena α) (s : StateId) : a.addState.edges s = a.edges s := by
  simp only [edges, addState, Array.getElem?_push]
  split
  · rename_i fresh
    simp [fresh]
  · rfl

@[simp] theorem size_link (a : Arena α) (source target : StateId) (symbol : Option α) :
    (a.link source symbol target).size = a.size := by
  simp [size, link]

theorem edges_link (a : Arena α) (source target s : StateId) (symbol : Option α) :
    (a.link source symbol target).edges s =
      if s = source ∧ source < a.size then a.edges s ++ [⟨symbol, target⟩] else a.edges s := by
  simp only [edges, link, size, Array.getElem?_modify]
  by_cases same : source = s
  · subst same
    by_cases inside : source < a.states.size <;> simp [inside]
  · simp [same, Ne.symm same]

end Arena

end RegexAutomaton
