import RegexAutomaton.Automaton.Basic
import RegexAutomaton.Table.Column

/-!
Transition tables. A table has a row for each state that can be reached, in
breadth-first order, and a column for each kind of edge that leaves one of them.
A cell lists the labels of the targets, in the order in which the edges were added.
-/
namespace RegexAutomaton

/-- The row of a state. Its heading is the label with the markers; there is one cell
    for each column. -/
structure Row where
  label : String
  heading : String
  isStart : Bool
  isAccepting : Bool
  cells : List (List String)
  deriving DecidableEq

/-- The transition function of an automaton as a grid. -/
structure Table where
  header : List String
  rows : List Row
  markers : Markers
  deriving DecidableEq

namespace Automaton
variable {α : Type} [Symbol α]

/-- What a state is called in a table: its label, or else the one that its place in the
    order would give it. -/
def nameIn (m : Automaton α) (order : List StateId) (s : StateId) : String :=
  (m.label s).getD (placeLabel (order.idxOf s))

/-- The columns of the edges that leave the given states. -/
def columns (m : Automaton α) (markers : Markers) (states : List StateId) : List Column :=
  Column.sort ((states.flatMap m.edges).map fun edge => Column.ofSymbol markers edge.symbol)

/-- The names of the states that edges of one column lead to from `s`. -/
def cell (m : Automaton α) (markers : Markers) (order : List StateId) (s : StateId) (column : Column) : List String :=
  ((m.edges s).filter fun edge => Column.ofSymbol markers edge.symbol = column).map fun edge =>
    m.nameIn order edge.target

/-- The row of a state. -/
def row (m : Automaton α) (markers : Markers) (order : List StateId) (columns : List Column) (s : StateId) : Row :=
  let label := m.nameIn order s
  let isStart : Bool := s = m.start
  let isAccepting := m.isAccepting s
  { label
    heading := (if isStart then markers.start else "") ++ label ++ (if isAccepting then markers.accepting else "")
    isStart
    isAccepting
    cells := columns.map (m.cell markers order s) }

end Automaton

namespace Table

/-- The table of an automaton. -/
def ofAutomaton {α : Type} [Symbol α] (markers : Markers) (m : Automaton α) : Table :=
  let order := m.order
  let columns := m.columns markers order
  { header := columns.map Column.heading
    rows := order.map (m.row markers order columns)
    markers }

/-- The labels in a row under a heading; of two columns with one heading, the first. -/
def cell? (t : Table) (row : Nat) (heading : String) : Option (List String) := do
  let column ← t.header.idxOf? heading
  let found ← t.rows[row]?
  found.cells[column]?

/-- A cell as text: the labels separated by commas, or the epsilon marker if there are none. -/
def cellText (t : Table) (labels : List String) : String :=
  if labels.isEmpty then t.markers.epsilon else String.intercalate "," labels

/-- All texts of the table: a line with the headings, then a line for each row. -/
def grid (t : Table) : List (List String) :=
  ("state" :: t.header) :: t.rows.map fun row => row.heading :: row.cells.map t.cellText

theorem length_rows {α : Type} [Symbol α] (markers : Markers) (m : Automaton α) :
    (ofAutomaton markers m).rows.length = m.order.length := by
  simp [ofAutomaton]

theorem length_cells {α : Type} [Symbol α] {markers : Markers} {m : Automaton α} {row : Row}
    (member : row ∈ (ofAutomaton markers m).rows) : row.cells.length = (ofAutomaton markers m).header.length := by
  obtain ⟨s, _, rfl⟩ := List.mem_map.mp member
  simp [ofAutomaton, Automaton.row]

theorem length_grid_line {α : Type} [Symbol α] {markers : Markers} {m : Automaton α} {line : List String}
    (member : line ∈ (ofAutomaton markers m).grid) : line.length = (ofAutomaton markers m).header.length + 1 := by
  obtain rfl | member := List.mem_cons.mp member
  · rfl
  · obtain ⟨row, inside, rfl⟩ := List.mem_map.mp member
    simp [length_cells inside]

end Table

end RegexAutomaton
