import Mathlib.Data.List.Forall2
import Mathlib.Data.Set.List
import RegexAutomaton.Proofs.Resemblance
import RegexAutomaton.Proofs.TableTexts

/-!
What a table shows, said without the columns that it was made from. A table is extracted for
some symbols, where no symbol at all counts as one; `Tabulated` says which these are, in what
order they stand, and how the row of each state lists its edges: by the names of the targets,
each edge once, in the cell of its symbol. Tables of all automata are of this kind as long as
symbols can be told apart by their texts (`tabulated_ofAutomaton`), for then columns and
symbols correspond.
-/
namespace RegexAutomaton

/-- A list that is sorted into the cells of its keys is kept as a whole. -/
theorem flatMap_filter_perm {β γ : Type} [DecidableEq γ] (key : β → γ) {keys : List γ} (once : keys.Nodup)
    {l : List β} (known : ∀ x ∈ l, key x ∈ keys) : (keys.flatMap fun k => l.filter (key · = k)).Perm l := by
  induction keys generalizing l with
  | nil =>
    have none : l = [] := List.eq_nil_iff_forall_not_mem.mpr fun x member => by simpa using known x member
    simp [none]
  | cons k rest ih =>
    obtain ⟨fresh, once⟩ := List.nodup_cons.mp once
    have others : ∀ x ∈ l.filter (fun x => !decide (key x = k)), key x ∈ rest := by
      intro x member
      obtain ⟨member, other⟩ := List.mem_filter.mp member
      exact (List.mem_cons.mp (known x member)).resolve_left (by simpa using other)
    have same : (rest.flatMap fun k' => (l.filter (fun x => !decide (key x = k))).filter (key · = k')) =
        rest.flatMap fun k' => l.filter (key · = k') := by
      refine List.flatMap_congr fun k' member => ?_
      have apart : k' ≠ k := fun same => fresh (same ▸ member)
      rw [List.filter_filter]
      refine List.filter_congr fun x _ => ?_
      by_cases here : key x = k' <;> simp [here, apart]
    have rest := ih once others
    rw [same] at rest
    exact (rest.append_left _).trans (List.filter_append_perm (key · = k) l)

namespace Automaton
variable {α : Type} {m : Automaton α}

/-! ## Names -/

/-- A table calls a state by its label, or by its place in the order if it has none. -/
def Called (m : Automaton α) (s : StateId) (name : String) : Prop :=
  m.label s = some name ∨ m.label s = none ∧ ∃ place, m.order[place]? = some s ∧ name = placeLabel place

theorem called_nameIn {s : StateId} (walked : s ∈ m.order) : m.Called s (m.nameIn m.order s) := by
  unfold Called nameIn
  cases label : m.label s with
  | some name => exact .inl rfl
  | none => exact .inr ⟨rfl, _, List.getElem?_idxOf walked, rfl⟩

/-! ## Columns -/

variable [Symbol α] {markers : Markers}

theorem mem_columns_iff {states : List StateId} {c : Column} :
    c ∈ m.columns markers states ↔ ∃ s ∈ states, ∃ e ∈ m.edges s, Column.ofSymbol markers e.symbol = c := by
  simp only [columns, Column.mem_sort, List.mem_map, List.mem_flatMap]
  constructor
  · rintro ⟨e, ⟨s, inside, edge⟩, same⟩
    exact ⟨s, inside, e, edge, same⟩
  · rintro ⟨s, inside, e, edge, same⟩
    exact ⟨e, ⟨s, inside, edge⟩, same⟩

theorem heading_of_silent {states : List StateId} {c : Column} (inside : c ∈ m.columns markers states)
    (silent : c.silent = true) : c.heading = markers.epsilon := by
  obtain ⟨_, _, ⟨symbol, target⟩, _, rfl⟩ := mem_columns_iff.mp inside
  cases symbol with
  | none => rfl
  | some x => cases silent

theorem pairwise_columns (m : Automaton α) (markers : Markers) (states : List StateId) :
    (m.columns markers states).Pairwise Column.Before :=
  Column.pairwise_sort _

theorem nodup_columns (m : Automaton α) (markers : Markers) (states : List StateId) :
    (m.columns markers states).Nodup :=
  (m.pairwise_columns markers states).imp fun before => before.ne

/-- Each column is that of a symbol on an edge. -/
theorem exists_symbols (m : Automaton α) (markers : Markers) (states : List StateId) :
    ∃ symbols : List (Option α), symbols.map (Column.ofSymbol markers) = m.columns markers states := by
  have each : ∀ c ∈ m.columns markers states, c ∈ Set.range (Column.ofSymbol markers : Option α → Column) := by
    intro c inside
    obtain ⟨_, _, e, _, same⟩ := mem_columns_iff.mp inside
    exact ⟨e.symbol, same⟩
  have range := Set.range_list_map (Column.ofSymbol markers : Option α → Column)
  exact (Set.ext_iff.mp range _).mpr each

/-! ## Rows and tables -/

variable [DecidableEq α]

/-- The edges of a state on the symbol, in the order in which they were added. -/
def edgesOn (m : Automaton α) (s : StateId) (symbol : Option α) : List (Edge α) :=
  (m.edges s).filter (·.symbol = symbol)

/-- The row shows the state: what it is called, whether it is the start or accepting, and where
    its edges lead to, in one cell for each symbol. No edge is left out and none is listed twice. -/
structure Shows (m : Automaton α) (markers : Markers) (symbols : List (Option α)) (s : StateId) (row : Row) : Prop where
  label : m.Called s row.label
  heading : row.heading =
    (if s = m.start then markers.start else "") ++ row.label ++ (if m.edges s = [] then markers.accepting else "")
  isStart : row.isStart = true ↔ s = m.start
  isAccepting : row.isAccepting = true ↔ m.edges s = []
  cells : List.Forall₂ (fun symbol cell => List.Forall₂ (fun e name => m.Called e.target name) (m.edgesOn s symbol) cell)
    symbols row.cells
  listed : (symbols.flatMap (m.edgesOn s)).Perm (m.edges s)

/-- The table is one of the automaton, with a column for each of the symbols: these are the
    symbols on the edges of the states that are reached, each once, in the order of their columns,
    and the rows show these states in breadth-first order. -/
structure Tabulated (m : Automaton α) (markers : Markers) (symbols : List (Option α)) (t : Table) : Prop where
  symbols_iff : ∀ x, x ∈ symbols ↔ ∃ s ∈ m.reached, ∃ e ∈ m.edges s, e.symbol = x
  once : symbols.Nodup
  ascending : symbols.Pairwise fun x y => (Column.ofSymbol markers x).Before (Column.ofSymbol markers y)
  header : t.header = symbols.map fun x => (Column.ofSymbol markers x).heading
  states_iff : ∀ s, s ∈ m.order ↔ s ∈ m.reached
  states_once : m.order.Nodup
  rows : List.Forall₂ (m.Shows markers symbols) m.order t.rows

theorem map_cell_eq [LawfulSymbol α] (order : List StateId) (s : StateId) (symbols : List (Option α)) :
    (symbols.map (Column.ofSymbol markers)).map (m.cell markers order s) =
      symbols.map fun x => (m.edgesOn s x).map fun e => m.nameIn order e.target := by
  rw [List.map_map]
  refine List.map_congr_left fun x _ => ?_
  simp only [Function.comp_apply, cell, edgesOn, Column.ofSymbol_inj]

theorem shows_row [LawfulSymbol α] (closed : m.Closed) {s : StateId} (walked : s ∈ m.order) {symbols : List (Option α)}
    (once : symbols.Nodup) (known : ∀ e ∈ m.edges s, e.symbol ∈ symbols) :
    m.Shows markers symbols s (m.row markers m.order (symbols.map (Column.ofSymbol markers)) s) := by
  have accepting : m.isAccepting s = true ↔ m.edges s = [] := by
    simp [Arena.isAccepting, (mem_order_iff.mp walked).1]
  constructor
  · exact called_nameIn walked
  · simp only [row, accepting, decide_eq_true_eq]
  · exact decide_eq_true_iff
  · exact accepting
  · rw [row, map_cell_eq, List.forall₂_map_right_iff, List.forall₂_same]
    intro x _
    rw [List.forall₂_map_right_iff, List.forall₂_same]
    intro e listed
    exact called_nameIn (target_mem_order closed walked (List.mem_filter.mp listed).1)
  · exact flatMap_filter_perm Edge.symbol once known

/-- The table of an automaton lists just the edges of the states that are reached, each of them
    once, in the row of the state and in the cell of the symbol, whatever labels the states have
    and whatever the start is. -/
theorem tabulated_ofAutomaton [LawfulSymbol α] (built : m.Built) (markers : Markers) :
    ∃ symbols, m.Tabulated markers symbols (Table.ofAutomaton markers m) := by
  obtain ⟨symbols, columns⟩ := m.exists_symbols markers m.order
  have known : ∀ x, x ∈ symbols ↔ ∃ s ∈ m.order, ∃ e ∈ m.edges s, e.symbol = x := by
    intro x
    have injective : Function.Injective (Column.ofSymbol markers : Option α → Column) :=
      fun _ _ => Column.ofSymbol_inj.mp
    rw [← List.mem_map_of_injective injective, columns, mem_columns_iff]
    simp only [Column.ofSymbol_inj]
  have ascending := m.pairwise_columns markers m.order
  rw [← columns, List.pairwise_map] at ascending
  have once : symbols.Nodup := ascending.imp fun before same => before.ne (congrArg _ same)
  refine ⟨symbols, ?_, once, ascending, ?_, fun s => mem_reached_iff.symm, m.nodup_order, ?_⟩
  · simpa only [mem_reached_iff] using known
  · simp [Table.ofAutomaton, ← columns]
  · rw [Table.ofAutomaton, ← columns, List.forall₂_map_right_iff, List.forall₂_same]
    intro s walked
    exact shows_row built.closed walked once fun e edge => (known e.symbol).mpr ⟨s, walked, e, edge, rfl⟩

/-- An automaton that was labelled before it was given another start, so that the new start has
    no label and the other state keeps an old one. It has a loop, parallel edges, and a symbol
    that is written like the epsilon marker. -/
def handedOver : Automaton String :=
  { ((Step.outcome [.addState, .addState, .addEdge 0 1 (some "ε"), .addEdge 0 1 none, .addEdge 0 0 (some "a"),
      .addEdge 0 1 (some "ε"), .addState]).finish ⟨1, 2⟩).relabel with
    start := 0 }

theorem tabulated_ofAutomaton_handedOver :
    handedOver.Built ∧ (∃ symbols, handedOver.Tabulated {} symbols (Table.ofAutomaton {} handedOver)) ∧
      (Table.ofAutomaton {} handedOver).header = ["a", "ε", "ε"] ∧
      (Table.ofAutomaton {} handedOver).rows.map Row.cells = [[["q0"], ["q0", "q0"], ["q0"]], [[], [], []]] := by
  have obtained : handedOver.Obtained := .restart (.relabel (.finish _ _)) 0
  exact ⟨obtained.built, tabulated_ofAutomaton obtained.built {}, by decide +kernel, by decide +kernel⟩

end Automaton

end RegexAutomaton
