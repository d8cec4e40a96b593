import RegexAutomaton.Proofs.Renaming
import RegexAutomaton.Proofs.Tabulation

/-!
What a table keeps of a compiled automaton: all but the ids of its states. The rows stand in
breadth-first order, and the cells name the targets by their rows. Since all edges of a state
are of one kind, the cells of its row give its edges in order. Only the headings and the cells
are needed for this, so the grid of the table keeps as much, as long as
an empty cell does not look like a label.
-/
namespace RegexAutomaton
open Token (number)

namespace Automaton

/-! ## Labelled automata -/

theorem Trim.relabel {m : Automaton Char} (trim : m.Trim) : m.relabel.Trim := by
  have reaches : ∀ {s t : StateId}, m.relabel.Reachable s t ↔ m.Reachable s t :=
    Arena.reachable_iff_of_same fun u _ => m.edges_relabel u
  constructor
  · simpa using trim.start_lt
  · simpa using trim.accepting_lt
  · simpa using trim.closed
  · simpa [reaches] using trim.reached
  · simpa [reaches] using trim.productive
  · simpa using trim.ending
  · exact trim.proper
  · simpa using trim.entrance
  · simpa using trim.uniform

/-- What reading a table back relies on: the automaton is trim and its labels are those by
    place, it reads some symbol, and if it has no silent edges then its edges
    all read the same one. -/
structure Readable (m : Automaton Char) : Prop where
  trim : m.Trim
  named : ∀ s, m.nameIn m.order s = placeLabel (m.order.idxOf s)
  reads : ∃ e ∈ m.allEdges, e.symbol ≠ none
  plain : (∀ e ∈ m.allEdges, e.symbol ≠ none) → ∀ e ∈ m.allEdges, ∀ e' ∈ m.allEdges, e.symbol = e'.symbol

end Automaton

/-- An assembled automaton without silent edges is that of a single literal. -/
theorem readable_of_assemble {tokens : List Token} {m : Automaton Char} (built : assemble tokens = .ok m) :
    m.relabel.Readable := by
  obtain ⟨-, reading, silent, literals⟩ := sized_of_assemble built
  have kept : ∀ e, e ∈ m.relabel.allEdges ↔ e ∈ m.allEdges := by simp [Arena.mem_allEdges]
  refine ⟨(trim_of_assemble built).relabel, m.nameIn_relabel, ?_, ?_⟩
  · have some : 0 < m.reading := by omega
    obtain ⟨e, edge, reads⟩ := List.countP_pos_iff.mp some
    exact ⟨e, (kept e).mpr edge, by simpa [Option.ne_none_iff_isSome] using reads⟩
  · intro loud
    have none : m.silent = 0 := by
      refine List.countP_eq_zero.mpr fun e edge quiet => loud e ((kept e).mpr edge) ?_
      exact Option.isNone_iff_eq_none.mp quiet
    have one : m.allEdges.length = 1 := by
      rw [Arena.length_allEdges]
      omega
    obtain ⟨only, single⟩ := List.length_eq_one_iff.mp one
    intro e edge e' edge'
    rw [kept, single, List.mem_singleton] at edge edge'
    rw [edge, edge']

namespace Automaton
variable {m n : Automaton Char} {markers : Markers} {s t : StateId}

/-! ## Columns and cells -/

theorem Trim.mem_columns_iff (trim : m.Trim) {c : Column} :
    c ∈ m.columns markers m.order ↔ ∃ e ∈ m.allEdges, Column.ofSymbol markers e.symbol = c := by
  rw [Automaton.mem_columns_iff]
  constructor
  · rintro ⟨s, -, e, edge, same⟩
    exact ⟨e, Arena.mem_allEdges.mpr ⟨s, edge⟩, same⟩
  · rintro ⟨e, edge, same⟩
    obtain ⟨s, edge⟩ := Arena.mem_allEdges.mp edge
    exact ⟨s, trim.mem_order_iff.mpr (Arena.lt_size_of_mem_edges edge), e, edge, same⟩

/-- Whether a table has a column of silent edges shows in the number of its columns. -/
theorem Readable.exists_silent_iff (readable : m.Readable) (markers : Markers) :
    (∃ c ∈ m.columns markers m.order, c.silent = true) ↔ (m.columns markers m.order).length ≠ 1 := by
  obtain ⟨e, edge, reads⟩ := readable.reads
  obtain ⟨x, symbol⟩ := Option.ne_none_iff_exists'.mp reads
  have loud : Column.ofSymbol markers (some x) ∈ m.columns markers m.order :=
    readable.trim.mem_columns_iff.mpr ⟨e, edge, by rw [symbol]⟩
  constructor
  · rintro ⟨c, quiet, silent⟩ one
    obtain ⟨only, single⟩ := List.length_eq_one_iff.mp one
    rw [single, List.mem_singleton] at quiet loud
    rw [quiet, ← loud] at silent
    cases silent
  · intro many
    refine Decidable.not_not.mp fun none => many ?_
    have plain := readable.plain fun e' edge' quiet =>
      none ⟨_, readable.trim.mem_columns_iff.mpr ⟨e', edge', rfl⟩, by rw [quiet]; rfl⟩
    -- all edges read the same symbol, so there is no other column
    have members : ∀ c, c ∈ m.columns markers m.order ↔ c = Column.ofSymbol markers (some x) := by
      refine fun c => ⟨fun inside => ?_, fun same => same ▸ loud⟩
      obtain ⟨e', edge', rfl⟩ := readable.trim.mem_columns_iff.mp inside
      rw [plain e' edge' e edge, symbol]
    rw [eq_singleton_of_nodup (m.nodup_columns markers m.order) members]
    rfl

/-- The headings of a table tell its columns. -/
theorem Readable.columns_eq (readable : m.Readable) (readable' : n.Readable)
    (headings : (m.columns markers m.order).map Column.heading = (n.columns markers n.order).map Column.heading) :
    m.columns markers m.order = n.columns markers n.order := by
  refine Column.eq_of_headings (m.pairwise_columns markers m.order) (n.pairwise_columns markers n.order)
    (fun c => heading_of_silent) (fun c => heading_of_silent) ?_ headings
  have lengths : (m.columns markers m.order).length = (n.columns markers n.order).length := by
    simpa using congrArg List.length headings
  rw [readable.exists_silent_iff, readable'.exists_silent_iff, lengths]

/-- The places of the states that edges of one column lead to. -/
def cellPlaces (m : Automaton Char) (markers : Markers) (s : StateId) (column : Column) : List Nat :=
  ((m.edges s).filter fun e => Column.ofSymbol markers e.symbol = column).map fun e => m.order.idxOf e.target

theorem Readable.cell_eq (readable : m.Readable) (s : StateId) (column : Column) :
    m.cell markers m.order s column = (m.cellPlaces markers s column).map placeLabel := by
  simp [cell, cellPlaces, readable.named]

theorem Trim.cellPlaces_of_not_mem (trim : m.Trim) {c : Column} (absent : c ∉ m.columns markers m.order) :
    m.cellPlaces markers s c = [] := by
  rw [cellPlaces, List.map_eq_nil_iff, List.filter_eq_nil_iff]
  intro e edge same
  exact absent (trim.mem_columns_iff.mpr ⟨e, Arena.mem_allEdges.mpr ⟨s, edge⟩, of_decide_eq_true same⟩)

/-! ## The edges of a state -/

/-- All edges of a state are on the same symbol, or all are silent. -/
theorem Trim.exists_symbol (trim : m.Trim) (s : StateId) : ∃ x, ∀ e ∈ m.edges s, e.symbol = x := by
  by_cases ends : m.edges s = []
  · exact ⟨none, by simp [ends]⟩
  · obtain ⟨e, edge⟩ := List.exists_mem_of_ne_nil _ ends
    have inside := Arena.lt_size_of_mem_edges edge
    rcases trim.uniform s inside fun same => ends ((trim.ending s inside).mpr same) with ⟨x, t, one⟩ | ⟨-, silent⟩
    · exact ⟨some x, by simp [one]⟩
    · exact ⟨none, silent⟩

/-- The edges of a state with the places of their targets. -/
def placedEdges (m : Automaton Char) (s : StateId) : List (Option Char × Nat) :=
  (m.edges s).map fun e => (e.symbol, m.order.idxOf e.target)

theorem placedEdges_eq_map_cellPlaces {x : Option Char} (uniform : ∀ e ∈ m.edges s, e.symbol = x) (markers : Markers) :
    m.placedEdges s = (m.cellPlaces markers s (Column.ofSymbol markers x)).map fun place => (x, place) := by
  have all : (m.edges s).filter (fun e => Column.ofSymbol markers e.symbol = Column.ofSymbol markers x) = m.edges s :=
    List.filter_eq_self.mpr fun e edge => by rw [uniform e edge]; exact decide_eq_true rfl
  rw [placedEdges, cellPlaces, all, List.map_map]
  exact List.map_congr_left fun e edge => congrArg (·, m.order.idxOf e.target) (uniform e edge)

theorem cellPlaces_of_ne {x y : Option Char} (uniform : ∀ e ∈ m.edges s, e.symbol = x) (other : x ≠ y) :
    m.cellPlaces markers s (Column.ofSymbol markers y) = [] := by
  rw [cellPlaces, List.map_eq_nil_iff, List.filter_eq_nil_iff]
  intro e edge
  rw [uniform e edge, decide_eq_true_iff, Column.ofSymbol_inj]
  exact other

/-- The cells of a row give the edges of its state. -/
theorem Trim.placedEdges_eq (trim : m.Trim) (trim' : n.Trim) (markers : Markers)
    (cells : ∀ c, m.cellPlaces markers s c = n.cellPlaces markers t c) : m.placedEdges s = n.placedEdges t := by
  obtain ⟨x, uniform⟩ := trim.exists_symbol s
  obtain ⟨y, uniform'⟩ := trim'.exists_symbol t
  rw [placedEdges_eq_map_cellPlaces uniform markers, placedEdges_eq_map_cellPlaces uniform' markers]
  by_cases same : x = y
  · rw [same, cells]
  · rw [cells, cellPlaces_of_ne uniform' (Ne.symm same), ← cells, cellPlaces_of_ne uniform same]
    rfl

/-! ## The whole automaton -/

/-- Every state has a row. -/
theorem Trim.exists_place (trim : m.Trim) (inside : s < m.size) : ∃ i, ∃ place : i < m.order.length, m.order[i] = s :=
  List.mem_iff_getElem.mp (trim.mem_order_iff.mpr inside)

/-- The state of `n` in the row that a state of `m` has. -/
def counterpart (m n : Automaton Char) (s : StateId) : StateId := n.order.getD (m.order.idxOf s) 0

theorem counterpart_getElem (m n : Automaton Char) {i : Nat} (inside : i < m.order.length)
    (inside' : i < n.order.length) : m.counterpart n m.order[i] = n.order[i] := by
  simp [counterpart, m.nodup_order.idxOf_getElem, inside']

theorem counterpart_self {s : StateId} (met : s ∈ m.order) : m.counterpart m s = s := by
  have inside : m.order.idxOf s < m.order.length := List.idxOf_lt_length_of_mem met
  simp [counterpart, inside]

/-- The edges whose targets stand at known places. -/
def edgesAt (n : Automaton Char) (placed : List (Option Char × Nat)) : List (Edge Char) :=
  placed.map fun (x, place) => ⟨x, n.order.getD place 0⟩

theorem edgesAt_placedEdges (m n : Automaton Char) (s : StateId) :
    n.edgesAt (m.placedEdges s) = (m.edges s).map fun e => ⟨e.symbol, m.counterpart n e.target⟩ := by
  simp [edgesAt, placedEdges, counterpart]

theorem Trim.edgesAt_placedEdges (trim : m.Trim) (s : StateId) : m.edgesAt (m.placedEdges s) = m.edges s := by
  rw [Automaton.edgesAt_placedEdges]
  calc
    _ = (m.edges s).map id := List.map_congr_left fun e edge => by
      rw [counterpart_self (trim.mem_order_iff.mpr (trim.closed s e edge))]
      rfl
    _ = m.edges s := List.map_id _

theorem bijOn_counterpart (trim : m.Trim) (trim' : n.Trim) (lengths : m.order.length = n.order.length) :
    Set.BijOn (m.counterpart n) {s | s < m.size} {s | s < n.size} := by
  refine ⟨?_, ?_, ?_⟩
  · intro s inside
    obtain ⟨i, place, rfl⟩ := trim.exists_place inside
    rw [counterpart_getElem m n place (lengths ▸ place)]
    exact trim'.mem_order_iff.mp (List.getElem_mem _)
  · intro s inside t inside' same
    obtain ⟨i, place, rfl⟩ := trim.exists_place inside
    obtain ⟨j, place', rfl⟩ := trim.exists_place inside'
    rw [counterpart_getElem m n place (lengths ▸ place), counterpart_getElem m n place' (lengths ▸ place')] at same
    obtain rfl := n.nodup_order.getElem_inj_iff.mp same
    rfl
  · intro t inside
    obtain ⟨i, place, rfl⟩ := trim'.exists_place inside
    have place' : i < m.order.length := lengths ▸ place
    exact ⟨m.order[i], trim.mem_order_iff.mp (List.getElem_mem _), counterpart_getElem m n place' place⟩

theorem counterpart_start (trim : m.Trim) (trim' : n.Trim) : m.counterpart n m.start = n.start := by
  have first : m.order.head? = some m.start := Arena.head?_bfs trim.start_lt
  have first' : n.order.head? = some n.start := Arena.head?_bfs trim'.start_lt
  obtain ⟨rest, order⟩ := List.head?_eq_some_iff.mp first
  obtain ⟨rest', order'⟩ := List.head?_eq_some_iff.mp first'
  simp [counterpart, order, order']

/-- The cells of all rows, with places for labels. -/
def placeRows (m : Automaton Char) (markers : Markers) : List (List (List Nat)) :=
  m.order.map fun s => (m.columns markers m.order).map (m.cellPlaces markers s)

/-- The edges of a state, renamed, are those of its counterpart. -/
theorem Readable.edges_counterpart (readable : m.Readable) (readable' : n.Readable)
    (headings : (m.columns markers m.order).map Column.heading = (n.columns markers n.order).map Column.heading)
    (rows : m.placeRows markers = n.placeRows markers) (inside : s < m.size) :
    n.edges (m.counterpart n s) = (m.edges s).map fun e => ⟨e.symbol, m.counterpart n e.target⟩ := by
  have columns := readable.columns_eq readable' headings
  have lengths : m.order.length = n.order.length := by simpa [placeRows] using congrArg List.length rows
  obtain ⟨i, place, rfl⟩ := readable.trim.exists_place inside
  have place' : i < n.order.length := lengths ▸ place
  have row : (n.columns markers n.order).map (m.cellPlaces markers m.order[i]) =
      (n.columns markers n.order).map (n.cellPlaces markers n.order[i]) := by
    simpa [placeRows, place, place', columns] using congrArg (·[i]?) rows
  have cells : ∀ c, n.cellPlaces markers n.order[i] c = m.cellPlaces markers m.order[i] c := by
    intro c
    by_cases kept : c ∈ n.columns markers n.order
    · exact (List.map_inj_left.mp row c kept).symm
    · -- what has no column in the table has no edges in either automaton
      rw [readable'.trim.cellPlaces_of_not_mem kept, readable.trim.cellPlaces_of_not_mem (columns ▸ kept)]
  rw [counterpart_getElem m n place place', ← edgesAt_placedEdges, ← readable'.trim.edgesAt_placedEdges,
    readable'.trim.placedEdges_eq readable.trim markers cells]

/-- The headings and the cells determine the automaton up to the ids of its states. -/
theorem Readable.renames (readable : m.Readable) (readable' : n.Readable)
    (headings : (m.columns markers m.order).map Column.heading = (n.columns markers n.order).map Column.heading)
    (rows : m.placeRows markers = n.placeRows markers) : Renames (m.counterpart n) m n := by
  have lengths : m.order.length = n.order.length := by simpa [placeRows] using congrArg List.length rows
  have bijective := bijOn_counterpart readable.trim readable'.trim lengths
  have edges : ∀ s < m.size, n.edges (m.counterpart n s) = (m.edges s).map fun e => ⟨e.symbol, m.counterpart n e.target⟩ :=
    fun s => readable.edges_counterpart readable' headings rows
  refine ⟨bijective, counterpart_start readable.trim readable'.trim, ?_, edges⟩
  -- the accepting state is the one that no edge leaves, and so is its counterpart
  have inside := readable.trim.accepting_lt
  refine (readable'.trim.ending _ (bijective.mapsTo inside)).mp ?_
  rw [edges _ inside, (readable.trim.ending _ inside).mpr rfl]
  rfl

/-! ## Tables and grids -/

theorem Readable.cells_ofAutomaton (readable : m.Readable) (markers : Markers) :
    (Table.ofAutomaton markers m).rows.map Row.cells = (m.placeRows markers).map (List.map (List.map placeLabel)) := by
  simp [Table.ofAutomaton, row, placeRows, readable.cell_eq, Function.comp_def]

theorem Readable.renames_of_table (readable : m.Readable) (readable' : n.Readable)
    (same : Table.ofAutomaton markers m = Table.ofAutomaton markers n) : Renames (m.counterpart n) m n := by
  refine readable.renames readable' (congrArg Table.header same) ?_
  have cells := congrArg (fun t => t.rows.map Row.cells) same
  simp only [readable.cells_ofAutomaton, readable'.cells_ofAutomaton] at cells
  have labels : Function.Injective (List.map placeLabel) :=
    List.map_injective_iff.mpr fun i j => placeLabel_inj.mp
  exact List.map_injective_iff.mpr (List.map_injective_iff.mpr labels) cells

theorem Readable.renames_of_grid (readable : m.Readable) (readable' : n.Readable)
    (marker : markers.epsilon.toList.head? ≠ some 'q')
    (same : (Table.ofAutomaton markers m).grid = (Table.ofAutomaton markers n).grid) : Renames (m.counterpart n) m n := by
  obtain ⟨first, lines⟩ := List.cons.inj same
  refine readable.renames readable' (List.cons.inj first).2 ?_
  have cells : ((Table.ofAutomaton markers m).rows.map Row.cells).map (List.map (Table.ofAutomaton markers m).cellText) =
      ((Table.ofAutomaton markers n).rows.map Row.cells).map (List.map (Table.ofAutomaton markers n).cellText) := by
    simpa [Function.comp_def] using congrArg (List.map List.tail) lines
  rw [readable.cells_ofAutomaton, readable'.cells_ofAutomaton] at cells
  simp only [List.map_map, List.map_comp_map] at cells
  have texts : Function.Injective fun places : List Nat => (Table.ofAutomaton markers m).cellText (places.map placeLabel) :=
    fun places places' => (Table.cellText_inj marker).mp
  exact List.map_injective_iff.mpr (List.map_injective_iff.mpr texts) cells

end Automaton

namespace Dialect
variable {d d' : Dialect} {expression expression' : String} {c c' : Compiled}

theorem readable_of_compile (compiled : d.compile expression = .ok c) : c.automaton.Readable := by
  obtain ⟨_, _, _, -, -, built, rfl⟩ := compile_eq_ok_iff.mp compiled
  exact readable_of_assemble built

/-- Expressions of any dialects that are compiled to automata with the same table, whatever its
    markers are, have the same automaton up to the ids of the states, and so the same
    language. With the default markers this holds as soon as the grids are the same. -/
theorem renames_of_same_table (compiled : d.compile expression = .ok c) (compiled' : d'.compile expression' = .ok c')
    (same : (∃ markers, Table.ofAutomaton markers c.automaton = Table.ofAutomaton markers c'.automaton) ∨
      (Table.ofAutomaton {} c.automaton).grid = (Table.ofAutomaton {} c'.automaton).grid) :
    ∃ f, Automaton.Renames f c.automaton c'.automaton ∧
      ∀ word, c.automaton.Accepts word ↔ c'.automaton.Accepts word := by
  have readable := readable_of_compile compiled
  have readable' := readable_of_compile compiled'
  have renames : Automaton.Renames (c.automaton.counterpart c'.automaton) c.automaton c'.automaton := by
    rcases same with ⟨markers, table⟩ | grid
    · exact readable.renames_of_table readable' table
    · exact readable.renames_of_grid readable' (by decide) grid
  exact ⟨_, renames, renames.accepts_iff readable.trim.closed readable.trim.start_lt readable.trim.accepting_lt⟩

/-- The literal that is written like the epsilon marker has a column of its own, with the same heading. -/
theorem renames_of_same_table_brackets :
    ∃ c c' f, ({} : Dialect).compile "a(b+ε)*" = .ok c ∧
      ({ unions := ['/'], closure := '#', opening := '[', closing := ']' } : Dialect).compile "a[b/ε]#" = .ok c' ∧
      Table.ofAutomaton {} c.automaton = Table.ofAutomaton {} c'.automaton ∧
      Automaton.Renames f c.automaton c'.automaton ∧ ∀ word, c.automaton.Accepts word ↔ c'.automaton.Accepts word := by
  obtain ⟨f, renames, accepts⟩ := @renames_of_same_table {}
    { unions := ['/'], closure := '#', opening := '[', closing := ']' } "a(b+ε)*" "a[b/ε]#" _ _ rfl rfl (.inl ⟨{}, rfl⟩)
  exact ⟨_, _, f, rfl, rfl, rfl, renames, accepts⟩

end Dialect

end RegexAutomaton
