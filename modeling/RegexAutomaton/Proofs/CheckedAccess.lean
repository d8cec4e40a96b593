import RegexAutomaton.Proofs.Labelling
import RegexAutomaton.Table.Layout

/-!
Access by index. Arenas, marks, places and cells are kept in sequences that are read and written
by index. The operations are written here once more with every such access in the open: an
index outside its sequence stops the operation, which then has no answer. None of them is
ever stopped, whatever ids the steps of a run have named, and the answers are those of
the operations themselves (`answers_of_obtained`). What this rests on is that no edge leads
out of the arena, and that a row has as many cells as there are columns.
-/
namespace RegexAutomaton.Checked
variable {α : Type}

/-! ## Building -/

/-- Appends an edge to those of a state. -/
def link (a : Arena α) (source : StateId) (symbol : Option α) (target : StateId) : Option (Arena α) := do
  let state ← a.states[source]?
  return ⟨a.states.setIfInBounds source { state with edges := state.edges ++ [⟨symbol, target⟩] }⟩

/-- Appends edges in order. -/
def links (a : Arena α) (added : List (StateId × Option α × StateId)) : Option (Arena α) :=
  added.foldlM (fun b (source, symbol, target) => link b source symbol target) a

/-- Performs one step. -/
def step (a : Arena α) : Step α → Option (Reply × Arena α)
  | .addState => some (.state a.size, a.addState)
  | .addEdge source target symbol =>
    if source < a.size ∧ target < a.size then (.done, ·) <$> link a source symbol target
    else some (.refused, a)
  | .literal symbol => (.fragment a.fresh, ·) <$> link a.grow a.fresh.start (some symbol) a.fresh.stop
  | .union f g =>
    if a.composable f g then
      (.fragment a.fresh, ·) <$> links a.grow
        [(a.fresh.start, none, f.start), (a.fresh.start, none, g.start), (f.stop, none, a.fresh.stop),
          (g.stop, none, a.fresh.stop)]
    else some (.refused, a)
  | .concat f g =>
    if a.composable f g then (.fragment ⟨f.start, g.stop⟩, ·) <$> link a f.stop none g.start
    else some (.refused, a)
  | .star f =>
    if a.isOpen f then
      (.fragment a.fresh, ·) <$> links a.grow
        [(a.fresh.start, none, f.start), (a.fresh.start, none, a.fresh.stop), (f.stop, none, f.start),
          (f.stop, none, a.fresh.stop)]
    else some (.refused, a)

/-- Performs steps in order. -/
def run (a : Arena α) : List (Step α) → Option (List Reply × Arena α)
  | [] => some ([], a)
  | s :: rest => do
    let first ← step a s
    let later ← run first.2 rest
    return (first.1 :: later.1, later.2)

theorem link_eq {a : Arena α} {source : StateId} (inside : source < a.size) (symbol : Option α) (target : StateId) :
    link a source symbol target = some (a.link source symbol target) := by
  have within : source < a.states.size := inside
  have same : a.states.setIfInBounds source
        { a.states[source] with edges := a.states[source].edges ++ [⟨symbol, target⟩] } =
      a.states.modify source fun state => { state with edges := state.edges ++ [⟨symbol, target⟩] } := by
    apply Array.ext_getElem?
    intro s
    by_cases here : source = s
    · subst here
      simp [within, Array.getElem_modify]
    · simp [Array.getElem?_modify, here]
  simp only [link, Array.getElem?_eq_getElem within, Option.bind_eq_bind, Option.bind_some, same]
  rfl

theorem links_eq {a : Arena α} {added : List (StateId × Option α × StateId)} (inside : ∀ l ∈ added, l.1 < a.size) :
    links a added = some (added.foldl (fun b (source, symbol, target) => b.link source symbol target) a) := by
  induction added generalizing a with
  | nil => rfl
  | cons l rest ih =>
    obtain ⟨source, symbol, target⟩ := l
    have first : source < a.size := inside (source, symbol, target) (.head rest)
    have later : ∀ l ∈ rest, l.1 < (a.link source symbol target).size := by
      intro l member
      rw [Arena.size_link]
      exact inside l (.tail _ member)
    have made := ih later
    simp only [links] at made
    simp only [links, List.foldlM_cons, link_eq first, Option.bind_eq_bind, Option.bind_some, made, List.foldl_cons]

/-- Every step reaches into states of the arena only, whatever ids it names. -/
theorem step_eq (a : Arena α) (s : Step α) : step a s = some (a.step s) := by
  cases s with
  | addState => rfl
  | addEdge source target symbol =>
    by_cases inside : source < a.size ∧ target < a.size
    · simp [step, Arena.step, Arena.addEdge?, inside, link_eq inside.1]
    · simp [step, Arena.step, Arena.addEdge?, inside]
  | literal symbol =>
    have inside : a.fresh.start < a.grow.size := by simp [Arena.fresh]
    simp [step, Arena.step, Arena.composed, Arena.literal, link_eq inside]
  | union f g =>
    by_cases fits : a.composable f g = true
    · obtain ⟨left, right, -⟩ := (Arena.composable_iff a f g).mp fits
      obtain ⟨-, leftEnd, -⟩ := (Arena.isOpen_iff a f).mp left
      obtain ⟨-, rightEnd, -⟩ := (Arena.isOpen_iff a g).mp right
      rw [step, if_pos fits, links_eq]
      · simp [Arena.step, Arena.composed, Arena.union?, fits]
      · simpa [Arena.fresh] using ⟨Nat.lt_add_right 2 leftEnd, Nat.lt_add_right 2 rightEnd⟩
    · simp [step, Arena.step, Arena.composed, Arena.union?, fits]
  | concat f g =>
    by_cases fits : a.composable f g = true
    · obtain ⟨left, -, -⟩ := (Arena.composable_iff a f g).mp fits
      obtain ⟨-, leftEnd, -⟩ := (Arena.isOpen_iff a f).mp left
      simp [step, Arena.step, Arena.composed, Arena.concat?, fits, link_eq leftEnd]
    · simp [step, Arena.step, Arena.composed, Arena.concat?, fits]
  | star f =>
    by_cases opened : a.isOpen f = true
    · obtain ⟨-, ends, -⟩ := (Arena.isOpen_iff a f).mp opened
      rw [step, if_pos opened, links_eq]
      · simp [Arena.step, Arena.composed, Arena.star?, opened]
      · simpa [Arena.fresh] using Nat.lt_add_right 2 ends
    · simp [step, Arena.step, Arena.composed, Arena.star?, opened]

theorem run_eq (a : Arena α) (steps : List (Step α)) : run a steps = some (a.run steps) := by
  induction steps generalizing a with
  | nil => rfl
  | cons s rest ih => simp [run, step_eq, ih, Arena.run]

/-! ## Walking -/

/-- The states of the list that are not marked yet; each mark is looked up by the id of its state. -/
def discover (marks : Array Bool) : List StateId → Option (List StateId × Array Bool)
  | [] => some ([], marks)
  | s :: rest => do
    if ← marks[s]? then discover marks rest
    else
      let later ← discover (marks.setIfInBounds s true) rest
      return (s :: later.1, later.2)

theorem discover_eq {marks : Array Bool} {states : List StateId} (inside : ∀ s ∈ states, s < marks.size) :
    discover marks states = some (Arena.discover marks states) := by
  induction states generalizing marks with
  | nil => rfl
  | cons s rest ih =>
    have here : s < marks.size := inside s (.head rest)
    have later : ∀ t ∈ rest, t < marks.size := fun t member => inside t (.tail s member)
    have marked : discover (marks.setIfInBounds s true) rest = some (Arena.discover (marks.setIfInBounds s true) rest) :=
      ih (by simpa using later)
    rw [discover, Arena.discover, Array.getElem?_eq_getElem here]
    cases marks[s] with
    | true => simpa using ih later
    | false => simp [marked]

theorem discover_eq_of_some {marks : Array Bool} {states : List StateId} {found : List StateId × Array Bool}
    (answered : discover marks states = some found) : Arena.discover marks states = found := by
  induction states generalizing marks found with
  | nil => exact Option.some.inj answered
  | cons s rest ih =>
    rw [discover] at answered
    rw [Arena.discover]
    cases mark : marks[s]? with
    | none => simp [mark] at answered
    | some met =>
      cases met with
      | true =>
        rw [if_neg (by simp)]
        exact ih (by simpa [mark] using answered)
      | false =>
        simp only [mark, Option.bind_eq_bind, Option.bind_some, Bool.false_eq_true, if_false,
          Option.bind_eq_some_iff] at answered
        obtain ⟨later, onward, made⟩ := answered
        cases made
        rw [if_pos rfl, ih onward]

theorem size_discover (marks : Array Bool) (states : List StateId) :
    (Arena.discover marks states).2.size = marks.size := by
  induction states generalizing marks with
  | nil => rfl
  | cons s rest ih =>
    rw [Arena.discover]
    split
    · simp [ih]
    · exact ih marks

/-- The queued states and all that are still to be discovered from them. -/
def traverse (a : Arena α) (marks : Array Bool) : List StateId → Option (List StateId)
  | [] => some []
  | s :: queue =>
    match _ : discover marks (a.targets s) with
    | none => none
    | some found => (s :: ·) <$> traverse a found.2 (queue ++ found.1)
termination_by queue => marks.count false + queue.length
decreasing_by
  rename_i answered
  have balance := Arena.discover_count marks (a.targets s)
  rw [discover_eq_of_some answered] at balance
  simp only [List.length_append, List.length_cons]
  omega

/-- A walk never looks up a mark that is not there, if there is one for each state. -/
theorem traverse_eq {a : Arena α} (closed : a.Closed) {marks : Array Bool} (sized : marks.size = a.size)
    (queue : List StateId) : traverse a marks queue = some (a.traverse marks queue) := by
  fun_induction Arena.traverse a marks queue with
  | case1 => rw [traverse]
  | case2 marks s queue found ih =>
    have inside : ∀ t ∈ a.targets s, t < marks.size := by
      intro t target
      obtain ⟨e, edge, rfl⟩ := List.mem_map.mp target
      rw [sized]
      exact closed s e edge
    have answer : discover marks (a.targets s) = some found := discover_eq inside
    have kept : found.2.size = a.size := (size_discover marks (a.targets s)).trans sized
    rw [traverse]
    split
    · rename_i stopped
      rw [answer] at stopped
      cases stopped
    · rename_i other answered
      obtain rfl : found = other := Option.some.inj (answer.symm.trans answered)
      rw [ih kept]
      rfl

/-- The states that can be reached. The mark of the start state is set only if there is one. -/
def bfs (a : Arena α) (start : StateId) : Option (List StateId) :=
  let found := Arena.discover (Array.replicate a.size false) [start]
  traverse a found.2 found.1

theorem bfs_eq {a : Arena α} (closed : a.Closed) (start : StateId) : bfs a start = some (a.bfs start) :=
  traverse_eq closed (by simp [size_discover]) _

/-! ## Labelling -/

/-- Replaces the entries at the given indices, in order, by what `write` makes of them; the
    indices are counted from `place` on. -/
def fill {β : Type} (write : Nat → β → β) : Nat → List StateId → Array β → Option (Array β)
  | _, [], entries => some entries
  | place, s :: rest, entries => do
    let entry ← entries[s]?
    fill write (place + 1) rest (entries.setIfInBounds s (write place entry))

theorem fill_eq {β : Type} {write : Nat → β → β} {order : List StateId} (once : order.Nodup) {entries : Array β}
    (inside : ∀ s ∈ order, s < entries.size) (place : Nat) :
    fill write place order entries = some (entries.mapIdx fun s entry =>
      match order.idxOf? s with
      | some i => write (place + i) entry
      | none => entry) := by
  induction order generalizing entries place with
  | nil => exact congrArg some (Array.ext_getElem? fun t => by simp)
  | cons s rest ih =>
    obtain ⟨notLater, once⟩ := List.nodup_cons.mp once
    have here : s < entries.size := inside s (.head rest)
    have later : ∀ t ∈ rest, t < (entries.setIfInBounds s (write place entries[s])).size := by
      intro t member
      rw [Array.size_setIfInBounds]
      exact inside t (.tail s member)
    rw [fill, Array.getElem?_eq_getElem here, Option.bind_eq_bind, Option.bind_some, ih once later]
    refine congrArg some (Array.ext_getElem? fun t => ?_)
    rw [Array.getElem?_mapIdx, Array.getElem?_mapIdx, List.idxOf?_cons]
    by_cases same : s = t
    · subst same
      simp [List.idxOf?_eq_none_iff.mpr notLater, here]
    · cases place' : rest.idxOf? t with
      | none => simp [same]
      | some i => simp [same, Nat.add_assoc, Nat.add_comm 1 i]

/-- Labels the states that can be reached by their place and removes all other labels. -/
def relabel (m : Automaton α) : Option (Automaton α) := do
  let order ← bfs m.toArena m.start
  let unlabelled := m.states.map fun state => { state with label := none }
  let states ← fill (fun place state => { state with label := some (placeLabel place) }) 0 order unlabelled
  return { m with states }

theorem relabel_eq {m : Automaton α} (closed : m.Closed) : relabel m = some m.relabel := by
  have inside : ∀ s ∈ m.order, s < (m.states.map fun state => { state with label := none }).size := by
    intro s walked
    rw [Array.size_map]
    exact (Automaton.mem_order_iff.mp walked).1
  have walk : bfs m.toArena m.start = some m.order := bfs_eq closed m.start
  simp only [relabel, walk, Option.bind_eq_bind, Option.bind_some, fill_eq m.nodup_order inside]
  refine congrArg (fun states => some { m with states }) (Array.ext_getElem? fun s => ?_)
  rw [Array.getElem?_mapIdx, Array.getElem?_map, Array.getElem?_mapIdx, Option.map_map]
  refine congrArg (Option.map · _) (funext fun state => ?_)
  cases m.order.idxOf? s <;> simp

/-! ## Tabulating -/

/-- What a state is called in a table; its place is looked up only if it has no label. -/
def name (m : Automaton α) (places : Array Nat) (s : StateId) : Option String :=
  match m.label s with
  | some label => some label
  | none => placeLabel <$> places[s]?

/-- The places of the states of a list, by their ids. -/
def places (size : Nat) (order : List StateId) : Option (Array Nat) :=
  fill (fun place _ => place) 0 order (Array.replicate size 0)

theorem places_eq (m : Automaton α) :
    ∃ found, places m.size m.order = some found ∧ ∀ s ∈ m.order, found[s]? = some (m.order.idxOf s) := by
  have inside : ∀ s ∈ m.order, s < (Array.replicate m.size 0).size := by
    intro s walked
    rw [Array.size_replicate]
    exact (Automaton.mem_order_iff.mp walked).1
  refine ⟨_, fill_eq m.nodup_order inside 0, fun s walked => ?_⟩
  simp [Automaton.idxOf?_order walked, (Automaton.mem_order_iff.mp walked).1]

theorem name_eq {m : Automaton α} {found : Array Nat} (known : ∀ s ∈ m.order, found[s]? = some (m.order.idxOf s))
    {s : StateId} (walked : s ∈ m.order) : name m found s = some (m.nameIn m.order s) := by
  rw [name, Automaton.nameIn]
  cases m.label s with
  | some label => rfl
  | none => simp [known s walked]

variable [Symbol α] {m : Automaton α} {markers : Markers} {found : Array Nat}

/-- Adds the name of the target of an edge to the cell of the edge's column. -/
def put (m : Automaton α) (markers : Markers) (columns : List Column) (places : Array Nat) (cells : List (List String))
    (edge : Edge α) : Option (List (List String)) :=
  match columns.idxOf? (Column.ofSymbol markers edge.symbol) with
  | none => some cells
  | some column => do
    let label ← name m places edge.target
    let cell ← cells[column]?
    return cells.set column (cell ++ [label])

/-- The row of a state, with its cells filled edge by edge. -/
def row (m : Automaton α) (markers : Markers) (columns : List Column) (places : Array Nat) (s : StateId) : Option Row := do
  let cells ← (m.edges s).foldlM (put m markers columns places) (columns.map fun _ => [])
  let label ← name m places s
  let isStart : Bool := s = m.start
  let isAccepting := m.isAccepting s
  return {
    label
    heading := (if isStart then markers.start else "") ++ label ++ (if isAccepting then markers.accepting else "")
    isStart
    isAccepting
    cells }

/-- The table of an automaton. -/
def table (markers : Markers) (m : Automaton α) : Option Table := do
  let order ← bfs m.toArena m.start
  let columns := m.columns markers order
  let places ← places m.size order
  let rows ← order.mapM (row m markers columns places)
  return { header := columns.map Column.heading, rows, markers }

theorem put_eq (known : ∀ s ∈ m.order, found[s]? = some (m.order.idxOf s)) {columns : List Column} (once : columns.Nodup)
    {e : Edge α} (walked : e.target ∈ m.order) (given : Column → List String) :
    put m markers columns found (columns.map given) e = some (columns.map fun c =>
      if Column.ofSymbol markers e.symbol = c then given c ++ [m.nameIn m.order e.target] else given c) := by
  rw [put, name_eq known walked]
  cases place : columns.idxOf? (Column.ofSymbol markers e.symbol) with
  | none =>
    have absent := List.idxOf?_eq_none_iff.mp place
    refine congrArg some (List.map_congr_left fun c member => (if_neg ?_).symm)
    rintro rfl
    exact absent member
  | some i =>
    obtain ⟨inside, here, -⟩ := List.findIdx?_eq_some_iff_getElem.mp place
    have column : columns[i] = Column.ofSymbol markers e.symbol := by simpa using here
    have cell : (columns.map given)[i]? = some (given columns[i]) := by simp [inside]
    simp only [Option.bind_eq_bind, Option.bind_some, cell]
    refine congrArg some (List.ext_getElem (by simp) fun j within within' => ?_)
    have columnAt : j < columns.length := by simpa using within'
    rw [List.getElem_map, List.getElem_set]
    by_cases same : i = j
    · subst same
      simp [column]
    · have other : columns[i] ≠ columns[j] := fun equal => same (once.getElem_inj_iff.mp equal)
      simp [same, ← column, other]

theorem cells_eq (known : ∀ s ∈ m.order, found[s]? = some (m.order.idxOf s)) {columns : List Column}
    (once : columns.Nodup) {edges : List (Edge α)} (walked : ∀ e ∈ edges, e.target ∈ m.order)
    (given : Column → List String) :
    edges.foldlM (put m markers columns found) (columns.map given) = some (columns.map fun c =>
      given c ++ (edges.filter fun e => Column.ofSymbol markers e.symbol = c).map fun e => m.nameIn m.order e.target) := by
  induction edges generalizing given with
  | nil => simp
  | cons e rest ih =>
    rw [List.foldlM_cons, put_eq known once (walked e (.head rest)), Option.bind_eq_bind, Option.bind_some,
      ih fun other member => walked other (.tail e member)]
    refine congrArg some (List.map_congr_left fun c _ => ?_)
    by_cases same : Column.ofSymbol markers e.symbol = c
    · simp [same]
    · simp [same]

theorem row_eq (closed : m.Closed) (known : ∀ s ∈ m.order, found[s]? = some (m.order.idxOf s)) {s : StateId}
    (walked : s ∈ m.order) {columns : List Column} (once : columns.Nodup) :
    row m markers columns found s = some (m.row markers m.order columns s) := by
  have targets : ∀ e ∈ m.edges s, e.target ∈ m.order := fun e => Automaton.target_mem_order closed walked
  have cells : (m.edges s).foldlM (put m markers columns found) (columns.map fun _ => []) =
      some (columns.map (m.cell markers m.order s)) := by
    rw [cells_eq known once targets]
    rfl
  simp only [row, cells, name_eq known walked, Option.bind_eq_bind, Option.bind_some]
  rfl

theorem mapM_eq_some {β γ : Type} {answer : β → Option γ} {value : β → γ} {l : List β}
    (answered : ∀ x ∈ l, answer x = some (value x)) : l.mapM answer = some (l.map value) := by
  induction l with
  | nil => rfl
  | cons x rest ih =>
    rw [List.mapM_cons, answered x (.head rest), ih fun y member => answered y (.tail x member)]
    rfl

theorem table_eq (closed : m.Closed) (markers : Markers) : table markers m = some (Table.ofAutomaton markers m) := by
  obtain ⟨found, answered, known⟩ := places_eq m
  have walk : bfs m.toArena m.start = some m.order := bfs_eq closed m.start
  have once : (m.columns markers m.order).Nodup := (Column.pairwise_sort _).imp Column.Before.ne
  have rows : m.order.mapM (row m markers (m.columns markers m.order) found) =
      some (m.order.map (m.row markers m.order (m.columns markers m.order))) :=
    mapM_eq_some fun s walked => row_eq closed known walked once
  simp only [table, walk, answered, rows, Option.bind_eq_bind, Option.bind_some]
  rfl

/-! ## Reading a table -/

/-- The labels in a row under a heading; the answer itself is empty if there is no such row or no
    such heading. -/
def cell (t : Table) (row : Nat) (heading : String) : Option (Option (List String)) :=
  match t.header.idxOf? heading, t.rows[row]? with
  | some column, some found => some <$> found.cells[column]?
  | _, _ => some none

/-- The table as text; the first line of its grid tells the number of columns. -/
def text (t : Table) : Option String := do
  let headings ← t.grid[0]?
  let widths := Layout.widths headings.length t.grid
  let lines := Layout.line widths headings :: Layout.rule widths :: t.grid.tail.map (Layout.line widths)
  return String.ofList (lines.flatMap (· ++ ['\n']))

theorem cell_eq {t : Table} (even : ∀ row ∈ t.rows, row.cells.length = t.header.length) (row : Nat) (heading : String) :
    cell t row heading = some (t.cell? row heading) := by
  rw [cell, Table.cell?]
  cases place : t.header.idxOf? heading with
  | none => rfl
  | some column =>
    cases present : t.rows[row]? with
    | none => rfl
    | some found =>
      obtain ⟨inside, -, -⟩ := List.findIdx?_eq_some_iff_getElem.mp place
      have within : column < found.cells.length := by
        rw [even found (List.mem_of_getElem? present)]
        exact inside
      simp [within]

theorem text_eq (t : Table) : text t = some t.text := rfl

/-- However an automaton comes about, no access by index is out of range: not when it is built, not
    when it is walked, labelled or tabulated, and not when its table is looked into or printed.
    All its edges lead to states that it has. -/
theorem answers_of_obtained (obtained : m.Obtained) :
    (∀ steps : List (Step α), run {} steps = some (Arena.run {} steps)) ∧
    (∀ s, ∀ e ∈ m.edges s, e.target < m.size) ∧
    bfs m.toArena m.start = some m.order ∧ relabel m = some m.relabel ∧
    ∀ markers, table markers m = some (Table.ofAutomaton markers m) ∧
      (∀ row heading, cell (Table.ofAutomaton markers m) row heading =
        some ((Table.ofAutomaton markers m).cell? row heading)) ∧
      text (Table.ofAutomaton markers m) = some (Table.ofAutomaton markers m).text := by
  have closed := obtained.closed
  refine ⟨run_eq {}, closed, bfs_eq closed m.start, relabel_eq closed, fun markers => ⟨table_eq closed markers, ?_, ?_⟩⟩
  · exact cell_eq fun row member => Table.length_cells member
  · exact text_eq _

/-- Two of the four steps name states or fragments that do not exist, and so do the fragment that
    the automaton is finished with and the accepting state. -/
def stray : Automaton Char :=
  { ((Step.outcome [.addState, .addEdge 0 7 none, .addEdge 0 0 (some 'a'), .star ⟨9, 9⟩]).finish ⟨12, 13⟩).relabel with
    start := 0 }

theorem answers_of_obtained_stray :
    stray.Obtained ∧ bfs stray.toArena 0 = some [0] ∧ relabel stray = some stray.relabel ∧
      table {} stray = some (Table.ofAutomaton {} stray) ∧ cell (Table.ofAutomaton {} stray) 0 "a" = some (some ["q0"]) ∧
      cell (Table.ofAutomaton {} stray) 5 "b" = some none ∧
      text (Table.ofAutomaton {} stray) = some "state | a\n------+---\n→q0   | q0\n" := by
  have obtained : stray.Obtained := .restart (.relabel (.finish _ _)) 0
  obtain ⟨-, -, walk, labelled, tabulated⟩ := answers_of_obtained obtained
  obtain ⟨made, looked, printed⟩ := tabulated {}
  have order : stray.order = [0] := by decide +kernel
  have found : (Table.ofAutomaton {} stray).cell? 0 "a" = some ["q0"] := by decide +kernel
  have missing : (Table.ofAutomaton {} stray).cell? 5 "b" = none := by decide +kernel
  have written : (Table.ofAutomaton {} stray).text = "state | a\n------+---\n→q0   | q0\n" := by decide +kernel
  exact ⟨obtained, walk.trans (congrArg some order), labelled, made, (looked 0 "a").trans (congrArg some found),
    (looked 5 "b").trans (congrArg some missing), printed.trans (congrArg some written)⟩

end RegexAutomaton.Checked
