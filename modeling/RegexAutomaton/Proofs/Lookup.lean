import RegexAutomaton.Compiler
import RegexAutomaton.Proofs.Tabulation

/-!
Looking into a table by heading. The columns of a table are told apart by more than their
headings: a symbol that is written like the epsilon marker has a column of its own, right before
that of the edges that read nothing (`Column.eq_succ_of_twins`). A lookup compares headings only and
takes the first column that agrees. So it finds every column but this last one (`Shadowed`), whose
labels it takes from the symbol's column; and it has no answer just if there is no such row or no
such heading (`cell?_answers`).
-/
namespace RegexAutomaton

namespace Column
variable {columns : List Column}

theorem Before.silent_of_same {c d : Column} (before : c.Before d) (same : c.heading = d.heading) :
    c.silent = false ∧ d.silent = true := by
  rcases before with less | ⟨-, low, high⟩
  · exact absurd (same ▸ less) (String.lt_irrefl _)
  · exact ⟨low, high⟩

/-- Among columns in order a heading is first met in its column, unless this is silent and there is
    another one with the same heading. -/
theorem idxOf?_heading (ordered : columns.Pairwise Before) {place : Nat} {c : Column} (there : columns[place]? = some c)
    (alone : c.silent = true → ⟨c.heading, false⟩ ∉ columns) : (columns.map heading).idxOf? c.heading = some place := by
  obtain ⟨inside, rfl⟩ := List.getElem?_eq_some_iff.mp there
  refine List.idxOf?_eq_some_iff.mpr ⟨by simpa using inside, by simp, fun earlier less same => ?_⟩
  have within : earlier < columns.length := by omega
  have heading : columns[earlier].heading = columns[place].heading := by simpa using same
  have before : columns[earlier].Before columns[place] := List.pairwise_iff_getElem.mp ordered _ _ within inside less
  obtain ⟨low, high⟩ := before.silent_of_same heading
  have twin : columns[earlier] = ⟨columns[place].heading, false⟩ := Column.ext heading low
  exact alone high (twin ▸ List.getElem_mem within)

/-- Two columns with one heading stand side by side, the silent one last. -/
theorem eq_succ_of_twins (ordered : columns.Pairwise Before) {first second : Nat} {text : String}
    (symbol : columns[first]? = some ⟨text, false⟩) (silent : columns[second]? = some ⟨text, true⟩) :
    second = first + 1 := by
  obtain ⟨inside, here⟩ := List.getElem?_eq_some_iff.mp symbol
  obtain ⟨inside', there⟩ := List.getElem?_eq_some_iff.mp silent
  have apart := List.pairwise_iff_getElem.mp ordered
  rcases Nat.lt_trichotomy first second with less | same | more
  · by_contra further
    have between : first + 1 < second := by omega
    -- a column between the two would have their heading, and be neither of a symbol nor silent
    have left := apart first (first + 1) inside (by omega) (by omega)
    have right := apart (first + 1) second (by omega) inside' between
    rw [here] at left
    rw [there] at right
    have heading : columns[first + 1].heading = text := by
      rcases left with above | ⟨same, -⟩
      · rcases right with below | ⟨same, -⟩
        · exact absurd (String.lt_trans above below) (String.lt_irrefl _)
        · exact same
      · exact same.symm
    have high := (left.silent_of_same heading.symm).2
    have low := (right.silent_of_same heading).1
    rw [high] at low
    cases low
  · subst same
    rw [symbol] at silent
    cases silent
  · have wrong := apart second first inside' inside more
    rw [here, there] at wrong
    have low := (wrong.silent_of_same rfl).1
    cases low

end Column

namespace Automaton
variable {α : Type} [Symbol α] {m : Automaton α} {markers : Markers} {t : Table}

/-- Some state that is reached has an edge on a symbol that is written like the epsilon marker. -/
def Imitates (m : Automaton α) (markers : Markers) : Prop :=
  ∃ s ∈ m.reached, ∃ e ∈ m.edges s, ∃ x, e.symbol = some x ∧ Symbol.text x = markers.epsilon

/-- The column at the place is that of the edges that read nothing, and a symbol has a column with
    the same heading. -/
def Shadowed (m : Automaton α) (markers : Markers) (place : Nat) : Prop :=
  (m.columns markers m.order)[place]? = some ⟨markers.epsilon, true⟩ ∧ m.Imitates markers

theorem mem_symbol_column_iff : ⟨markers.epsilon, false⟩ ∈ m.columns markers m.order ↔ m.Imitates markers := by
  rw [mem_columns_iff]
  constructor
  · rintro ⟨s, walked, ⟨symbol, target⟩, edge, same⟩
    cases symbol with
    | none => exact absurd (Column.mk.inj same).2 (by decide)
    | some x => exact ⟨s, mem_reached_iff.mpr walked, _, edge, x, rfl, (Column.mk.inj same).1⟩
  · rintro ⟨s, reached, e, edge, x, symbol, text⟩
    refine ⟨s, mem_reached_iff.mp reached, e, edge, ?_⟩
    rw [symbol, Column.ofSymbol, text]

theorem mem_silent_column_iff :
    ⟨markers.epsilon, true⟩ ∈ m.columns markers m.order ↔ ∃ s ∈ m.reached, ∃ e ∈ m.edges s, e.symbol = none := by
  rw [mem_columns_iff]
  constructor
  · rintro ⟨s, walked, ⟨symbol, target⟩, edge, same⟩
    cases symbol with
    | none => exact ⟨s, mem_reached_iff.mpr walked, _, edge, rfl⟩
    | some x => exact absurd (Column.mk.inj same).2 (by decide)
  · rintro ⟨s, reached, e, edge, silent⟩
    refine ⟨s, mem_reached_iff.mp reached, e, edge, ?_⟩
    rw [silent, Column.ofSymbol]

/-! ## Lookup -/

theorem idxOf?_header {place : Nat} {heading : String}
    (headed : (Table.ofAutomaton markers m).header[place]? = some heading) (found : ¬ m.Shadowed markers place) :
    (Table.ofAutomaton markers m).header.idxOf? heading = some place := by
  obtain ⟨c, there, rfl⟩ := Option.map_eq_some_iff.mp ((List.getElem?_map ..).symm.trans headed)
  refine Column.idxOf?_heading (m.pairwise_columns markers m.order) there fun silent twin => found ?_
  have heading : c.heading = markers.epsilon := heading_of_silent (List.mem_of_getElem? there) silent
  rw [heading] at twin
  have column : c = ⟨markers.epsilon, true⟩ := Column.ext heading silent
  exact ⟨column ▸ there, mem_symbol_column_iff.mp twin⟩

theorem cell?_of_idxOf {row place : Nat} {heading : String} {found : Row}
    (shown : (Table.ofAutomaton markers m).rows[row]? = some found)
    (first : (Table.ofAutomaton markers m).header.idxOf? heading = some place) :
    ∃ labels, found.cells[place]? = some labels ∧ (Table.ofAutomaton markers m).cell? row heading = some labels := by
  obtain ⟨inside, -⟩ := List.idxOf?_eq_some_iff.mp first
  have within : place < found.cells.length := by
    rw [Table.length_cells (List.mem_of_getElem? shown)]
    exact inside
  refine ⟨found.cells[place], List.getElem?_eq_getElem within, ?_⟩
  simp [Table.cell?, first, shown, within]

theorem cell?_eq_none_iff (m : Automaton α) (markers : Markers) (row : Nat) (heading : String) :
    (Table.ofAutomaton markers m).cell? row heading = none ↔
      (Table.ofAutomaton markers m).rows.length ≤ row ∨ heading ∉ (Table.ofAutomaton markers m).header := by
  cases first : (Table.ofAutomaton markers m).header.idxOf? heading with
  | none => simp [Table.cell?, first, List.idxOf?_eq_none_iff.mp first]
  | some place =>
    have headed : heading ∈ (Table.ofAutomaton markers m).header := by
      rw [← List.isSome_idxOf?, first]
      rfl
    cases shown : (Table.ofAutomaton markers m).rows[row]? with
    | none =>
      have outside := List.getElem?_eq_none_iff.mp shown
      simp [Table.cell?, first, outside]
    | some found =>
      obtain ⟨labels, -, answer⟩ := cell?_of_idxOf shown first
      obtain ⟨inside, -⟩ := List.getElem?_eq_some_iff.mp shown
      simp [answer, headed, inside]

/-- If a column is shadowed, then by the column right before it, which is not. -/
theorem Shadowed.exists_twin {place : Nat} (shadowed : m.Shadowed markers place) :
    ∃ twin, place = twin + 1 ∧
      (Table.ofAutomaton markers m).header[twin]? = (Table.ofAutomaton markers m).header[place]? ∧
      ¬ m.Shadowed markers twin := by
  obtain ⟨there, imitates⟩ := shadowed
  obtain ⟨twin, here⟩ := List.mem_iff_getElem?.mp (mem_symbol_column_iff.mpr imitates)
  refine ⟨twin, Column.eq_succ_of_twins (m.pairwise_columns markers m.order) here there, ?_, ?_⟩
  · simp [Table.ofAutomaton, here, there]
  · rintro ⟨silent, -⟩
    rw [here] at silent
    cases silent

theorem exists_shadowed_iff :
    (∃ place, m.Shadowed markers place) ↔
      (∃ s ∈ m.reached, ∃ e ∈ m.edges s, e.symbol = none) ∧ m.Imitates markers := by
  rw [← mem_silent_column_iff, List.mem_iff_getElem?]
  constructor
  · rintro ⟨place, there, imitates⟩
    exact ⟨⟨place, there⟩, imitates⟩
  · rintro ⟨⟨place, there⟩, imitates⟩
    exact ⟨place, there, imitates⟩

/-- A row has an answer under every heading, and under no other text. It is the cell of the column
    that is headed so; but the silent edges are not found if some symbol that is read is written
    like the epsilon marker, for then their heading is taken for that of the column before. -/
theorem cell?_answers (m : Automaton α) (markers : Markers) :
    (∀ row heading, (Table.ofAutomaton markers m).cell? row heading = none ↔
      (Table.ofAutomaton markers m).rows.length ≤ row ∨ heading ∉ (Table.ofAutomaton markers m).header) ∧
    (∀ row found place heading, (Table.ofAutomaton markers m).rows[row]? = some found →
      (Table.ofAutomaton markers m).header[place]? = some heading → ¬ m.Shadowed markers place →
      ∃ labels, found.cells[place]? = some labels ∧
        (Table.ofAutomaton markers m).cell? row heading = some labels) ∧
    (∀ row found place heading, (Table.ofAutomaton markers m).rows[row]? = some found →
      (Table.ofAutomaton markers m).header[place]? = some heading → m.Shadowed markers place →
      ∃ before labels, place = before + 1 ∧ found.cells[before]? = some labels ∧
        (Table.ofAutomaton markers m).cell? row heading = some labels) ∧
    ((∃ place, m.Shadowed markers place) ↔
      (∃ s ∈ m.reached, ∃ e ∈ m.edges s, e.symbol = none) ∧ m.Imitates markers) := by
  refine ⟨m.cell?_eq_none_iff markers, ?_, ?_, exists_shadowed_iff⟩
  · intro row found place heading shown headed unshadowed
    exact cell?_of_idxOf shown (idxOf?_header headed unshadowed)
  · intro row found place heading shown headed shadowed
    obtain ⟨before, next, same, unshadowed⟩ := shadowed.exists_twin
    obtain ⟨labels, cell, answer⟩ := cell?_of_idxOf shown (idxOf?_header (same.trans headed) unshadowed)
    exact ⟨before, labels, next, cell, answer⟩

/-- The start of the automaton has silent edges, and they are listed in the second column. A lookup
    by its heading finds none. -/
theorem silent_cell_not_found :
    ∃ c, ({} : Dialect).compile "ε*" = .ok c ∧
      (Table.ofAutomaton {} c.automaton).header = ["ε", "ε"] ∧
      (Table.ofAutomaton {} c.automaton).rows[0]?.map Row.cells = some [[], ["q1", "q2"]] ∧
      (Table.ofAutomaton {} c.automaton).cell? 0 "ε" = some [] := by
  refine ⟨_, rfl, ?_, ?_, ?_⟩ <;> decide +kernel

/-- A letter that is written like the epsilon marker, any number of times. -/
def starOfMarker : Automaton Char := (Step.outcome [.literal 'ε', .star ⟨0, 1⟩]).finish ⟨2, 3⟩

/-- The first column is found and the second one is shadowed by it, but not if the marker is written
    in another way. -/
theorem cell?_answers_starOfMarker :
    starOfMarker.Shadowed {} 1 ∧ (Table.ofAutomaton {} starOfMarker).cell? 0 "ε" = some [] ∧
      (Table.ofAutomaton {} starOfMarker).cell? 1 "ε" = some ["q3"] ∧
      (Table.ofAutomaton {} starOfMarker).cell? 4 "ε" = none ∧
      (Table.ofAutomaton { epsilon := "eps" } starOfMarker).cell? 0 "eps" = some ["q1", "q2"] := by
  have shadowed : starOfMarker.Shadowed {} 1 :=
    ⟨by decide +kernel, 0, mem_reached_iff.mpr (by decide +kernel), ⟨some 'ε', 1⟩, by decide, 'ε', rfl, rfl⟩
  have unshadowed : ¬ starOfMarker.Shadowed {} 0 := fun wrong => absurd wrong.1 (by decide +kernel)
  have apart : ¬ starOfMarker.Shadowed { epsilon := "eps" } 0 := fun wrong =>
    absurd (mem_symbol_column_iff.mpr wrong.2) (by decide +kernel)
  obtain ⟨missing, direct, indirect, -⟩ := cell?_answers starOfMarker {}
  obtain ⟨-, direct', -⟩ := cell?_answers starOfMarker { epsilon := "eps" }
  obtain ⟨_, cell, first⟩ := direct 0 ⟨"q0", "→q0", true, false, [[], ["q1", "q2"]]⟩ 0 "ε" (by decide +kernel)
    (by decide +kernel) unshadowed
  obtain ⟨before, _, next, cell', second⟩ := indirect 1 ⟨"q1", "q1", false, false, [["q3"], []]⟩ 1 "ε" (by decide +kernel)
    (by decide +kernel) shadowed
  obtain ⟨_, cell'', third⟩ := direct' 0 ⟨"q0", "→q0", true, false, [["q1", "q2"], []]⟩ 0 "eps" (by decide +kernel)
    (by decide +kernel) apart
  obtain rfl : before = 0 := by omega
  cases cell
  cases cell'
  cases cell''
  exact ⟨shadowed, first, second, (missing 4 "ε").mpr (.inl (by decide +kernel)), third⟩

end Automaton

end RegexAutomaton
