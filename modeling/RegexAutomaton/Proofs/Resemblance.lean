import Mathlib.Data.Set.Function
import RegexAutomaton.Proofs.Labelling

/-!
Automata whose reachable parts differ only in the names of their states. Two such automata are
walked in step: the queues hold corresponding states, and a state is marked in the one
walk when its counterpart is in the other (`traverse_map`). So the orders correspond, and as a
table names states by their place in the order, the tables are the same.
-/
namespace RegexAutomaton

namespace Arena
variable {α : Type} {a b : Arena α} {f : StateId → StateId} {part : Set StateId} {marks marks' : Array Bool}

theorem discover_cons_of_unmet {t : StateId} (unmet : Unmet marks t) (rest : List StateId) :
    discover marks (t :: rest) =
      (t :: (discover (marks.setIfInBounds t true) rest).1, (discover (marks.setIfInBounds t true) rest).2) :=
  if_pos unmet

theorem discover_cons_of_met {t : StateId} (met : ¬ Unmet marks t) (rest : List StateId) :
    discover marks (t :: rest) = discover marks rest :=
  if_neg met

/-- The marks of two walks agree on a part of the one arena and its image in the other. -/
def Agree (f : StateId → StateId) (part : Set StateId) (marks marks' : Array Bool) : Prop :=
  ∀ s ∈ part, Unmet marks s ↔ Unmet marks' (f s)

theorem Agree.mark (agree : Agree f part marks marks') (injective : Set.InjOn f part) {t : StateId} (inside : t ∈ part) :
    Agree f part (marks.setIfInBounds t true) (marks'.setIfInBounds (f t) true) := by
  intro s within
  rw [unmet_mark, unmet_mark, agree s within, injective.ne_iff within inside]

theorem Agree.discover (agree : Agree f part marks marks') (injective : Set.InjOn f part) {states : List StateId}
    (inside : ∀ s ∈ states, s ∈ part) :
    (discover marks' (states.map f)).1 = (discover marks states).1.map f ∧
      Agree f part (discover marks states).2 (discover marks' (states.map f)).2 := by
  induction states generalizing marks marks' with
  | nil => exact ⟨rfl, agree⟩
  | cons t rest ih =>
    have within : t ∈ part := inside t (.head rest)
    have later : ∀ s ∈ rest, s ∈ part := fun s member => inside s (.tail t member)
    by_cases unmet : Unmet marks t
    · have unmet' : Unmet marks' (f t) := (agree t within).mp unmet
      rw [List.map_cons, discover_cons_of_unmet unmet, discover_cons_of_unmet unmet']
      obtain ⟨found, agree⟩ := ih (agree.mark injective within) later
      exact ⟨congrArg (f t :: ·) found, agree⟩
    · have met' : ¬ Unmet marks' (f t) := mt (agree t within).mpr unmet
      rw [List.map_cons, discover_cons_of_met unmet, discover_cons_of_met met']
      exact ih agree later

/-- Where edges correspond, so do the walks of queues that correspond. -/
theorem traverse_map (injective : Set.InjOn f part) (stays : ∀ s ∈ part, ∀ t ∈ a.targets s, t ∈ part)
    (targets : ∀ s ∈ part, b.targets (f s) = (a.targets s).map f) {queue : List StateId}
    (inside : ∀ s ∈ queue, s ∈ part) :
    ∀ marks', Agree f part marks marks' → b.traverse marks' (queue.map f) = (a.traverse marks queue).map f := by
  fun_induction traverse a marks queue with
  | case1 =>
    intro marks' _
    rw [List.map_nil, traverse]
  | case2 marks s queue found ih =>
    intro marks' agree
    have within : s ∈ part := inside s (.head queue)
    have reached : ∀ t ∈ a.targets s, t ∈ part := stays s within
    obtain ⟨same, agree⟩ := agree.discover injective reached
    have queued : ∀ t ∈ queue ++ found.1, t ∈ part := by
      intro t member
      rcases List.mem_append.mp member with old | new
      · exact inside t (.tail s old)
      · exact reached t (mem_discover.mp new).1
    rw [List.map_cons, traverse, targets s within, List.map_cons, same, ← List.map_append]
    exact congrArg (f s :: ·) (ih queued _ agree)

end Arena

namespace Automaton
variable {α : Type} {m n : Automaton α} {f : StateId → StateId}

/-- The states of the automaton that its start leads to. -/
def reached (m : Automaton α) : Set StateId := {s | s < m.size ∧ m.Reachable m.start s}

theorem mem_reached_iff {s : StateId} : s ∈ m.reached ↔ s ∈ m.order := mem_order_iff.symm

/-- The map carries the reachable part of one automaton to that of the other, state by state and
    edge by edge. -/
structure Resembles (f : StateId → StateId) (m n : Automaton α) : Prop where
  bijective : Set.BijOn f m.reached n.reached
  start : m.start ∈ m.reached → f m.start = n.start
  edges : ∀ s ∈ m.reached, n.edges (f s) = (m.edges s).map fun e => ⟨e.symbol, f e.target⟩

/-- Nothing can be reached from a start that is no state of the automaton. -/
theorem start_mem_reached {s : StateId} (inside : s ∈ m.reached) : m.start ∈ m.reached := by
  have some : m.start < m.size := by
    by_contra outside
    have none : m.order = [] := Arena.bfs_of_size_le (Nat.le_of_not_lt outside)
    have walked : s ∈ m.order := mem_reached_iff.mp inside
    rw [none] at walked
    cases walked
  exact ⟨some, Arena.Reachable.refl _ _⟩

namespace Resembles

/-- The breadth-first sequences of the two automata correspond. -/
theorem order_eq (resembles : Resembles f m n) (closed : m.Closed) : n.order = m.order.map f := by
  by_cases inside : m.start ∈ m.reached
  · have agree : Arena.Agree f m.reached (Array.replicate m.size false) (Array.replicate n.size false) := by
      intro s within
      rw [Arena.unmet_replicate, Arena.unmet_replicate]
      exact iff_of_true within.1 (resembles.bijective.mapsTo within).1
    have first : ∀ s ∈ [m.start], s ∈ m.reached := by simpa using inside
    obtain ⟨found, agree⟩ := agree.discover resembles.bijective.injOn first
    have stays : ∀ s ∈ m.reached, ∀ t ∈ m.targets s, t ∈ m.reached := by
      intro s within t target
      obtain ⟨e, edge, rfl⟩ := List.mem_map.mp target
      exact mem_reached_iff.mpr (target_mem_order closed (mem_reached_iff.mp within) edge)
    have targets : ∀ s ∈ m.reached, n.targets (f s) = (m.targets s).map f := by
      intro s within
      simp [Arena.targets, resembles.edges s within]
    have queued : ∀ s ∈ (Arena.discover (Array.replicate m.size false) [m.start]).1, s ∈ m.reached :=
      fun s member => first s (Arena.mem_discover.mp member).1
    rw [order, order, Arena.bfs, Arena.bfs, ← resembles.start inside, ← List.map_singleton, found]
    exact Arena.traverse_map resembles.bijective.injOn stays targets queued _ agree
  · have none : m.order = [] := by
      refine List.eq_nil_iff_forall_not_mem.mpr fun s walked => ?_
      exact inside (start_mem_reached (mem_reached_iff.mpr walked))
    have none' : n.order = [] := by
      refine List.eq_nil_iff_forall_not_mem.mpr fun t walked => ?_
      obtain ⟨s, within, -⟩ := resembles.bijective.surjOn (mem_reached_iff.mpr walked)
      exact inside (start_mem_reached within)
    rw [none, none']
    rfl

/-- A state and its counterpart have the same place. -/
theorem idxOf_eq (resembles : Resembles f m n) (closed : m.Closed) {s : StateId} (inside : s ∈ m.reached) :
    n.order.idxOf (f s) = m.order.idxOf s := by
  obtain ⟨i, place, rfl⟩ := List.mem_iff_getElem.mp (mem_reached_iff.mp inside)
  have place' : i < n.order.length := by
    rw [resembles.order_eq closed, List.length_map]
    exact place
  have counterpart : f m.order[i] = n.order[i] := by simp [resembles.order_eq closed]
  rw [counterpart, n.nodup_order.idxOf_getElem, m.nodup_order.idxOf_getElem]

theorem nameIn_eq (resembles : Resembles f m n) (closed : m.Closed) (fresh : m.Fresh) (fresh' : n.Fresh) {s : StateId}
    (inside : s ∈ m.reached) : n.nameIn n.order (f s) = m.nameIn m.order s := by
  rw [fresh.nameIn_eq, fresh'.nameIn_eq, resembles.idxOf_eq closed inside]

variable [Symbol α] {markers : Markers}

theorem columns_eq (resembles : Resembles f m n) (closed : m.Closed) :
    n.columns markers n.order = m.columns markers m.order := by
  rw [columns, columns, resembles.order_eq closed, List.flatMap_map, List.map_flatMap, List.map_flatMap]
  refine congrArg Column.sort (List.flatMap_congr fun s walked => ?_)
  rw [resembles.edges s (mem_reached_iff.mpr walked), List.map_map]
  rfl

theorem cell_eq (resembles : Resembles f m n) (closed : m.Closed) (fresh : m.Fresh) (fresh' : n.Fresh) {s : StateId}
    (inside : s ∈ m.reached) (column : Column) : n.cell markers n.order (f s) column = m.cell markers m.order s column := by
  rw [cell, cell, resembles.edges s inside, List.filter_map, List.map_map]
  refine List.map_congr_left fun e listed => ?_
  have edge : e ∈ m.edges s := (List.mem_filter.mp listed).1
  have target : e.target ∈ m.order := target_mem_order closed (mem_reached_iff.mp inside) edge
  exact resembles.nameIn_eq closed fresh fresh' (mem_reached_iff.mpr target)

theorem row_eq (resembles : Resembles f m n) (closed : m.Closed) (fresh : m.Fresh) (fresh' : n.Fresh) {s : StateId}
    (inside : s ∈ m.reached) (columns : List Column) :
    n.row markers n.order columns (f s) = m.row markers m.order columns s := by
  have name : n.nameIn n.order (f s) = m.nameIn m.order s := resembles.nameIn_eq closed fresh fresh' inside
  have isStart : f s = n.start ↔ s = m.start := by
    have first : m.start ∈ m.reached := start_mem_reached inside
    rw [← resembles.start first, resembles.bijective.injOn.eq_iff inside first]
  have isAccepting : n.isAccepting (f s) = m.isAccepting s := by
    have inside' : f s < n.size := (resembles.bijective.mapsTo inside).1
    simp [Arena.isAccepting, inside.1, inside', resembles.edges s inside]
  have cells : n.cell markers n.order (f s) = m.cell markers m.order s :=
    funext (resembles.cell_eq closed fresh fresh' inside)
  simp only [row, name, isStart, isAccepting, cells]

theorem ofAutomaton_eq (resembles : Resembles f m n) (closed : m.Closed) (fresh : m.Fresh) (fresh' : n.Fresh) :
    Table.ofAutomaton markers n = Table.ofAutomaton markers m := by
  have columns : n.columns markers n.order = m.columns markers m.order := resembles.columns_eq closed
  have rows : n.order.map (n.row markers n.order (m.columns markers m.order)) =
      m.order.map (m.row markers m.order (m.columns markers m.order)) := by
    rw [resembles.order_eq closed, List.map_map, ← resembles.order_eq closed]
    refine List.map_congr_left fun s walked => ?_
    exact resembles.row_eq closed fresh fresh' (mem_reached_iff.mpr walked) _
  simp only [Table.ofAutomaton, columns, rows]

end Resembles

theorem resembles_relabel (m : Automaton α) : Resembles id m m.relabel where
  bijective := by
    have same : m.relabel.reached = m.reached := by
      ext s
      rw [mem_reached_iff, order_relabel, mem_reached_iff]
    rw [same]
    exact Set.bijOn_id _
  start := fun _ => rfl
  edges := by simp

/-- Automata that agree in the shape of what their starts lead to, each of them without labels or
    just labelled, are walked in corresponding orders and have the same tables. In particular
    labelling an automaton that has no labels does not change its table. -/
theorem table_eq_of_resembles [Symbol α] (obtained : m.Obtained) (fresh : m.Fresh) (fresh' : n.Fresh)
    (resembles : Resembles f m n) (markers : Markers) :
    n.order = m.order.map f ∧ Table.ofAutomaton markers m = Table.ofAutomaton markers n ∧
      Table.ofAutomaton markers m.relabel = Table.ofAutomaton markers m := by
  have closed := obtained.closed
  refine ⟨resembles.order_eq closed, (resembles.ofAutomaton_eq closed fresh fresh').symm, ?_⟩
  exact m.resembles_relabel.ofAutomaton_eq closed fresh (.inr ⟨m, rfl⟩)

/-- The union of two letters. -/
def eitherLetter : Automaton Char :=
  (Step.outcome [.literal 'a', .literal 'b', .union ⟨0, 1⟩ ⟨2, 3⟩]).finish ⟨4, 5⟩

/-- The same union, with the letters added the other way round and an idle state before them. -/
def letterEither : Automaton Char :=
  (Step.outcome [.addState, .literal 'b', .literal 'a', .union ⟨3, 4⟩ ⟨1, 2⟩]).finish ⟨5, 6⟩

/-- From the states of the one union to those of the other. -/
def crossOver (s : StateId) : StateId := [3, 4, 1, 2, 5, 6].getD s 0

theorem resembles_crossOver : Resembles crossOver eitherLetter letterEither.relabel := by
  have order : eitherLetter.order = [4, 0, 2, 1, 3, 5] := by decide +kernel
  have order' : letterEither.relabel.order = [5, 3, 1, 4, 2, 6] := by decide +kernel
  have part : eitherLetter.reached = {s | s ∈ [4, 0, 2, 1, 3, 5]} := by
    ext s
    rw [mem_reached_iff, order]
    rfl
  have part' : letterEither.relabel.reached = {s | s ∈ [5, 3, 1, 4, 2, 6]} := by
    ext s
    rw [mem_reached_iff, order']
    rfl
  refine ⟨?_, fun _ => rfl, ?_⟩
  · rw [part, part']
    refine ⟨?_, ?_, ?_⟩
    · exact show ∀ s ∈ [4, 0, 2, 1, 3, 5], crossOver s ∈ [5, 3, 1, 4, 2, 6] by decide
    · intro s inside t inside' same
      have injective : ∀ s ∈ [4, 0, 2, 1, 3, 5], ∀ t ∈ [4, 0, 2, 1, 3, 5], crossOver s = crossOver t → s = t := by decide
      exact injective s inside t inside' same
    · exact show ∀ t ∈ [5, 3, 1, 4, 2, 6], ∃ s ∈ [4, 0, 2, 1, 3, 5], crossOver s = t by decide
  · rw [part]
    exact show ∀ s ∈ [4, 0, 2, 1, 3, 5], letterEither.relabel.edges (crossOver s) =
      (eitherLetter.edges s).map fun e => ⟨e.symbol, crossOver e.target⟩ by decide +kernel

theorem table_eq_of_resembles_crossOver :
    letterEither.relabel.order = eitherLetter.order.map crossOver ∧
      Table.ofAutomaton {} eitherLetter = Table.ofAutomaton {} letterEither.relabel ∧
      Table.ofAutomaton {} eitherLetter.relabel = Table.ofAutomaton {} eitherLetter := by
  have unlabelled : ∀ s, eitherLetter.label s = none := by
    intro s
    match s with
    | 0 | 1 | 2 | 3 | 4 | 5 => decide
    | s + 6 => rfl
  exact table_eq_of_resembles (.finish _ _) (.inl unlabelled) (.inr ⟨letterEither, rfl⟩) resembles_crossOver {}

end Automaton

end RegexAutomaton
