import RegexAutomaton.Proofs.Discovery
import RegexAutomaton.Proofs.Persistence
import RegexAutomaton.Table.Basic

/-!
Automata as they come about: finished from some run, and then labelled and given other start
states any number of times (`Obtained`). None of this changes the edges, so they remain those
of the run (`Built`), and no edge leads out of such an automaton. A labelled state has the name of
its place, and a state that is not in the order has no label (`label_relabel_eq`). A table calls
its states by their places if none of them has a label, and also if all of them were just
labelled (`Fresh.nameIn_eq`).
-/
namespace RegexAutomaton.Automaton
variable {α : Type} {m : Automaton α}

/-- An automaton that was finished from a run, whatever its steps and with whatever fragment, and
    then labelled and given other start and accepting states any number of times. -/
inductive Obtained : Automaton α → Prop where
  | finish (steps : List (Step α)) (f : Fragment) : Obtained ((Step.outcome steps).finish f)
  | relabel {m : Automaton α} (before : Obtained m) : Obtained m.relabel
  | restart {m : Automaton α} (before : Obtained m) (s : StateId) : Obtained { m with start := s }
  | redirect {m : Automaton α} (before : Obtained m) (s : StateId) : Obtained { m with accepting := s }

/-- The states and edges of the automaton are those of some run; its labels, its start and its
    accepting state may be any. -/
def Built (m : Automaton α) : Prop :=
  ∃ steps : List (Step α), m.size = (Step.outcome steps).size ∧ ∀ s, m.edges s = (Step.outcome steps).edges s

theorem Built.closed (built : m.Built) : m.Closed := by
  obtain ⟨steps, size, edges⟩ := built
  intro s e edge
  rw [edges] at edge
  rw [size]
  exact Step.closed_outcome steps s e edge

theorem Obtained.built (obtained : m.Obtained) : m.Built := by
  induction obtained with
  | finish steps f => exact ⟨steps, rfl, fun _ => rfl⟩
  | @relabel m _ ih =>
    obtain ⟨steps, size, edges⟩ := ih
    exact ⟨steps, m.size_relabel.trans size, fun s => (m.edges_relabel s).trans (edges s)⟩
  | restart _ _ ih => exact ih
  | redirect _ _ ih => exact ih

theorem Obtained.closed (obtained : m.Obtained) : m.Closed := obtained.built.closed

theorem mem_order_iff {s : StateId} : s ∈ m.order ↔ s < m.size ∧ m.Reachable m.start s := Arena.mem_bfs_iff

/-- What a state of the order leads to is in the order. -/
theorem target_mem_order (closed : m.Closed) {s : StateId} (walked : s ∈ m.order) {e : Edge α} (edge : e ∈ m.edges s) :
    e.target ∈ m.order := by
  have reach : m.Reachable m.start s := (mem_order_iff.mp walked).2
  exact mem_order_iff.mpr ⟨closed s e edge, reach.trans (Arena.reachable_of_mem_edges edge)⟩

theorem nodup_order (m : Automaton α) : m.order.Nodup := Arena.nodup_bfs m.toArena m.start

/-! ## Labels -/

@[simp] theorem order_relabel (m : Automaton α) : m.relabel.order = m.order :=
  Arena.bfs_congr m.size_relabel (fun s => congrArg (List.map Edge.target) (m.edges_relabel s)) m.start

theorem idxOf?_order {s : StateId} (walked : s ∈ m.order) : m.order.idxOf? s = some (m.order.idxOf s) :=
  List.findIdx?_eq_some_of_exists ⟨s, walked, beq_self_eq_true s⟩

/-- A labelled automaton, state by state. -/
theorem states_relabel (m : Automaton α) (s : StateId) :
    m.relabel.states[s]? = if s < m.size then some ⟨(m.order.idxOf? s).map placeLabel, m.edges s⟩ else none := by
  simp only [relabel, Array.getElem?_mapIdx]
  split
  · rename_i inside
    simp [Arena.edges, Array.getElem?_eq_getElem (show s < m.states.size from inside)]
  · rename_i outside
    simp [Array.getElem?_eq_none (show m.states.size ≤ s from Nat.le_of_not_lt outside)]

theorem label_relabel_eq (m : Automaton α) (s : StateId) : m.relabel.label s = (m.order.idxOf? s).map placeLabel := by
  by_cases inside : s < m.size
  · exact label_relabel inside
  · have absent : s ∉ m.order := fun walked => inside (mem_order_iff.mp walked).1
    rw [Arena.label, states_relabel, if_neg inside, List.idxOf?_eq_none_iff.mpr absent]
    rfl

theorem label_relabel_of_mem {s : StateId} (walked : s ∈ m.order) :
    m.relabel.label s = some (placeLabel (m.order.idxOf s)) := by
  rw [label_relabel_eq, idxOf?_order walked]
  rfl

/-- A state that has its label by place is called what an unlabelled one would be. -/
theorem nameIn_relabel (m : Automaton α) (s : StateId) :
    m.relabel.nameIn m.relabel.order s = placeLabel (m.relabel.order.idxOf s) := by
  rw [nameIn, order_relabel]
  by_cases walked : s ∈ m.order
  · rw [label_relabel_of_mem walked]
    rfl
  · rw [label_relabel_eq, List.idxOf?_eq_none_iff.mpr walked]
    rfl

/-- No state has a label, or the states were just labelled. -/
def Fresh (m : Automaton α) : Prop := (∀ s, m.label s = none) ∨ ∃ n : Automaton α, m = n.relabel

theorem Fresh.nameIn_eq (fresh : m.Fresh) (s : StateId) : m.nameIn m.order s = placeLabel (m.order.idxOf s) := by
  rcases fresh with unlabelled | ⟨n, rfl⟩
  · rw [nameIn, unlabelled]
    rfl
  · exact n.nameIn_relabel s

end RegexAutomaton.Automaton
