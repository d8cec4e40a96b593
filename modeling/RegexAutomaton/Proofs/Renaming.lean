import Mathlib.Data.Set.Function
import RegexAutomaton.Automaton.Path
import RegexAutomaton.Proofs.Discovery

/-!
Automata that differ only in the names of their states. A renaming is a bijection between the
states of two automata that keeps the start, the accepting state and the list of edges of
each state, in order. The two then accept the same words (`Renames.accepts_iff`).
-/
namespace RegexAutomaton.Automaton
variable {α : Type} {m n : Automaton α} {f : StateId → StateId}

/-- The map carries one automaton to the other, state by state and edge by edge. -/
structure Renames (f : StateId → StateId) (m n : Automaton α) : Prop where
  bijective : Set.BijOn f {s | s < m.size} {s | s < n.size}
  start : f m.start = n.start
  accepting : f m.accepting = n.accepting
  edges : ∀ s < m.size, n.edges (f s) = (m.edges s).map fun e => ⟨e.symbol, f e.target⟩

namespace Renames

theorem mem_edges (renames : Renames f m n) {s t : StateId} {x : Option α} (edge : ⟨x, t⟩ ∈ m.edges s) :
    ⟨x, f t⟩ ∈ n.edges (f s) := by
  rw [renames.edges s (Arena.lt_size_of_mem_edges edge)]
  exact List.mem_map_of_mem edge

theorem path (renames : Renames f m n) {s t : StateId} {word : List α} (path : m.Path s word t) :
    n.Path (f s) word (f t) := by
  induction path with
  | refl s => exact .refl (f s)
  | silent edge _ ih => exact .silent (renames.mem_edges edge) ih
  | read edge _ ih => exact .read (renames.mem_edges edge) ih

/-- An edge of a renamed state comes from an edge of the state. -/
theorem exists_mem_edges (renames : Renames f m n) {s t : StateId} {x : Option α} (inside : s < m.size)
    (edge : ⟨x, t⟩ ∈ n.edges (f s)) : ∃ u, f u = t ∧ ⟨x, u⟩ ∈ m.edges s := by
  rw [renames.edges s inside] at edge
  obtain ⟨⟨y, u⟩, old, same⟩ := List.mem_map.mp edge
  cases same
  exact ⟨u, rfl, old⟩

theorem exists_path (renames : Renames f m n) (closed : m.Closed) {s v t : StateId} {word : List α}
    (path : n.Path v word t) (inside : s < m.size) (same : f s = v) : ∃ u < m.size, f u = t ∧ m.Path s word u := by
  induction path generalizing s with
  | refl v => exact ⟨s, inside, same, .refl s⟩
  | silent edge _ ih =>
    obtain ⟨next, onward, old⟩ := renames.exists_mem_edges inside (same ▸ edge)
    obtain ⟨u, within, last, later⟩ := ih (closed s _ old) onward
    exact ⟨u, within, last, .silent old later⟩
  | read edge _ ih =>
    obtain ⟨next, onward, old⟩ := renames.exists_mem_edges inside (same ▸ edge)
    obtain ⟨u, within, last, later⟩ := ih (closed s _ old) onward
    exact ⟨u, within, last, .read old later⟩

/-- Automata that differ in the names of their states accept the same words. -/
theorem accepts_iff (renames : Renames f m n) (closed : m.Closed) (start : m.start < m.size)
    (accepting : m.accepting < m.size) (word : List α) : m.Accepts word ↔ n.Accepts word := by
  constructor
  · intro path
    rw [Accepts, ← renames.start, ← renames.accepting]
    exact renames.path path
  · intro path
    obtain ⟨u, inside, same, old⟩ := renames.exists_path closed path start renames.start
    obtain rfl : u = m.accepting := renames.bijective.injOn inside accepting (same.trans renames.accepting.symm)
    exact old

end Renames

end RegexAutomaton.Automaton
