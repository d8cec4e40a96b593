import RegexAutomaton.Automaton.Basic

/-!
Paths through an arena and the words that they spell: an edge on a symbol spells it, an
edge without one spells nothing.
-/
namespace RegexAutomaton

namespace Arena
variable {α : Type} {a : Arena α}

/-- A path between two states spells the word. -/
inductive Path (a : Arena α) : StateId → List α → StateId → Prop where
  | refl (s : StateId) : Path a s [] s
  | silent {s next stop : StateId} {word : List α} (edge : ⟨none, next⟩ ∈ a.edges s) (rest : Path a next word stop) :
      Path a s word stop
  | read {s next stop : StateId} {symbol : α} {word : List α} (edge : ⟨some symbol, next⟩ ∈ a.edges s)
      (rest : Path a next word stop) : Path a s (symbol :: word) stop

theorem Path.append {s middle stop : StateId} {front back : List α} (first : Path a s front middle)
    (second : Path a middle back stop) : Path a s (front ++ back) stop := by
  induction first with
  | refl _ => exact second
  | silent edge _ ih => exact .silent edge (ih second)
  | read edge _ ih => exact .read edge (ih second)

/-- Some path leads from one state to the other. -/
def Reachable (a : Arena α) (s stop : StateId) : Prop := ∃ word, Path a s word stop

theorem Reachable.trans {s middle stop : StateId} (first : a.Reachable s middle) (second : a.Reachable middle stop) :
    a.Reachable s stop := by
  obtain ⟨front, toMiddle⟩ := first
  obtain ⟨back, fromMiddle⟩ := second
  exact ⟨front ++ back, toMiddle.append fromMiddle⟩

theorem reachable_of_mem_targets {s next : StateId} (target : next ∈ a.targets s) : a.Reachable s next := by
  obtain ⟨⟨symbol, _⟩, edge, rfl⟩ := List.mem_map.mp target
  cases symbol with
  | none => exact ⟨[], .silent edge (.refl _)⟩
  | some x => exact ⟨[x], .read edge (.refl _)⟩

end Arena

/-- A path from the start to the accepting state spells the word. -/
def Automaton.Accepts {α : Type} (m : Automaton α) (word : List α) : Prop := m.Path m.start word m.accepting

end RegexAutomaton
