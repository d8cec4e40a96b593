/-!
Sets of characters given by runs of code points. A table of runs is searched for a
character; of two tables, one covers the other if each run of the other lies
within one of its own; and a table spares a range if each run ends before it or
begins after it.
-/
namespace RegexAutomaton.Text

/-- Runs of code points, each given by its first and its last one. -/
abbrev Runs := List (Nat × Nat)

namespace Runs

/-- The character lies in one of the runs. -/
def contains (runs : Runs) (c : Char) : Bool := runs.any fun run => run.1 ≤ c.toNat && c.toNat ≤ run.2

/-- Every run of the second table lies within a run of the first. -/
def covers (outer inner : Runs) : Bool :=
  inner.all fun run => outer.any fun wider => wider.1 ≤ run.1 && run.2 ≤ wider.2

theorem contains_iff (runs : Runs) (c : Char) :
    runs.contains c = true ↔ ∃ run ∈ runs, run.1 ≤ c.toNat ∧ c.toNat ≤ run.2 := by
  simp [contains]

theorem contains_of_covers {outer inner : Runs} (covered : outer.covers inner = true) {c : Char}
    (inside : inner.contains c = true) : outer.contains c = true := by
  obtain ⟨run, member, low, high⟩ := (contains_iff inner c).mp inside
  obtain ⟨wider, present, bounds⟩ := List.any_eq_true.mp (List.all_eq_true.mp covered run member)
  have ⟨below, above⟩ : wider.1 ≤ run.1 ∧ run.2 ≤ wider.2 := by simpa using bounds
  exact (contains_iff outer c).mpr ⟨wider, present, Nat.le_trans below low, Nat.le_trans high above⟩

/-- The runs leave out the code points from the first to the second number. -/
def spares (runs : Runs) (first last : Nat) : Bool := runs.all fun run => run.2 < first || last < run.1

theorem contains_of_spares {runs : Runs} {first last : Nat} (spared : runs.spares first last = true) {c : Char}
    (low : first ≤ c.toNat) (high : c.toNat ≤ last) : runs.contains c = false := by
  rw [Bool.eq_false_iff]
  intro inside
  obtain ⟨run, member, below, above⟩ := (contains_iff runs c).mp inside
  have outside : run.2 < first ∨ last < run.1 := by simpa using List.all_eq_true.mp spared run member
  omega

end Runs

end RegexAutomaton.Text
