import RegexAutomaton.Automaton.Fragment

/-!
Single steps on an arena and whole runs of them. The operands of a step are given by
value, so a step may name states that do not exist and fragments that no step
returned; such a step is refused and leaves the arena as it was.
-/
namespace RegexAutomaton

/-- One operation on an arena. -/
inductive Step (α : Type) where
  | addState
  | addEdge (source target : StateId) (symbol : Option α)
  | literal (symbol : α)
  | union (first second : Fragment)
  | concat (first second : Fragment)
  | star (operand : Fragment)
  deriving DecidableEq

/-- What a step answers. -/
inductive Reply where
  | state (id : StateId)
  | fragment (f : Fragment)
  | done
  | refused
  deriving DecidableEq

namespace Arena
variable {α : Type}

/-- The answer of a composition and the arena after it. -/
def composed (a : Arena α) : Option (Fragment × Arena α) → Reply × Arena α
  | some (f, after) => (.fragment f, after)
  | none => (.refused, a)

/-- Performs one step. -/
def step (a : Arena α) : Step α → Reply × Arena α
  | .addState => (.state a.size, a.addState)
  | .addEdge source target symbol =>
    match a.addEdge? source target symbol with
    | some after => (.done, after)
    | none => (.refused, a)
  | .literal symbol => a.composed (some (a.literal symbol))
  | .union f g => a.composed (a.union? f g)
  | .concat f g => a.composed (a.concat? f g)
  | .star f => a.composed (a.star? f)

/-- Performs steps in order; the answers come in the same order. -/
def run (a : Arena α) : List (Step α) → List Reply × Arena α
  | [] => ([], a)
  | s :: rest =>
    let first := a.step s
    let later := first.2.run rest
    (first.1 :: later.1, later.2)

theorem run_append (a : Arena α) (front back : List (Step α)) :
    a.run (front ++ back) =
      ((a.run front).1 ++ ((a.run front).2.run back).1, ((a.run front).2.run back).2) := by
  induction front generalizing a with
  | nil => rfl
  | cons s rest ih => simp [run, ih]

theorem composed_refused {a : Arena α} {result : Option (Fragment × Arena α)}
    (refused : (a.composed result).1 = .refused) : (a.composed result).2 = a := by
  cases result with
  | none => rfl
  | some made => cases refused

theorem step_refused {a : Arena α} {s : Step α} (refused : (a.step s).1 = .refused) : (a.step s).2 = a := by
  cases s with
  | addState => cases refused
  | addEdge source target symbol =>
    simp only [step] at refused ⊢
    split at refused
    · cases refused
    · rfl
  | literal symbol => exact composed_refused refused
  | union f g => exact composed_refused refused
  | concat f g => exact composed_refused refused
  | star f => exact composed_refused refused

end Arena

end RegexAutomaton
