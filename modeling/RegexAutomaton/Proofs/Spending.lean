import RegexAutomaton.Proofs.CarefulRun

/-!
What becomes of the operands of a composition. A composition lets edges leave the stop state
of its operand, and no later step takes them away (`growsTo_run`), so the operand is refused
from then on. The second operand of a concatenation is different: its stop state becomes
that of the concatenation and gets no edge, so it is refused only when the concatenation is
no longer open itself (`refused_iff_of_composed`).
-/
namespace RegexAutomaton

namespace Arena
variable {α : Type} {a b c : Arena α} {f h : Fragment} {s : Step α}

theorem GrowsTo.trans (first : a.GrowsTo b) (second : b.GrowsTo c) : a.GrowsTo c where
  size_le := Nat.le_trans first.size_le second.size_le
  edges_le := fun s => (first.edges_le s).trans (second.edges_le s)

/-- No run takes a state or an edge away. -/
theorem growsTo_run (a : Arena α) (steps : List (Step α)) : a.GrowsTo (a.run steps).2 := by
  induction steps generalizing a with
  | nil => exact GrowsTo.refl a
  | cons s rest ih => exact (growsTo_step a s).trans (ih (a.step s).2)

theorem GrowsTo.not_isOpen (grows : a.GrowsTo b) (continued : a.edges f.stop ≠ []) : b.isOpen f = false := by
  rw [Bool.eq_false_iff]
  intro opened
  have ended : b.edges f.stop = [] := ((isOpen_iff b f).mp opened).2.2
  have fewer := grows.edges_le f.stop
  rw [ended] at fewer
  exact continued (List.prefix_nil.mp fewer)

/-- A composition is refused if one of its operands is not open. -/
theorem step_of_not_isOpen (operand : f ∈ s.operands) (shut : a.isOpen f = false) : a.step s = (.refused, a) := by
  cases s with
  | addState => cases operand
  | addEdge source target symbol => cases operand
  | literal symbol => cases operand
  | union g g' =>
    rcases List.mem_pair.mp operand with rfl | rfl <;> simp [step, union?, composable, shut, composed]
  | concat g g' =>
    rcases List.mem_pair.mp operand with rfl | rfl <;> simp [step, concat?, composable, shut, composed]
  | star g =>
    obtain rfl := List.mem_singleton.mp operand
    simp [step, star?, shut, composed]

theorem isOpen_of_step (made : (a.step s).1 = .fragment h) (operand : f ∈ s.operands) : a.isOpen f = true := by
  cases opened : a.isOpen f with
  | true => rfl
  | false =>
    rw [step_of_not_isOpen operand opened] at made
    cases made

/-- The operands of a composition that succeeds get edges at their ends, apart from the second
    operand of a concatenation. -/
theorem continued_of_step (made : (a.step s).1 = .fragment h) (operand : f ∈ s.operands)
    (notLast : ∀ g, s ≠ .concat g f) : (a.step s).2.edges f.stop ≠ [] := by
  obtain ⟨-, inside, -⟩ := (isOpen_iff a f).mp (isOpen_of_step made operand)
  have old : f.stop ≠ a.size := Nat.ne_of_lt inside
  cases s with
  | addState => cases operand
  | addEdge source target symbol => cases operand
  | literal symbol => cases operand
  | union g g' =>
    by_cases fits : a.composable g g' = true
    · obtain ⟨b, union, adds⟩ := union?_adds fits
      have joined : f.stop = g.stop ∨ f.stop = g'.stop :=
        (List.mem_pair.mp operand).imp (congrArg Fragment.stop) (congrArg Fragment.stop)
      simp [step, union, composed, adds.edges, old, joined]
    · simp [step, union?, fits, composed] at made
  | concat g g' =>
    have first : f = g := (List.mem_pair.mp operand).resolve_right fun same => notLast g (same ▸ rfl)
    subst first
    by_cases fits : a.composable f g' = true
    · obtain ⟨b, concat, adds⟩ := concat?_adds fits
      simp [step, concat, composed, adds.edges]
    · simp [step, concat?, fits, composed] at made
  | star g =>
    obtain rfl := List.mem_singleton.mp operand
    by_cases opened : a.isOpen f = true
    · obtain ⟨b, star, adds⟩ := star?_adds opened
      simp [step, star, composed, adds.edges]
    · simp [step, star?, opened, composed] at made

theorem concat_of_step {g : Fragment} (made : (a.step (.concat g f)).1 = .fragment h) : h = ⟨g.start, f.stop⟩ := by
  by_cases fits : a.composable g f = true
  · obtain ⟨b, concat, -⟩ := concat?_adds fits
    simp only [step, concat, composed, Reply.fragment.injEq] at made
    exact made.symm
  · simp [step, concat?, fits, composed] at made

end Arena

namespace Step
variable {α : Type}

theorem outcome_append (front back : List (Step α)) : outcome (front ++ back) = ((outcome front).run back).2 := by
  simp [outcome, Arena.run_append]

/-- After a composition, whatever steps follow, each of its operands is refused by every
    further composition, which then leaves the arena as it is; but for the second operand of
    a concatenation this holds only once the concatenation itself is not open any more. -/
theorem refused_iff_of_composed (before between : List (Step α)) {s : Step α} {f h : Fragment}
    (composed : ((outcome before).step s).1 = .fragment h) (operand : f ∈ s.operands) :
    (∀ t : Step α, f ∈ t.operands → (outcome (before ++ s :: between)).step t =
        (.refused, outcome (before ++ s :: between))) ↔
      ((∃ g, s = .concat g f) → (outcome (before ++ s :: between)).isOpen h = false) := by
  have later : outcome (before ++ s :: between) = (((outcome before).step s).2.run between).2 :=
    outcome_append before (s :: between)
  have made := Arena.growsTo_step (outcome before) s
  have grows := Arena.growsTo_run ((outcome before).step s).2 between
  rw [← later] at grows
  generalize outcome (before ++ s :: between) = after at grows
  -- A concatenation is open exactly as long as its second operand is: they end in the same state.
  have together : ∀ g, s = .concat g f → after.isOpen h = after.isOpen f := by
    rintro g rfl
    have firstStart := ((Arena.isOpen_iff _ g).mp (Arena.isOpen_of_step composed (by simp [operands]))).1
    have secondStart := ((Arena.isOpen_iff _ f).mp (Arena.isOpen_of_step composed operand)).1
    have size := Nat.le_trans made.size_le grows.size_le
    rw [Arena.concat_of_step composed]
    simp [Arena.isOpen, Nat.lt_of_lt_of_le firstStart size, Nat.lt_of_lt_of_le secondStart size]
  constructor
  · rintro refused ⟨g, concat⟩
    rw [together g concat, Bool.eq_false_iff]
    intro opened
    have star := refused (.star f) (by simp [operands])
    simp [Arena.step, Arena.star?, opened, Arena.composed] at star
  · intro closed t given
    refine Arena.step_of_not_isOpen given ?_
    by_cases last : ∃ g, s = .concat g f
    · obtain ⟨g, concat⟩ := last
      rw [← together g concat]
      exact closed ⟨g, concat⟩
    · exact grows.not_isOpen (Arena.continued_of_step composed operand fun g concat => last ⟨g, concat⟩)

/-- A run that concatenates two letters. -/
def pair : List (Step Char) := [.literal 'a', .literal 'b', .concat ⟨0, 1⟩ ⟨2, 3⟩]

-- In the second run the concatenation is used itself, and with it its second operand.
theorem refused_iff_of_composed_pair :
    (∀ t : Step Char, ⟨0, 1⟩ ∈ t.operands → (outcome pair).step t = (.refused, outcome pair)) ∧
      ∀ t : Step Char, ⟨2, 3⟩ ∈ t.operands →
        (outcome (pair ++ [.star ⟨0, 3⟩])).step t = (.refused, outcome (pair ++ [.star ⟨0, 3⟩])) := by
  have composed : ((outcome (pair.take 2)).step (.concat ⟨0, 1⟩ ⟨2, 3⟩)).1 = .fragment ⟨0, 3⟩ := by decide
  constructor
  · refine (refused_iff_of_composed (pair.take 2) [] composed (by decide)).mpr ?_
    rintro ⟨g, concat⟩
    cases concat
  · refine (refused_iff_of_composed (pair.take 2) [.star ⟨0, 3⟩] composed (by decide)).mpr ?_
    intro _
    decide

/-- The second letter of the pair can be composed once more; its star then goes on from the end of the pair. -/
theorem second_operand_reused :
    answers (pair ++ [.star ⟨2, 3⟩]) =
      [.fragment ⟨0, 1⟩, .fragment ⟨2, 3⟩, .fragment ⟨0, 3⟩, .fragment ⟨4, 5⟩] := by
  decide

end Step

end RegexAutomaton
