import RegexAutomaton.Proofs.Spending

/-!
What holds of every run, whatever ids and fragments its steps name. A step is refused and
changes nothing, or it adds states and edges, and its edges lead to states of the arena
(`adds_of_step`). So an arena only grows, no edge ever leads out of it, and a state that an
edge leaves is never again the end of an open fragment.
-/
namespace RegexAutomaton

namespace Arena
variable {α : Type} {a : Arena α} {s : Step α} {f : Fragment}

theorem step_of_composed {result : Option (Fragment × Arena α)} {g : Fragment} {b : Arena α}
    (performed : a.step s = a.composed result) (made : result = some (g, b)) : a.step s = (.fragment g, b) := by
  rw [performed, made]
  rfl

/-- What a composition has to show of the fragment that it answers with. -/
theorem adds_of_fragment {count : Nat} {added : StateId → List (Edge α)} {g : Fragment} {b : Arena α}
    (performed : a.step s = (.fragment g, b)) (adds : Adds a b count added)
    (inside : ∀ x, ∀ e ∈ added x, e.target < a.size + count) (opened : b.isOpen g = true) :
    ∃ count added, Adds a (a.step s).2 count added ∧ (∀ x, ∀ e ∈ added x, e.target < a.size + count) ∧
      ∀ f, (a.step s).1 = .fragment f → (a.step s).2.isOpen f = true := by
  rw [performed]
  refine ⟨count, added, adds, inside, ?_⟩
  rintro f ⟨⟩
  exact opened

/-- A step that is not refused adds states, and edges to states of the arena; if it answers
    with a fragment, this is open. -/
theorem adds_of_step (done : (a.step s).1 ≠ .refused) :
    ∃ count added, Adds a (a.step s).2 count added ∧ (∀ x, ∀ e ∈ added x, e.target < a.size + count) ∧
      ∀ f, (a.step s).1 = .fragment f → (a.step s).2.isOpen f = true := by
  cases s with
  | addState =>
    refine ⟨1, fun _ => [], ⟨size_addState a, fun x => ?_⟩, by simp, by simp [step]⟩
    rw [step, edges_addState, List.append_nil]
  | addEdge source target symbol =>
    by_cases inside : source < a.size ∧ target < a.size
    · simp only [step, addEdge?, if_pos inside]
      refine ⟨0, fun x => if x = source then [⟨symbol, target⟩] else [], ⟨size_link .., fun x => ?_⟩, ?_, by simp⟩
      · rw [edges_link]
        by_cases same : x = source <;> simp [same, inside.1]
      · intro x e new
        dsimp only at new
        split at new
        · rw [List.mem_singleton.mp new]
          exact inside.2
        · cases new
    · simp [step, addEdge?, inside] at done
  | literal x =>
    refine adds_of_fragment (step_of_composed rfl rfl) (adds_literal a x) ?_ (isOpen_literal a x)
    intro s e new
    split at new
    · rw [List.mem_singleton.mp new]
      exact Nat.lt_succ_self _
    · cases new
  | union f g =>
    by_cases fits : a.composable f g = true
    · obtain ⟨b, made, adds⟩ := union?_adds fits
      obtain ⟨left, right, -⟩ := (composable_iff a f g).mp fits
      obtain ⟨leftStart, leftEnd, -⟩ := (isOpen_iff a f).mp left
      obtain ⟨rightStart, rightEnd, -⟩ := (isOpen_iff a g).mp right
      refine adds_of_fragment (step_of_composed rfl made) adds ?_ (isOpen_fresh adds.size ?_)
      · intro x e new
        split at new
        · rcases List.mem_pair.mp new with rfl | rfl
          · exact Nat.lt_add_right 2 leftStart
          · exact Nat.lt_add_right 2 rightStart
        · split at new
          · rw [List.mem_singleton.mp new]
            exact Nat.lt_succ_self _
          · cases new
      · have notLeft : a.size + 1 ≠ f.stop := Nat.ne_of_gt (Nat.lt_succ_of_lt leftEnd)
        have notRight : a.size + 1 ≠ g.stop := Nat.ne_of_gt (Nat.lt_succ_of_lt rightEnd)
        rw [adds.edges_of_size_le (Nat.le_succ _)]
        simp [notLeft, notRight]
    · simp [step, union?, fits, composed] at done
  | concat f g =>
    by_cases fits : a.composable f g = true
    · obtain ⟨b, made, adds⟩ := concat?_adds fits
      obtain ⟨left, right, different⟩ := (composable_iff a f g).mp fits
      obtain ⟨leftStart, -, -⟩ := (isOpen_iff a f).mp left
      obtain ⟨rightStart, rightEnd, ended⟩ := (isOpen_iff a g).mp right
      refine adds_of_fragment (step_of_composed rfl made) adds ?_ ((isOpen_iff b _).mpr ⟨?_, ?_, ?_⟩)
      · intro x e new
        split at new
        · rw [List.mem_singleton.mp new]
          exact rightStart
        · cases new
      · rw [adds.size]
        exact leftStart
      · rw [adds.size]
        exact rightEnd
      · -- the new edge leaves the end of the first fragment, which is not that of the second
        rw [adds.edges, ended, if_neg different.symm, List.append_nil]
    · simp [step, concat?, fits, composed] at done
  | star f =>
    by_cases opened : a.isOpen f = true
    · obtain ⟨b, made, adds⟩ := star?_adds opened
      obtain ⟨start, ends, -⟩ := (isOpen_iff a f).mp opened
      refine adds_of_fragment (step_of_composed rfl made) adds ?_ (isOpen_fresh adds.size ?_)
      · intro x e new
        split at new
        · rcases List.mem_pair.mp new with rfl | rfl
          · exact Nat.lt_add_right 2 start
          · exact Nat.lt_succ_self _
        · cases new
      · have notEnd : a.size + 1 ≠ f.stop := Nat.ne_of_gt (Nat.lt_succ_of_lt ends)
        rw [adds.edges_of_size_le (Nat.le_succ _)]
        simp [notEnd]
    · simp [step, star?, opened, composed] at done

/-- A fragment that a step answers with is open. -/
theorem isOpen_of_fragment (made : (a.step s).1 = .fragment f) : (a.step s).2.isOpen f = true := by
  obtain ⟨-, -, -, -, opened⟩ := adds_of_step (a := a) (s := s) (by simp [made])
  exact opened f made

theorem Closed.step (closed : a.Closed) (s : Step α) : (a.step s).2.Closed := by
  by_cases refused : (a.step s).1 = .refused
  · rwa [step_refused refused]
  · obtain ⟨count, added, adds, inside, -⟩ := adds_of_step refused
    exact adds.closed closed inside

/-- No edge leads out of the arena, whatever steps are performed. -/
theorem Closed.run (closed : a.Closed) (steps : List (Step α)) : (a.run steps).2.Closed := by
  induction steps generalizing a with
  | nil => exact closed
  | cons s rest ih => exact ih (closed.step s)

end Arena

namespace Step
variable {α : Type}

theorem closed_outcome (steps : List (Step α)) : (outcome steps).Closed := Arena.separated_empty.closed.run steps

/-- Whatever steps a run takes: a refused step changes nothing; the states stay and keep their
    edges, to which later ones are appended; a fragment that is returned is then open; and no
    fragment that ends in a state with edges can be composed any more. -/
theorem run_persists (before later : List (Step α)) (s : Step α) :
    (((outcome before).step s).1 = .refused → ((outcome before).step s).2 = outcome before) ∧
    ((outcome before).size ≤ (outcome (before ++ later)).size ∧
      ∀ x, (outcome before).edges x <+: (outcome (before ++ later)).edges x) ∧
    (∀ f, ((outcome before).step s).1 = .fragment f →
      f.start < ((outcome before).step s).2.size ∧ f.stop < ((outcome before).step s).2.size ∧
        ((outcome before).step s).2.edges f.stop = []) ∧
    ∀ f ∈ s.operands, (outcome before).edges f.stop ≠ [] →
      (outcome (before ++ later)).step s = (.refused, outcome (before ++ later)) := by
  have grows : (outcome before).GrowsTo (outcome (before ++ later)) := by
    rw [outcome_append]
    exact Arena.growsTo_run (outcome before) later
  refine ⟨Arena.step_refused, ⟨grows.size_le, grows.edges_le⟩, ?_, ?_⟩
  · intro f made
    exact (Arena.isOpen_iff _ f).mp (Arena.isOpen_of_fragment made)
  · intro f operand continued
    exact Arena.step_of_not_isOpen operand (grows.not_isOpen continued)

/-- A run that unites two overlapping fragments, which no step has returned. -/
def overlap : List (Step Char) := [.literal 'a', .addState, .union ⟨0, 2⟩ ⟨2, 1⟩]

theorem run_persists_overlapping :
    ((outcome overlap).step (.star ⟨7, 8⟩)).2 = outcome overlap ∧
      ((outcome (overlap.take 2)).step (.union ⟨0, 2⟩ ⟨2, 1⟩)).1 = .fragment ⟨3, 4⟩ ∧
      ((outcome (overlap.take 2)).step (.union ⟨0, 2⟩ ⟨2, 1⟩)).2.edges 4 = [] ∧
      (outcome (overlap ++ [.addState])).step (.star ⟨0, 1⟩) = (.refused, outcome (overlap ++ [.addState])) := by
  have united : ((outcome (overlap.take 2)).step (.union ⟨0, 2⟩ ⟨2, 1⟩)).1 = .fragment ⟨3, 4⟩ := by decide
  obtain ⟨unchanged, -, -, -⟩ := run_persists overlap [] (.star ⟨7, 8⟩)
  obtain ⟨-, -, opened, -⟩ := run_persists (overlap.take 2) [] (.union ⟨0, 2⟩ ⟨2, 1⟩)
  obtain ⟨-, -, -, refused⟩ := run_persists overlap [.addState] (.star ⟨0, 1⟩)
  exact ⟨unchanged (by decide), united, (opened _ united).2.2, refused ⟨0, 1⟩ (by decide) (by decide)⟩

end Step

end RegexAutomaton
