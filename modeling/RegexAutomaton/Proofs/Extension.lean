import RegexAutomaton.Automaton.Path
import RegexAutomaton.Automaton.Step

/-!
Arenas that grow. Every operation on an arena adds states at its end and edges behind
those that a state has (`Adds`); what each composition adds is said here once. Paths
stay when edges are added, and no path is new as long as the states that it can pass
have kept their edges (`path_iff_of_same`). A path that ends outside the part where it
began has left it through the one state that got further edges (`Path.leaves`).
-/
namespace RegexAutomaton.Arena
variable {α : Type} {a b : Arena α}

/-- Every edge leads to a state of the arena. -/
def Closed (a : Arena α) : Prop := ∀ s, ∀ e ∈ a.edges s, e.target < a.size

/-- `b` is `a` with further states and with further edges behind those that a state had. -/
structure Adds (a b : Arena α) (count : Nat) (added : StateId → List (Edge α)) : Prop where
  size : b.size = a.size + count
  edges : ∀ s, b.edges s = a.edges s ++ added s

theorem adds_literal (a : Arena α) (x : α) :
    Adds a (a.literal x).2 2 fun s => if s = a.size then [⟨some x, a.size + 1⟩] else [] := by
  refine ⟨size_literal a x, ?_⟩
  intro s
  by_cases first : s = a.size
  · simp [literal, fresh, edges_link, first]
  · simp [literal, fresh, edges_link, first]

/-- A union of composable fragments adds two states, the edges from the first to both
    fragments, and an edge from the end of each to the second. -/
theorem union?_adds {f g : Fragment} (fits : a.composable f g = true) :
    ∃ b, a.union? f g = some (a.fresh, b) ∧ Adds a b 2 fun s =>
      if s = a.size then [⟨none, f.start⟩, ⟨none, g.start⟩]
      else if s = f.stop ∨ s = g.stop then [⟨none, a.size + 1⟩] else [] := by
  refine ⟨_, if_pos fits, by simp, ?_⟩
  obtain ⟨leftOpen, rightOpen, different⟩ := (composable_iff a f g).mp fits
  obtain ⟨-, leftInside, -⟩ := (isOpen_iff a f).mp leftOpen
  obtain ⟨-, rightInside, -⟩ := (isOpen_iff a g).mp rightOpen
  intro s
  by_cases first : s = a.size
  · subst first
    have notLeft : a.size ≠ f.stop := Nat.ne_of_gt leftInside
    have notRight : a.size ≠ g.stop := Nat.ne_of_gt rightInside
    simp [fresh, edges_link, notLeft, notRight]
  · by_cases left : s = f.stop
    · subst left
      simp [fresh, edges_link, first, different, Nat.lt_add_right 2 leftInside]
    · by_cases right : s = g.stop
      · subst right
        simp [fresh, edges_link, first, left, Nat.lt_add_right 2 rightInside]
      · simp [fresh, edges_link, first, left, right]

/-- A concatenation of composable fragments adds one edge, from the end of the first to
    the start of the second. -/
theorem concat?_adds {f g : Fragment} (fits : a.composable f g = true) :
    ∃ b, a.concat? f g = some (⟨f.start, g.stop⟩, b) ∧
      Adds a b 0 fun s => if s = f.stop then [⟨none, g.start⟩] else [] := by
  refine ⟨_, if_pos fits, by simp, ?_⟩
  obtain ⟨leftOpen, -, -⟩ := (composable_iff a f g).mp fits
  obtain ⟨-, leftInside, -⟩ := (isOpen_iff a f).mp leftOpen
  intro s
  by_cases left : s = f.stop
  · simp [edges_link, left, leftInside]
  · simp [edges_link, left]

/-- A star of an open fragment adds two states; from the first of them and from the end
    of the fragment one edge leads to its start and one to the second new state. -/
theorem star?_adds {f : Fragment} (opened : a.isOpen f = true) :
    ∃ b, a.star? f = some (a.fresh, b) ∧ Adds a b 2 fun s =>
      if s = a.size ∨ s = f.stop then [⟨none, f.start⟩, ⟨none, a.size + 1⟩] else [] := by
  refine ⟨_, if_pos opened, by simp, ?_⟩
  obtain ⟨-, inside, -⟩ := (isOpen_iff a f).mp opened
  intro s
  by_cases first : s = a.size
  · subst first
    have notStop : a.size ≠ f.stop := Nat.ne_of_gt inside
    simp [fresh, edges_link, notStop]
  · by_cases last : s = f.stop
    · subst last
      simp [fresh, edges_link, first, Nat.lt_add_right 2 inside]
    · simp [fresh, edges_link, first, last]

theorem Adds.closed {count : Nat} {added : StateId → List (Edge α)} (adds : Adds a b count added)
    (closed : a.Closed) (inside : ∀ s, ∀ e ∈ added s, e.target < a.size + count) : b.Closed := by
  intro s e edge
  rw [adds.edges, List.mem_append] at edge
  rw [adds.size]
  rcases edge with old | new
  · exact Nat.lt_add_right count (closed s e old)
  · exact inside s e new

/-- `b` has the states of `a`, each with the edges that it has in `a` and perhaps more behind them. -/
structure GrowsTo (a b : Arena α) : Prop where
  size_le : a.size ≤ b.size
  edges_le : ∀ s, a.edges s <+: b.edges s

theorem Adds.growsTo {count : Nat} {added : StateId → List (Edge α)} (adds : Adds a b count added) : a.GrowsTo b where
  size_le := by
    rw [adds.size]
    exact Nat.le_add_right _ _
  edges_le := fun s => ⟨added s, (adds.edges s).symm⟩

theorem GrowsTo.refl (a : Arena α) : a.GrowsTo a := ⟨Nat.le_refl _, fun s => List.prefix_refl (a.edges s)⟩

/-- No step takes a state or an edge away. -/
theorem growsTo_step (a : Arena α) (s : Step α) : a.GrowsTo (a.step s).2 := by
  cases s with
  | addState => exact ⟨by simp [step], fun s => by simp [step]⟩
  | addEdge source target symbol =>
    by_cases inside : source < a.size ∧ target < a.size
    · simp only [step, addEdge?, if_pos inside]
      refine ⟨Nat.le_of_eq (size_link a source target symbol).symm, fun s => ?_⟩
      rw [edges_link]
      split
      · exact List.prefix_append _ _
      · exact List.prefix_refl _
    · simp only [step, addEdge?, if_neg inside]
      exact GrowsTo.refl a
  | literal symbol => exact (adds_literal a symbol).growsTo
  | union f g =>
    by_cases fits : a.composable f g = true
    · obtain ⟨b, made, adds⟩ := union?_adds fits
      simp only [step, made, composed]
      exact adds.growsTo
    · simp only [step, union?, if_neg fits, composed]
      exact GrowsTo.refl a
  | concat f g =>
    by_cases fits : a.composable f g = true
    · obtain ⟨b, made, adds⟩ := concat?_adds fits
      simp only [step, made, composed]
      exact adds.growsTo
    · simp only [step, concat?, if_neg fits, composed]
      exact GrowsTo.refl a
  | star f =>
    by_cases opened : a.isOpen f = true
    · obtain ⟨b, made, adds⟩ := star?_adds opened
      simp only [step, made, composed]
      exact adds.growsTo
    · simp only [step, star?, if_neg opened, composed]
      exact GrowsTo.refl a

/-! ## Paths in the smaller and in the larger arena -/

theorem Path.of_subset {s t : StateId} {word : List α} (more : ∀ u, a.edges u ⊆ b.edges u)
    (path : a.Path s word t) : b.Path s word t := by
  induction path with
  | refl s => exact .refl s
  | silent edge _ ih => exact .silent (more _ edge) ih
  | read edge _ ih => exact .read (more _ edge) ih

theorem GrowsTo.reachable {s t : StateId} (grows : a.GrowsTo b) (reach : a.Reachable s t) : b.Reachable s t := by
  obtain ⟨word, path⟩ := reach
  exact ⟨word, path.of_subset fun u => (grows.edges_le u).subset⟩

theorem Adds.subset {count : Nat} {added : StateId → List (Edge α)} (adds : Adds a b count added) (s : StateId) :
    a.edges s ⊆ b.edges s :=
  (adds.growsTo.edges_le s).subset

theorem reachable_of_mem_edges {s : StateId} {e : Edge α} (edge : e ∈ a.edges s) : a.Reachable s e.target :=
  reachable_of_mem_targets (List.mem_map_of_mem edge)

theorem Reachable.refl (a : Arena α) (s : StateId) : a.Reachable s s := ⟨[], .refl s⟩

/-- A set of states that holds the start and that no edge leaves holds all that can be reached. -/
theorem Reachable.mem {s t : StateId} (reach : a.Reachable s t) (inside : StateId → Prop) (start : inside s)
    (stays : ∀ u, inside u → ∀ e ∈ a.edges u, inside e.target) : inside t := by
  obtain ⟨word, path⟩ := reach
  induction path with
  | refl _ => exact start
  | silent edge _ ih => exact ih (stays _ start _ edge)
  | read edge _ ih => exact ih (stays _ start _ edge)

theorem Reachable.lt_size {s t : StateId} (reach : a.Reachable s t) (closed : a.Closed) (inside : s < a.size) :
    t < a.size :=
  reach.mem (· < a.size) inside fun u _ e edge => closed u e edge

theorem Path.of_no_edges {s t : StateId} {word : List α} (path : a.Path s word t) (none : a.edges s = []) :
    t = s ∧ word = [] := by
  cases path with
  | refl _ => exact ⟨rfl, rfl⟩
  | silent edge _ => simp [none] at edge
  | read edge _ => simp [none] at edge

/-- A path between two different states begins with an edge. -/
theorem path_iff_of_ne {s t : StateId} {word : List α} (different : s ≠ t) :
    a.Path s word t ↔ ∃ e ∈ a.edges s, ∃ back, word = e.symbol.toList ++ back ∧ a.Path e.target back t := by
  constructor
  · intro path
    cases path with
    | refl _ => exact absurd rfl different
    | silent edge rest => exact ⟨_, edge, word, rfl, rest⟩
    | read edge rest => exact ⟨_, edge, _, rfl, rest⟩
  · rintro ⟨⟨symbol, next⟩, edge, back, rfl, rest⟩
    cases symbol with
    | none => exact .silent edge rest
    | some x => exact .read edge rest

theorem path_self_iff {s : StateId} {word : List α} (none : a.edges s = []) : a.Path s word s ↔ word = [] := by
  constructor
  · intro path
    exact (path.of_no_edges none).2
  · rintro rfl
    exact .refl s

/-- Paths from a state are the same in two arenas if all that can be reached from it has
    the same edges in both. -/
theorem path_iff_of_same {s t : StateId} {word : List α} (same : ∀ u, a.Reachable s u → b.edges u = a.edges u) :
    b.Path s word t ↔ a.Path s word t := by
  constructor
  · intro path
    induction path with
    | refl s => exact .refl s
    | silent edge _ ih =>
      rw [same _ (Reachable.refl a _)] at edge
      exact .silent edge (ih fun u reach => same u ((reachable_of_mem_edges edge).trans reach))
    | read edge _ ih =>
      rw [same _ (Reachable.refl a _)] at edge
      exact .read edge (ih fun u reach => same u ((reachable_of_mem_edges edge).trans reach))
  · intro path
    induction path with
    | refl s => exact .refl s
    | silent edge _ ih =>
      have kept := ih fun u reach => same u ((reachable_of_mem_edges edge).trans reach)
      rw [← same _ (Reachable.refl a _)] at edge
      exact .silent edge kept
    | read edge _ ih =>
      have kept := ih fun u reach => same u ((reachable_of_mem_edges edge).trans reach)
      rw [← same _ (Reachable.refl a _)] at edge
      exact .read edge kept

theorem reachable_iff_of_same {s t : StateId} (same : ∀ u, a.Reachable s u → b.edges u = a.edges u) :
    b.Reachable s t ↔ a.Reachable s t :=
  exists_congr fun _ => path_iff_of_same same

/-- Where `b` lets a part of `a` be left through `exit` only, and without reading, a path of
    `b` from that part to a state outside it is a path of `a` to `exit` and a path on from
    one of the states that `exit` was joined to. -/
theorem Path.leaves {s exit t : StateId} {word : List α} {onward : List StateId} (path : b.Path s word t)
    (only : ∀ u, a.Reachable s u → b.edges u = a.edges u ++ if u = exit then onward.map (⟨none, ·⟩) else [])
    (outside : ¬ a.Reachable s t) :
    ∃ front back, word = front ++ back ∧ a.Path s front exit ∧ ∃ next ∈ onward, b.Path next back t := by
  induction path with
  | refl s => exact absurd (Reachable.refl a s) outside
  | @silent s next t word edge rest ih =>
    rw [only s (Reachable.refl a s), List.mem_append] at edge
    rcases edge with old | new
    · have reach : a.Reachable s next := reachable_of_mem_edges old
      obtain ⟨front, back, split, toExit, later⟩ := ih (fun u from_next => only u (reach.trans from_next))
        (fun inside => outside (reach.trans inside))
      exact ⟨front, back, split, .silent old toExit, later⟩
    · by_cases at_exit : s = exit
      · rw [if_pos at_exit] at new
        obtain ⟨target, member, same⟩ := List.mem_map.mp new
        have same : target = next := congrArg Edge.target same
        exact ⟨[], word, rfl, at_exit ▸ .refl s, next, same ▸ member, rest⟩
      · simp [at_exit] at new
  | @read s next t x word edge rest ih =>
    rw [only s (Reachable.refl a s), List.mem_append] at edge
    rcases edge with old | new
    · have reach : a.Reachable s next := reachable_of_mem_edges old
      obtain ⟨front, back, split, toExit, later⟩ := ih (fun u from_next => only u (reach.trans from_next))
        (fun inside => outside (reach.trans inside))
      exact ⟨x :: front, back, by rw [split, List.cons_append], .read old toExit, later⟩
    · by_cases at_exit : s = exit
      · simp [at_exit] at new
      · simp [at_exit] at new

end RegexAutomaton.Arena
