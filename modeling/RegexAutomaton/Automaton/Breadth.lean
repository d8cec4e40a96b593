import RegexAutomaton.Automaton.Arena

/-!
Breadth-first order of the states that can be reached from a start state. A state is
marked when an edge to it is first met, so it enters the queue once; the states
still unmarked and those in the queue together bound the walk.
-/
namespace RegexAutomaton.Arena
variable {α : Type}

/-- The states of the list that are not marked yet, each once and in order, and the
    marks with theirs set. Ids outside the arena carry no mark and are passed over. -/
def discover : Array Bool → List StateId → List StateId × Array Bool
  | marks, [] => ([], marks)
  | marks, s :: rest =>
    if marks[s]? = some false then
      let later := discover (marks.setIfInBounds s true) rest
      (s :: later.1, later.2)
    else discover marks rest

theorem count_mark {marks : Array Bool} {s : StateId} (unmarked : marks[s]? = some false) :
    (marks.setIfInBounds s true).count false + 1 = marks.count false := by
  obtain ⟨inside, value⟩ := Array.getElem?_eq_some_iff.mp unmarked
  have positive : 0 < marks.count false := Array.count_pos_iff.mpr (value ▸ Array.getElem_mem inside)
  rw [Array.setIfInBounds, dif_pos inside, Array.count_set inside]
  simp [value]
  omega

theorem discover_count (marks : Array Bool) (states : List StateId) :
    (discover marks states).1.length + (discover marks states).2.count false = marks.count false := by
  induction states generalizing marks with
  | nil => simp [discover]
  | cons s rest ih =>
    unfold discover
    split
    · rename_i unmarked
      have one := count_mark unmarked
      have later := ih (marks.setIfInBounds s true)
      simp only [List.length_cons]
      omega
    · exact ih marks

/-- The queued states and all that are still to be discovered from them, in the order in
    which they leave the queue. -/
def traverse (a : Arena α) (marks : Array Bool) : List StateId → List StateId
  | [] => []
  | s :: queue =>
    let found := discover marks (a.targets s)
    s :: a.traverse found.2 (queue ++ found.1)
termination_by queue => marks.count false + queue.length
decreasing_by
  have balance := discover_count marks (a.targets s)
  simp only [List.length_append, List.length_cons]
  omega

/-- The states that can be reached from `start`, in breadth-first order along the edges;
    none if `start` lies outside the arena. -/
def bfs (a : Arena α) (start : StateId) : List StateId :=
  let found := discover (Array.replicate a.size false) [start]
  a.traverse found.2 found.1

theorem bfs_of_size_le {a : Arena α} {start : StateId} (outside : a.size ≤ start) : a.bfs start = [] := by
  have unmarked : (Array.replicate a.size false)[start]? = none := Array.getElem?_eq_none (by simpa using outside)
  simp [bfs, discover, unmarked, traverse]

end RegexAutomaton.Arena
