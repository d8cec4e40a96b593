import Mathlib.Data.List.Basic
import Mathlib.Order.Lattice.Nat
import RegexAutomaton.Proofs.Discovery

/-!
The order of a breadth-first walk. A walk can be asked for its states one by one; it yields those
of `bfs` and then ends (`Walk.yields_traverse`). What follows its first state is what the walk
discovers along the edges of its own states, taken in order (`bfs_eq_cons`). So the states
come in the order in which they are first met: by their parents, the earliest states with an
edge to them, and below one parent by its first edge to each (`pairwise_metBefore`). And as
parents come in order, no state is farther from the start than one that comes later
(`exists_hops_of_le`).
-/
namespace RegexAutomaton

namespace Arena
variable {α : Type} {a : Arena α} {marks : Array Bool} {start s t : StateId}

/-! ## Asking for one state after the other -/

/-- A walk under way: the states that wait and the marks of those that were met. -/
structure Walk where
  queue : List StateId
  marks : Array Bool

namespace Walk

/-- The walk that has yielded no state yet. -/
def begin (a : Arena α) (start : StateId) : Walk :=
  let found := discover (Array.replicate a.size false) [start]
  ⟨found.1, found.2⟩

/-- The next state, and the walk after it; none if the walk has ended. -/
def next (a : Arena α) (w : Walk) : Option (StateId × Walk) :=
  match w.queue with
  | [] => none
  | s :: queue =>
    let found := discover w.marks (a.targets s)
    some (s, ⟨queue ++ found.1, found.2⟩)

/-- The walk yields these states, one each time it is asked, and then it has ended. -/
inductive Yields (a : Arena α) : Walk → List StateId → Prop where
  | ended {w : Walk} (none : w.next a = none) : Yields a w []
  | more {w later : Walk} {s : StateId} {states : List StateId} (some : w.next a = some (s, later))
      (rest : Yields a later states) : Yields a w (s :: states)

theorem yields_traverse (marks : Array Bool) (queue : List StateId) :
    Yields a ⟨queue, marks⟩ (a.traverse marks queue) := by
  fun_induction traverse a marks queue with
  | case1 => exact .ended rfl
  | case2 marks s queue found ih => exact .more rfl ih

end Walk

/-! ## The walk from its own states -/

theorem discover_append (marks : Array Bool) (front back : List StateId) :
    discover marks (front ++ back) =
      ((discover marks front).1 ++ (discover (discover marks front).2 back).1,
        (discover (discover marks front).2 back).2) := by
  induction front generalizing marks with
  | nil => rfl
  | cons s rest ih =>
    rw [List.cons_append, discover, discover]
    split
    · rw [ih]
      rfl
    · exact ih marks

/-- After the queue come the states that are discovered from the walk itself. -/
theorem traverse_eq_append (marks : Array Bool) (queue : List StateId) :
    a.traverse marks queue = queue ++ (discover marks ((a.traverse marks queue).flatMap a.targets)).1 := by
  fun_induction traverse a marks queue with
  | case1 => rfl
  | case2 marks s queue found ih =>
    rw [List.flatMap_cons, discover_append, List.cons_append, ← List.append_assoc]
    exact congrArg (s :: ·) ih

theorem bfs_eq_cons (inside : start < a.size) :
    a.bfs start = start :: (discover ((Array.replicate a.size false).setIfInBounds start true)
      ((a.bfs start).flatMap a.targets)).1 := by
  have unmet : (Array.replicate a.size false)[start]? = some false := unmet_replicate.mpr inside
  have walk : a.bfs start = a.traverse ((Array.replicate a.size false).setIfInBounds start true) [start] := by
    simp [bfs, discover, unmet]
  rw [walk]
  exact traverse_eq_append _ _

/-- States are discovered in the order of the list in which they are met. -/
theorem pairwise_discover (marks : Array Bool) (states : List StateId) :
    (discover marks states).1.Pairwise fun s t => states.idxOf s < states.idxOf t := by
  induction states generalizing marks with
  | nil => exact .nil
  | cons u rest ih =>
    have shift {found : List StateId} (others : ∀ s ∈ found, u ≠ s)
        (ordered : found.Pairwise fun s t => rest.idxOf s < rest.idxOf t) :
        found.Pairwise fun s t => (u :: rest).idxOf s < (u :: rest).idxOf t := by
      refine ordered.imp_of_mem fun {s t} first second before => ?_
      rw [List.idxOf_cons_ne rest (others s first), List.idxOf_cons_ne rest (others t second)]
      exact Nat.succ_lt_succ before
    rw [discover]
    split
    · have others : ∀ s ∈ (discover (marks.setIfInBounds u true) rest).1, u ≠ s := by
        rintro s found rfl
        exact (unmet_mark.mp (mem_discover.mp found).2).2 rfl
      refine List.pairwise_cons.mpr ⟨fun s found => ?_, shift others (ih _)⟩
      rw [List.idxOf_cons_self, List.idxOf_cons_ne rest (others s found)]
      exact Nat.succ_pos _
    · rename_i met
      refine shift ?_ (ih marks)
      rintro s found rfl
      exact met (mem_discover.mp found).2

/-! ## Parents -/

/-- The earliest state of a list with an edge to the given one. -/
def parent? (a : Arena α) (order : List StateId) (s : StateId) : Option StateId := order.find? (s ∈ a.targets ·)

/-- The parent of the one state comes before that of the other; or they have one parent, and its
    first edge to the one comes before that to the other. -/
def MetBefore (a : Arena α) (order : List StateId) (s t : StateId) : Prop :=
  ∃ p q, a.parent? order s = some p ∧ a.parent? order t = some q ∧
    (order.idxOf p < order.idxOf q ∨ p = q ∧ (a.targets p).idxOf s < (a.targets p).idxOf t)

theorem parent?_eq_some {order : List StateId} {p : StateId} (found : a.parent? order s = some p) :
    p ∈ order ∧ s ∈ a.targets p :=
  ⟨List.mem_of_find?_eq_some found, by simpa using List.find?_some found⟩

theorem exists_parent? {order : List StateId} (target : s ∈ order.flatMap a.targets) :
    ∃ p, a.parent? order s = some p := by
  obtain ⟨u, walked, edge⟩ := List.mem_flatMap.mp target
  refine Option.isSome_iff_exists.mp (List.find?_isSome.mpr ⟨u, walked, ?_⟩)
  simpa using edge

/-- No state with an edge comes before the parent. -/
theorem idxOf_parent?_le {order : List StateId} {p u : StateId} (found : a.parent? order s = some p) (walked : u ∈ order)
    (edge : s ∈ a.targets u) : order.idxOf p ≤ order.idxOf u := by
  obtain ⟨leads, front, back, rfl, earlier⟩ := List.find?_eq_some_iff_append.mp found
  have leads : s ∈ a.targets p := by simpa using leads
  have none : ∀ q ∈ front, s ∉ a.targets q := by simpa using earlier
  have notParent : p ∉ front := fun again => none p again leads
  have notEarlier : u ∉ front := fun again => none u again edge
  rw [List.idxOf_append_of_notMem notParent, List.idxOf_append_of_notMem notEarlier, List.idxOf_cons_self]
  exact Nat.le_add_right _ _

/-- What is met first among the targets of a list is met before. -/
theorem metBefore_of_idxOf_lt {order : List StateId} (target : t ∈ order.flatMap a.targets)
    (before : (order.flatMap a.targets).idxOf s < (order.flatMap a.targets).idxOf t) : a.MetBefore order s t := by
  induction order with
  | nil => cases target
  | cons u rest ih =>
    rw [List.flatMap_cons] at target before
    by_cases first : s ∈ a.targets u
    · have parent : a.parent? (u :: rest) s = some u := by simp [parent?, first]
      rw [List.idxOf_append_of_mem first] at before
      by_cases second : t ∈ a.targets u
      · rw [List.idxOf_append_of_mem second] at before
        exact ⟨u, u, parent, by simp [parent?, second], .inr ⟨rfl, before⟩⟩
      · have later : t ∈ rest.flatMap a.targets := (List.mem_append.mp target).resolve_left second
        obtain ⟨q, found⟩ := exists_parent? later
        have other : u ≠ q := by
          rintro rfl
          exact second (parent?_eq_some found).2
        refine ⟨u, q, parent, by simpa [parent?, second] using found, .inl ?_⟩
        rw [List.idxOf_cons_self, List.idxOf_cons_ne rest other]
        exact Nat.succ_pos _
    · rw [List.idxOf_append_of_notMem first] at before
      by_cases second : t ∈ a.targets u
      · have place := List.idxOf_lt_length_of_mem second
        rw [List.idxOf_append_of_mem second] at before
        omega
      · rw [List.idxOf_append_of_notMem second] at before
        obtain ⟨p, q, found, found', order⟩ := ih ((List.mem_append.mp target).resolve_left second) (by omega)
        have other : u ≠ p := by
          rintro rfl
          exact first (parent?_eq_some found).2
        have other' : u ≠ q := by
          rintro rfl
          exact second (parent?_eq_some found').2
        refine ⟨p, q, by simpa [parent?, first] using found, by simpa [parent?, second] using found', ?_⟩
        rw [List.idxOf_cons_ne rest other, List.idxOf_cons_ne rest other']
        exact order.imp Nat.succ_lt_succ id

/-- All states but the start come in the order in which they are met. -/
theorem pairwise_metBefore (a : Arena α) (start : StateId) :
    (a.bfs start).Pairwise fun s t => s ≠ start → a.MetBefore (a.bfs start) s t := by
  by_cases inside : start < a.size
  · have walk := bfs_eq_cons inside
    generalize (Array.replicate a.size false).setIfInBounds start true = marks at walk
    generalize a.bfs start = order at walk ⊢
    rw [walk, List.pairwise_cons, ← walk]
    refine ⟨fun t _ other => absurd rfl other, ?_⟩
    refine (pairwise_discover marks _).imp_of_mem fun {s t} _ second before _ => ?_
    exact metBefore_of_idxOf_lt (mem_discover.mp second).1 before
  · rw [bfs_of_size_le (Nat.le_of_not_lt inside)]
    exact .nil

/-- What does not wait in the queue is met from a state that is walked before it. -/
theorem exists_source_of_mem_traverse {queue : List StateId} (walked : s ∈ a.traverse marks queue) (fresh : s ∉ queue) :
    ∃ front p back, a.traverse marks queue = front ++ p :: back ∧ s ∈ a.targets p ∧ s ∈ back := by
  fun_induction traverse a marks queue with
  | case1 => cases walked
  | case2 marks u queue found ih =>
    obtain ⟨notFirst, notQueued⟩ : s ≠ u ∧ s ∉ queue := by simpa using fresh
    have later := (List.mem_cons.mp walked).resolve_left notFirst
    by_cases met : s ∈ found.1
    · exact ⟨[], u, _, rfl, (mem_discover.mp met).1, later⟩
    · have unqueued : s ∉ queue ++ found.1 := fun inside => (List.mem_append.mp inside).elim notQueued met
      obtain ⟨front, p, back, walk, edge, behind⟩ := ih later unqueued
      exact ⟨u :: front, p, back, congrArg (u :: ·) walk, edge, behind⟩

/-- Every state but the start has a parent, which comes before it. -/
theorem exists_parent?_of_mem_bfs (walked : s ∈ a.bfs start) (other : s ≠ start) :
    ∃ p, a.parent? (a.bfs start) s = some p ∧ (a.bfs start).idxOf p < (a.bfs start).idxOf s := by
  have unqueued : s ∉ (discover (Array.replicate a.size false) [start]).1 := fun queued =>
    other (List.mem_singleton.mp (mem_discover.mp queued).1)
  obtain ⟨front, u, back, walk, edge, behind⟩ := exists_source_of_mem_traverse walked unqueued
  have walk : a.bfs start = front ++ u :: back := walk
  have source : u ∈ a.bfs start := by simp [walk]
  obtain ⟨p, parent⟩ := exists_parent? (List.mem_flatMap.mpr ⟨u, source, edge⟩)
  refine ⟨p, parent, Nat.lt_of_le_of_lt (idxOf_parent?_le parent source edge) ?_⟩
  have once := nodup_bfs a start
  rw [walk] at once ⊢
  obtain ⟨-, rest, apart⟩ := List.nodup_append.mp once
  have notBefore : u ∉ front := fun again => apart u again u (.head back) rfl
  have notBefore' : s ∉ front := fun again => apart s again s (.tail u behind) rfl
  have different : u ≠ s := fun same => (List.nodup_cons.mp rest).1 (same ▸ behind)
  rw [List.idxOf_append_of_notMem notBefore, List.idxOf_append_of_notMem notBefore', List.idxOf_cons_self,
    List.idxOf_cons_ne back different]
  exact Nat.add_lt_add_left (Nat.succ_pos _) _

/-! ## Distances -/

/-- So many edges lead from the start to the state. -/
inductive Hops (a : Arena α) (start : StateId) : Nat → StateId → Prop where
  | here : Hops a start 0 start
  | edge {n : Nat} {s t : StateId} (before : Hops a start n s) (target : t ∈ a.targets s) : Hops a start (n + 1) t

theorem reachable_iff_hops : a.Reachable start s ↔ ∃ n, a.Hops start n s := by
  constructor
  · intro reach
    refine reach.mem (fun u => ∃ n, a.Hops start n u) ⟨0, .here⟩ ?_
    rintro u ⟨n, hops⟩ e edge
    exact ⟨n + 1, hops.edge (List.mem_map_of_mem edge)⟩
  · rintro ⟨n, hops⟩
    induction hops with
    | here => exact Reachable.refl a start
    | edge _ target ih => exact ih.trans (reachable_of_mem_targets target)

/-- The number of edges on a shortest path from the start to the state, if it can be reached. -/
noncomputable def distance (a : Arena α) (start s : StateId) : Nat := sInf {n | a.Hops start n s}

theorem isLeast_distance (reach : a.Reachable start s) : IsLeast {n | a.Hops start n s} (a.distance start s) := by
  have some : {n | a.Hops start n s}.Nonempty := reachable_iff_hops.mp reach
  exact ⟨Nat.sInf_mem some, fun _ hops => Nat.sInf_le hops⟩

theorem idxOf_start (a : Arena α) (start : StateId) : (a.bfs start).idxOf start = 0 := by
  by_cases inside : start < a.size
  · rw [bfs_eq_cons inside, List.idxOf_cons_self]
  · simp [bfs_of_size_le (Nat.le_of_not_lt inside)]

theorem eq_start_of_idxOf (walked : s ∈ a.bfs start) (place : (a.bfs start).idxOf s = 0) : s = start :=
  (List.idxOf_inj walked).mp (place.trans (a.idxOf_start start).symm)

/-- The parent of a state comes no later than any state with an edge to it or to a later one. -/
theorem idxOf_parent?_le_of_le {u : StateId} (walked : s ∈ a.bfs start) (walked' : t ∈ a.bfs start) (other : s ≠ start)
    (le : (a.bfs start).idxOf s ≤ (a.bfs start).idxOf t) (source : u ∈ a.bfs start) (edge : t ∈ a.targets u) :
    ∃ p ∈ a.bfs start, s ∈ a.targets p ∧ (a.bfs start).idxOf p ≤ (a.bfs start).idxOf u := by
  rcases Nat.eq_or_lt_of_le le with same | before
  · obtain rfl := (List.idxOf_inj walked).mp same
    obtain ⟨p, parent, -⟩ := exists_parent?_of_mem_bfs walked other
    obtain ⟨inside, leads⟩ := parent?_eq_some parent
    exact ⟨p, inside, leads, idxOf_parent?_le parent source edge⟩
  · have met := List.pairwise_iff_getElem.mp (a.pairwise_metBefore start) _ _ (List.idxOf_lt_length_of_mem walked)
      (List.idxOf_lt_length_of_mem walked') before
    rw [List.getElem_idxOf, List.getElem_idxOf] at met
    obtain ⟨p, q, parent, parent', order⟩ := met other
    obtain ⟨inside, leads⟩ := parent?_eq_some parent
    have le : (a.bfs start).idxOf p ≤ (a.bfs start).idxOf q := by
      rcases order with before | ⟨rfl, -⟩
      · exact Nat.le_of_lt before
      · exact Nat.le_refl _
    exact ⟨p, inside, leads, Nat.le_trans le (idxOf_parent?_le parent' source edge)⟩

/-- If so many edges lead to a state, no more are needed to get to one that is walked before it. -/
theorem exists_hops_of_le {n : Nat} (hops : a.Hops start n t) (walked : s ∈ a.bfs start) (walked' : t ∈ a.bfs start)
    (le : (a.bfs start).idxOf s ≤ (a.bfs start).idxOf t) : ∃ k ≤ n, a.Hops start k s := by
  -- the induction is on the path to the later state: its last edge comes from no earlier than the parent of `s`
  induction hops generalizing s with
  | here =>
    rw [idxOf_start] at le
    obtain rfl := eq_start_of_idxOf walked (Nat.le_zero.mp le)
    exact ⟨0, Nat.le_refl 0, .here⟩
  | @edge n u t before target ih =>
    by_cases first : s = start
    · exact ⟨0, Nat.zero_le _, first ▸ .here⟩
    · obtain ⟨e, edge, rfl⟩ := List.mem_map.mp target
      have source : u ∈ a.bfs start := mem_bfs_iff.mpr ⟨lt_size_of_mem_edges edge, reachable_iff_hops.mpr ⟨n, before⟩⟩
      obtain ⟨p, inside, leads, le⟩ := idxOf_parent?_le_of_le walked walked' first le source target
      obtain ⟨k, few, hops⟩ := ih inside source le
      exact ⟨k + 1, Nat.succ_le_succ few, hops.edge leads⟩

/-- The states are walked in the order of their distances. -/
theorem pairwise_distance (a : Arena α) (start : StateId) :
    (a.bfs start).Pairwise fun s t => a.distance start s ≤ a.distance start t := by
  refine List.pairwise_iff_getElem.mpr fun i j inside inside' before => ?_
  have once := nodup_bfs a start
  have walked := List.getElem_mem inside
  have walked' := List.getElem_mem inside'
  have le : (a.bfs start).idxOf (a.bfs start)[i] ≤ (a.bfs start).idxOf (a.bfs start)[j] := by
    rw [once.idxOf_getElem, once.idxOf_getElem]
    exact Nat.le_of_lt before
  have shortest := (isLeast_distance (mem_bfs_iff.mp walked').2).1
  obtain ⟨k, few, hops⟩ := exists_hops_of_le shortest walked walked' le
  exact Nat.le_trans ((isLeast_distance (mem_bfs_iff.mp walked).2).2 hops) few

/-! ## The order as a whole -/

/-- What a list of states has to be like to be the breadth-first order from a start. -/
structure BreadthFirst (a : Arena α) (start : StateId) (order : List StateId) : Prop where
  /-- The walk that is asked for one state after the other yields these, and then it ends. -/
  yields : (Walk.begin a start).Yields a order
  mem_iff : ∀ s, s ∈ order ↔ s < a.size ∧ a.Reachable start s
  once : order.Nodup
  /-- It begins with the start, or is empty if the start is no state of the arena. -/
  head : order.head? = if start < a.size then some start else none
  /-- The distances are those of shortest paths, as all states of the order are reached. -/
  shortest : ∀ s ∈ order, IsLeast {n | a.Hops start n s} (a.distance start s)
  distances : order.Pairwise fun s t => a.distance start s ≤ a.distance start t
  parents : ∀ s ∈ order, s ≠ start → ∃ p, a.parent? order s = some p ∧ order.idxOf p < order.idxOf s
  inOrder : order.Pairwise fun s t => s ≠ start → a.MetBefore order s t

end Arena

namespace Automaton
variable {α : Type}

/-- The states that are reached from the start are walked breadth first, whatever automaton and
    whatever start. -/
theorem breadthFirst_order (m : Automaton α) : Arena.BreadthFirst m.toArena m.start m.order where
  yields := Arena.Walk.yields_traverse _ _
  mem_iff := fun _ => Arena.mem_bfs_iff
  once := Arena.nodup_bfs _ _
  head := by
    split
    · rename_i inside
      exact Arena.head?_bfs inside
    · rename_i outside
      rw [order, Arena.bfs_of_size_le (Nat.le_of_not_lt outside)]
      rfl
  shortest := fun s walked => Arena.isLeast_distance (Arena.mem_bfs_iff.mp walked).2
  distances := Arena.pairwise_distance _ _
  parents := fun s walked other => Arena.exists_parent?_of_mem_bfs walked other
  inOrder := Arena.pairwise_metBefore _ _

end Automaton

end RegexAutomaton
