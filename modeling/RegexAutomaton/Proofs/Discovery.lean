import RegexAutomaton.Proofs.Extension

/-!
What a breadth-first walk finds: the states of the arena that can be reached from its start
(`mem_bfs_iff`), each of them once (`nodup_bfs`). The queue holds states that are marked, so
none can enter it again; and a target of a state that has left the queue was marked before
the walk or leaves the queue later.
-/
namespace RegexAutomaton

namespace Arena
variable {α : Type} {a : Arena α} {marks : Array Bool} {s t : StateId}

/-- The state has a mark, which is not set yet. -/
def Unmet (marks : Array Bool) (s : StateId) : Prop := marks[s]? = some false

theorem unmet_mark : Unmet (marks.setIfInBounds s true) t ↔ Unmet marks t ∧ t ≠ s := by
  simp only [Unmet, Array.getElem?_setIfInBounds]
  by_cases same : s = t
  · subst same
    simp
  · simp [same, Ne.symm same]

theorem mem_discover {states : List StateId} : s ∈ (discover marks states).1 ↔ s ∈ states ∧ Unmet marks s := by
  induction states generalizing marks with
  | nil => simp [discover]
  | cons t rest ih =>
    rw [discover]
    split
    · rename_i unmet
      simp only [List.mem_cons, ih, unmet_mark]
      by_cases same : s = t
      · subst same
        simpa [Unmet] using unmet
      · simp [same]
    · rename_i met
      rw [ih, List.mem_cons]
      constructor
      · rintro ⟨later, unmet⟩
        exact ⟨.inr later, unmet⟩
      · rintro ⟨rfl | later, unmet⟩
        · exact absurd unmet met
        · exact ⟨later, unmet⟩

theorem unmet_discover {states : List StateId} :
    Unmet (discover marks states).2 s ↔ Unmet marks s ∧ s ∉ states := by
  induction states generalizing marks with
  | nil => simp [discover]
  | cons t rest ih =>
    rw [discover]
    split
    · simp only [ih, unmet_mark, List.mem_cons, not_or, and_assoc]
    · rename_i met
      rw [ih, List.mem_cons, not_or]
      constructor
      · rintro ⟨unmet, later⟩
        exact ⟨unmet, fun same => met (same ▸ unmet), later⟩
      · rintro ⟨unmet, -, later⟩
        exact ⟨unmet, later⟩

theorem nodup_discover (marks : Array Bool) (states : List StateId) : (discover marks states).1.Nodup := by
  induction states generalizing marks with
  | nil => simp [discover]
  | cons t rest ih =>
    rw [discover]
    split
    · refine List.nodup_cons.mpr ⟨?_, ih _⟩
      rw [mem_discover, unmet_mark]
      rintro ⟨-, -, different⟩
      exact different rfl
    · exact ih marks

/-- Only states of the arena have edges. -/
theorem lt_size_of_mem_edges {e : Edge α} (edge : e ∈ a.edges s) : s < a.size := by
  refine Nat.lt_of_not_le fun outside => ?_
  rw [edges_of_size_le outside] at edge
  cases edge

/-! ## The walk -/

theorem mem_traverse_of_mem {queue : List StateId} (queued : s ∈ queue) : s ∈ a.traverse marks queue := by
  fun_induction traverse a marks queue with
  | case1 => cases queued
  | case2 marks t queue found ih =>
    rcases List.mem_cons.mp queued with rfl | later
    · exact .head _
    · exact .tail _ (ih (List.mem_append_left _ later))

theorem unmet_of_mem_traverse {queue : List StateId} (walked : s ∈ a.traverse marks queue) :
    s ∈ queue ∨ Unmet marks s := by
  fun_induction traverse a marks queue with
  | case1 => cases walked
  | case2 marks t queue found ih =>
    rcases List.mem_cons.mp walked with rfl | later
    · exact .inl (.head _)
    · rcases ih later with queued | unmet
      · rcases List.mem_append.mp queued with old | new
        · exact .inl (.tail _ old)
        · exact .inr (mem_discover.mp new).2
      · exact .inr (unmet_discover.mp unmet).1

/-- Each state is walked once if the queue holds each state once and marked states only. -/
theorem nodup_traverse {queue : List StateId} (once : queue.Nodup) (met : ∀ q ∈ queue, ¬ Unmet marks q) :
    (a.traverse marks queue).Nodup := by
  fun_induction traverse a marks queue with
  | case1 => exact .nil
  | case2 marks t queue found ih =>
    obtain ⟨notQueued, once⟩ := List.nodup_cons.mp once
    have notFound : ∀ q ∈ found.1, Unmet marks q := fun q new => (mem_discover.mp new).2
    refine List.nodup_cons.mpr ⟨?_, ih ?_ ?_⟩
    · intro walked
      rcases unmet_of_mem_traverse walked with queued | unmet
      · rcases List.mem_append.mp queued with old | new
        · exact notQueued old
        · exact met t (.head _) (notFound t new)
      · exact met t (.head _) (unmet_discover.mp unmet).1
    · refine List.nodup_append.mpr ⟨once, nodup_discover _ _, ?_⟩
      rintro q old _ new rfl
      exact met q (.tail _ old) (notFound q new)
    · intro q queued unmet
      obtain ⟨before, notTarget⟩ := unmet_discover.mp unmet
      rcases List.mem_append.mp queued with old | new
      · exact met q (.tail _ old) before
      · exact notTarget (mem_discover.mp new).1

theorem reachable_of_mem_traverse {queue : List StateId} (walked : s ∈ a.traverse marks queue) :
    ∃ q ∈ queue, a.Reachable q s := by
  fun_induction traverse a marks queue with
  | case1 => cases walked
  | case2 marks t queue found ih =>
    rcases List.mem_cons.mp walked with rfl | later
    · exact ⟨s, .head _, Reachable.refl a s⟩
    · obtain ⟨q, queued, reach⟩ := ih later
      rcases List.mem_append.mp queued with old | new
      · exact ⟨q, .tail _ old, reach⟩
      · exact ⟨t, .head _, (reachable_of_mem_targets (mem_discover.mp new).1).trans reach⟩

/-- What a walked state leads to was marked before the walk, or it is walked, too. -/
theorem mem_traverse_of_target {queue : List StateId} (walked : s ∈ a.traverse marks queue) (target : t ∈ a.targets s)
    (unmet : Unmet marks t) : t ∈ a.traverse marks queue := by
  fun_induction traverse a marks queue with
  | case1 => cases walked
  | case2 marks u queue found ih =>
    by_cases found_here : t ∈ a.targets u
    · exact .tail _ (mem_traverse_of_mem (List.mem_append_right _ (mem_discover.mpr ⟨found_here, unmet⟩)))
    · rcases List.mem_cons.mp walked with rfl | later
      · exact absurd target found_here
      · exact .tail _ (ih later (unmet_discover.mpr ⟨unmet, found_here⟩))

theorem unmet_replicate : Unmet (Array.replicate a.size false) s ↔ s < a.size := by
  simp [Unmet, Array.getElem?_replicate]

theorem nodup_bfs (a : Arena α) (start : StateId) : (a.bfs start).Nodup := by
  refine nodup_traverse (nodup_discover _ _) ?_
  intro q found unmet
  exact (unmet_discover.mp unmet).2 (mem_discover.mp found).1

/-- The walk begins at its start. -/
theorem head?_bfs {start : StateId} (inside : start < a.size) : (a.bfs start).head? = some start := by
  have unmet : (Array.replicate a.size false)[start]? = some false := unmet_replicate.mpr inside
  simp [bfs, discover, unmet, traverse]

/-- The walk finds just the states of the arena that can be reached. -/
theorem mem_bfs_iff {start : StateId} : s ∈ a.bfs start ↔ s < a.size ∧ a.Reachable start s := by
  constructor
  · intro walked
    obtain ⟨q, found, reach⟩ := reachable_of_mem_traverse walked
    obtain rfl := List.mem_singleton.mp (mem_discover.mp found).1
    refine ⟨?_, reach⟩
    rcases unmet_of_mem_traverse walked with found | unmet
    · exact unmet_replicate.mp (mem_discover.mp found).2
    · exact unmet_replicate.mp (unmet_discover.mp unmet).1
  · rintro ⟨inside, reach⟩
    refine reach.mem (fun u => u < a.size → u ∈ a.bfs start) ?_ ?_ inside
    · intro inside
      exact mem_traverse_of_mem (mem_discover.mpr ⟨.head _, unmet_replicate.mpr inside⟩)
    · intro u walked e edge inside
      by_cases first : e.target = start
      · exact mem_traverse_of_mem (mem_discover.mpr ⟨List.mem_singleton.mpr first, unmet_replicate.mpr inside⟩)
      · refine mem_traverse_of_target (walked (lt_size_of_mem_edges edge)) (List.mem_map_of_mem edge) ?_
        exact unmet_discover.mpr ⟨unmet_replicate.mpr inside, fun again => first (List.mem_singleton.mp again)⟩

/-! ## Walks of arenas with the same edges -/

theorem traverse_congr {b : Arena α} (targets : ∀ s, a.targets s = b.targets s) (marks : Array Bool)
    (queue : List StateId) : a.traverse marks queue = b.traverse marks queue := by
  fun_induction traverse a marks queue with
  | case1 => rw [traverse]
  | case2 marks s queue found ih =>
    rw [traverse, ← targets s]
    exact congrArg (s :: ·) ih

theorem bfs_congr {b : Arena α} (size : a.size = b.size) (targets : ∀ s, a.targets s = b.targets s) (start : StateId) :
    a.bfs start = b.bfs start := by
  simp only [bfs, size, traverse_congr targets]

end Arena

end RegexAutomaton
