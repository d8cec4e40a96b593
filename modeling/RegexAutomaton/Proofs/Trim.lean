import RegexAutomaton.Proofs.Composition
import RegexAutomaton.Proofs.Discovery

/-!
Arenas without waste. An arena is trim for its fragments if every state lies on the way
through one of them, only their ends have no edges, nothing leads back to their starts, and
every state either reads a symbol on its one edge or reads nothing on at most two. Each
composition keeps the arena trim (`Trim.literal`, `Trim.union`, `Trim.concat`, `Trim.star`):
what it adds starts at new states and at the ends of its operands, which had no edges before
(`Composes`).
-/
namespace RegexAutomaton.Arena
variable {α : Type} {a b : Arena α} {f g h : Fragment} {r q : Regex α}

/-- One edge on a symbol, or at most two edges that read nothing. -/
def Uniform (edges : List (Edge α)) : Prop :=
  (∃ x t, edges = [⟨some x, t⟩]) ∨ edges.length ≤ 2 ∧ ∀ e ∈ edges, e.symbol = none

/-- The arena consists of the given fragments, and all of its states are of use. -/
structure Trim (a : Arena α) (live : List (Fragment × Regex α)) : Prop where
  separated : a.Separated live
  covered : ∀ s < a.size, ∃ p ∈ live, a.Reachable p.1.start s ∧ a.Reachable s p.1.stop
  ending : ∀ s < a.size, a.edges s = [] → ∃ p ∈ live, s = p.1.stop
  entrance : ∀ s, ∀ e ∈ a.edges s, ∀ p ∈ live, e.target ≠ p.1.start
  proper : ∀ p ∈ live, p.1.start ≠ p.1.stop
  uniform : ∀ s, Uniform (a.edges s)

/-- What a composition adds to the arena, as far as its shape is concerned. -/
structure Composes (a b : Arena α) (operands : List Fragment) (h : Fragment) (added : StateId → List (Edge α)) :
    Prop where
  edges : ∀ s, b.edges s = a.edges s ++ added s
  sources : ∀ s, added s ≠ [] → a.size ≤ s ∨ ∃ f ∈ operands, s = f.stop
  uniform : ∀ s, Uniform (added s)
  into : ∀ f ∈ operands, b.Reachable h.start f.start
  out : ∀ f ∈ operands, b.Reachable f.stop h.stop
  new : ∀ s, a.size ≤ s → s < b.size → b.Reachable h.start s ∧ b.Reachable s h.stop
  ending : ∀ s, added s = [] → (a.size ≤ s ∧ s < b.size ∨ ∃ f ∈ operands, s = f.stop) → s = h.stop
  start : a.size ≤ h.start ∨ ∃ f ∈ operands, h.start = f.start
  entrance : ∀ s, ∀ e ∈ added s, e.target ≠ h.start
  proper : h.start ≠ h.stop

theorem uniform_nil : Uniform ([] : List (Edge α)) := .inr ⟨Nat.zero_le _, by simp⟩

theorem Uniform.of_silent {edges : List (Edge α)} (few : edges.length ≤ 2) (silent : ∀ e ∈ edges, e.symbol = none) :
    Uniform edges :=
  .inr ⟨few, silent⟩

theorem trim_empty : Trim ({} : Arena α) [] where
  separated := separated_empty
  covered := fun s inside => absurd inside (Nat.not_lt_zero s)
  ending := fun s inside => absurd inside (Nat.not_lt_zero s)
  entrance := by simp
  proper := by simp
  uniform := fun s => by
    rw [edges_of_size_le (Nat.zero_le s)]
    exact uniform_nil

theorem Trim.perm {live other : List (Fragment × Regex α)} (trim : a.Trim live) (same : live.Perm other) :
    a.Trim other where
  separated := trim.separated.perm same
  covered := fun s inside => by simpa only [same.mem_iff] using trim.covered s inside
  ending := fun s inside last => by simpa only [same.mem_iff] using trim.ending s inside last
  entrance := fun s e edge p member => trim.entrance s e edge p (same.mem_iff.mpr member)
  proper := fun p member => trim.proper p (same.mem_iff.mpr member)
  uniform := trim.uniform

/-! ## What a composition keeps -/

namespace Composes
variable {operands rest : List (Fragment × Regex α)} {added : StateId → List (Edge α)}

theorem reachable {given : List Fragment} (composes : Composes a b given h added) {s t : StateId}
    (reach : a.Reachable s t) : b.Reachable s t := by
  have more : ∀ u, a.edges u ⊆ b.edges u := by
    intro u
    rw [composes.edges]
    exact List.subset_append_left _ _
  obtain ⟨word, path⟩ := reach
  exact ⟨word, path.of_subset more⟩

theorem covered (composes : Composes a b (operands.map Prod.fst) h added) (trim : a.Trim (operands ++ rest))
    {s : StateId} (inside : s < b.size) :
    ∃ p ∈ (h, r) :: rest, b.Reachable p.1.start s ∧ b.Reachable s p.1.stop := by
  rcases Nat.lt_or_ge s a.size with old | new
  · obtain ⟨p, member, from_start, to_stop⟩ := trim.covered s old
    rcases List.mem_append.mp member with operand | other
    · have given := List.mem_map_of_mem (f := Prod.fst) operand
      exact ⟨(h, r), .head rest, (composes.into p.1 given).trans (composes.reachable from_start),
        (composes.reachable to_stop).trans (composes.out p.1 given)⟩
    · exact ⟨p, .tail _ other, composes.reachable from_start, composes.reachable to_stop⟩
  · exact ⟨(h, r), .head rest, composes.new s new inside⟩

theorem eq_stop (composes : Composes a b (operands.map Prod.fst) h added) (trim : a.Trim (operands ++ rest))
    {s : StateId} (inside : s < b.size) (last : b.edges s = []) : ∃ p ∈ (h, r) :: rest, s = p.1.stop := by
  rw [composes.edges] at last
  obtain ⟨lastBefore, nothing⟩ := List.append_eq_nil_iff.mp last
  rcases Nat.lt_or_ge s a.size with old | new
  · obtain ⟨p, member, rfl⟩ := trim.ending s old lastBefore
    rcases List.mem_append.mp member with operand | other
    · exact ⟨(h, r), .head rest, composes.ending _ nothing (.inr ⟨p.1, List.mem_map_of_mem operand, rfl⟩)⟩
    · exact ⟨p, .tail _ other, rfl⟩
  · exact ⟨(h, r), .head rest, composes.ending s nothing (.inl ⟨new, inside⟩)⟩

/-- The edges that are added leave states of the composition. -/
theorem reachable_source (composes : Composes a b (operands.map Prod.fst) h added) (trim : a.Trim (operands ++ rest))
    {s : StateId} {e : Edge α} (new : e ∈ added s) : b.Reachable h.start s := by
  have edge : e ∈ b.edges s := by
    rw [composes.edges]
    exact List.mem_append_right _ new
  rcases composes.sources s (List.ne_nil_of_mem new) with outside | ⟨_, operand, rfl⟩
  · exact (composes.new s outside (lt_size_of_mem_edges edge)).1
  · obtain ⟨p, member, rfl⟩ := List.mem_map.mp operand
    have sound := trim.separated.sound p (List.mem_append_left rest member)
    exact (composes.into p.1 operand).trans (composes.reachable sound.reaches_stop)

theorem target_ne_start (composes : Composes a b (operands.map Prod.fst) h added) (trim : a.Trim (operands ++ rest))
    {s : StateId} {e : Edge α} (edge : e ∈ b.edges s) : e.target ≠ h.start := by
  rw [composes.edges, List.mem_append] at edge
  rcases edge with old | new
  · rcases composes.start with outside | ⟨_, operand, same⟩
    · exact Nat.ne_of_lt (Nat.lt_of_lt_of_le (trim.separated.closed s e old) outside)
    · obtain ⟨p, member, rfl⟩ := List.mem_map.mp operand
      rw [show h.start = p.1.start from same]
      exact trim.entrance s e old p (List.mem_append_left rest member)
  · exact composes.entrance s e new

theorem target_ne_start_of_mem (composes : Composes a b (operands.map Prod.fst) h added)
    (trim : a.Trim (operands ++ rest)) (separated : b.Separated ((h, r) :: rest)) {p : Fragment × Regex α}
    (other : p ∈ rest) {s : StateId} {e : Edge α} (edge : e ∈ b.edges s) : e.target ≠ p.1.start := by
  have split := edge
  rw [composes.edges, List.mem_append] at split
  rcases split with old | new
  · exact trim.entrance s e old p (List.mem_append_right operands other)
  · -- An edge to another fragment would make that fragment reachable from this one.
    intro same
    have apart := (List.pairwise_cons.mp separated.apart).1 p other
    have reach := (composes.reachable_source trim new).trans (reachable_of_mem_edges edge)
    exact apart p.1.start (same ▸ reach) (Reachable.refl b _)

/-- The states that get edges have had none. -/
theorem edges_eq_nil (composes : Composes a b (operands.map Prod.fst) h added) (trim : a.Trim (operands ++ rest))
    {s : StateId} (grown : added s ≠ []) : a.edges s = [] := by
  rcases composes.sources s grown with outside | ⟨_, operand, rfl⟩
  · exact edges_of_size_le outside
  · obtain ⟨p, member, rfl⟩ := List.mem_map.mp operand
    exact (trim.separated.sound p (List.mem_append_left rest member)).edges_stop

end Composes

namespace Trim

/-- A composition that adds such edges to a trim arena leaves it trim. -/
theorem compose (operands : List (Fragment × Regex α)) {rest : List (Fragment × Regex α)}
    {added : StateId → List (Edge α)} (trim : a.Trim (operands ++ rest)) (separated : b.Separated ((h, r) :: rest))
    (composes : Composes a b (operands.map Prod.fst) h added) : b.Trim ((h, r) :: rest) where
  separated := separated
  covered := fun s inside => composes.covered trim inside
  ending := fun s inside last => composes.eq_stop trim inside last
  entrance := fun s e edge p member => by
    rcases List.mem_cons.mp member with rfl | other
    · exact composes.target_ne_start trim edge
    · exact composes.target_ne_start_of_mem trim separated other edge
  proper := fun p member => by
    rcases List.mem_cons.mp member with rfl | other
    · exact composes.proper
    · exact trim.proper p (List.mem_append_right operands other)
  uniform := fun s => by
    rw [composes.edges]
    by_cases grown : added s = []
    · rw [grown, List.append_nil]
      exact trim.uniform s
    · rw [composes.edges_eq_nil trim grown, List.nil_append]
      exact composes.uniform s

/-! ## The compositions -/

theorem eq_or_eq_succ {n s : Nat} (new : n ≤ s) (inside : s < n + 2) : s = n ∨ s = n + 1 := by omega

/-- A composition from the first of two new states to the second. Edges are added to the first
    of them and to the ends of the operands. -/
theorem composes_fresh {operands : List Fragment} {added : StateId → List (Edge α)} (adds : Adds a b 2 added)
    (sources : ∀ s, added s ≠ [] ↔ s = a.size ∨ ∃ f ∈ operands, s = f.stop) (uniform : ∀ s, Uniform (added s))
    (into : ∀ f ∈ operands, b.Reachable a.size f.start) (out : ∀ f ∈ operands, b.Reachable f.stop (a.size + 1))
    (across : b.Reachable a.size (a.size + 1)) (entrance : ∀ s, ∀ e ∈ added s, e.target ≠ a.size) :
    Composes a b operands a.fresh added where
  edges := adds.edges
  sources := fun s grown => ((sources s).mp grown).imp (fun same => Nat.le_of_eq same.symm) id
  uniform := uniform
  into := into
  out := out
  new := fun s new inside => by
    rw [adds.size] at inside
    rcases eq_or_eq_succ new inside with rfl | rfl
    · exact ⟨Reachable.refl b _, across⟩
    · exact ⟨across, Reachable.refl b _⟩
  ending := fun s nothing place => by
    have untouched : ¬ (s = a.size ∨ ∃ f ∈ operands, s = f.stop) := fun touched => (sources s).mpr touched nothing
    obtain ⟨notFirst, notEnd⟩ := not_or.mp untouched
    obtain ⟨new, inside⟩ := place.resolve_right notEnd
    rw [adds.size] at inside
    exact (eq_or_eq_succ new inside).resolve_left notFirst
  start := .inl (Nat.le_refl _)
  entrance := entrance
  proper := Nat.ne_of_lt (Nat.lt_succ_self _)

theorem literal {live : List (Fragment × Regex α)} (trim : a.Trim live) (x : α) :
    (a.literal x).2.Trim (((a.literal x).1, .symbol x) :: live) := by
  have adds := adds_literal a x
  have edge : ⟨some x, a.size + 1⟩ ∈ (a.literal x).2.edges a.size := by simp [adds.edges]
  refine compose [] trim (trim.separated.literal x)
    (composes_fresh adds ?_ ?_ (by simp) (by simp) (reachable_of_mem_edges edge) ?_)
  · simp
  · intro s
    split
    · exact .inl ⟨x, _, rfl⟩
    · exact uniform_nil
  · intro s e new
    split at new
    · rw [List.mem_singleton.mp new]
      exact Nat.succ_ne_self _
    · cases new

theorem union {rest : List (Fragment × Regex α)} (trim : a.Trim ((f, r) :: (g, q) :: rest)) :
    ∃ b, a.union? f g = some (a.fresh, b) ∧ b.Trim ((a.fresh, .union r q) :: rest) := by
  have left : a.Sound f r := trim.separated.sound (f, r) (by simp)
  have right : a.Sound g q := trim.separated.sound (g, q) (by simp)
  obtain ⟨b, made, separated⟩ := trim.separated.union
  obtain ⟨b', same, adds⟩ := union?_adds trim.separated.composable
  obtain rfl : b' = b := by simpa [made] using same.symm
  have notFirst : ∀ h ∈ [f, g], h.stop ≠ a.size := by
    simpa using ⟨Nat.ne_of_lt left.stop_lt, Nat.ne_of_lt right.stop_lt⟩
  have toStarts : ∀ h ∈ [f, g], b'.Reachable a.size h.start := by
    intro h operand
    have edge : ⟨none, h.start⟩ ∈ b'.edges a.size := by
      rcases List.mem_pair.mp operand with rfl | rfl <;> simp [adds.edges]
    exact reachable_of_mem_edges edge
  have fromStops : ∀ h ∈ [f, g], b'.Reachable h.stop (a.size + 1) := by
    intro h operand
    have joined : h.stop = f.stop ∨ h.stop = g.stop :=
      (List.mem_pair.mp operand).imp (congrArg Fragment.stop) (congrArg Fragment.stop)
    have edge : ⟨none, a.size + 1⟩ ∈ b'.edges h.stop := by simp [adds.edges, notFirst h operand, joined]
    exact reachable_of_mem_edges edge
  have across : b'.Reachable a.size (a.size + 1) :=
    ((toStarts f (.head _)).trans (adds.growsTo.reachable left.reaches_stop)).trans (fromStops f (.head _))
  refine ⟨b', made, compose [(f, r), (g, q)] trim separated
    (composes_fresh adds ?_ ?_ toStarts fromStops across ?_)⟩
  · intro s
    by_cases first : s = a.size <;> by_cases ended : s = f.stop ∨ s = g.stop <;> simp [first, ended]
  · intro s
    split
    · exact .of_silent (Nat.le_refl _) (by simp)
    · split
      · exact .of_silent (Nat.le_succ _) (by simp)
      · exact uniform_nil
  · intro s e new
    split at new
    · rcases List.mem_pair.mp new with rfl | rfl
      · exact Nat.ne_of_lt left.start_lt
      · exact Nat.ne_of_lt right.start_lt
    · split at new
      · rw [List.mem_singleton.mp new]
        exact Nat.succ_ne_self _
      · cases new

theorem concat {rest : List (Fragment × Regex α)} (trim : a.Trim ((f, r) :: (g, q) :: rest)) :
    ∃ b, a.concat? f g = some (⟨f.start, g.stop⟩, b) ∧ b.Trim ((⟨f.start, g.stop⟩, .concat r q) :: rest) := by
  have left : a.Sound f r := trim.separated.sound (f, r) (by simp)
  have right : a.Sound g q := trim.separated.sound (g, q) (by simp)
  have apart : a.Apart f g := (List.pairwise_cons.mp trim.separated.apart).1 (g, q) (by simp)
  obtain ⟨b, made, separated⟩ := trim.separated.concat
  obtain ⟨b', same, adds⟩ := concat?_adds trim.separated.composable
  obtain rfl : b' = b := by simpa [made] using same.symm
  have edge : ⟨none, g.start⟩ ∈ b'.edges f.stop := by simp [adds.edges]
  have toSecond : b'.Reachable f.start g.start :=
    (adds.growsTo.reachable left.reaches_stop).trans (reachable_of_mem_edges edge)
  have fromFirst : b'.Reachable f.stop g.stop :=
    (reachable_of_mem_edges edge).trans (adds.growsTo.reachable right.reaches_stop)
  refine ⟨b', made, compose [(f, r), (g, q)] trim separated
    ⟨adds.edges, ?_, ?_, ?_, ?_, ?_, ?_, .inr ⟨f, by simp, rfl⟩, ?_, ?_⟩⟩
  · intro s grown
    split at grown
    · rename_i same
      exact .inr ⟨f, by simp, same⟩
    · exact absurd rfl grown
  · intro s
    split
    · exact .of_silent (Nat.le_succ _) (by simp)
    · exact uniform_nil
  · simpa using ⟨Reachable.refl b' _, toSecond⟩
  · simpa using ⟨fromFirst, Reachable.refl b' _⟩
  · intro s new inside
    rw [adds.size] at inside
    exact absurd inside (Nat.not_lt.mpr new)
  · intro s nothing place
    rcases place with ⟨new, inside⟩ | ⟨h, operand, rfl⟩
    · rw [adds.size] at inside
      exact absurd inside (Nat.not_lt.mpr new)
    · rcases List.mem_pair.mp operand with rfl | rfl
      · simp at nothing
      · rfl
  · intro s e new
    split at new
    · rw [List.mem_singleton.mp new]
      intro same
      exact apart f.start (Reachable.refl a _) (same ▸ Reachable.refl a _)
    · cases new
  · intro same
    exact apart f.start (Reachable.refl a _) (same ▸ right.reaches_stop)

theorem star {rest : List (Fragment × Regex α)} (trim : a.Trim ((f, r) :: rest)) :
    ∃ b, a.star? f = some (a.fresh, b) ∧ b.Trim ((a.fresh, .star r) :: rest) := by
  have sound : a.Sound f r := trim.separated.sound (f, r) (by simp)
  obtain ⟨b, made, separated⟩ := trim.separated.star
  obtain ⟨b', same, adds⟩ := star?_adds sound.opened
  obtain rfl : b' = b := by simpa [made] using same.symm
  have toStart : ⟨none, f.start⟩ ∈ b'.edges a.size := by simp [adds.edges]
  have skip : ⟨none, a.size + 1⟩ ∈ b'.edges a.size := by simp [adds.edges]
  have fromStop : ⟨none, a.size + 1⟩ ∈ b'.edges f.stop := by simp [adds.edges]
  refine ⟨b', made, compose [(f, r)] trim separated (composes_fresh adds ?_ ?_ ?_ ?_ (reachable_of_mem_edges skip) ?_)⟩
  · intro s
    by_cases touched : s = a.size ∨ s = f.stop <;> simp [touched]
  · intro s
    split
    · exact .of_silent (Nat.le_refl _) (by simp)
    · exact uniform_nil
  · exact List.forall_mem_singleton.mpr (reachable_of_mem_edges toStart)
  · exact List.forall_mem_singleton.mpr (reachable_of_mem_edges fromStop)
  · intro s e new
    split at new
    · rcases List.mem_pair.mp new with rfl | rfl
      · exact Nat.ne_of_lt sound.start_lt
      · exact Nat.succ_ne_self _
    · cases new

end Trim

end RegexAutomaton.Arena
