import RegexAutomaton.Proofs.Separation

/-!
What each composition makes of separated fragments: it succeeds, the new fragment spells
the language of the composed expression, and the fragments stay separated
(`Separated.literal`, `Separated.union`, `Separated.concat`, `Separated.star`). The paths
of an operand end in a state without edges, so a path through the new fragment leaves an
operand only by the edges that the composition added there.
-/
namespace RegexAutomaton.Arena
open scoped Computability
variable {α : Type} {a b : Arena α} {f g : Fragment} {r q : Regex α}

theorem Adds.edges_of_size_le {count : Nat} {added : StateId → List (Edge α)} (adds : Adds a b count added)
    {s : StateId} (outside : a.size ≤ s) : b.edges s = added s := by
  rw [adds.edges, Arena.edges_of_size_le outside, List.nil_append]

/-- The paths of `b` from a sound fragment of `a` to a state outside it: a word of the
    fragment, and then a path from a state that its end was joined to. -/
theorem Sound.path_iff {count : Nat} {added : StateId → List (Edge α)} {t : StateId} {word : List α}
    (sound : a.Sound f r) (adds : Adds a b count added) (onward : List StateId)
    (only : ∀ u, a.Reachable f.start u → added u = if u = f.stop then onward.map (⟨none, ·⟩) else [])
    (outside : ¬ a.Reachable f.start t) :
    b.Path f.start word t ↔
      ∃ front ∈ r.language, ∃ back, word = front ++ back ∧ ∃ next ∈ onward, b.Path next back t := by
  constructor
  · intro path
    have same : ∀ u, a.Reachable f.start u →
        b.edges u = a.edges u ++ if u = f.stop then onward.map (⟨none, ·⟩) else [] := by
      intro u reach
      rw [adds.edges, only u reach]
    obtain ⟨front, back, split, toStop, later⟩ := path.leaves same outside
    exact ⟨front, (sound.spells front).mp toStop, back, split, later⟩
  · rintro ⟨front, member, back, rfl, next, joined, later⟩
    have toStop : b.Path f.start front f.stop := ((sound.spells front).mpr member).of_subset adds.subset
    have edge : ⟨none, next⟩ ∈ b.edges f.stop := by
      rw [adds.edges, only _ sound.reaches_stop, if_pos rfl, sound.edges_stop, List.nil_append]
      exact List.mem_map_of_mem joined
    exact toStop.append (.silent edge later)

theorem isOpen_fresh (size : b.size = a.size + 2) (none : b.edges (a.size + 1) = []) : b.isOpen a.fresh = true := by
  refine (isOpen_iff b a.fresh).mpr ⟨?_, ?_, none⟩
  · rw [size]
    exact Nat.lt_add_of_pos_right (by decide)
  · rw [size]
    exact Nat.lt_succ_self _

/-! ## Round and round a fragment -/

section
variable {t : StateId}

/-- Where the end of a fragment leads back to its start or on to a state without edges, a
    path to that state finishes the fragment and then runs through it any number of times. -/
theorem Sound.rounds_of_path {s : StateId} {word : List α} (sound : a.Sound f r)
    (stopEdges : b.edges f.stop = [⟨none, f.start⟩, ⟨none, t⟩])
    (same : ∀ u, a.Reachable f.start u → u ≠ f.stop → b.edges u = a.edges u) (dead : b.edges t = [])
    (outside : ¬ a.Reachable f.start t) (path : b.Path s word t) (inside : a.Reachable f.start s) :
    ∃ front back, word = front ++ back ∧ a.Path s front f.stop ∧ back ∈ r.language∗ := by
  induction path with
  | refl s => exact absurd inside outside
  | @silent s next t word edge rest ih =>
    by_cases ended : s = f.stop
    · subst ended
      rw [stopEdges] at edge
      rcases List.mem_pair.mp edge with back | onward
      · obtain rfl : next = f.start := congrArg Edge.target back
        obtain ⟨front, back, split, toStop, rounds⟩ := ih stopEdges dead outside (Reachable.refl a _)
        refine ⟨[], word, rfl, .refl _, ?_⟩
        rw [split, ← Language.one_add_self_mul_kstar_eq_kstar]
        exact .inr (Language.append_mem_mul ((sound.spells front).mp toStop) rounds)
      · obtain rfl : next = t := congrArg Edge.target onward
        obtain ⟨-, rfl⟩ := rest.of_no_edges dead
        exact ⟨[], [], rfl, .refl _, Language.nil_mem_kstar _⟩
    · rw [same s inside ended] at edge
      obtain ⟨front, back, split, toStop, rounds⟩ := ih stopEdges dead outside
        (inside.trans (reachable_of_mem_edges edge))
      exact ⟨front, back, split, .silent edge toStop, rounds⟩
  | @read s next t x word edge rest ih =>
    by_cases ended : s = f.stop
    · rw [ended, stopEdges] at edge
      simp at edge
    · rw [same s inside ended] at edge
      obtain ⟨front, back, split, toStop, rounds⟩ := ih stopEdges dead outside
        (inside.trans (reachable_of_mem_edges edge))
      exact ⟨x :: front, back, by rw [split, List.cons_append], .read edge toStop, rounds⟩

theorem Sound.path_of_rounds (sound : a.Sound f r) (stopEdges : b.edges f.stop = [⟨none, f.start⟩, ⟨none, t⟩])
    (more : ∀ u, a.edges u ⊆ b.edges u) (rounds : List (List α)) (members : ∀ word ∈ rounds, word ∈ r.language) :
    b.Path f.stop rounds.flatten t := by
  induction rounds with
  | nil =>
    have onward : ⟨none, t⟩ ∈ b.edges f.stop := by simp [stopEdges]
    exact .silent onward (.refl t)
  | cons word rounds ih =>
    have through : b.Path f.start word f.stop := ((sound.spells word).mpr (members word (by simp))).of_subset more
    have later := ih fun other member => members other (List.mem_cons_of_mem _ member)
    exact .silent (by simp [stopEdges]) (through.append later)

end

namespace Separated
variable {rest : List (Fragment × Regex α)}

theorem literal (separated : a.Separated rest) (x : α) :
    (a.literal x).2.Separated (((a.literal x).1, .symbol x) :: rest) := by
  have adds := adds_literal a x
  have startEdges : (a.literal x).2.edges a.size = [⟨some x, a.size + 1⟩] := by
    rw [adds.edges_of_size_le (Nat.le_refl _), if_pos rfl]
  have stopEdges : (a.literal x).2.edges (a.size + 1) = [] := by
    rw [adds.edges_of_size_le (Nat.le_succ _), if_neg (Nat.succ_ne_self _)]
  refine compose [] separated adds ?_ ?_ (.inl (Nat.le_refl _)) ⟨isOpen_literal a x, ?_⟩
  · intro s old _
    exact if_neg (Nat.ne_of_lt old)
  · intro s e new
    split at new
    · rw [List.mem_singleton.mp new]
      exact ⟨Nat.lt_succ_self _, .inl (Nat.le_succ _)⟩
    · cases new
  · intro word
    change (a.literal x).2.Path a.size word (a.size + 1) ↔ word = [x]
    simp [path_iff_of_ne (Nat.ne_of_lt (Nat.lt_succ_self a.size)), startEdges, path_self_iff stopEdges]

theorem composable (separated : a.Separated ((f, r) :: (g, q) :: rest)) : a.composable f g = true := by
  have left : a.Sound f r := separated.sound (f, r) (by simp)
  have right : a.Sound g q := separated.sound (g, q) (by simp)
  have apart : a.Apart f g := (List.pairwise_cons.mp separated.apart).1 (g, q) (by simp)
  exact (composable_iff a f g).mpr ⟨left.opened, right.opened, left.stop_ne right apart⟩

theorem union (separated : a.Separated ((f, r) :: (g, q) :: rest)) :
    ∃ b, a.union? f g = some (a.fresh, b) ∧ b.Separated ((a.fresh, .union r q) :: rest) := by
  have left : a.Sound f r := separated.sound (f, r) (by simp)
  have right : a.Sound g q := separated.sound (g, q) (by simp)
  have apart : a.Apart f g := (List.pairwise_cons.mp separated.apart).1 (g, q) (by simp)
  obtain ⟨b, made, adds⟩ := union?_adds separated.composable
  have startEdges : b.edges a.size = [⟨none, f.start⟩, ⟨none, g.start⟩] := by
    rw [adds.edges_of_size_le (Nat.le_refl _), if_pos rfl]
  have stopEdges : b.edges (a.size + 1) = [] := by
    have notLeft : a.size + 1 ≠ f.stop := Nat.ne_of_gt (Nat.lt_succ_of_lt left.stop_lt)
    have notRight : a.size + 1 ≠ g.stop := Nat.ne_of_gt (Nat.lt_succ_of_lt right.stop_lt)
    rw [adds.edges_of_size_le (Nat.le_succ _)]
    simp [notLeft, notRight]
  -- Both operands are left in the same way: from their ends to the new end.
  have through : ∀ h s, a.Sound h s → (∀ u, a.Reachable h.start u → (u = f.stop ∨ u = g.stop ↔ u = h.stop)) →
      ∀ word, b.Path h.start word (a.size + 1) ↔ word ∈ s.language := by
    intro h s sound ends word
    rw [sound.path_iff adds [a.size + 1] ?_ ?_]
    · simp [path_self_iff stopEdges]
    · intro u reach
      have old : u ≠ a.size := Nat.ne_of_lt (reach.lt_size separated.closed sound.start_lt)
      simp [old, ends u reach]
    · intro reach
      exact Nat.not_succ_le_self _ (Nat.le_of_lt (reach.lt_size separated.closed sound.start_lt))
  have leftPaths := through f r left fun u reach =>
    or_iff_left fun same => apart u reach (same ▸ right.reaches_stop)
  have rightPaths := through g q right fun u reach =>
    or_iff_right fun same => apart u (same ▸ left.reaches_stop) reach
  refine ⟨b, made, compose [(f, r), (g, q)] separated adds ?_ ?_ (.inl (Nat.le_refl _)) ⟨?_, ?_⟩⟩
  · intro s old untouched
    have notLeft : s ≠ f.stop := untouched (f, r) (by simp)
    have notRight : s ≠ g.stop := untouched (g, q) (by simp)
    simp [Nat.ne_of_lt old, notLeft, notRight]
  · intro s e new
    split at new
    · rcases (List.mem_pair.mp new) with rfl | rfl
      · exact ⟨Nat.lt_add_right 2 left.start_lt, .inr ⟨(f, r), by simp, Reachable.refl a _⟩⟩
      · exact ⟨Nat.lt_add_right 2 right.start_lt, .inr ⟨(g, q), by simp, Reachable.refl a _⟩⟩
    · split at new
      · rw [List.mem_singleton.mp new]
        exact ⟨Nat.lt_succ_self _, .inl (Nat.le_succ _)⟩
      · cases new
  · exact isOpen_fresh adds.size stopEdges
  · intro word
    change b.Path a.size word (a.size + 1) ↔ word ∈ r.language + q.language
    rw [path_iff_of_ne (Nat.ne_of_lt (Nat.lt_succ_self a.size)), startEdges, Language.mem_add,
      ← leftPaths, ← rightPaths]
    simp

theorem concat (separated : a.Separated ((f, r) :: (g, q) :: rest)) :
    ∃ b, a.concat? f g = some (⟨f.start, g.stop⟩, b) ∧
      b.Separated ((⟨f.start, g.stop⟩, .concat r q) :: rest) := by
  have left : a.Sound f r := separated.sound (f, r) (by simp)
  have right : a.Sound g q := separated.sound (g, q) (by simp)
  have apart : a.Apart f g := (List.pairwise_cons.mp separated.apart).1 (g, q) (by simp)
  obtain ⟨b, made, adds⟩ := concat?_adds separated.composable
  have same : ∀ u, a.Reachable g.start u → b.edges u = a.edges u := by
    intro u reach
    have notLeft : u ≠ f.stop := fun same => apart u (same ▸ left.reaches_stop) reach
    rw [adds.edges, if_neg notLeft, List.append_nil]
  refine ⟨b, made, compose [(f, r), (g, q)] separated adds ?_ ?_
    (.inr ⟨(f, r), by simp, Reachable.refl a _⟩) ⟨(isOpen_iff b _).mpr ⟨?_, ?_, ?_⟩, ?_⟩⟩
  · intro s _ untouched
    exact if_neg (untouched (f, r) (by simp))
  · intro s e new
    split at new
    · rw [List.mem_singleton.mp new]
      exact ⟨right.start_lt, .inr ⟨(g, q), by simp, Reachable.refl a _⟩⟩
    · cases new
  · rw [adds.size]
    exact left.start_lt
  · rw [adds.size]
    exact right.stop_lt
  · rw [same _ right.reaches_stop, right.edges_stop]
  · intro word
    change b.Path f.start word g.stop ↔ word ∈ r.language * q.language
    rw [left.path_iff adds [g.start] ?_ ?_, Language.mem_mul]
    · simp only [List.mem_singleton, exists_eq_left, path_iff_of_same same, right.spells]
      constructor
      · rintro ⟨front, first, back, rfl, second⟩
        exact ⟨front, first, back, second, rfl⟩
      · rintro ⟨front, first, back, second, rfl⟩
        exact ⟨front, first, back, rfl, second⟩
    · intro u _
      rfl
    · intro reach
      exact apart _ reach right.reaches_stop

theorem star (separated : a.Separated ((f, r) :: rest)) :
    ∃ b, a.star? f = some (a.fresh, b) ∧ b.Separated ((a.fresh, .star r) :: rest) := by
  have sound : a.Sound f r := separated.sound (f, r) (by simp)
  obtain ⟨b, made, adds⟩ := star?_adds sound.opened
  have startEdges : b.edges a.size = [⟨none, f.start⟩, ⟨none, a.size + 1⟩] := by
    rw [adds.edges_of_size_le (Nat.le_refl _), if_pos (.inl rfl)]
  have endEdges : b.edges f.stop = [⟨none, f.start⟩, ⟨none, a.size + 1⟩] := by
    rw [adds.edges, if_pos (.inr rfl), sound.edges_stop, List.nil_append]
  have past : a.size + 1 ≠ f.stop := Nat.ne_of_gt (Nat.lt_succ_of_lt sound.stop_lt)
  have stopEdges : b.edges (a.size + 1) = [] := by
    rw [adds.edges_of_size_le (Nat.le_succ _)]
    simp [past]
  have outside : ∀ u, a.size ≤ u → ¬ a.Reachable f.start u := fun u new reach =>
    Nat.not_lt.mpr new (reach.lt_size separated.closed sound.start_lt)
  have same : ∀ u, a.Reachable f.start u → u ≠ f.stop → b.edges u = a.edges u := by
    intro u reach notStop
    have old : u ≠ a.size := fun new => outside u (Nat.le_of_eq new.symm) reach
    rw [adds.edges, if_neg (by simp [old, notStop]), List.append_nil]
  have rounds : ∀ word, b.Path f.stop word (a.size + 1) ↔ word ∈ r.language∗ := by
    intro word
    constructor
    · intro path
      obtain ⟨front, back, rfl, toStop, member⟩ :=
        sound.rounds_of_path endEdges same stopEdges (outside _ (Nat.le_succ _)) path sound.reaches_stop
      obtain ⟨-, rfl⟩ := toStop.of_no_edges sound.edges_stop
      exact member
    · intro member
      obtain ⟨words, rfl, members⟩ := Language.mem_kstar.mp member
      exact sound.path_of_rounds endEdges adds.subset words members
  refine ⟨b, made, compose [(f, r)] separated adds ?_ ?_ (.inl (Nat.le_refl _))
    ⟨isOpen_fresh adds.size stopEdges, ?_⟩⟩
  · intro s old untouched
    have notStop : s ≠ f.stop := untouched (f, r) (by simp)
    simp [Nat.ne_of_lt old, notStop]
  · intro s e new
    split at new
    · rcases List.mem_pair.mp new with rfl | rfl
      · exact ⟨Nat.lt_add_right 2 sound.start_lt, .inr ⟨(f, r), by simp, Reachable.refl a _⟩⟩
      · exact ⟨Nat.lt_succ_self _, .inl (Nat.le_succ _)⟩
    · cases new
  · intro word
    change b.Path a.size word (a.size + 1) ↔ word ∈ r.language∗
    -- The new start has the same edges as the old end.
    rw [← rounds, path_iff_of_ne (Nat.ne_of_lt (Nat.lt_succ_self a.size)), path_iff_of_ne past.symm, startEdges,
      endEdges]

end Separated

end RegexAutomaton.Arena
