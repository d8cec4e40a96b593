import RegexAutomaton.Proofs.Extension
import RegexAutomaton.Regex.Language

/-!
Fragments that share an arena without touching each other. A fragment is sound for an
expression if it is open and its paths spell the language of the expression; two
fragments are apart if no state can be reached from both. `Separated` says so of all
fragments that are not composed yet. Each composition succeeds on separated fragments
and leaves them separated, with the composed fragment in the place of its operands.
-/
namespace RegexAutomaton

theorem Regex.exists_mem_language {α : Type} (r : Regex α) : ∃ word, word ∈ r.language := by
  induction r with
  | symbol x => exact ⟨[x], rfl⟩
  | union left right ihLeft _ =>
    obtain ⟨word, member⟩ := ihLeft
    exact ⟨word, .inl member⟩
  | concat left right ihLeft ihRight =>
    obtain ⟨front, first⟩ := ihLeft
    obtain ⟨back, second⟩ := ihRight
    exact ⟨front ++ back, Language.append_mem_mul first second⟩
  | star operand _ => exact ⟨[], Language.nil_mem_kstar _⟩

namespace Arena
variable {α : Type} {a b : Arena α}

/-- The fragment is open, and the paths through it spell the language of the expression. -/
structure Sound (a : Arena α) (f : Fragment) (r : Regex α) : Prop where
  opened : a.isOpen f = true
  spells : ∀ word, a.Path f.start word f.stop ↔ word ∈ r.language

/-- No state can be reached from both fragments. -/
def Apart (a : Arena α) (f g : Fragment) : Prop := ∀ s, a.Reachable f.start s → ¬ a.Reachable g.start s

/-- The state is not one of the arena, or it can be reached from one of the fragments. -/
def Within (a : Arena α) (parts : List (Fragment × Regex α)) (s : StateId) : Prop :=
  a.size ≤ s ∨ ∃ p ∈ parts, a.Reachable p.1.start s

/-- The fragments are sound for their expressions and pairwise apart. -/
structure Separated (a : Arena α) (live : List (Fragment × Regex α)) : Prop where
  closed : a.Closed
  sound : ∀ p ∈ live, a.Sound p.1 p.2
  apart : live.Pairwise fun p q => a.Apart p.1 q.1

theorem Apart.symm {f g : Fragment} (apart : a.Apart f g) : a.Apart g f :=
  fun s second first => apart s first second

namespace Sound
variable {f : Fragment} {r : Regex α}

theorem start_lt (sound : a.Sound f r) : f.start < a.size := ((isOpen_iff a f).mp sound.opened).1

theorem stop_lt (sound : a.Sound f r) : f.stop < a.size := ((isOpen_iff a f).mp sound.opened).2.1

theorem edges_stop (sound : a.Sound f r) : a.edges f.stop = [] := ((isOpen_iff a f).mp sound.opened).2.2

theorem reaches_stop (sound : a.Sound f r) : a.Reachable f.start f.stop := by
  obtain ⟨word, member⟩ := r.exists_mem_language
  exact ⟨word, (sound.spells word).mpr member⟩

theorem stop_ne {g : Fragment} {q : Regex α} (sound : a.Sound f r) (other : a.Sound g q) (apart : a.Apart f g) :
    f.stop ≠ g.stop := by
  intro same
  exact apart f.stop sound.reaches_stop (same ▸ other.reaches_stop)

end Sound

theorem separated_empty : Separated ({} : Arena α) [] where
  closed := by
    intro s e edge
    rw [edges_of_size_le (Nat.zero_le s)] at edge
    cases edge
  sound := by simp
  apart := .nil

theorem within_of_reachable {count : Nat} {added : StateId → List (Edge α)} {parts : List (Fragment × Regex α)}
    {s t : StateId} (adds : Adds a b count added) (leads : ∀ u, ∀ e ∈ added u, a.Within parts e.target)
    (start : a.Within parts s) (reach : b.Reachable s t) : a.Within parts t := by
  refine reach.mem (a.Within parts) start ?_
  intro u inside e edge
  rw [adds.edges, List.mem_append] at edge
  rcases edge with old | new
  · rcases inside with outside | ⟨p, member, before⟩
    · rw [edges_of_size_le outside] at old
      cases old
    · exact .inr ⟨p, member, before.trans (reachable_of_mem_edges old)⟩
  · exact leads u e new

namespace Separated

theorem perm {live other : List (Fragment × Regex α)} (separated : a.Separated live) (same : live.Perm other) :
    a.Separated other where
  closed := separated.closed
  sound := fun p member => separated.sound p (same.mem_iff.mpr member)
  apart := (same.pairwise_iff fun apart => apart.symm).mp separated.apart

theorem nodup {live : List (Fragment × Regex α)} (separated : a.Separated live) : (live.map Prod.fst).Nodup := by
  refine List.pairwise_map.mpr (separated.apart.imp ?_)
  intro p q apart same
  exact apart p.1.start (Reachable.refl a _) (same ▸ Reachable.refl a _)

/-- The states that were reachable from a fragment keep their edges as long as only the ends
    of fragments that it is apart from get new ones. -/
theorem same_edges {count : Nat} {added : StateId → List (Edge α)} {operands : List (Fragment × Regex α)}
    {g : Fragment} (adds : Adds a b count added) (closed : a.Closed) (inside : g.start < a.size)
    (sound : ∀ p ∈ operands, a.Sound p.1 p.2) (apart : ∀ p ∈ operands, a.Apart p.1 g)
    (only : ∀ s, a.size > s → (∀ p ∈ operands, s ≠ p.1.stop) → added s = []) :
    ∀ s, a.Reachable g.start s → b.edges s = a.edges s := by
  intro s reach
  have untouched : added s = [] := by
    refine only s (reach.lt_size closed inside) ?_
    rintro p member rfl
    exact apart p member _ (sound p member).reaches_stop reach
  rw [adds.edges, untouched, List.append_nil]

/-- What a composition has to show: it adds edges at the ends of its operands and at new
    states only, they lead to new states and to states of its operands, and what it makes
    is sound. -/
theorem compose {count : Nat} {added : StateId → List (Edge α)} (operands : List (Fragment × Regex α))
    {rest : List (Fragment × Regex α)} {h : Fragment} {r : Regex α} (separated : a.Separated (operands ++ rest))
    (adds : Adds a b count added)
    (only : ∀ s, a.size > s → (∀ p ∈ operands, s ≠ p.1.stop) → added s = [])
    (leads : ∀ s, ∀ e ∈ added s, e.target < a.size + count ∧ a.Within operands e.target)
    (start : a.Within operands h.start) (made : b.Sound h r) : b.Separated ((h, r) :: rest) := by
  obtain ⟨-, restApart, across⟩ := List.pairwise_append.mp separated.apart
  have operandSound : ∀ p ∈ operands, a.Sound p.1 p.2 :=
    fun p member => separated.sound p (List.mem_append_left _ member)
  have restSound : ∀ q ∈ rest, a.Sound q.1 q.2 :=
    fun q member => separated.sound q (List.mem_append_right _ member)
  have same : ∀ q ∈ rest, ∀ s, a.Reachable q.1.start s → b.edges s = a.edges s := by
    intro q member
    exact same_edges adds separated.closed (restSound q member).start_lt operandSound
      (fun p operand => across p operand q member) only
  have reach : ∀ q ∈ rest, ∀ s, b.Reachable q.1.start s ↔ a.Reachable q.1.start s :=
    fun q member s => reachable_iff_of_same (same q member)
  refine ⟨adds.closed separated.closed fun s e new => (leads s e new).1, ?_, List.pairwise_cons.mpr ⟨?_, ?_⟩⟩
  · intro q member
    rcases List.mem_cons.mp member with rfl | member
    · exact made
    · have before := restSound q member
      refine ⟨(isOpen_iff b q.1).mpr ⟨?_, ?_, ?_⟩, ?_⟩
      · rw [adds.size]
        exact Nat.lt_add_right count before.start_lt
      · rw [adds.size]
        exact Nat.lt_add_right count before.stop_lt
      · rw [same q member _ before.reaches_stop, before.edges_stop]
      · intro word
        rw [path_iff_of_same (same q member), before.spells]
  · intro q member s fromMade fromOther
    rw [reach q member] at fromOther
    rcases within_of_reachable adds (fun s e new => (leads s e new).2) start fromMade with new | ⟨p, operand, old⟩
    · exact Nat.not_le.mpr (fromOther.lt_size separated.closed (restSound q member).start_lt) new
    · exact across p operand q member s old fromOther
  · refine restApart.imp_of_mem ?_
    intro p q first second apart s fromFirst fromSecond
    exact apart s ((reach p first s).mp fromFirst) ((reach q second s).mp fromSecond)

end Separated

end Arena

end RegexAutomaton
