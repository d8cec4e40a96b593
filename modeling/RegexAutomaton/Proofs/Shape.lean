import RegexAutomaton.Proofs.Acceptance
import RegexAutomaton.Proofs.Counting
import RegexAutomaton.Proofs.Labelling
import RegexAutomaton.Proofs.Trim

/-!
The shape of assembled automata. The arena stays trim for the fragments on the stack, so an
automaton that is assembled has no useless state and ends in one state only
(`Automaton.Trim`); how many states and edges it has can be counted on the tokens
(`trim_of_assemble`). No more than two states come from one character of an expression.
-/
namespace RegexAutomaton

/-- All states are of use, the accepting one is the only end, nothing leads back to the start,
    and every state either reads a symbol on its one edge or reads nothing on one or two. -/
structure Automaton.Trim {α : Type} (m : Automaton α) : Prop where
  start_lt : m.start < m.size
  accepting_lt : m.accepting < m.size
  closed : ∀ s, ∀ e ∈ m.edges s, e.target < m.size
  reached : ∀ s < m.size, m.Reachable m.start s
  productive : ∀ s < m.size, m.Reachable s m.accepting
  ending : ∀ s < m.size, m.edges s = [] ↔ s = m.accepting
  proper : m.start ≠ m.accepting
  entrance : ∀ s, ∀ e ∈ m.edges s, e.target ≠ m.start
  uniform : ∀ s < m.size, s ≠ m.accepting →
    (∃ x t, m.edges s = [⟨some x, t⟩]) ∨
      ((m.edges s).length = 1 ∨ (m.edges s).length = 2) ∧ ∀ e ∈ m.edges s, e.symbol = none

/-- A trim arena with one fragment is a trim automaton. -/
theorem Arena.Trim.finish {α : Type} {a : Arena α} {f : Fragment} {r : Regex α} (trim : a.Trim [(f, r)]) :
    (a.finish f).Trim := by
  have sound : a.Sound f r := trim.separated.sound (f, r) (by simp)
  have covered : ∀ s < a.size, a.Reachable f.start s ∧ a.Reachable s f.stop := by
    simpa using trim.covered
  have ending : ∀ s < a.size, a.edges s = [] ↔ s = f.stop := by
    intro s inside
    constructor
    · simpa using trim.ending s inside
    · rintro rfl
      exact sound.edges_stop
  refine ⟨sound.start_lt, sound.stop_lt, trim.separated.closed, fun s inside => (covered s inside).1,
    fun s inside => (covered s inside).2, ending, trim.proper (f, r) (by simp),
    fun s e edge => trim.entrance s e edge (f, r) (by simp), ?_⟩
  intro s inside inner
  refine (trim.uniform s).imp id fun ⟨few, silent⟩ => ⟨?_, silent⟩
  have some : (a.edges s).length ≠ 0 := fun none => inner ((ending s inside).mp (List.length_eq_zero_iff.mp none))
  change (a.edges s).length = 1 ∨ (a.edges s).length = 2
  omega

/-- A list that has one member only, and only once. -/
theorem eq_singleton_of_nodup {β : Type} {l : List β} {x : β} (once : l.Nodup) (members : ∀ y, y ∈ l ↔ y = x) :
    l = [x] := by
  have perm := (List.perm_ext_iff_of_nodup once (List.nodup_singleton x)).mpr fun y => by simp [members]
  exact List.perm_singleton.mp perm

namespace Automaton
variable {α : Type} {m : Automaton α}

/-- The states of a trim automaton, in breadth-first order. -/
theorem Trim.mem_order_iff (trim : m.Trim) {s : StateId} : s ∈ m.order ↔ s < m.size := by
  rw [order, Arena.mem_bfs_iff]
  exact ⟨And.left, fun inside => ⟨inside, trim.reached s inside⟩⟩

theorem Trim.length_order (trim : m.Trim) : m.order.length = m.size := by
  have perm : m.order.Perm (List.range m.size) := by
    rw [List.perm_ext_iff_of_nodup m.nodup_order List.nodup_range]
    intro s
    rw [trim.mem_order_iff, List.mem_range]
  rw [perm.length_eq, List.length_range]

theorem Trim.acceptingStates (trim : m.Trim) : m.acceptingStates = [m.accepting] := by
  refine eq_singleton_of_nodup (m.nodup_order.filter _) fun s => ?_
  simp only [Automaton.acceptingStates, List.mem_filter, trim.mem_order_iff, Arena.isAccepting, Bool.and_eq_true,
    decide_eq_true_eq, List.isEmpty_iff]
  constructor
  · rintro ⟨inside, -, ended⟩
    exact (trim.ending s inside).mp ended
  · rintro rfl
    exact ⟨trim.accepting_lt, trim.accepting_lt, (trim.ending _ trim.accepting_lt).mpr rfl⟩

end Automaton

/-! ## Assembled automata -/

namespace Assembly

/-- The arena is trim for the fragments on the stack. -/
def IsTrim (a : Assembly) : Prop :=
  ∃ live : List (Fragment × Regex Char), a.stack = live.map Prod.fst ∧ a.arena.Trim live

theorem IsTrim.take {a b : Assembly} {t : Token} (trim : a.IsTrim) (taken : a.take t = .ok b) : b.IsTrim := by
  obtain ⟨live, fragments, trim⟩ := trim
  rcases take_cases taken with ⟨-, rfl⟩ | ⟨f, g, h, rest, arena, -, shape, made, rfl⟩ |
    ⟨f, g, h, rest, arena, -, shape, made, rfl⟩ | ⟨f, h, rest, arena, -, shape, made, rfl⟩
  · exact ⟨_ :: live, by rw [fragments]; rfl, trim.literal t.char⟩
  · rw [fragments] at shape
    obtain ⟨⟨_, q⟩, _, rfl, rfl, later⟩ := List.map_eq_cons_iff.mp shape
    obtain ⟨⟨_, r⟩, others, rfl, rfl, rfl⟩ := List.map_eq_cons_iff.mp later
    obtain ⟨_, union, trim⟩ := (trim.perm (.swap _ _ others)).union
    cases made.symm.trans union
    exact ⟨_ :: others, rfl, trim⟩
  · rw [fragments] at shape
    obtain ⟨⟨_, q⟩, _, rfl, rfl, later⟩ := List.map_eq_cons_iff.mp shape
    obtain ⟨⟨_, r⟩, others, rfl, rfl, rfl⟩ := List.map_eq_cons_iff.mp later
    obtain ⟨_, concat, trim⟩ := (trim.perm (.swap _ _ others)).concat
    cases made.symm.trans concat
    exact ⟨_ :: others, rfl, trim⟩
  · rw [fragments] at shape
    obtain ⟨⟨_, r⟩, others, rfl, rfl, rfl⟩ := List.map_eq_cons_iff.mp shape
    obtain ⟨_, star, trim⟩ := trim.star
    cases made.symm.trans star
    exact ⟨_ :: others, rfl, trim⟩

theorem isTrim_of_takeAll {tokens : List Token} {b : Assembly} (taken : ({} : Assembly).takeAll tokens = .ok b) :
    b.IsTrim :=
  invariant_of_takeAll (P := fun _ a => a.IsTrim) ⟨[], rfl, Arena.trim_empty⟩ (fun trim taken => trim.take taken) taken

end Assembly

open Token (number)

theorem exists_finish_of_assemble {tokens : List Token} {m : Automaton Char} (built : assemble tokens = .ok m) :
    ∃ b f, ({} : Assembly).takeAll tokens = .ok b ∧ b.stack = [f] ∧ m = b.arena.finish f := by
  cases taken : ({} : Assembly).takeAll tokens with
  | error fault => simp [assemble, taken, Except.bind] at built
  | ok b =>
    simp only [assemble, taken, Except.bind, Assembly.finish] at built
    split at built
    · cases built
    · rename_i f alone
      cases built
      exact ⟨b, f, rfl, alone, rfl⟩
    · cases built

theorem trim_of_assemble {tokens : List Token} {m : Automaton Char} (built : assemble tokens = .ok m) : m.Trim := by
  obtain ⟨b, f, taken, alone, rfl⟩ := exists_finish_of_assemble built
  obtain ⟨live, fragments, trim⟩ := Assembly.isTrim_of_takeAll taken
  obtain ⟨⟨f, r⟩, rfl, rfl⟩ := List.map_eq_singleton_iff.mp (fragments.symm.trans alone)
  exact trim.finish

/-- What the tokens of an assembled automaton tell about its size. -/
theorem sized_of_assemble {tokens : List Token} {m : Automaton Char} (built : assemble tokens = .ok m) :
    m.size = 2 * (number .literal tokens + number .union tokens + number .closure tokens) ∧
      m.reading = number .literal tokens ∧
      m.silent = 4 * number .union tokens + number .concat tokens + 4 * number .closure tokens ∧
      number .literal tokens = number .union tokens + number .concat tokens + 1 := by
  obtain ⟨b, f, taken, alone, rfl⟩ := exists_finish_of_assemble built
  obtain ⟨states, reading, silent, height⟩ := Assembly.sized_of_takeAll taken
  refine ⟨states, reading, silent, ?_⟩
  rw [alone, List.length_singleton] at height
  omega

theorem Token.number_le_length (tokens : List Token) :
    number .literal tokens + number .union tokens + number .closure tokens ≤ tokens.length := by
  induction tokens with
  | nil => exact Nat.le_refl _
  | cons t rest ih =>
    unfold number at ih ⊢
    cases kind : t.kind <;> simp [kind] <;> omega

/-- The tokens that states come from are among the characters of the expression. -/
theorem Dialect.size_le_of_compile {d : Dialect} {expression : String} {c : Compiled}
    (compiled : d.compile expression = .ok c) : c.automaton.size ≤ 2 * expression.length := by
  obtain ⟨tokens, order, m, read, arranged, built, rfl⟩ := compile_eq_ok_iff.mp compiled
  obtain ⟨-, rfl⟩ := readImplicit_eq_ok_iff.mp read
  have perm := Postorder.perm_of_ofExplicit arranged
  have kept : ∀ kind, (∀ t : Token, t.kind = kind → t.delimits = false) → kind ≠ .concat →
      number kind order = number kind (Dialect.read d.kindOf expression) := by
    intro kind inner written
    have unwritten := d.filter_makeExplicit (p := (·.kind = kind)) (by simp [concat, written.symm])
      (Dialect.read d.kindOf expression)
    rw [number, Token.countP_kept perm (by simpa using inner), List.countP_eq_length_filter, unwritten,
      ← List.countP_eq_length_filter, number]
  obtain ⟨states, -⟩ := sized_of_assemble built
  have few := Token.number_le_length (Dialect.read d.kindOf expression)
  rw [length_read, String.length_toList] at few
  rw [Automaton.size_relabel, states, kept .literal (by simp +contextual [Token.delimits]) (by decide),
    kept .union (by simp +contextual [Token.delimits]) (by decide),
    kept .closure (by simp +contextual [Token.delimits]) (by decide)]
  exact Nat.mul_le_mul_left 2 few

/-- An assembled automaton is trim, ends in its accepting state alone, and has two states for each
    literal, union and closure, one edge for each literal and concatenation, and four for each
    union and closure; so an expression of some length has at most twice as many states. -/
theorem shape_of_assemble :
    (∀ tokens m, assemble tokens = .ok m →
      m.size = 2 * (number .literal tokens + number .union tokens + number .closure tokens) ∧
        m.allEdges.length =
          number .literal tokens + 4 * number .union tokens + number .concat tokens + 4 * number .closure tokens ∧
        m.Trim ∧ m.acceptingStates = [m.accepting]) ∧
      ∀ (d : Dialect) expression c, d.compile expression = .ok c → c.automaton.size ≤ 2 * expression.length := by
  refine ⟨?_, fun d expression c compiled => Dialect.size_le_of_compile compiled⟩
  intro tokens m built
  obtain ⟨states, reading, silent, -⟩ := sized_of_assemble built
  have trim := trim_of_assemble built
  refine ⟨states, ?_, trim, trim.acceptingStates⟩
  rw [Arena.length_allEdges, reading, silent]
  omega

theorem shape_of_assemble_nested :
    (∃ m, assemble (({} : Dialect).readExplicit "aab+*?b?") = .ok m ∧ m.size = 12 ∧ m.allEdges.length = 14 ∧ m.Trim ∧
        m.acceptingStates = [m.accepting]) ∧
      ∃ c, ({} : Dialect).compile "a(a+b)*b" = .ok c ∧ c.automaton.size ≤ 16 := by
  obtain ⟨shape, bound⟩ := shape_of_assemble
  refine ⟨⟨_, rfl, ?_⟩, _, rfl, bound {} "a(a+b)*b" _ rfl⟩
  exact shape (({} : Dialect).readExplicit "aab+*?b?") _ rfl

end RegexAutomaton
