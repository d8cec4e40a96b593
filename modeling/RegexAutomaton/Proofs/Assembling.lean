import RegexAutomaton.Assembly
import RegexAutomaton.Proofs.Alternation
import RegexAutomaton.Proofs.Composition

/-!
What an assembly builds. Beside the stack of fragments runs a stack of regular expressions
(`Token.compose`), and the assembly stays `Faithful` to it: the fragments are separated, and
each is sound for the expression in its place. So an operator never finds a fragment that is
part of another one, and the assembly stops only where an operator takes more operands than
there are. The postorder of a tree adds one expression to the stack, that of the tree.
-/
namespace RegexAutomaton

namespace Token

/-- What a token makes of the expressions before it, the latest first; nothing if it takes
    more of them than there are. -/
def compose (stack : List (Regex Char)) (t : Token) : Option (List (Regex Char)) :=
  match t.kind, stack with
  | .literal, stack => some (.symbol t.char :: stack)
  | .union, right :: left :: rest => some (.union left right :: rest)
  | .concat, right :: left :: rest => some (.concat left right :: rest)
  | .closure, operand :: rest => some (.star operand :: rest)
  | _, _ => none

/-- What the tokens make of the expressions before them. -/
def composeAll (stack : List (Regex Char)) (tokens : List Token) : Option (List (Regex Char)) :=
  tokens.foldlM compose stack

theorem composeAll_append (stack : List (Regex Char)) (front back : List Token) :
    composeAll stack (front ++ back) = (composeAll stack front).bind (composeAll · back) := by
  simp [composeAll, List.foldlM_append, bind]

theorem composeAll_singleton (stack : List (Regex Char)) (t : Token) : composeAll stack [t] = compose stack t := by
  simp [composeAll]

theorem composeAll_cons {stack next : List (Regex Char)} {t : Token} (composed : compose stack t = some next)
    (rest : List Token) : composeAll stack (t :: rest) = composeAll next rest := by
  simp [composeAll, composed]

/-! ## The height of the stack -/

theorem compose_eq_none_iff {t : Token} (inner : t.delimits = false) (stack : List (Regex Char)) :
    compose stack t = none ↔ stack.length < t.kind.arity := by
  obtain ⟨kind, char, index⟩ := t
  cases kind <;> rcases stack with _ | ⟨right, _ | ⟨left, rest⟩⟩ <;>
    simp [compose, Kind.arity, delimits] at inner ⊢

theorem length_of_compose {stack made : List (Regex Char)} {t : Token} (composed : compose stack t = some made) :
    made.length + t.kind.arity = stack.length + 1 := by
  obtain ⟨kind, char, index⟩ := t
  cases kind <;> rcases stack with _ | ⟨right, _ | ⟨left, rest⟩⟩ <;>
    simp [compose, Kind.arity] at composed ⊢ <;> simp [← composed]

theorem compose_ne_nil {stack made : List (Regex Char)} {t : Token} (composed : compose stack t = some made) :
    made ≠ [] := by
  rintro rfl
  obtain ⟨kind, char, index⟩ := t
  cases kind <;> rcases stack with _ | ⟨right, _ | ⟨left, rest⟩⟩ <;> simp [compose] at composed

/-- Literals raise the stack by one, operators with two operands lower it by one. -/
theorem balance_of_composeAll {tokens : List Token} {stack made : List (Regex Char)}
    (composed : composeAll stack tokens = some made) :
    made.length + joints tokens = stack.length + literals tokens := by
  induction tokens generalizing stack with
  | nil =>
    obtain rfl : stack = made := Option.some.inj composed
    rfl
  | cons t rest ih =>
    cases first : compose stack t with
    | none => simp [composeAll, first] at composed
    | some next =>
      rw [composeAll_cons first] at composed
      have later := ih composed
      have height := length_of_compose first
      have weight : t.kind.arity + (decide (t.kind = .literal)).toNat = 1 + (decide (t.kind.arity = 2)).toNat := by
        obtain ⟨kind, char, index⟩ := t
        cases kind <;> first | rfl | simp [compose] at first
      rw [literals_cons, joints_cons]
      omega

theorem composeAll_ne_nil {tokens : List Token} {stack made : List (Regex Char)}
    (composed : composeAll stack tokens = some made) (start : tokens ≠ [] ∨ stack ≠ []) : made ≠ [] := by
  induction tokens generalizing stack with
  | nil =>
    cases Option.some.inj composed
    exact start.resolve_left fun absent => absent rfl
  | cons t rest ih =>
    cases first : compose stack t with
    | none => simp [composeAll, first] at composed
    | some next =>
      rw [composeAll_cons first] at composed
      exact ih composed (.inr (compose_ne_nil first))

/-- The postorder of a tree adds the expression of the tree to the stack. -/
theorem composeAll_postorder {level : Tree.Level} {tokens : List Token} {tree : Tree}
    (reads : Tree.Reads true level tokens tree) (stack : List (Regex Char)) :
    composeAll stack tree.postorder = some (tree.regex :: stack) := by
  induction reads generalizing stack with
  | literal kind =>
    rw [Tree.postorder, composeAll_singleton]
    simp [compose, kind, Tree.regex]
  | group _ _ _ inner => exact inner stack
  | atom _ inner => exact inner stack
  | star kind _ operand =>
    rw [Tree.postorder, composeAll_append, operand, Option.bind_some, composeAll_singleton]
    simp [compose, kind, Tree.regex]
  | power _ inner => exact inner stack
  | @concat operator _ _ _ _ joint _ _ first second =>
    cases operator with
    | none => cases joint
    | some operator =>
      rw [Tree.postorder, composeAll_append, composeAll_append, first, Option.bind_some, second, Option.bind_some,
        Option.toList_some, composeAll_singleton]
      simp [compose, joint.2, Tree.regex]
  | product _ inner => exact inner stack
  | union kind _ _ first second =>
    rw [Tree.postorder, composeAll_append, composeAll_append, first, Option.bind_some, second, Option.bind_some,
      composeAll_singleton]
    simp [compose, kind, Tree.regex]

end Token

namespace Assembly
open Token (compose composeAll)

/-- The fragments on the stack are separated, and each is sound for the expression in its
    place. -/
def Faithful (a : Assembly) (stack : List (Regex Char)) : Prop :=
  ∃ live : List (Fragment × Regex Char),
    a.stack = live.map Prod.fst ∧ stack = live.map Prod.snd ∧ a.arena.Separated live

variable {a : Assembly} {stack made : List (Regex Char)}

theorem faithful_empty : ({} : Assembly).Faithful [] := ⟨[], rfl, rfl, Arena.separated_empty⟩

theorem Faithful.length (faithful : a.Faithful stack) : a.stack.length = stack.length := by
  obtain ⟨live, fragments, rfl, -⟩ := faithful
  rw [fragments, List.length_map, List.length_map]

/-- A token that finds its operands does to the fragments what it does to the expressions. -/
theorem take_of_compose {t : Token} (faithful : a.Faithful stack) (composed : compose stack t = some made) :
    ∃ b, a.take t = .ok b ∧ b.Faithful made := by
  obtain ⟨arena, fragments⟩ := a
  obtain ⟨live, shape, rfl, separated⟩ := faithful
  obtain rfl : fragments = live.map Prod.fst := shape
  cases kind : t.kind with
  | literal =>
    simp only [compose, kind, Option.some.injEq] at composed
    subst composed
    refine ⟨⟨(arena.literal t.char).2, (arena.literal t.char).1 :: live.map Prod.fst⟩, ?_, ?_⟩
    · simp only [take, kind, place]
    · exact ⟨_ :: live, rfl, rfl, separated.literal t.char⟩
  | union =>
    match live, separated with
    | [], _ => simp [compose, kind] at composed
    | [_], _ => simp [compose, kind] at composed
    | (g, q) :: (f, r) :: rest, separated =>
      simp only [compose, kind, List.map_cons, Option.some.injEq] at composed
      subst composed
      obtain ⟨b, union, separated⟩ := (separated.perm (.swap _ _ rest)).union
      refine ⟨⟨b, arena.fresh :: rest.map Prod.fst⟩, ?_, _ :: rest, rfl, rfl, separated⟩
      simp only [take, kind, List.map_cons, union, place]
  | concat =>
    match live, separated with
    | [], _ => simp [compose, kind] at composed
    | [_], _ => simp [compose, kind] at composed
    | (g, q) :: (f, r) :: rest, separated =>
      simp only [compose, kind, List.map_cons, Option.some.injEq] at composed
      subst composed
      obtain ⟨b, concat, separated⟩ := (separated.perm (.swap _ _ rest)).concat
      refine ⟨⟨b, ⟨f.start, g.stop⟩ :: rest.map Prod.fst⟩, ?_, _ :: rest, rfl, rfl, separated⟩
      simp only [take, kind, List.map_cons, concat, place]
  | closure =>
    match live, separated with
    | [], _ => simp [compose, kind] at composed
    | (f, r) :: rest, separated =>
      simp only [compose, kind, List.map_cons, Option.some.injEq] at composed
      subst composed
      obtain ⟨b, star, separated⟩ := separated.star
      refine ⟨⟨b, arena.fresh :: rest.map Prod.fst⟩, ?_, _ :: rest, rfl, rfl, separated⟩
      simp only [take, kind, List.map_cons, star, place]
  | opening => simp [compose, kind] at composed
  | closing => simp [compose, kind] at composed

/-- An operator that finds too few operands is refused, whatever they are. -/
theorem take_of_short {t : Token} (short : a.stack.length < t.kind.arity) :
    a.take t = .error (.missingOperand t.char t.index t.kind.arity a.stack.length) := by
  obtain ⟨kind, char, index⟩ := t
  obtain ⟨arena, fragments⟩ := a
  rcases fragments with _ | ⟨right, _ | ⟨left, rest⟩⟩
  · have short : 0 < kind.arity := short
    cases kind <;> first | rfl | exact absurd short (by decide)
  · have short : 1 < kind.arity := short
    cases kind <;> first | rfl | exact absurd short (by decide)
  · have few : kind.arity ≤ 2 := by cases kind <;> decide
    have many : rest.length + 1 + 1 < kind.arity := short
    omega

theorem takeAll_cons {b : Assembly} {t : Token} (taken : a.take t = .ok b) (rest : List Token) :
    a.takeAll (t :: rest) = b.takeAll rest := by
  simp [takeAll, taken, bind, Except.bind]

theorem takeAll_of_composeAll {tokens : List Token} (faithful : a.Faithful stack)
    (composed : composeAll stack tokens = some made) : ∃ b, a.takeAll tokens = .ok b ∧ b.Faithful made := by
  induction tokens generalizing a stack with
  | nil =>
    cases Option.some.inj composed
    exact ⟨a, rfl, faithful⟩
  | cons t rest ih =>
    cases first : compose stack t with
    | none => simp [composeAll, first] at composed
    | some next =>
      rw [Token.composeAll_cons first] at composed
      obtain ⟨b, taken, later⟩ := take_of_compose faithful first
      rw [takeAll_cons taken]
      exact ih later composed

/-- Without delimiters the assembly stops only at the first operator for which the tokens
    before it leave too few operands. -/
theorem takeAll_of_stuck {tokens : List Token} (inner : ∀ t ∈ tokens, t.delimits = false) (faithful : a.Faithful stack)
    (stuck : composeAll stack tokens = none) :
    ∃ front t back made, tokens = front ++ t :: back ∧ composeAll stack front = some made ∧
      made.length < t.kind.arity ∧
      a.takeAll tokens = .error (.missingOperand t.char t.index t.kind.arity made.length) := by
  induction tokens generalizing a stack with
  | nil => cases stuck
  | cons t rest ih =>
    cases first : compose stack t with
    | none =>
      have short := (Token.compose_eq_none_iff (inner t (by simp)) stack).mp first
      rw [← faithful.length] at short
      refine ⟨[], t, rest, stack, rfl, rfl, faithful.length ▸ short, ?_⟩
      rw [← faithful.length]
      simp [takeAll, take_of_short short, bind, Except.bind]
    | some next =>
      rw [Token.composeAll_cons first] at stuck
      obtain ⟨b, taken, later⟩ := take_of_compose faithful first
      obtain ⟨front, u, back, made, rfl, composed, short, fault⟩ :=
        ih (fun u member => inner u (List.mem_cons_of_mem t member)) later stuck
      refine ⟨t :: front, u, back, made, rfl, ?_, short, ?_⟩
      · rw [Token.composeAll_cons first, composed]
      · rw [takeAll_cons taken, fault]

end Assembly

open Token (composeAll)

/-- Tokens that leave one expression make an automaton for its language. -/
theorem assemble_of_composeAll {tokens : List Token} {r : Regex Char} (composed : composeAll [] tokens = some [r]) :
    ∃ m, assemble tokens = .ok m ∧ ∀ word, m.Accepts word ↔ word ∈ r.language := by
  obtain ⟨b, taken, live, fragments, shape, separated⟩ :=
    Assembly.takeAll_of_composeAll Assembly.faithful_empty composed
  obtain ⟨⟨f, q⟩, rfl, rfl⟩ := List.map_eq_singleton_iff.mp shape.symm
  refine ⟨b.arena.finish f, ?_, ?_⟩
  · simp only [assemble, taken, Except.bind, Assembly.finish, fragments, List.map_cons, List.map_nil]
  · exact (separated.sound (f, q) (by simp)).spells

end RegexAutomaton
