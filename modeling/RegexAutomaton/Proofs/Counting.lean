import Mathlib.Data.List.Induction
import RegexAutomaton.Assembly
import RegexAutomaton.Automaton.Fragment

/-!
How much an assembly builds. Every operation on an arena adds fixed numbers of states and of
edges, so after an assembly these numbers, and the height of the stack, can be read off the
tokens that it has taken (`sized_of_takeAll`). What a token does when it is taken is said once
(`take_cases`), and what holds throughout follows from what one token keeps
(`invariant_of_takeAll`).
-/
namespace RegexAutomaton

namespace Arena
variable {α : Type} {a b : Arena α} {f g h : Fragment}

/-- The edges of all states. -/
def allEdges (a : Arena α) : List (Edge α) := a.states.toList.flatMap State.edges

theorem mem_allEdges {e : Edge α} : e ∈ a.allEdges ↔ ∃ s, e ∈ a.edges s := by
  simp only [allEdges, edges, List.mem_flatMap, Array.mem_toList_iff]
  constructor
  · rintro ⟨state, member, edge⟩
    obtain ⟨s, inside, rfl⟩ := Array.mem_iff_getElem.mp member
    exact ⟨s, by simpa [inside] using edge⟩
  · rintro ⟨s, edge⟩
    by_cases inside : s < a.states.size
    · exact ⟨a.states[s], Array.getElem_mem inside, by simpa [inside] using edge⟩
    · simp [inside] at edge

@[simp] theorem allEdges_addState (a : Arena α) : a.addState.allEdges = a.allEdges := by
  simp [allEdges, addState]

@[simp] theorem allEdges_grow (a : Arena α) : a.grow.allEdges = a.allEdges := by simp [grow]

/-- A link adds its edge to the others. -/
theorem allEdges_link {source target : StateId} {symbol : Option α} (inside : source < a.size) :
    (a.link source symbol target).allEdges.Perm (⟨symbol, target⟩ :: a.allEdges) := by
  obtain ⟨front, state, back, split, -, changed⟩ :=
    List.exists_of_modify (fun state => { state with edges := state.edges ++ [⟨symbol, target⟩] })
      (show source < a.states.toList.length by simpa [size] using inside)
  have before : a.allEdges = front.flatMap State.edges ++ state.edges ++ back.flatMap State.edges := by
    simp [allEdges, split]
  have after : (a.link source symbol target).allEdges =
      front.flatMap State.edges ++ state.edges ++ ⟨symbol, target⟩ :: back.flatMap State.edges := by
    simp [allEdges, link, changed]
  rw [before, after]
  exact List.perm_middle

/-- The number of edges that read a symbol. -/
def reading (a : Arena α) : Nat := a.allEdges.countP (·.symbol.isSome)

/-- The number of edges that read nothing. -/
def silent (a : Arena α) : Nat := a.allEdges.countP (·.symbol.isNone)

theorem length_allEdges (a : Arena α) : a.allEdges.length = a.reading + a.silent := by
  rw [List.length_eq_countP_add_countP fun e => e.symbol.isSome]
  refine congrArg (a.reading + ·) (List.countP_congr fun e _ => ?_)
  cases e.symbol <;> simp

/-- `b` has so many states, reading edges and silent edges more than `a`. -/
structure Gains (a b : Arena α) (states read quiet : Nat) : Prop where
  size : b.size = a.size + states
  reading : b.reading = a.reading + read
  silent : b.silent = a.silent + quiet

theorem gains_grow (a : Arena α) : a.Gains a.grow 2 0 0 where
  size := size_grow a
  reading := by simp [Arena.reading]
  silent := by simp [Arena.silent]

theorem gains_refl (a : Arena α) : a.Gains a 0 0 0 := ⟨rfl, rfl, rfl⟩

theorem Gains.link {states read quiet : Nat} (gains : a.Gains b states read quiet) {source : StateId}
    (inside : source < b.size) (symbol : Option α) (target : StateId) :
    a.Gains (b.link source symbol target) states (read + symbol.isSome.toNat) (quiet + symbol.isNone.toNat) where
  size := by rw [size_link, gains.size]
  reading := by
    rw [Arena.reading, (allEdges_link inside).countP_eq, List.countP_cons, ← Arena.reading, gains.reading]
    cases symbol <;> simp
    omega
  silent := by
    rw [Arena.silent, (allEdges_link inside).countP_eq, List.countP_cons, ← Arena.silent, gains.silent]
    cases symbol <;> simp
    omega

theorem Gains.lt_size {states read quiet : Nat} (gains : a.Gains b states read quiet) {s : StateId}
    (inside : s < a.size) : s < b.size := by
  rw [gains.size]
  exact Nat.lt_add_right states inside

theorem fresh_start_lt (a : Arena α) : a.fresh.start < a.grow.size := by simp [fresh]

theorem gains_literal (a : Arena α) (x : α) : a.Gains (a.literal x).2 2 1 0 :=
  (gains_grow a).link a.fresh_start_lt (some x) a.fresh.stop

theorem gains_union? (made : a.union? f g = some (h, b)) : a.Gains b 2 0 4 := by
  by_cases fits : a.composable f g = true
  · obtain ⟨left, right, -⟩ := (composable_iff a f g).mp fits
    obtain ⟨-, leftEnd, -⟩ := (isOpen_iff a f).mp left
    obtain ⟨-, rightEnd, -⟩ := (isOpen_iff a g).mp right
    simp only [union?, if_pos fits, Option.some.injEq, Prod.mk.injEq] at made
    obtain ⟨-, rfl⟩ := made
    have grown : a.fresh.start < (a.grow.link a.fresh.start none f.start).size := by simp [fresh]
    have starts := ((gains_grow a).link a.fresh_start_lt none f.start).link grown none g.start
    have left := starts.link (starts.lt_size leftEnd) none a.fresh.stop
    exact left.link (left.lt_size rightEnd) none a.fresh.stop
  · simp [union?, fits] at made

theorem gains_concat? (made : a.concat? f g = some (h, b)) : a.Gains b 0 0 1 := by
  by_cases fits : a.composable f g = true
  · obtain ⟨left, -, -⟩ := (composable_iff a f g).mp fits
    obtain ⟨-, leftEnd, -⟩ := (isOpen_iff a f).mp left
    simp only [concat?, if_pos fits, Option.some.injEq, Prod.mk.injEq] at made
    obtain ⟨-, rfl⟩ := made
    exact (gains_refl a).link leftEnd none _
  · simp [concat?, fits] at made

theorem gains_star? (made : a.star? f = some (h, b)) : a.Gains b 2 0 4 := by
  by_cases opened : a.isOpen f = true
  · obtain ⟨-, inside, -⟩ := (isOpen_iff a f).mp opened
    simp only [star?, if_pos opened, Option.some.injEq, Prod.mk.injEq] at made
    obtain ⟨-, rfl⟩ := made
    have grown : a.fresh.start < (a.grow.link a.fresh.start none f.start).size := by simp [fresh]
    have starts := ((gains_grow a).link a.fresh_start_lt none f.start).link grown none a.fresh.stop
    have back := starts.link (starts.lt_size inside) none f.start
    exact back.link (back.lt_size inside) none a.fresh.stop
  · simp [star?, opened] at made

end Arena

/-- The number of tokens of a kind. -/
def Token.number (kind : Token.Kind) (tokens : List Token) : Nat := tokens.countP (·.kind = kind)

theorem Token.number_concat (kind : Token.Kind) (tokens : List Token) (t : Token) :
    number kind (tokens ++ [t]) = number kind tokens + (decide (t.kind = kind)).toNat := by
  by_cases same : t.kind = kind <;> simp [number, same]

namespace Assembly
open Token (number)

/-- What a token does that is taken. -/
theorem take_cases {a b : Assembly} {t : Token} (taken : a.take t = .ok b) :
    (t.kind = .literal ∧ b = ⟨(a.arena.literal t.char).2, (a.arena.literal t.char).1 :: a.stack⟩) ∨
    (∃ f g h rest arena, t.kind = .union ∧ a.stack = g :: f :: rest ∧ a.arena.union? f g = some (h, arena) ∧
      b = ⟨arena, h :: rest⟩) ∨
    (∃ f g h rest arena, t.kind = .concat ∧ a.stack = g :: f :: rest ∧ a.arena.concat? f g = some (h, arena) ∧
      b = ⟨arena, h :: rest⟩) ∨
    ∃ f h rest arena, t.kind = .closure ∧ a.stack = f :: rest ∧ a.arena.star? f = some (h, arena) ∧
      b = ⟨arena, h :: rest⟩ := by
  have placed : ∀ {rest result}, place t rest result = .ok b →
      ∃ h arena, result = some (h, arena) ∧ b = ⟨arena, h :: rest⟩ := by
    intro rest result done
    cases result with
    | none => cases done
    | some made =>
      cases done
      exact ⟨made.1, made.2, rfl, rfl⟩
  obtain ⟨arena, stack⟩ := a
  cases kind : t.kind with
  | literal =>
    simp only [take, kind, place, Except.ok.injEq] at taken
    exact .inl ⟨rfl, taken.symm⟩
  | union =>
    rcases stack with _ | ⟨g, _ | ⟨f, rest⟩⟩
    · simp [take, kind] at taken
    · simp [take, kind] at taken
    · simp only [take, kind] at taken
      obtain ⟨h, arena, made, same⟩ := placed taken
      exact .inr (.inl ⟨f, g, h, rest, arena, rfl, rfl, made, same⟩)
  | concat =>
    rcases stack with _ | ⟨g, _ | ⟨f, rest⟩⟩
    · simp [take, kind] at taken
    · simp [take, kind] at taken
    · simp only [take, kind] at taken
      obtain ⟨h, arena, made, same⟩ := placed taken
      exact .inr (.inr (.inl ⟨f, g, h, rest, arena, rfl, rfl, made, same⟩))
  | closure =>
    rcases stack with _ | ⟨f, rest⟩
    · simp [take, kind] at taken
    · simp only [take, kind] at taken
      obtain ⟨h, arena, made, same⟩ := placed taken
      exact .inr (.inr (.inr ⟨f, h, rest, arena, rfl, rfl, made, same⟩))
  | opening => simp [take, kind] at taken
  | closing => simp [take, kind] at taken

theorem exists_take_of_takeAll_cons {a b : Assembly} {t : Token} {rest : List Token}
    (taken : a.takeAll (t :: rest) = .ok b) : ∃ next, a.take t = .ok next ∧ next.takeAll rest = .ok b := by
  cases first : a.take t with
  | error fault => simp [takeAll, first, bind, Except.bind] at taken
  | ok next => exact ⟨next, rfl, by simpa [takeAll, first, bind, Except.bind] using taken⟩

/-- What holds at the beginning and is kept by every token that is taken holds in the end. -/
theorem invariant_of_takeAll {P : List Token → Assembly → Prop} (start : P [] {})
    (step : ∀ {tokens a t b}, P tokens a → a.take t = .ok b → P (tokens ++ [t]) b) {tokens : List Token}
    {b : Assembly} (taken : ({} : Assembly).takeAll tokens = .ok b) : P tokens b := by
  induction tokens using List.reverseRecOn generalizing b with
  | nil =>
    cases taken
    exact start
  | append_singleton tokens t ih =>
    rw [takeAll_append] at taken
    cases before : ({} : Assembly).takeAll tokens with
    | error fault =>
      rw [before] at taken
      cases taken
    | ok a =>
      rw [before] at taken
      have last : a.take t = .ok b := by simpa [Except.bind, takeAll] using taken
      exact step (ih before) last

/-- The assembly is as large as the tokens that it has taken make it. -/
structure Sized (tokens : List Token) (a : Assembly) : Prop where
  states : a.arena.size = 2 * (number .literal tokens + number .union tokens + number .closure tokens)
  reading : a.arena.reading = number .literal tokens
  silent : a.arena.silent = 4 * number .union tokens + number .concat tokens + 4 * number .closure tokens
  height : a.stack.length + number .union tokens + number .concat tokens = number .literal tokens

theorem sized_empty : Sized [] {} := ⟨rfl, rfl, rfl, rfl⟩

theorem Sized.take {tokens : List Token} {a b : Assembly} {t : Token} (sized : Sized tokens a)
    (taken : a.take t = .ok b) : Sized (tokens ++ [t]) b := by
  obtain ⟨states, reading, silent, height⟩ := sized
  rcases take_cases taken with ⟨kind, rfl⟩ | ⟨f, g, h, rest, arena, kind, shape, made, rfl⟩ |
    ⟨f, g, h, rest, arena, kind, shape, made, rfl⟩ | ⟨f, h, rest, arena, kind, shape, made, rfl⟩
  · obtain ⟨size, read, quiet⟩ := Arena.gains_literal a.arena t.char
    constructor <;> simp [Token.number_concat, kind, size, read, quiet] <;> omega
  · obtain ⟨size, read, quiet⟩ := Arena.gains_union? made
    constructor <;> simp [Token.number_concat, kind, shape, size, read, quiet] at height ⊢ <;> omega
  · obtain ⟨size, read, quiet⟩ := Arena.gains_concat? made
    constructor <;> simp [Token.number_concat, kind, shape, size, read, quiet] at height ⊢ <;> omega
  · obtain ⟨size, read, quiet⟩ := Arena.gains_star? made
    constructor <;> simp [Token.number_concat, kind, shape, size, read, quiet] at height ⊢ <;> omega

theorem sized_of_takeAll {tokens : List Token} {b : Assembly} (taken : ({} : Assembly).takeAll tokens = .ok b) :
    Sized tokens b :=
  invariant_of_takeAll sized_empty Sized.take taken

end Assembly

end RegexAutomaton
