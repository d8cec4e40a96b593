import Mathlib.Algebra.Order.Ring.Int
import Mathlib.Data.List.Induction
import Mathlib.Data.Nat.Cast.Order.Ring
import RegexAutomaton.Proofs.Assembling

/-!
What the assembly answers, for every list of tokens. The height of its stack can be counted
without it: a literal adds one and an operator that joins two operands takes one away. A token
stops the assembly if it is a delimiter or takes more operands than there are at its height. As
the stacks of fragments and of expressions go together, the first such token decides
(`assemble_of_firstStop`); without one all tokens are taken, and the last height decides
(`assemble_of_passes`). So no composition is ever refused.
-/
namespace RegexAutomaton

namespace Token

/-- The number of operands that the tokens leave, if none of them lacks any. -/
def height (tokens : List Token) : Int := literals tokens - joints tokens

/-- The token is a delimiter, or an operator that takes more operands than there are. -/
def Stops (height : Int) (t : Token) : Prop :=
  match t.kind with
  | .opening | .closing => True
  | .union | .concat | .closure => height < t.kind.arity
  | .literal => False

/-- No token stops the assembly at the height that the tokens before it leave. -/
def Passes (tokens : List Token) : Prop := ∀ front t back, tokens = front ++ t :: back → ¬ Stops (height front) t

/-- The token stops the assembly, and none of those in front of it does. -/
def FirstStop (tokens front : List Token) (t : Token) : Prop :=
  (∃ back, tokens = front ++ t :: back) ∧ Passes front ∧ Stops (height front) t

theorem passes_concat {tokens : List Token} {t : Token} :
    Passes (tokens ++ [t]) ↔ Passes tokens ∧ ¬ Stops (height tokens) t := by
  constructor
  · intro passes
    refine ⟨?_, passes tokens t [] rfl⟩
    rintro front u back rfl
    exact passes front u (back ++ [t]) (by simp)
  · rintro ⟨passes, last⟩ front u back split
    rcases List.eq_nil_or_concat back with rfl | ⟨back, v, rfl⟩
    · obtain ⟨rfl, same⟩ := List.append_inj' split rfl
      obtain rfl := List.singleton_inj.mp same
      exact last
    · have split : tokens ++ [t] = (front ++ u :: back) ++ [v] := by simpa using split
      exact passes front u back (List.append_inj_left' split rfl)

theorem passes_or_firstStop (tokens : List Token) : Passes tokens ∨ ∃ front t, FirstStop tokens front t := by
  induction tokens using List.reverseRecOn with
  | nil =>
    refine .inl fun front t back split => ?_
    simp at split
  | append_singleton tokens t ih =>
    rcases ih with passes | ⟨front, u, ⟨back, rfl⟩, passes, stops⟩
    · by_cases stops : Stops (height tokens) t
      · exact .inr ⟨tokens, t, ⟨[], rfl⟩, passes, stops⟩
      · exact .inl (passes_concat.mpr ⟨passes, stops⟩)
    · exact .inr ⟨front, u, ⟨back ++ [t], by simp⟩, passes, stops⟩

theorem FirstStop.mem {tokens front : List Token} {t : Token} (first : FirstStop tokens front t) : t ∈ tokens := by
  obtain ⟨⟨back, rfl⟩, -⟩ := first
  exact List.mem_append_right front (.head back)

theorem FirstStop.not_passes {tokens front : List Token} {t : Token} (first : FirstStop tokens front t) :
    ¬ Passes tokens := by
  obtain ⟨⟨back, split⟩, -, stops⟩ := first
  exact fun passes => passes front t back split stops

theorem FirstStop.unique {tokens front front' : List Token} {t t' : Token} (first : FirstStop tokens front t)
    (first' : FirstStop tokens front' t') : front' = front ∧ t' = t := by
  obtain ⟨⟨back, rfl⟩, passes, stops⟩ := first
  obtain ⟨⟨back', split⟩, passes', stops'⟩ := first'
  rcases eq_or_between split with ⟨rfl, rfl⟩ | ⟨between, rfl, -⟩ | ⟨between, rfl, -⟩
  · exact ⟨rfl, rfl⟩
  · exact absurd stops (passes' front t between rfl)
  · exact absurd stops' (passes front' t' between rfl)

/-- The fault of a token that stops the assembly at a height. -/
def stopFault (height : Int) (t : Token) : Fault :=
  match t.kind with
  | .opening => .unmatchedOpening t.index
  | .closing => .unmatchedClosing t.index
  | .literal | .union | .concat | .closure => .missingOperand t.char t.index t.kind.arity height.toNat

theorem stops_of_delimits {t : Token} (delimiter : t.delimits = true) (height : Int) : Stops height t := by
  rcases delimits_iff.mp delimiter with kind | kind <;> simp [Stops, kind]

theorem stops_iff_of_inner {t : Token} (inner : t.delimits = false) (n : Nat) : Stops n t ↔ n < t.kind.arity := by
  obtain ⟨kind, char, index⟩ := t
  cases kind <;> simp [delimits] at inner <;> simp [Stops, Kind.arity]

theorem stopFault_of_inner {t : Token} (inner : t.delimits = false) (n : Nat) :
    stopFault n t = .missingOperand t.char t.index t.kind.arity n := by
  obtain ⟨kind, char, index⟩ := t
  cases kind <;> simp [delimits] at inner <;> rfl

/-! ## Heights and stacks -/

/-- A token stops at the height of a stack just if nothing can be composed there. -/
theorem compose_eq_none_iff_stops (stack : List (Regex Char)) (t : Token) :
    compose stack t = none ↔ Stops stack.length t := by
  cases inner : t.delimits with
  | false => rw [compose_eq_none_iff inner, stops_iff_of_inner inner]
  | true =>
    refine iff_of_true ?_ (stops_of_delimits inner _)
    rcases delimits_iff.mp inner with kind | kind <;> simp [compose, kind]

theorem height_of_composeAll {tokens : List Token} {made : List (Regex Char)} (composed : composeAll [] tokens = some made) :
    height tokens = made.length := by
  have balance := balance_of_composeAll composed
  rw [List.length_nil] at balance
  unfold height
  omega

theorem exists_composeAll_of_passes {tokens : List Token} (passes : Passes tokens) :
    ∃ made, composeAll [] tokens = some made := by
  induction tokens using List.reverseRecOn with
  | nil => exact ⟨[], rfl⟩
  | append_singleton tokens t ih =>
    obtain ⟨passes, last⟩ := passes_concat.mp passes
    obtain ⟨stack, composed⟩ := ih passes
    rw [height_of_composeAll composed, ← compose_eq_none_iff_stops] at last
    obtain ⟨made, next⟩ := Option.ne_none_iff_exists'.mp last
    exact ⟨made, by rw [composeAll_append, composed, Option.bind_some, composeAll_singleton, next]⟩

end Token

namespace Assembly
open Token (Stops stopFault)

theorem take_of_stops {a : Assembly} {t : Token} (stops : Stops a.stack.length t) :
    a.take t = .error (stopFault a.stack.length t) := by
  cases inner : t.delimits with
  | false => rw [take_of_short ((Token.stops_iff_of_inner inner _).mp stops), Token.stopFault_of_inner inner]
  | true =>
    rcases Token.delimits_iff.mp inner with kind | kind <;> simp only [take, stopFault, kind]

/-- Tokens that do not stop the assembly are taken and leave a stack of their height. -/
theorem takeAll_of_passes {tokens : List Token} (passes : Token.Passes tokens) :
    ∃ b, ({} : Assembly).takeAll tokens = .ok b ∧ Token.height tokens = b.stack.length := by
  obtain ⟨made, composed⟩ := Token.exists_composeAll_of_passes passes
  obtain ⟨b, taken, faithful⟩ := takeAll_of_composeAll faithful_empty composed
  exact ⟨b, taken, by rw [Token.height_of_composeAll composed, faithful.length]⟩

end Assembly

open Token (height Passes FirstStop stopFault)

theorem assemble_of_firstStop {tokens front : List Token} {t : Token} (first : FirstStop tokens front t) :
    assemble tokens = .error (stopFault (height front) t) := by
  obtain ⟨⟨back, rfl⟩, passes, stops⟩ := first
  obtain ⟨b, taken, same⟩ := Assembly.takeAll_of_passes passes
  rw [same] at stops ⊢
  have stopped : b.takeAll (t :: back) = .error (stopFault b.stack.length t) := by
    simp [Assembly.takeAll, Assembly.take_of_stops stops, bind, Except.bind]
  rw [assemble, Assembly.takeAll_append, taken, Except.bind, stopped]
  rfl

theorem assemble_of_passes {tokens : List Token} (passes : Passes tokens) :
    ∃ left : Nat, height tokens = left ∧
      (left = 0 ∧ assemble tokens = .error .emptyExpression ∨ left = 1 ∧ (∃ m, assemble tokens = .ok m) ∨
        1 < left ∧ assemble tokens = .error (.leftoverFragments left)) := by
  obtain ⟨⟨arena, stack⟩, taken, same⟩ := Assembly.takeAll_of_passes passes
  refine ⟨stack.length, same, ?_⟩
  rw [assemble, taken]
  rcases stack with _ | ⟨f, _ | ⟨g, rest⟩⟩
  · exact .inl ⟨rfl, rfl⟩
  · exact .inr (.inl ⟨rfl, _, rfl⟩)
  · exact .inr (.inr ⟨Nat.succ_lt_succ (Nat.succ_pos _), rfl⟩)

theorem assemble_of_short {tokens front : List Token} {t : Token} (first : FirstStop tokens front t)
    (inner : t.delimits = false) :
    ∃ found : Nat, height front = found ∧ found < t.kind.arity ∧
      assemble tokens = .error (.missingOperand t.char t.index t.kind.arity found) := by
  obtain ⟨b, -, same⟩ := Assembly.takeAll_of_passes first.2.1
  have answer := assemble_of_firstStop first
  have stops := first.2.2
  rw [same, Token.stopFault_of_inner inner] at answer
  rw [same, Token.stops_iff_of_inner inner] at stops
  exact ⟨_, same, stops, answer⟩

/-- Without delimiters only operators are blamed. -/
theorem exists_firstStop_of_error {tokens : List Token} {fault : Fault} {index : Nat}
    (inner : ∀ t ∈ tokens, t.delimits = false) (failed : assemble tokens = .error fault)
    (named : fault.index? = some index) :
    ∃ front t, ∃ found : Nat, FirstStop tokens front t ∧ height front = found ∧ found < t.kind.arity ∧
      fault = .missingOperand t.char t.index t.kind.arity found := by
  rcases Token.passes_or_firstStop tokens with passes | ⟨front, t, first⟩
  · obtain ⟨left, -, outcome⟩ := assemble_of_passes passes
    rcases outcome with ⟨-, answer⟩ | ⟨-, m, answer⟩ | ⟨-, answer⟩ <;> cases answer.symm.trans failed <;> cases named
  · obtain ⟨found, same, short, answer⟩ := assemble_of_short first (inner t first.mem)
    exact ⟨front, t, found, first, same, short, Except.error.inj (failed.symm.trans answer)⟩

/-- The first token that stops the assembly decides the fault: a delimiter is unmatched, and an
    operator lacks operands, where those that it found are those before it. If no token stops it,
    the height that is left decides. There are no other faults. -/
theorem assemble_answers (tokens : List Token) :
    (∀ index, assemble tokens = .error (.unmatchedOpening index) ↔
      ∃ front t, FirstStop tokens front t ∧ t.kind = .opening ∧ t.index = index) ∧
    (∀ index, assemble tokens = .error (.unmatchedClosing index) ↔
      ∃ front t, FirstStop tokens front t ∧ t.kind = .closing ∧ t.index = index) ∧
    (∀ operator index expected found, assemble tokens = .error (.missingOperand operator index expected found) ↔
      ∃ front t, FirstStop tokens front t ∧ t.delimits = false ∧ t.char = operator ∧ t.index = index ∧
        t.kind.arity = expected ∧ height front = found) ∧
    (assemble tokens = .error .emptyExpression ↔ Passes tokens ∧ height tokens = 0) ∧
    (∀ count, assemble tokens = .error (.leftoverFragments count) ↔
      Passes tokens ∧ height tokens = count ∧ 1 < count) ∧
    ((∃ m, assemble tokens = .ok m) ↔ Passes tokens ∧ height tokens = 1) ∧
    (∀ operator index, assemble tokens ≠ .error (.closedFragment operator index)) ∧
    ∀ marker index, assemble tokens ≠ .error (.reservedMarker marker index) := by
  rcases Token.passes_or_firstStop tokens with passes | ⟨front, t, first⟩
  · have never : ∀ front t, ¬ FirstStop tokens front t := fun front t first => first.not_passes passes
    obtain ⟨left, level, outcome⟩ := assemble_of_passes passes
    rcases outcome with ⟨rfl, answer⟩ | ⟨rfl, m, answer⟩ | ⟨several, answer⟩
    · simp [answer, never, passes, level]
      omega
    · simp [answer, never, passes, level]
      omega
    · simp [answer, never, passes, level]
      omega
  · have only : ∀ front' t', FirstStop tokens front' t' ↔ front' = front ∧ t' = t :=
      fun front' t' => ⟨first.unique, by rintro ⟨rfl, rfl⟩; exact first⟩
    have answer := assemble_of_firstStop first
    obtain ⟨b, -, same⟩ := Assembly.takeAll_of_passes first.2.1
    rw [same] at answer
    cases kind : t.kind <;> simp [answer, first.not_passes, only, stopFault, kind, Token.delimits, same]

example : assemble (({} : Dialect).readExplicit "ab?|)c") = .error (.missingOperand '|' 3 2 1) := rfl

end RegexAutomaton
