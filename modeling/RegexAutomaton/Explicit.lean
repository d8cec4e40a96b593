import RegexAutomaton.Dialect

/-!
Explicit concatenation. Two operands that stand side by side are concatenated;
`makeExplicit` writes the operator between them. A token list is `Explicit` when
nothing is left to write, and `makeExplicit` yields such lists only.
-/
namespace RegexAutomaton

namespace Token

/-- One token ends an operand and the other begins the next one. -/
def adjoins (left right : Token) : Bool := left.kind.canEndOperand && right.kind.canBeginOperand

/-- No two operands stand side by side. -/
def Explicit : List Token → Prop
  | t :: u :: rest => t.adjoins u = false ∧ Explicit (u :: rest)
  | _ => True

end Token

namespace Dialect

/-- The concatenation operator, placed at the position of the operand that follows it. -/
def concat (d : Dialect) (index : Nat) : Token := ⟨.concat, d.marker, index⟩

/-- Writes a concatenation between any two operands that stand side by side. -/
def makeExplicit (d : Dialect) : List Token → List Token
  | [] => []
  | [t] => [t]
  | t :: u :: rest =>
    if t.adjoins u then t :: d.concat u.index :: d.makeExplicit (u :: rest)
    else t :: d.makeExplicit (u :: rest)

theorem head?_makeExplicit (d : Dialect) (tokens : List Token) : (d.makeExplicit tokens).head? = tokens.head? := by
  match tokens with
  | [] => rfl
  | [_] => rfl
  | t :: u :: rest => unfold makeExplicit; split <;> rfl

theorem explicit_cons {t : Token} {tokens : List Token} (rest : Token.Explicit tokens)
    (apart : ∀ u ∈ tokens.head?, t.adjoins u = false) : Token.Explicit (t :: tokens) := by
  cases tokens with
  | nil => trivial
  | cons u _ => exact ⟨apart u rfl, rest⟩

theorem explicit_makeExplicit (d : Dialect) (tokens : List Token) : Token.Explicit (d.makeExplicit tokens) := by
  match tokens with
  | [] => trivial
  | [_] => trivial
  | t :: u :: rest =>
    have later := d.explicit_makeExplicit (u :: rest)
    unfold makeExplicit
    split
    · refine explicit_cons (explicit_cons later ?_) ?_ <;>
        simp [concat, Token.adjoins, Token.Kind.canEndOperand, Token.Kind.canBeginOperand]
    · rename_i apart
      refine explicit_cons later ?_
      rw [head?_makeExplicit]
      simpa using apart

theorem makeExplicit_of_explicit (d : Dialect) {tokens : List Token} (done : Token.Explicit tokens) :
    d.makeExplicit tokens = tokens := by
  match tokens, done with
  | [], _ => rfl
  | [_], _ => rfl
  | t :: u :: rest, ⟨apart, later⟩ => simp [makeExplicit, apart, d.makeExplicit_of_explicit later]

end Dialect

end RegexAutomaton
