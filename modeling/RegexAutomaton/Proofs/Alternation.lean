import RegexAutomaton.Explicit
import RegexAutomaton.Proofs.Grouping
import RegexAutomaton.Tree

/-!
Which token lists are expressions. In an expression operands and operators alternate: an
operand is due at the start, after an opening and after a binary operator, and only
there. Once concatenations are written a list has at most one literal more than it has
binary operators, and it has that many only if it alternates (`count_of_explicit`), since
every place where an operand is due and does not come, or comes and is not due, costs one.
An alternating list whose groups are closed can be read from left to right as an
expression (`exists_readsImplicit`).
-/
namespace RegexAutomaton

namespace Token

/-- Where an operand is due, the token begins one, and after it an operand is due unless one
    can end with it. -/
def Alternates : (due : Bool) → List Token → Prop
  | due, [] => due = false
  | due, t :: rest => (due = true → t.kind.canBeginOperand = true) ∧ Alternates (!t.kind.canEndOperand) rest

/-- The number of literals. -/
def literals (tokens : List Token) : Nat := tokens.countP (·.kind = .literal)

/-- The number of operators that join two operands. -/
def joints (tokens : List Token) : Nat := tokens.countP (·.kind.arity = 2)

theorem Explicit.tail {t : Token} {rest : List Token} (explicit : Explicit (t :: rest)) : Explicit rest := by
  cases rest with
  | nil => trivial
  | cons u rest => exact explicit.2

theorem Explicit.head_not_begins {t : Token} {rest : List Token} (explicit : Explicit (t :: rest))
    (ends : t.kind.canEndOperand = true) : ∀ u ∈ rest.head?, u.kind.canBeginOperand = false := by
  cases rest with
  | nil => simp
  | cons v rest =>
    intro u head
    cases head
    have apart := explicit.1
    simpa [adjoins, ends] using apart

theorem literals_cons (t : Token) (rest : List Token) :
    literals (t :: rest) = literals rest + (decide (t.kind = .literal)).toNat := by
  by_cases literal : t.kind = .literal <;> simp [literals, literal]

theorem joints_cons (t : Token) (rest : List Token) :
    joints (t :: rest) = joints rest + (decide (t.kind.arity = 2)).toNat := by
  by_cases joint : t.kind.arity = 2 <;> simp [joints, joint]

/-- What a token adds to the literals and takes of the operands that are due is paid for by
    what it adds to the operators, and in full only if it comes where it may. -/
theorem Kind.balance (kind : Kind) (due : Bool) (apart : due = false → kind.canBeginOperand = false) :
    (decide (kind = .literal)).toNat + (!kind.canEndOperand).toNat ≤
        (decide (kind.arity = 2)).toNat + due.toNat ∧
      ((decide (kind = .literal)).toNat + (!kind.canEndOperand).toNat =
        (decide (kind.arity = 2)).toNat + due.toNat → due = true → kind.canBeginOperand = true) := by
  revert apart
  cases kind <;> cases due <;> decide

/-- There is at most one literal more than operators that join two operands if an operand is
    due, and none more if not; just so many only if operands and operators alternate. -/
theorem count_of_explicit {tokens : List Token} (explicit : Explicit tokens) (due : Bool)
    (apart : due = false → ∀ t ∈ tokens.head?, t.kind.canBeginOperand = false) :
    literals tokens ≤ joints tokens + due.toNat ∧
      (literals tokens = joints tokens + due.toNat → Alternates due tokens) := by
  induction tokens generalizing due with
  | nil => cases due <;> simp [literals, joints, Alternates]
  | cons t rest ih =>
    obtain ⟨bound, tight⟩ := ih explicit.tail (!t.kind.canEndOperand) fun ends =>
      explicit.head_not_begins (by simpa using ends)
    obtain ⟨paid, fits⟩ := t.kind.balance due fun notDue => apart notDue t rfl
    rw [literals_cons, joints_cons]
    refine ⟨by omega, ?_⟩
    intro same
    exact ⟨fits (by omega), tight (by omega)⟩

/-- What alternates with its concatenations written alternates without them. -/
theorem alternates_of_makeExplicit (d : Dialect) {tokens : List Token} {due : Bool}
    (alternates : Alternates due (d.makeExplicit tokens)) : Alternates due tokens := by
  match tokens with
  | [] => exact alternates
  | [t] => exact alternates
  | t :: u :: rest =>
    unfold Dialect.makeExplicit at alternates
    split at alternates
    · rename_i adjoins
      obtain ⟨begins, -, later⟩ := alternates
      have ends : t.kind.canEndOperand = true := by
        simp only [Token.adjoins, Bool.and_eq_true] at adjoins
        exact adjoins.1
      have inner := alternates_of_makeExplicit d later
      exact ⟨begins, fun due => by simp [ends] at due, inner.2⟩
    · exact ⟨alternates.1, alternates_of_makeExplicit d alternates.2⟩

end Token

/-! ## Reading from left to right -/

namespace Tree
open Token (Alternates unclosed)

/-- The tokens are an expression of the level that leaves its concatenations out. -/
def Readable (level : Level) (tokens : List Token) : Prop := ∃ tree, Reads false level tokens tree

/-- What can stand in a group before the factor that is read next: a sum that awaits its last
    term, or nothing, and then the product so far, or nothing. -/
def Leads (tokens : List Token) : Prop :=
  ∃ sum product, tokens = sum ++ product ∧
    (sum = [] ∨ ∃ terms operator, sum = terms ++ [operator] ∧ operator.kind = .union ∧ Readable .sum terms) ∧
    (product = [] ∨ Readable .product product)

/-- What stands before the innermost of the groups that are open, given their openings. -/
inductive Shell : List Token → List Token → Prop where
  | outermost : Shell [] []
  | group {opening : Token} {stack outer lead : List Token} (opens : opening.kind = .opening)
      (around : Shell stack outer) (leads : Leads lead) : Shell (opening :: stack) (outer ++ lead ++ [opening])

/-- How far the reading has come: an operand is due, or a factor has just been read. -/
def Partway : (due : Bool) → (stack front : List Token) → Prop
  | true, stack, front => ∃ outer lead, front = outer ++ lead ∧ Shell stack outer ∧ Leads lead
  | false, stack, front =>
    ∃ outer lead factor, front = outer ++ lead ++ factor ∧ Shell stack outer ∧ Leads lead ∧ Readable .power factor

theorem leads_nil : Leads [] := ⟨[], [], rfl, .inl rfl, .inl rfl⟩

theorem readable_product {product factor : List Token} (factors : product = [] ∨ Readable .product product)
    (last : Readable .power factor) : Readable .product (product ++ factor) := by
  obtain ⟨tree, reads⟩ := last
  rcases factors with rfl | ⟨_, first⟩
  · exact ⟨tree, .power reads⟩
  · have joined : Reads false .product (product ++ (none : Option Token).toList ++ factor) _ := .concat rfl first reads
    rw [Option.toList_none, List.append_nil] at joined
    exact ⟨_, joined⟩

namespace Leads
variable {lead factor : List Token}

theorem product (leads : Leads lead) (last : Readable .power factor) : Leads (lead ++ factor) := by
  obtain ⟨sum, product, rfl, terms, factors⟩ := leads
  exact ⟨sum, product ++ factor, List.append_assoc _ _ _, terms, .inr (readable_product factors last)⟩

theorem sum (leads : Leads lead) (last : Readable .power factor) : Readable .sum (lead ++ factor) := by
  obtain ⟨terms, product, rfl, before, factors⟩ := leads
  obtain ⟨_, term⟩ := readable_product factors last
  rcases before with rfl | ⟨terms, operator, rfl, kind, _, first⟩
  · exact ⟨_, .product term⟩
  · rw [List.append_assoc, List.append_assoc]
    exact ⟨_, .union kind first term⟩

theorem union {operator : Token} (kind : operator.kind = .union) (leads : Leads lead) (last : Readable .power factor) :
    Leads (lead ++ factor ++ [operator]) :=
  ⟨_, [], (List.append_nil _).symm, .inr ⟨_, operator, rfl, kind, leads.sum last⟩, .inl rfl⟩

end Leads

theorem Partway.literal {t : Token} (kind : t.kind = .literal) {due : Bool} {stack front : List Token}
    (partway : Partway due stack front) : Partway false stack (front ++ [t]) := by
  have factor : Readable .power [t] := ⟨.literal t, .atom (.literal kind)⟩
  cases due with
  | true =>
    obtain ⟨outer, lead, rfl, shell, leads⟩ := partway
    exact ⟨outer, lead, [t], rfl, shell, leads, factor⟩
  | false =>
    obtain ⟨outer, lead, before, rfl, shell, leads, read⟩ := partway
    exact ⟨outer, lead ++ before, [t], by simp, shell, leads.product read, factor⟩

theorem Partway.opening {t : Token} (kind : t.kind = .opening) {due : Bool} {stack front : List Token}
    (partway : Partway due stack front) : Partway true (t :: stack) (front ++ [t]) := by
  cases due with
  | true =>
    obtain ⟨outer, lead, rfl, shell, leads⟩ := partway
    exact ⟨outer ++ lead ++ [t], [], by simp, .group kind shell leads, leads_nil⟩
  | false =>
    obtain ⟨outer, lead, before, rfl, shell, leads, read⟩ := partway
    exact ⟨outer ++ (lead ++ before) ++ [t], [], by simp, .group kind shell (leads.product read), leads_nil⟩

theorem Partway.union {t : Token} (kind : t.kind = .union) {stack front : List Token}
    (partway : Partway false stack front) : Partway true stack (front ++ [t]) := by
  obtain ⟨outer, lead, factor, rfl, shell, leads, read⟩ := partway
  exact ⟨outer, lead ++ factor ++ [t], by simp, shell, leads.union kind read⟩

theorem Partway.closure {t : Token} (kind : t.kind = .closure) {stack front : List Token}
    (partway : Partway false stack front) : Partway false stack (front ++ [t]) := by
  obtain ⟨outer, lead, factor, rfl, shell, leads, _, read⟩ := partway
  exact ⟨outer, lead, factor ++ [t], by simp, shell, leads, _, .star kind read⟩

theorem Partway.closing {t o : Token} (kind : t.kind = .closing) {stack front : List Token}
    (partway : Partway false (o :: stack) front) : Partway false stack (front ++ [t]) := by
  obtain ⟨_, lead, factor, rfl, shell, leads, read⟩ := partway
  cases shell with
  | @group _ _ outer before opens around earlier =>
    obtain ⟨_, inner⟩ := leads.sum read
    exact ⟨outer, before, o :: (lead ++ factor) ++ [t], by simp, around, earlier, _, .atom (.group opens kind inner)⟩

/-- The tokens that are left are taken in one by one; at the end no group is open. -/
theorem readable_of_partway {tokens front stack : List Token} {due : Bool} (noConcat : ∀ t ∈ tokens, t.kind ≠ .concat)
    (partway : Partway due stack front) (alternates : Alternates due tokens) (closed : unclosed stack tokens = .ok []) :
    Readable .sum (front ++ tokens) := by
  induction tokens generalizing front stack due with
  | nil =>
    cases (alternates : due = false)
    cases (Except.ok.inj closed : stack = [])
    obtain ⟨_, lead, factor, rfl, shell, leads, read⟩ := partway
    cases shell
    simpa using leads.sum read
  | cons t rest ih =>
    obtain ⟨begins, later⟩ := alternates
    have noneLater : ∀ u ∈ rest, u.kind ≠ .concat := fun u member => noConcat u (List.mem_cons_of_mem t member)
    rw [← List.singleton_append, ← List.append_assoc]
    have notDue (other : t.kind.canBeginOperand = false) : due = false := by
      cases due with
      | false => rfl
      | true => simp [other] at begins
    cases kind : t.kind with
    | literal =>
      rw [kind] at later
      simp only [unclosed, kind] at closed
      exact ih noneLater (partway.literal kind) later closed
    | opening =>
      rw [kind] at later
      simp only [unclosed, kind] at closed
      exact ih noneLater (partway.opening kind) later closed
    | concat => exact absurd kind (noConcat t (by simp))
    | union =>
      cases notDue (by rw [kind]; rfl)
      rw [kind] at later
      simp only [unclosed, kind] at closed
      exact ih noneLater (partway.union kind) later closed
    | closure =>
      cases notDue (by rw [kind]; rfl)
      rw [kind] at later
      simp only [unclosed, kind] at closed
      exact ih noneLater (partway.closure kind) later closed
    | closing =>
      cases notDue (by rw [kind]; rfl)
      rw [kind] at later
      simp only [unclosed, kind] at closed
      cases stack with
      | nil => cases closed
      | cons o stack => exact ih noneLater (partway.closing kind) later closed

/-- Tokens that alternate and whose groups are closed are an expression. -/
theorem exists_readsImplicit {tokens : List Token} (noConcat : ∀ t ∈ tokens, t.kind ≠ .concat)
    (alternates : Alternates true tokens) (closed : unclosed [] tokens = .ok []) : ∃ tree, ReadsImplicit tokens tree :=
  have start : Partway true [] [] := ⟨[], [], rfl, .outermost, leads_nil⟩
  readable_of_partway noConcat start alternates closed

end Tree

end RegexAutomaton
