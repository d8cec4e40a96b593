import Mathlib.Data.List.TakeWhile
import RegexAutomaton.Dialect
import RegexAutomaton.Proofs.Grouping
import RegexAutomaton.Tree

/-!
Postorder and operator trees. When an expression has been taken in, its last operators
still wait on the stack, the tightest on top; what is written and what waits make up the
postorder of its tree (`Arranges`). An operator that is no tighter than the waiting ones
lets them go first, which is what joins the operands of a tree, and a closing delimiter
lets them go up to its opening. So an expression that writes its concatenations is put
into the postorder of its tree (`ofExplicit_eq_postorder`).
-/
namespace RegexAutomaton

/-- How tightly a token binds, zero if it is no operator. -/
def Token.strength (t : Token) : Nat := t.kind.precedence.getD 0

/-- The strength of the loosest operator that may stand outside all groups at a level. -/
def Tree.Level.strength : Tree.Level → Nat
  | .sum => 1
  | .product => 2
  | .power => 3
  | .atom => 4

namespace Postorder
open RegexAutomaton.Tree (Level Reads)

/-- The tokens are operators that may stand at the level. -/
def Waits (level : Level) (tokens : List Token) : Prop := ∀ t ∈ tokens, level.strength ≤ t.strength

/-- The top of the stack, if there is one, is looser than all that may stand at the level. -/
def Rests (level : Level) (waiting : List Token) : Prop := ∀ t ∈ waiting.head?, t.strength < level.strength

/-- Wherever the tokens come while the stack rests, they are taken in and leave of the given
    order a first part written and the remaining part on the stack. -/
def Arranges (level : Level) (tokens order : List Token) : Prop :=
  ∃ written pending, written ++ pending = order ∧ Waits level pending ∧
    ∀ rest waiting, Rests level waiting →
      arrange (tokens ++ rest) waiting = (written ++ ·) <$> arrange rest (pending ++ waiting)

theorem Waits.loosen {level looser : Level} {tokens : List Token} (waits : Waits level tokens)
    (loose : looser.strength ≤ level.strength) : Waits looser tokens :=
  fun t member => Nat.le_trans loose (waits t member)

theorem Rests.tighten {level tighter : Level} {waiting : List Token} (rests : Rests level waiting)
    (tight : level.strength ≤ tighter.strength) : Rests tighter waiting :=
  fun t member => Nat.lt_of_lt_of_le (rests t member) tight

theorem strength_pos (level : Level) : 0 < level.strength := by
  cases level <;> decide

theorem strength_of_opening {t : Token} (opens : t.kind = .opening) : t.strength = 0 := by
  simp [Token.strength, opens, Token.Kind.precedence]

theorem strength_of_union {t : Token} (kind : t.kind = .union) : t.strength = Level.sum.strength := by
  simp [Token.strength, kind, Token.Kind.precedence, Level.strength]

theorem strength_of_concat {t : Token} (kind : t.kind = .concat) : t.strength = Level.product.strength := by
  simp [Token.strength, kind, Token.Kind.precedence, Level.strength]

theorem strength_of_closure {t : Token} (kind : t.kind = .closure) : t.strength = Level.power.strength := by
  simp [Token.strength, kind, Token.Kind.precedence, Level.strength]

theorem not_opening_of_waits {level : Level} {tokens : List Token} (waits : Waits level tokens) :
    ∀ t ∈ tokens, isOpening t = false := by
  intro t member
  have strong := waits t member
  have positive := strength_pos level
  by_contra opens
  have opening : t.kind = .opening := by simpa [isOpening] using opens
  rw [strength_of_opening opening] at strong
  omega

/-- Operators of one strength are of one kind, so a waiting one makes way exactly if it binds
    at least as tightly. -/
theorem makesWay_iff {arriving : Token} (operator : 0 < arriving.strength) (t : Token) :
    makesWay arriving t = true ↔ arriving.strength ≤ t.strength := by
  obtain ⟨kind, _, _⟩ := arriving
  obtain ⟨other, _, _⟩ := t
  cases kind <;> cases other <;>
    simp [Token.strength, makesWay, isOpening, goesBefore, Token.Kind.precedence] at operator ⊢

/-- An operator lets go the waiting ones of its level and waits in their place. -/
theorem arrange_operator {level : Level} {operator : Token} {pending waiting : List Token}
    (strength : operator.strength = level.strength) (waits : Waits level pending) (rests : Rests level waiting)
    (rest : List Token) :
    arrange (operator :: rest) (pending ++ waiting) = (pending ++ ·) <$> arrange rest (operator :: waiting) := by
  have positive : 0 < operator.strength := strength ▸ strength_pos level
  have goes : ∀ t ∈ pending, makesWay operator t = true := by
    intro t member
    rw [makesWay_iff positive, strength]
    exact waits t member
  have stays : waiting.takeWhile (makesWay operator) = [] ∧ waiting.dropWhile (makesWay operator) = waiting := by
    cases waiting with
    | nil => exact ⟨rfl, rfl⟩
    | cons t _ =>
      have loose : ¬ makesWay operator t = true := by
        rw [makesWay_iff positive, strength]
        exact Nat.not_le.mpr (rests t rfl)
      simp [loose]
  have step : arrange (operator :: rest) (pending ++ waiting) =
      ((pending ++ waiting).takeWhile (makesWay operator) ++ ·) <$>
        arrange rest (operator :: (pending ++ waiting).dropWhile (makesWay operator)) := by
    cases kind : operator.kind with
    | literal => simp [Token.strength, kind, Token.Kind.precedence] at positive
    | opening => simp [Token.strength, kind, Token.Kind.precedence] at positive
    | closing => simp [Token.strength, kind, Token.Kind.precedence] at positive
    | union => simp only [arrange, kind]
    | concat => simp only [arrange, kind]
    | closure => simp only [arrange, kind]
  rw [step, List.takeWhile_append_of_pos goes, List.dropWhile_append_of_pos goes, stays.1, stays.2, List.append_nil]

/-- What is taken from the stack ends before a token that is not taken. -/
theorem takeWhile_append_cons {p : Token → Bool} {t : Token} (stays : p t = false) (above below : List Token) :
    (above ++ t :: below).takeWhile p = above.takeWhile p ∧
      (above ++ t :: below).dropWhile p = above.dropWhile p ++ t :: below := by
  induction above with
  | nil => simp [stays]
  | cons u above ih => cases taken : p u <;> simp [taken, ih]

/-- Tokens are arranged in a group as they are on their own: what waits below its opening is not
    looked at before the group is closed. -/
theorem arrange_inside {tokens pending order : List Token} {opening closing : Token} (opens : opening.kind = .opening)
    (closes : closing.kind = .closing) (done : arrange tokens pending = .ok order) (rest waiting : List Token) :
    arrange (tokens ++ closing :: rest) (pending ++ opening :: waiting) = (order ++ ·) <$> arrange rest waiting := by
  have isOpen : isOpening opening = true := by simp [isOpening, opens]
  induction tokens generalizing pending order with
  | nil =>
    rw [arrange] at done
    split at done
    · cases done
    · rename_i noOpening
      cases done
      have goes : ∀ t ∈ pending, (!isOpening t) = true := by simpa using noOpening
      simp only [List.nil_append, arrange, closes]
      rw [List.takeWhile_append_of_pos goes, List.dropWhile_append_of_pos goes]
      simp [isOpen]
  | cons t tokens ih =>
    cases kind : t.kind with
    | literal =>
      simp only [arrange, kind] at done
      have done : ([t] ++ ·) <$> arrange tokens pending = .ok order := done
      obtain ⟨later, onward, rfl⟩ := map_eq_ok done
      simp only [List.cons_append, arrange, kind, ih onward]
      simp
    | opening =>
      simp only [arrange, kind] at done
      simp only [List.cons_append, arrange, kind]
      exact ih done
    | closing =>
      have stays : (!isOpening opening) = false := by simp [isOpen]
      obtain ⟨taken, kept⟩ := takeWhile_append_cons (p := (!isOpening ·)) stays pending waiting
      simp only [arrange, kind] at done
      simp only [List.cons_append, arrange, kind, taken, kept]
      split at done
      · cases done
      · rename_i u outer dropped
        obtain ⟨later, onward, rfl⟩ := map_eq_ok done
        simp [dropped, ih onward]
    | union | concat | closure =>
      have stays : makesWay t opening = false := by simp [makesWay, isOpen]
      obtain ⟨taken, kept⟩ := takeWhile_append_cons stays pending waiting
      simp only [arrange, kind] at done
      obtain ⟨later, onward, rfl⟩ := map_eq_ok done
      simp only [List.cons_append, arrange, kind, taken, kept]
      rw [← List.cons_append, ih onward]
      simp

/-- Whatever waits when a group begins waits still when it ends. -/
theorem arrange_group {tokens order : List Token} {opening closing : Token} (opens : opening.kind = .opening)
    (closes : closing.kind = .closing) (done : ofExplicit tokens = .ok order) (rest waiting : List Token) :
    arrange (opening :: tokens ++ closing :: rest) waiting = (order ++ ·) <$> arrange rest waiting := by
  rw [List.cons_append, arrange]
  simp only [opens]
  exact arrange_inside opens closes done rest waiting

namespace Arranges

theorem loosen {level looser : Level} {tokens order : List Token} (arranges : Arranges level tokens order)
    (loose : looser.strength ≤ level.strength) : Arranges looser tokens order := by
  obtain ⟨written, pending, split, waits, taken⟩ := arranges
  exact ⟨written, pending, split, waits.loosen loose, fun rest waiting rests =>
    taken rest waiting (rests.tighten loose)⟩

theorem ofExplicit {level : Level} {tokens order : List Token} (arranges : Arranges level tokens order) :
    ofExplicit tokens = .ok order := by
  obtain ⟨written, pending, rfl, waits, taken⟩ := arranges
  have noOpening : pending.find? isOpening = none := by
    rw [List.find?_eq_none]
    intro t member
    simp [not_opening_of_waits waits t member]
  have done := taken [] [] (by simp [Rests])
  rw [List.append_nil, List.append_nil] at done
  simp [Postorder.ofExplicit, done, arrange, noOpening]

theorem literal {t : Token} (kind : t.kind = .literal) : Arranges .atom [t] [t] := by
  refine ⟨[t], [], rfl, by simp [Waits], ?_⟩
  intro rest waiting _
  simp [arrange, kind]

theorem group {opening closing : Token} {tokens order : List Token} (opens : opening.kind = .opening)
    (closes : closing.kind = .closing) (inner : Arranges .sum tokens order) :
    Arranges .atom (opening :: tokens ++ [closing]) order := by
  refine ⟨order, [], List.append_nil _, by simp [Waits], ?_⟩
  intro rest waiting _
  simpa using arrange_group opens closes inner.ofExplicit rest waiting

/-- An operator after an expression of its own level: that one goes first. -/
theorem operator {level : Level} {operator : Token} {tokens order : List Token}
    (strength : operator.strength = level.strength) (first : Arranges level tokens order) :
    ∀ rest waiting, Rests level waiting →
      arrange (tokens ++ operator :: rest) waiting = (order ++ ·) <$> arrange rest (operator :: waiting) := by
  obtain ⟨written, pending, split, waits, taken⟩ := first
  intro rest waiting rests
  rw [taken _ waiting rests, arrange_operator strength waits rests]
  simp [← split]

theorem star {operator : Token} {tokens order : List Token} (kind : operator.kind = .closure)
    (operand : Arranges .power tokens order) : Arranges .power (tokens ++ [operator]) (order ++ [operator]) := by
  have strength := strength_of_closure kind
  refine ⟨order, [operator], rfl, by simp [Waits, strength], ?_⟩
  intro rest waiting rests
  rw [List.append_assoc]
  exact operand.operator strength rest waiting rests

/-- A second operand that is tighter than the operator is taken in above it. -/
theorem binary {level inner : Level} {operator : Token} {front back left right : List Token}
    (strength : operator.strength = level.strength) (tighter : level.strength < inner.strength)
    (first : Arranges level front left) (second : Arranges inner back right) :
    Arranges level (front ++ operator :: back) (left ++ right ++ [operator]) := by
  obtain ⟨written, pending, split, waits, taken⟩ := second
  refine ⟨left ++ written, pending ++ [operator], by simp [← split], ?_, ?_⟩
  · intro t member
    rcases List.mem_append.mp member with inside | last
    · exact waits.loosen (Nat.le_of_lt tighter) t inside
    · rw [List.mem_singleton.mp last, strength]
  · intro rest waiting rests
    have above : Rests inner (operator :: waiting) := by
      intro t top
      cases top
      rwa [strength]
    rw [List.append_assoc, List.cons_append, first.operator strength _ waiting rests, taken rest _ above]
    simp

end Arranges

/-- An expression that writes its concatenations is arranged as the postorder of its tree. -/
theorem arranges_of_reads {level : Level} {tokens : List Token} {tree : Tree} (reads : Reads true level tokens tree) :
    Arranges level tokens tree.postorder := by
  induction reads with
  | literal kind => exact .literal kind
  | group opens closes _ inner => exact .group opens closes inner
  | atom _ inner => exact inner.loosen (by decide)
  | star kind _ operand => exact .star kind operand
  | power _ inner => exact inner.loosen (by decide)
  | @concat operator front back left right joint _ _ first second =>
    cases operator with
    | none => cases joint
    | some operator =>
      have both := Arranges.binary (strength_of_concat joint.2) (by decide) first second
      simpa [Tree.postorder] using both
  | product _ inner => exact inner.loosen (by decide)
  | @union operator front back left right kind _ _ first second =>
    exact .binary (strength_of_union kind) (by decide) first second

/-- The postorder of an expression that writes its concatenations is that of its tree; it
    holds every token but the delimiters. -/
theorem ofExplicit_eq_postorder {tokens : List Token} {tree : Tree} (reads : Tree.ReadsExplicit tokens tree) :
    ofExplicit tokens = .ok tree.postorder ∧ tree.postorder.Perm (tokens.filter (!·.delimits)) := by
  have done := (arranges_of_reads reads).ofExplicit
  exact ⟨done, perm_of_ofExplicit done⟩

theorem ofExplicit_eq_postorder_nested : ∃ tree,
    Tree.ReadsExplicit (({} : Dialect).readExplicit "(a|b)**?c|d") tree ∧
      ofExplicit (({} : Dialect).readExplicit "(a|b)**?c|d") = .ok tree.postorder ∧
      tree.postorder.map Token.char = ['a', 'b', '|', '*', '*', 'c', '?', 'd', '|'] ∧
      tree.postorder.map Token.index = [1, 3, 2, 5, 6, 8, 7, 10, 9] := by
  have letter (c : Char) (n : Nat) : Reads true .power [⟨.literal, c, n⟩] (.literal ⟨.literal, c, n⟩) :=
    .atom (.literal rfl)
  have bar (n : Nat) : (⟨.union, '|', n⟩ : Token).kind = .union := rfl
  have star (n : Nat) : (⟨.closure, '*', n⟩ : Token).kind = .closure := rfl
  have joint (n : Nat) : Tree.Joint true (some ⟨.concat, '?', n⟩) := ⟨rfl, rfl⟩
  have opens : (⟨.opening, '(', 0⟩ : Token).kind = .opening := rfl
  have closes : (⟨.closing, ')', 4⟩ : Token).kind = .closing := rfl
  have choice := Reads.union (bar 2) (.product (.power (letter 'a' 1))) (.power (letter 'b' 3))
  have repeated := Reads.star (star 6) (.star (star 5) (.atom (.group opens closes choice)))
  have product := Reads.concat (joint 7) (.power repeated) (letter 'c' 8)
  have reads : Tree.ReadsExplicit (({} : Dialect).readExplicit "(a|b)**?c|d") _ :=
    .union (bar 9) (.product product) (.power (letter 'd' 10))
  exact ⟨_, reads, (ofExplicit_eq_postorder reads).1, rfl, rfl⟩

end Postorder

end RegexAutomaton
