import RegexAutomaton.Proofs.Realization
import RegexAutomaton.Tree

/-!
Token lists that are read alike. Of a token only its shape matters (`Reads.of_shape`). A part of an
expression may be exchanged: what stands around it is an expression with a hole (`Around`), and the
regular expression of the whole depends on that of the part only. The factors of a product
that continues another product are factors of one product (`Reads.juxtapose`).
-/
namespace RegexAutomaton

/-! ## What matters of a token -/

/-- What is left of a token without its position and, unless it is a literal, its character. -/
def Token.shape (t : Token) : Token.Kind × Option Char := (t.kind, if t.kind = .literal then some t.char else none)

theorem Token.kind_eq_of_shape {t u : Token} (same : t.shape = u.shape) : t.kind = u.kind :=
  congrArg Prod.fst same

theorem Token.char_eq_of_shape {t u : Token} (same : t.shape = u.shape) (kind : u.kind = .literal) :
    t.char = u.char := by
  have chars := congrArg Prod.snd same
  simpa [shape, kind, (kind_eq_of_shape same).trans kind] using chars

namespace Tree
variable {written : Bool} {level low : Level} {tokens front back : List Token} {tree left right : Tree}

theorem Joint.of_shape {operator : Option Token} (joint : Joint written operator)
    (same : tokens.map Token.shape = operator.toList.map Token.shape) :
    ∃ other : Option Token, tokens = other.toList ∧ Joint written other := by
  cases operator with
  | none => exact ⟨none, List.map_eq_nil_iff.mp same, joint⟩
  | some operator =>
    obtain ⟨other, rfl, shape⟩ := List.map_eq_singleton_iff.mp same
    exact ⟨some other, rfl, joint.1, (Token.kind_eq_of_shape shape).trans joint.2⟩

/-- Tokens of the same shapes are read in the same way. -/
theorem Reads.of_shape (reads : Reads written level tokens tree) :
    ∀ {others : List Token}, others.map Token.shape = tokens.map Token.shape →
      ∃ other, Reads written level others other ∧ other.regex = tree.regex := by
  induction reads with
  | @literal t kind =>
    intro others same
    obtain ⟨u, rfl, shape⟩ := List.map_eq_singleton_iff.mp same
    refine ⟨.literal u, .literal ((Token.kind_eq_of_shape shape).trans kind), ?_⟩
    exact congrArg Regex.symbol (Token.char_eq_of_shape shape kind)
  | @group opening closing tokens tree opens closes _ ih =>
    intro others same
    rw [List.map_append, List.map_cons] at same
    obtain ⟨start, ends, rfl, sameStart, sameEnds⟩ := List.map_eq_append_iff.mp same
    obtain ⟨first, inner, rfl, shapeFirst, sameInner⟩ := List.map_eq_cons_iff.mp sameStart
    obtain ⟨last, rfl, shapeLast⟩ := List.map_eq_singleton_iff.mp sameEnds
    obtain ⟨other, reads, regex⟩ := ih sameInner
    have opensToo := (Token.kind_eq_of_shape shapeFirst).trans opens
    have closesToo := (Token.kind_eq_of_shape shapeLast).trans closes
    exact ⟨other, .group opensToo closesToo reads, regex⟩
  | atom _ ih =>
    intro others same
    obtain ⟨other, reads, regex⟩ := ih same
    exact ⟨other, .atom reads, regex⟩
  | star kind _ ih =>
    intro others same
    rw [List.map_append] at same
    obtain ⟨inner, ends, rfl, sameInner, sameEnds⟩ := List.map_eq_append_iff.mp same
    obtain ⟨operator, rfl, shape⟩ := List.map_eq_singleton_iff.mp sameEnds
    obtain ⟨other, reads, regex⟩ := ih sameInner
    exact ⟨_, .star ((Token.kind_eq_of_shape shape).trans kind) reads, congrArg Regex.star regex⟩
  | power _ ih =>
    intro others same
    obtain ⟨other, reads, regex⟩ := ih same
    exact ⟨other, .power reads, regex⟩
  | @concat operator front back left right joint _ _ first second =>
    intro others same
    rw [List.map_append, List.map_append] at same
    obtain ⟨joined, last, rfl, sameJoined, sameLast⟩ := List.map_eq_append_iff.mp same
    obtain ⟨start, middle, rfl, sameStart, sameMiddle⟩ := List.map_eq_append_iff.mp sameJoined
    obtain ⟨_, rfl, jointToo⟩ := joint.of_shape sameMiddle
    obtain ⟨_, firstReads, firstRegex⟩ := first sameStart
    obtain ⟨_, secondReads, secondRegex⟩ := second sameLast
    exact ⟨_, .concat jointToo firstReads secondReads, congrArg₂ Regex.concat firstRegex secondRegex⟩
  | product _ ih =>
    intro others same
    obtain ⟨other, reads, regex⟩ := ih same
    exact ⟨other, .product reads, regex⟩
  | union kind _ _ first second =>
    intro others same
    rw [List.map_append, List.map_cons] at same
    obtain ⟨start, rest, rfl, sameStart, sameRest⟩ := List.map_eq_append_iff.mp same
    obtain ⟨operator, last, rfl, shape, sameLast⟩ := List.map_eq_cons_iff.mp sameRest
    obtain ⟨_, firstReads, firstRegex⟩ := first sameStart
    obtain ⟨_, secondReads, secondRegex⟩ := second sameLast
    exact ⟨_, .union ((Token.kind_eq_of_shape shape).trans kind) firstReads secondReads,
      congrArg₂ Regex.union firstRegex secondRegex⟩

/-! ## Expressions with a hole -/

/-- What may stand before and after an expression of the level `low` to make one of another level,
    and what this makes of its regular expression. -/
inductive Around (written : Bool) (low : Level) :
    Level → List Token → List Token → (Regex Char → Regex Char) → Prop where
  | hole : Around written low low [] [] id
  | group {opening closing : Token} {front back : List Token} {plug : Regex Char → Regex Char}
      (opens : opening.kind = .opening) (closes : closing.kind = .closing)
      (inner : Around written low .sum front back plug) :
      Around written low .atom (opening :: front) (back ++ [closing]) plug
  | atom {front back : List Token} {plug : Regex Char → Regex Char}
      (inner : Around written low .atom front back plug) :
      Around written low .power front back plug
  | star {operator : Token} {front back : List Token} {plug : Regex Char → Regex Char}
      (kind : operator.kind = .closure) (operand : Around written low .power front back plug) :
      Around written low .power front (back ++ [operator]) fun r => .star (plug r)
  | power {front back : List Token} {plug : Regex Char → Regex Char}
      (inner : Around written low .power front back plug) :
      Around written low .product front back plug
  | first {operator : Option Token} {front back tokens : List Token} {plug : Regex Char → Regex Char} {right : Tree}
      (joint : Joint written operator) (first : Around written low .product front back plug)
      (second : Reads written .power tokens right) :
      Around written low .product front (back ++ operator.toList ++ tokens) fun r => .concat (plug r) right.regex
  | second {operator : Option Token} {front back tokens : List Token} {plug : Regex Char → Regex Char} {left : Tree}
      (joint : Joint written operator) (first : Reads written .product tokens left)
      (second : Around written low .power front back plug) :
      Around written low .product (tokens ++ operator.toList ++ front) back fun r => .concat left.regex (plug r)
  | product {front back : List Token} {plug : Regex Char → Regex Char}
      (inner : Around written low .product front back plug) :
      Around written low .sum front back plug
  | left {operator : Token} {front back tokens : List Token} {plug : Regex Char → Regex Char} {right : Tree}
      (kind : operator.kind = .union) (first : Around written low .sum front back plug)
      (second : Reads written .product tokens right) :
      Around written low .sum front (back ++ operator :: tokens) fun r => .union (plug r) right.regex
  | right {operator : Token} {front back tokens : List Token} {plug : Regex Char → Regex Char} {left : Tree}
      (kind : operator.kind = .union) (first : Reads written .sum tokens left)
      (second : Around written low .product front back plug) :
      Around written low .sum (tokens ++ operator :: front) back fun r => .union left.regex (plug r)

namespace Around
variable {plug : Regex Char → Regex Char}

/-- An expression in the place of the hole. -/
theorem reads (around : Around written low level front back plug) (inner : Reads written low tokens tree) :
    ∃ whole, Reads written level (front ++ tokens ++ back) whole ∧ whole.regex = plug tree.regex := by
  induction around with
  | hole => exact ⟨tree, by simpa using inner, rfl⟩
  | group opens closes _ ih =>
    obtain ⟨whole, reads, regex⟩ := ih
    exact ⟨whole, by simpa using Reads.group opens closes reads, regex⟩
  | atom _ ih =>
    obtain ⟨whole, reads, regex⟩ := ih
    exact ⟨whole, .atom reads, regex⟩
  | @star operator _ _ _ kind _ ih =>
    obtain ⟨whole, reads, regex⟩ := ih
    exact ⟨.star operator whole, by simpa using Reads.star kind reads, by simp [Tree.regex, regex]⟩
  | power _ ih =>
    obtain ⟨whole, reads, regex⟩ := ih
    exact ⟨whole, .power reads, regex⟩
  | @first operator _ _ _ _ right joint _ second ih =>
    obtain ⟨whole, reads, regex⟩ := ih
    exact ⟨.concat operator whole right, by simpa using Reads.concat joint reads second, by simp [Tree.regex, regex]⟩
  | @second operator _ _ _ _ left joint first _ ih =>
    obtain ⟨whole, reads, regex⟩ := ih
    exact ⟨.concat operator left whole, by simpa using Reads.concat joint first reads, by simp [Tree.regex, regex]⟩
  | product _ ih =>
    obtain ⟨whole, reads, regex⟩ := ih
    exact ⟨whole, .product reads, regex⟩
  | @left operator _ _ _ _ right kind _ second ih =>
    obtain ⟨whole, reads, regex⟩ := ih
    exact ⟨.union operator whole right, by simpa using Reads.union kind reads second, by simp [Tree.regex, regex]⟩
  | @right operator _ _ _ _ left kind first _ ih =>
    obtain ⟨whole, reads, regex⟩ := ih
    exact ⟨.union operator left whole, by simpa using Reads.union kind first reads, by simp [Tree.regex, regex]⟩

theorem regrouped {r q : Regex Char} (around : Around written low level front back plug) (same : r.Regrouped q) :
    (plug r).Regrouped (plug q) := by
  induction around with
  | hole => exact same
  | group _ _ _ ih => exact ih
  | atom _ ih => exact ih
  | star _ _ ih => exact .star ih
  | power _ ih => exact ih
  | first _ _ _ ih => exact .concat ih (.refl _)
  | second _ _ _ ih => exact .concat (.refl _) ih
  | product _ ih => exact ih
  | left _ _ _ ih => exact .union ih (.refl _)
  | right _ _ _ ih => exact .union (.refl _) ih

end Around

theorem Reads.toSum (reads : Reads written level tokens tree) : Reads written .sum tokens tree := by
  cases level with
  | atom => exact .product (.power (.atom reads))
  | power => exact .product (.power reads)
  | product => exact .product reads
  | sum => exact reads

theorem Reads.ofAtom (reads : Reads written .atom tokens tree) (level : Level) : Reads written level tokens tree := by
  cases level with
  | atom => exact reads
  | power => exact .atom reads
  | product => exact .power (.atom reads)
  | sum => exact .product (.power (.atom reads))

/-- Two products that stand side by side are a product, grouped in another way. -/
theorem Reads.juxtapose (first : Reads false .product front left) :
    ∀ {back : List Token} {right : Tree}, Reads false .product back right →
      ∃ tree, Reads false .product (front ++ back) tree ∧ tree.regex.Regrouped (.concat left.regex right.regex)
  -- Products group to the left, so the factors of the second one are joined one by one.
  | _, _, .power inner => by
    have joint : Joint false none := rfl
    have both := Reads.concat joint first inner
    exact ⟨_, by simpa using both, .refl _⟩
  | _, _, @Reads.concat _ operator _ _ _ _ joint start last => by
    obtain ⟨tree, reads, same⟩ := first.juxtapose start
    have all := Reads.concat joint reads last
    rw [List.append_assoc, List.append_assoc, ← List.append_assoc _ operator.toList] at all
    refine ⟨_, all, ?_⟩
    exact (Regex.Regrouped.concat same (.refl _)).trans (.assoc _ _ _)

end Tree

end RegexAutomaton
