import RegexAutomaton.Explicit
import RegexAutomaton.Tree

/-!
From expressions that leave their concatenations out to expressions that write them. Of
two lists that are put together, each is made explicit on its own, and at most one
concatenation comes between them (`makeExplicit_append`). In an expression it comes
exactly between the factors of a product, so the explicit expression has a tree with the
same operators and operands (`exists_readsExplicit`).
-/
namespace RegexAutomaton

namespace Dialect

/-- The concatenation that is written between two tokens, if one is needed there. -/
def between (d : Dialect) : Option Token → Option Token → Option Token
  | some t, some u => if t.adjoins u then some (d.concat u.index) else none
  | _, _ => none

theorem makeExplicit_append (d : Dialect) (front back : List Token) :
    d.makeExplicit (front ++ back) =
      d.makeExplicit front ++ (d.between front.getLast? back.head?).toList ++ d.makeExplicit back := by
  match front with
  | [] => simp [makeExplicit, between]
  | [t] =>
    cases back with
    | nil => simp [makeExplicit, between]
    | cons u rest =>
      by_cases adjoins : t.adjoins u = true
      · simp [makeExplicit, between, adjoins]
      · simp [makeExplicit, between, adjoins]
  | t :: u :: rest =>
    have later := d.makeExplicit_append (u :: rest) back
    have last : (t :: u :: rest).getLast? = (u :: rest).getLast? := List.getLast?_cons_cons
    rw [List.cons_append] at later
    by_cases adjoins : t.adjoins u = true
    · simp [makeExplicit, adjoins, later, last]
    · simp [makeExplicit, adjoins, later, last]

/-- What an explicit list holds: the tokens that were there before, and concatenations, each
    between two of them that adjoin, with the position of the second. -/
theorem exists_pair_of_mem_makeExplicit {d : Dialect} {tokens : List Token} {t : Token}
    (inside : t ∈ d.makeExplicit tokens) :
    t ∈ tokens ∨ ∃ front u v back, tokens = front ++ u :: v :: back ∧ u.adjoins v = true ∧ t = d.concat v.index := by
  fun_induction makeExplicit d tokens with
  | case1 => exact .inl inside
  | case2 => exact .inl inside
  | case3 u v rest adjoin ih =>
    rcases List.mem_cons.mp inside with rfl | inside
    · exact .inl (.head _)
    rcases List.mem_cons.mp inside with rfl | inside
    · exact .inr ⟨[], u, v, rest, rfl, adjoin, rfl⟩
    · refine (ih inside).imp (.tail u) ?_
      rintro ⟨front, x, y, back, split, adjoins, same⟩
      exact ⟨u :: front, x, y, back, by rw [split]; rfl, adjoins, same⟩
  | case4 u v rest apart ih =>
    rcases List.mem_cons.mp inside with rfl | inside
    · exact .inl (.head _)
    · refine (ih inside).imp (.tail u) ?_
      rintro ⟨front, x, y, back, split, adjoins, same⟩
      exact ⟨u :: front, x, y, back, by rw [split]; rfl, adjoins, same⟩

/-- What passes over the written concatenations finds the list as it was. -/
theorem filter_makeExplicit (d : Dialect) {p : Token → Bool} (skips : ∀ index, p (d.concat index) = false)
    (tokens : List Token) : (d.makeExplicit tokens).filter p = tokens.filter p := by
  match tokens with
  | [] => rfl
  | [t] => rfl
  | t :: u :: rest =>
    have later := d.filter_makeExplicit skips (u :: rest)
    rw [makeExplicit]
    split
    · rw [List.filter_cons, List.filter_cons_of_neg (by simp [skips]), later, ← List.filter_cons]
    · rw [List.filter_cons, later, ← List.filter_cons]

theorem between_of_not_begins (d : Dialect) (left : Option Token) {u : Token} (not : u.kind.canBeginOperand = false) :
    d.between left (some u) = none := by
  cases left with
  | none => rfl
  | some t => simp [between, Token.adjoins, not]

theorem between_of_not_ends (d : Dialect) {t : Token} (right : Option Token) (not : t.kind.canEndOperand = false) :
    d.between (some t) right = none := by
  cases right with
  | none => rfl
  | some u => simp [between, Token.adjoins, not]

/-- Inside its delimiters a group is made explicit on its own. -/
theorem makeExplicit_group (d : Dialect) {opening closing : Token} (opens : opening.kind = .opening)
    (closes : closing.kind = .closing) (tokens : List Token) :
    d.makeExplicit (opening :: tokens ++ [closing]) = opening :: d.makeExplicit tokens ++ [closing] := by
  have left : d.between [opening].getLast? tokens.head? = none :=
    d.between_of_not_ends _ (by simp [opens, Token.Kind.canEndOperand])
  have right : ∀ last, d.between last [closing].head? = none := fun last =>
    d.between_of_not_begins last (by simp [closes, Token.Kind.canBeginOperand])
  rw [d.makeExplicit_append, right, ← List.singleton_append, d.makeExplicit_append, left]
  simp [makeExplicit]

/-- No concatenation comes beside a union. -/
theorem makeExplicit_union (d : Dialect) {operator : Token} (kind : operator.kind = .union) (front back : List Token) :
    d.makeExplicit (front ++ operator :: back) = d.makeExplicit front ++ operator :: d.makeExplicit back := by
  have before : d.between front.getLast? (operator :: back).head? = none :=
    d.between_of_not_begins _ (by simp [kind, Token.Kind.canBeginOperand])
  have after : d.between [operator].getLast? back.head? = none :=
    d.between_of_not_ends _ (by simp [kind, Token.Kind.canEndOperand])
  rw [d.makeExplicit_append, before, ← List.singleton_append, d.makeExplicit_append, after]
  simp [makeExplicit]

end Dialect

namespace Tree
open Token.Kind (canBeginOperand canEndOperand)

/-- An expression begins where an operand can begin, and ends where one can end. -/
theorem Reads.ends {written : Bool} {level : Level} {tokens : List Token} {tree : Tree}
    (reads : Reads written level tokens tree) :
    (∃ t, tokens.head? = some t ∧ t.kind.canBeginOperand = true) ∧
      ∃ t, tokens.getLast? = some t ∧ t.kind.canEndOperand = true := by
  induction reads with
  | @literal t kind => exact ⟨⟨t, rfl, by simp [kind, canBeginOperand]⟩, t, rfl, by simp [kind, canEndOperand]⟩
  | @group opening closing tokens tree opens closes _ _ =>
    have last : (opening :: tokens ++ [closing]).getLast? = some closing := List.getLast?_concat
    exact ⟨⟨opening, rfl, by simp [opens, canBeginOperand]⟩, closing, last, by simp [closes, canEndOperand]⟩
  | atom _ ih => exact ih
  | @star operator tokens tree kind _ ih =>
    obtain ⟨⟨first, head, begins⟩, -⟩ := ih
    exact ⟨⟨first, by simp [head], begins⟩, operator, by simp, by simp [kind, canEndOperand]⟩
  | power _ ih => exact ih
  | concat _ _ _ first second =>
    obtain ⟨⟨t, head, begins⟩, -⟩ := first
    obtain ⟨-, u, last, ends⟩ := second
    exact ⟨⟨t, by simp [head], begins⟩, u, by simp [last], ends⟩
  | product _ ih => exact ih
  | union _ _ _ first second =>
    obtain ⟨⟨t, head, begins⟩, -⟩ := first
    obtain ⟨-, u, last, ends⟩ := second
    exact ⟨⟨t, by simp [head], begins⟩, u, by simp [List.getLast?_cons, last], ends⟩

/-- An expression that leaves its concatenations out is, with these written, an expression
    for the same regular expression. -/
theorem exists_readsExplicit (d : Dialect) {level : Level} {tokens : List Token} {tree : Tree}
    (reads : Reads false level tokens tree) :
    ∃ explicit, Reads true level (d.makeExplicit tokens) explicit ∧ explicit.regex = tree.regex := by
  induction reads with
  | @literal t kind => exact ⟨.literal t, .literal kind, rfl⟩
  | @group opening closing tokens tree opens closes inner ih =>
    obtain ⟨explicit, reads, same⟩ := ih
    rw [d.makeExplicit_group opens closes]
    exact ⟨explicit, .group opens closes reads, same⟩
  | atom _ ih =>
    obtain ⟨explicit, reads, same⟩ := ih
    exact ⟨explicit, .atom reads, same⟩
  | @star operator tokens tree kind _ ih =>
    obtain ⟨explicit, reads, same⟩ := ih
    have apart : d.between tokens.getLast? [operator].head? = none :=
      d.between_of_not_begins _ (by simp [kind, canBeginOperand])
    have shape : d.makeExplicit (tokens ++ [operator]) = d.makeExplicit tokens ++ [operator] := by
      rw [d.makeExplicit_append, apart]
      simp [Dialect.makeExplicit]
    rw [shape]
    exact ⟨.star operator explicit, .star kind reads, congrArg Regex.star same⟩
  | power _ ih =>
    obtain ⟨explicit, reads, same⟩ := ih
    exact ⟨explicit, .power reads, same⟩
  | @concat operator front back left right joint first second ihFirst ihSecond =>
    cases operator with
    | some operator => cases joint.1
    | none =>
      obtain ⟨leftExplicit, leftReads, leftSame⟩ := ihFirst
      obtain ⟨rightExplicit, rightReads, rightSame⟩ := ihSecond
      obtain ⟨-, t, last, ends⟩ := first.ends
      obtain ⟨⟨u, head, begins⟩, -⟩ := second.ends
      have meets : d.between front.getLast? back.head? = some (d.concat u.index) := by
        simp [last, head, Dialect.between, Token.adjoins, ends, begins]
      have shape : d.makeExplicit (front ++ (none : Option Token).toList ++ back) =
          d.makeExplicit front ++ (some (d.concat u.index)).toList ++ d.makeExplicit back := by
        rw [Option.toList_none, List.append_nil, d.makeExplicit_append, meets]
      rw [shape]
      refine ⟨.concat (some (d.concat u.index)) leftExplicit rightExplicit, .concat ⟨rfl, rfl⟩ leftReads rightReads, ?_⟩
      simp [regex, leftSame, rightSame]
  | product _ ih =>
    obtain ⟨explicit, reads, same⟩ := ih
    exact ⟨explicit, .product reads, same⟩
  | @union operator front back left right kind first second ihFirst ihSecond =>
    obtain ⟨leftExplicit, leftReads, leftSame⟩ := ihFirst
    obtain ⟨rightExplicit, rightReads, rightSame⟩ := ihSecond
    rw [d.makeExplicit_union kind]
    refine ⟨.union operator leftExplicit rightExplicit, .union kind leftReads rightReads, ?_⟩
    simp [regex, leftSame, rightSame]

end Tree

end RegexAutomaton
