import RegexAutomaton.Proofs.Matching
import RegexAutomaton.Proofs.Paraphrase
import RegexAutomaton.Proofs.Relocation
import RegexAutomaton.Proofs.StackHeight

/-!
Operands that a group can take from outside. Delimiters leave no trace in the postorder, so an
operator that lacks operands in its group may find some in front of it. How many there are is
known: when a concatenation arrives behind an expression, the last union outside all groups
still waits (`LastUnion`), with its two operands, and without such a union there is one operand
(`exists_lead`). These are counted together with those of the group (`FirstStopWith`), which
decides what is blamed: an operator of the group, the concatenation before it, or that
union (`compile_append_group`).
-/
namespace RegexAutomaton

namespace Token

/-- No token stops the assembly if there are `spare` operands before them. -/
def PassesWith (spare : Nat) (tokens : List Token) : Prop :=
  ∀ front t back, tokens = front ++ t :: back → ¬ Stops (spare + height front) t

/-- If there are `spare` operands before the tokens, then the token stops the assembly, and none of
    those in front of it does. -/
def FirstStopWith (spare : Nat) (tokens front : List Token) (t : Token) : Prop :=
  (∃ back, tokens = front ++ t :: back) ∧ PassesWith spare front ∧ Stops (spare + height front) t

variable {lead tokens front back : List Token} {t : Token} {spare : Nat}

theorem height_append (front back : List Token) : height (front ++ back) = height front + height back := by
  simp only [height, literals, joints, List.countP_append]
  omega

theorem height_relocate (place : Nat → Nat) (tokens : List Token) :
    height (tokens.map (relocate place)) = height tokens := by
  simp only [height, literals, joints, List.countP_map]
  rfl

/-- With fewer operands a token that stops does so too. -/
theorem Stops.of_le {lower higher : Int} (stops : Stops higher t) (le : lower ≤ higher) : Stops lower t := by
  obtain ⟨kind, char, index⟩ := t
  cases kind with
  | literal => exact stops
  | opening => trivial
  | closing => trivial
  | union | concat | closure => exact Int.lt_of_le_of_lt le stops

theorem Passes.relocate_with (passes : Passes tokens) (place : Nat → Nat) (spare : Nat) :
    PassesWith spare (tokens.map (relocate place)) := by
  intro front t back split stops
  obtain ⟨front, rest, rfl, rfl, same⟩ := List.map_eq_append_iff.mp split
  obtain ⟨t, back, rfl, rfl, -⟩ := List.map_eq_cons_iff.mp same
  rw [height_relocate] at stops
  exact passes front t back rfl (stops.of_le (Int.le_add_of_nonneg_left (Int.natCast_nonneg spare)))

/-- What stops first still does so if it stops with the further operands. -/
theorem FirstStop.relocate_with (first : FirstStop tokens front t) (place : Nat → Nat) (behind : List Token)
    (stops : Stops (spare + height front) t) :
    FirstStopWith spare (tokens.map (relocate place) ++ behind) (front.map (relocate place)) (t.relocate place) := by
  obtain ⟨⟨back, rfl⟩, passes, -⟩ := first
  refine ⟨⟨back.map (relocate place) ++ behind, by simp⟩, passes.relocate_with place spare, ?_⟩
  rw [height_relocate]
  exact stops

theorem passes_append (left : height lead = spare) :
    Passes (lead ++ tokens) ↔ Passes lead ∧ PassesWith spare tokens := by
  constructor
  · intro passes
    refine ⟨fun front t back split => passes front t (back ++ tokens) (by simp [split]), ?_⟩
    intro front t back split
    have later := passes (lead ++ front) t back (by simp [split])
    rwa [height_append, left] at later
  · rintro ⟨first, second⟩ front t back split
    rcases exists_of_append_eq split with ⟨before, rfl, inside⟩ | ⟨between, inside, -⟩
    · rw [height_append, left]
      exact second before t back inside
    · exact first front t between inside

/-- What stops behind tokens that pass is what stops with the operands that these leave. -/
theorem firstStop_append (passes : Passes lead) (left : height lead = spare) :
    FirstStop (lead ++ tokens) front t ↔ ∃ before, front = lead ++ before ∧ FirstStopWith spare tokens before t := by
  constructor
  · rintro ⟨⟨back, split⟩, passesToo, stops⟩
    rcases exists_of_append_eq split with ⟨before, rfl, inside⟩ | ⟨between, inside, -⟩
    · rw [height_append, left] at stops
      exact ⟨before, rfl, ⟨back, inside⟩, ((passes_append left).mp passesToo).2, stops⟩
    · exact absurd stops (passes front t between inside)
  · rintro ⟨before, rfl, ⟨back, rfl⟩, later, stops⟩
    refine ⟨⟨back, by simp⟩, (passes_append left).mpr ⟨passes, later⟩, ?_⟩
    rwa [height_append, left]

theorem unclosed_of_matched (within : ¬ Overclosed tokens) (closed : ¬ Underclosed tokens) :
    unclosed [] tokens = .ok [] := by
  obtain ⟨left, groups⟩ := exists_of_not_overclosed within
  obtain rfl : left = [] := not_not.mp (mt (underclosed_iff_of_ok groups).mpr closed)
  exact groups

theorem passes_of_composeAll {made : List (Regex Char)} (composed : composeAll [] tokens = some made) :
    Passes tokens ∧ height tokens = made.length := by
  refine ⟨?_, height_of_composeAll composed⟩
  rintro front t back rfl stops
  rw [composeAll_append] at composed
  obtain ⟨stack, before, composed⟩ := Option.bind_eq_some_iff.mp composed
  rw [height_of_composeAll before, ← compose_eq_none_iff_stops] at stops
  simp [composeAll, stops] at composed

end Token

namespace Dialect
open Token (Balanced FirstStop FirstStopWith Passes PassesWith Stops height literals joints relocate unclosed)
open RegexAutomaton.Tree (Reads Readable)
variable {d : Dialect} {expression front inner : String} {tokens order lead : List Token}

/-! ## What stands in front of a group -/

/-- The last union outside all groups, if there is one. -/
def LastUnion (tokens : List Token) : Option Token → Prop
  | none => Readable .product tokens
  | some operator => ∃ front back, tokens = front ++ operator :: back ∧ operator.kind = .union ∧
      Readable .sum front ∧ Readable .product back

/-- When a concatenation arrives behind an expression, the operands of its last union are on the
    stack, and the union waits; without one there is one operand. -/
theorem exists_lead (d : Dialect) (readable : Readable .sum tokens) :
    ∃ last lead, LastUnion tokens last ∧ Passes lead ∧ height lead = ((1 + last.toList.length : Nat) : Int) ∧
      ∀ operator rest, operator.kind = .concat →
        Postorder.arrange (d.makeExplicit tokens ++ operator :: rest) [] =
          (lead ++ ·) <$> Postorder.arrange rest (operator :: last.toList) := by
  obtain ⟨tree, reads⟩ := readable
  cases reads with
  | product inner =>
    obtain ⟨explicit, written, -⟩ := Tree.exists_readsExplicit d inner
    obtain ⟨passes, left⟩ := Token.passes_of_composeAll (Token.composeAll_postorder written [])
    refine ⟨none, explicit.postorder, ⟨_, inner⟩, passes, left, ?_⟩
    intro operator rest kind
    exact (Postorder.arranges_of_reads written).operator (Postorder.strength_of_concat kind) rest [] (by simp [Postorder.Rests])
  | @union union front back _ _ kind first second =>
    obtain ⟨leftTree, leftWritten, -⟩ := Tree.exists_readsExplicit d first
    obtain ⟨rightTree, rightWritten, -⟩ := Tree.exists_readsExplicit d second
    have composed : Token.composeAll [] (leftTree.postorder ++ rightTree.postorder) =
        some [rightTree.regex, leftTree.regex] := by
      rw [Token.composeAll_append, Token.composeAll_postorder leftWritten, Option.bind_some,
        Token.composeAll_postorder rightWritten]
    obtain ⟨passes, left⟩ := Token.passes_of_composeAll composed
    refine ⟨some union, leftTree.postorder ++ rightTree.postorder, ?_, passes, left, ?_⟩
    · exact ⟨front, back, rfl, kind, ⟨_, first⟩, _, second⟩
    · intro operator rest isConcat
      have weak := Postorder.strength_of_union kind
      have below : Postorder.Rests .product [union] := by
        intro t top
        cases top
        rw [weak]
        decide
      have before := (Postorder.arranges_of_reads leftWritten).operator weak
        (d.makeExplicit back ++ operator :: rest) [] (by simp [Postorder.Rests])
      have after := (Postorder.arranges_of_reads rightWritten).operator (Postorder.strength_of_concat isConcat) rest
        [union] below
      rw [d.makeExplicit_union kind, List.append_assoc, List.cons_append, before, after]
      simp

/-! ## The group -/

theorem read_group (groups : d.Groups) (text : String) :
    read d.kindOf (d.group text) =
      ⟨.opening, d.opening, 0⟩ :: (read d.kindOf text).map (relocate (· + 1)) ++
        [⟨.closing, d.closing, text.toList.length + 1⟩] := by
  have single (c : Char) : read d.kindOf (String.singleton c) = [⟨d.kindOf c, c, 0⟩] := by simp [read]
  rw [group, read_append, read_append, single, single, groups.1, groups.2]
  simp [relocate, Nat.add_comm]

/-- If the delimiters of a text match, then the group of the text has a postorder, and wherever the
    group comes it is put into this order, whatever waits there. -/
theorem exists_order_of_group (groups : d.Groups) {text : String} (balanced : Balanced (read d.kindOf text)) :
    ∃ order, Postorder.ofExplicit (d.makeExplicit (read d.kindOf (d.group text))) = .ok order ∧
      ∀ place rest waiting,
        Postorder.arrange ((d.makeExplicit (read d.kindOf (d.group text))).map (relocate place) ++ rest) waiting =
          (order.map (relocate place) ++ ·) <$> Postorder.arrange rest waiting := by
  have settles := d.ofExplicit_settles (read d.kindOf text)
  rw [Token.balanced_iff.mp balanced] at settles
  obtain ⟨order, done, -⟩ := settles
  have moved (place : Nat → Nat) (tokens order : List Token) (done : Postorder.ofExplicit tokens = .ok order) :
      Postorder.ofExplicit (tokens.map (relocate place)) = .ok (order.map (relocate place)) := by
    rw [Postorder.ofExplicit_relocate, done]
    rfl
  have arranges (place : Nat → Nat) (rest waiting : List Token) :
      Postorder.arrange ((d.makeExplicit (read d.kindOf (d.group text))).map (relocate place) ++ rest) waiting =
        ((order.map (relocate (· + 1))).map (relocate place) ++ ·) <$> Postorder.arrange rest waiting := by
    have inner := moved place _ _ (moved (· + 1) _ _ done)
    rw [read_group groups, d.makeExplicit_group rfl rfl, makeExplicit_relocate]
    have opens : (relocate place ⟨.opening, d.opening, 0⟩).kind = .opening := rfl
    have closes : (relocate place ⟨.closing, d.closing, text.toList.length + 1⟩).kind = .closing := rfl
    simpa using Postorder.arrange_group opens closes inner rest waiting
  refine ⟨order.map (relocate (· + 1)), ?_, arranges⟩
  have alone := arranges id [] []
  rw [show relocate id = id from rfl, List.map_id, List.map_id, List.append_nil] at alone
  simpa [Postorder.ofExplicit, Postorder.arrange] using alone

/-! ## An expression and a group behind it -/

/-- The concatenation before a group behind an expression, and the union that still waits there. -/
def afterGroup (d : Dialect) (index : Nat) (last : Option Token) : List Token := d.concat index :: last.toList

theorem height_afterGroup {last : Option Token} (readable : LastUnion tokens last) (index : Nat) :
    height (d.afterGroup index last) = -((1 + last.toList.length : Nat) : Int) := by
  cases last with
  | none => rfl
  | some operator =>
    obtain ⟨front, back, -, kind, -⟩ := readable
    simp [afterGroup, height, literals, joints, concat, Token.Kind.arity, kind]

theorem makeExplicit_append_group (groups : d.Groups) (readable : Readable .sum (read d.kindOf front)) (inner : String) :
    d.makeExplicit (read d.kindOf (front ++ d.group inner)) =
      d.makeExplicit (read d.kindOf front) ++ d.concat front.toList.length ::
        (d.makeExplicit (read d.kindOf (d.group inner))).map (relocate (· + front.toList.length)) := by
  obtain ⟨_, reads⟩ := readable
  obtain ⟨-, t, last, ends⟩ := reads.ends
  have meets : d.between (read d.kindOf front).getLast?
      ((read d.kindOf (d.group inner)).map (relocate (· + front.toList.length))).head? =
        some (d.concat front.toList.length) := by
    rw [read_group groups, last]
    simp [between, Token.adjoins, ends, relocate, Token.Kind.canBeginOperand]
  rw [read_append, d.makeExplicit_append, meets, makeExplicit_relocate]
  simp

/-- The postorder of a group stands in that of an expression with the group behind it, after all
    tokens of the expression but the last union. -/
theorem order_append_group (groups : d.Groups) (readable : Readable .sum (read d.kindOf front))
    (balanced : Balanced (read d.kindOf inner)) :
    ∃ last lead order, LastUnion (read d.kindOf front) last ∧ Passes lead ∧
      height lead = ((1 + last.toList.length : Nat) : Int) ∧
      Postorder.ofExplicit (d.makeExplicit (read d.kindOf (d.group inner))) = .ok order ∧
      Postorder.ofExplicit (d.makeExplicit (read d.kindOf (front ++ d.group inner))) =
        .ok (lead ++ (order.map (relocate (· + front.toList.length)) ++ d.afterGroup front.toList.length last)) := by
  obtain ⟨last, lead, isLast, passes, left, arranges⟩ := exists_lead d readable
  obtain ⟨order, done, isolated⟩ := exists_order_of_group groups balanced
  refine ⟨last, lead, order, isLast, passes, left, done, ?_⟩
  have waiting : Postorder.arrange [] (d.afterGroup front.toList.length last) =
      .ok (d.afterGroup front.toList.length last) := by
    cases last with
    | none => rfl
    | some operator =>
      obtain ⟨_, _, -, kind, -⟩ := isLast
      simp [Postorder.arrange, afterGroup, concat, Postorder.isOpening, kind]
  have inside := isolated (· + front.toList.length) [] (d.afterGroup front.toList.length last)
  rw [List.append_nil, waiting] at inside
  rw [Postorder.ofExplicit, makeExplicit_append_group groups readable, arranges _ _ rfl]
  exact congrArg ((lead ++ ·) <$> ·) inside

/-- Tokens that would leave an operand are an expression, even if some of their operators lack
    operands where they stand. -/
theorem exists_reads_of_height (closed : unclosed [] (read d.kindOf expression) = .ok [])
    (done : Postorder.ofExplicit (d.makeExplicit (read d.kindOf expression)) = .ok order) (positive : 0 < height order) :
    ∃ tree, Tree.ReadsImplicit (read d.kindOf expression) tree := by
  have kept := Postorder.perm_of_ofExplicit done
  rw [height, Token.literals_kept kept, Token.joints_kept kept] at positive
  exact exists_reads_of_literals (d := d) kind_ne_concat_of_mem_read closed (by omega)

theorem exists_firstStop_of_compile (absent : d.marker ∉ expression.toList)
    (done : Postorder.ofExplicit (d.makeExplicit (read d.kindOf expression)) = .ok order) {operator : Char}
    {index expected found : Nat} (failed : d.compile expression = .error (.missingOperand operator index expected found)) :
    ∃ ahead t, FirstStop order ahead t ∧ t.delimits = false ∧ height ahead = found ∧ operator = t.char ∧
      index = t.index ∧ expected = t.kind.arity := by
  have inner := Postorder.not_delimits_of_ofExplicit done
  obtain ⟨ahead, t, _, first, same, -, fault⟩ :=
    exists_firstStop_of_error inner ((compile_eq_error_iff absent done).mp failed) rfl
  cases fault
  exact ⟨ahead, t, first, inner t first.mem, same, rfl, rfl, rfl⟩

/-- A group that leaves no operand leaves none behind an expression either, so something stops. -/
theorem not_passes_append_group {last : Option Token} (isLast : LastUnion tokens last)
    (left : height lead = ((1 + last.toList.length : Nat) : Int)) (low : height order ≤ 0) (place : Nat → Nat)
    (index : Nat) : ¬ Passes (lead ++ (order.map (relocate place) ++ d.afterGroup index last)) := by
  intro passes
  obtain ⟨made, composed⟩ := Token.exists_composeAll_of_passes passes
  have filled := List.length_pos_iff.mpr (Token.composeAll_ne_nil composed (.inl (by simp [afterGroup])))
  have total := Token.height_of_composeAll composed
  rw [Token.height_append, Token.height_append, Token.height_relocate, left, height_afterGroup isLast] at total
  omega

/-- Behind an expression a group whose delimiters match, and which on its own is refused because an
    operator lacks operands, is refused for this reason too. But its operators can take the
    operands that are in front of it: one, or two if there is a union outside all groups. If
    the same operator lacks operands even with these, then it is blamed; and otherwise the
    first that does in the postorder of the group, or the concatenation in front of the group, or
    that union. -/
theorem compile_append_group (groups : d.Groups) {c : Compiled} (compiled : d.compile front = .ok c)
    (balanced : Balanced (read d.kindOf inner)) {operator : Char} {index expected found : Nat}
    (failed : d.compile (d.group inner) = .error (.missingOperand operator index expected found)) :
    ∃ last order before t, ∃ spare count : Nat, LastUnion (read d.kindOf front) last ∧ spare = 1 + last.toList.length ∧
      Postorder.ofExplicit (d.makeExplicit (read d.kindOf (d.group inner))) = .ok order ∧
      FirstStopWith spare
        (order.map (relocate (· + front.toList.length)) ++ d.afterGroup front.toList.length last) before t ∧
      spare + height before = count ∧
      d.compile (front ++ d.group inner) = .error (.missingOperand t.char t.index t.kind.arity count) ∧
      (spare + found < expected →
        t.char = operator ∧ t.index = index + front.toList.length ∧ t.kind.arity = expected ∧ count = spare + found) := by
  obtain ⟨absentFront, readable⟩ := reads_of_compile compiled
  have grounds := d.compile_grounds (d.group inner)
  rw [failed] at grounds
  obtain ⟨absentGroup, notOver, notUnder, -, unread⟩ := grounds
  have absent : d.marker ∉ (front ++ d.group inner).toList := by simpa using ⟨absentFront, absentGroup⟩
  obtain ⟨last, lead, order, isLast, passes, left, done, doneAll⟩ := order_append_group groups readable balanced
  have low : height order ≤ 0 := by
    by_contra high
    exact unread (exists_reads_of_height (Token.unclosed_of_matched notOver notUnder) done (by omega))
  obtain ⟨_, t, first⟩ := (Token.passes_or_firstStop _).resolve_left
    (not_passes_append_group (d := d) isLast left low (· + front.toList.length) front.toList.length)
  obtain ⟨before, rfl, firstWith⟩ := (Token.firstStop_append passes left).mp first
  obtain ⟨count, same, -, answer⟩ := assemble_of_short first (Postorder.not_delimits_of_ofExplicit doneAll t first.mem)
  refine ⟨last, order, before, t, _, count, isLast, rfl, done, firstWith, ?_, ?_, ?_⟩
  · rw [← same, Token.height_append, left]
  · exact (compile_eq_error_iff absent doneAll).mpr answer
  · intro short
    obtain ⟨ahead, u, alone, notDelimiter, there, rfl, rfl, rfl⟩ := exists_firstStop_of_compile absentGroup done failed
    have stops : Stops ((1 + last.toList.length : Nat) + height ahead) u := by
      rw [there, ← Nat.cast_add]
      exact (Token.stops_iff_of_inner notDelimiter _).mpr short
    have again := alone.relocate_with (· + front.toList.length) (d.afterGroup front.toList.length last) stops
    obtain ⟨sameAhead, rfl⟩ := first.unique ((Token.firstStop_append passes left).mpr ⟨_, rfl, again⟩)
    rw [← sameAhead, Token.height_append, Token.height_relocate, left, there] at same
    exact ⟨rfl, rfl, rfl, by omega⟩

/-- The closure lacks an operand in its group, and finds the letter in front of it; so the
    concatenation before the group is blamed. -/
theorem operand_taken_from_outside :
    (∃ c, compile {} "b" = .ok c) ∧ Balanced (read (kindOf {}) "*a") ∧
      compile {} (group {} "*a") = .error (.missingOperand '*' 1 1 0) ∧
      compile {} ("b" ++ group {} "*a") = .error (.missingOperand '?' 1 2 1) ∧
      ¬ ∃ expected found, compile {} ("b" ++ group {} "*a") = .error (.missingOperand '*' (1 + 1) expected found) := by
  have answer : compile {} ("b" ++ group {} "*a") = .error (.missingOperand '?' 1 2 1) := rfl
  refine ⟨⟨_, rfl⟩, Token.balanced_iff.mpr rfl, rfl, answer, ?_⟩
  rintro ⟨expected, found, other⟩
  cases answer.symm.trans other

/-- One letter in front is not enough for a union that has none of its operands. -/
theorem compile_append_group_loneUnion :
    (∃ c, compile {} "b" = .ok c) ∧ Balanced (read (kindOf {}) "|") ∧
      compile {} (group {} "|") = .error (.missingOperand '|' 1 2 0) ∧
      compile {} ("b" ++ group {} "|") = .error (.missingOperand '|' 2 2 1) := by
  have balanced : Balanced (read (kindOf {}) "|") := Token.balanced_iff.mpr rfl
  have alone : compile {} (group {} "|") = .error (.missingOperand '|' 1 2 0) := rfl
  obtain ⟨c, letter⟩ : ∃ c, compile {} "b" = .ok c := ⟨_, rfl⟩
  refine ⟨⟨c, letter⟩, balanced, alone, ?_⟩
  obtain ⟨last, order, before, t, spare, count, isLast, counted, -, -, -, refused, blamed⟩ :=
    compile_append_group ⟨rfl, rfl⟩ letter balanced alone
  have noUnion : last = none := by
    cases last with
    | none => rfl
    | some operator =>
      obtain ⟨front, back, split, kind, -⟩ := isLast
      have inside : operator ∈ read (kindOf {}) "b" := split ▸ by simp
      obtain rfl : operator = ⟨.literal, 'b', 0⟩ := List.mem_singleton.mp inside
      cases kind
  obtain rfl : spare = 1 := by rw [counted, noUnion]; rfl
  obtain ⟨char, place, arity, found⟩ := blamed (by decide)
  rw [refused, char, place, arity, found]
  rfl

example : compile {} "a|b(*)" = .error (.missingOperand '|' 1 2 1) := rfl

end Dialect

end RegexAutomaton
