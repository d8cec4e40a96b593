import RegexAutomaton.Proofs.Denotation

/-!
What compiling answers, for every expression. No stage checks the grammar: whether an operand
is missing shows only in the assembly, and there an operand too many in one place might make
up for it. But once concatenations are written there are never more literals than the
operators between them allow (`Token.count_of_explicit`), so the assembly ends with at most
one fragment, and with one only if the tokens are an expression of the grammar.
-/
namespace RegexAutomaton

namespace Token

/-- So many openings, then so many closings, and nothing else. -/
def Bare (opened closed : Nat) (tokens : List Token) : Prop :=
  tokens.map Token.kind = List.replicate opened .opening ++ List.replicate closed .closing

/-- All groups are opened first and then closed, and there is nothing else. -/
def Hollow (tokens : List Token) : Prop := ∃ depth, Bare depth depth tokens

namespace Bare
variable {tokens : List Token} {opened closed : Nat}

theorem delimits (bare : Bare opened closed tokens) : ∀ t ∈ tokens, t.delimits = true := by
  intro t member
  have kind : t.kind ∈ tokens.map Token.kind := List.mem_map_of_mem member
  rw [show tokens.map Token.kind = _ from bare, List.mem_append] at kind
  rcases kind with opening | closing
  · simp [Token.delimits, List.eq_of_mem_replicate opening]
  · simp [Token.delimits, List.eq_of_mem_replicate closing]

theorem explicit (bare : Bare opened closed tokens) : Explicit tokens := by
  induction tokens generalizing opened closed with
  | nil => trivial
  | cons t rest ih =>
    unfold Bare at bare
    cases opened with
    | succ opened =>
      rw [List.replicate_succ, List.map_cons, List.cons_append] at bare
      obtain ⟨opening, later⟩ := List.cons.inj bare
      refine Dialect.explicit_cons (ih later) ?_
      intro u _
      simp [adjoins, opening, Kind.canEndOperand]
    | zero =>
      cases closed with
      | zero => simp at bare
      | succ closed =>
        rw [List.replicate_zero, List.nil_append, List.replicate_succ, List.map_cons] at bare
        obtain ⟨closing, later⟩ := List.cons.inj bare
        have onlyClosings : Bare 0 closed rest := later
        refine Dialect.explicit_cons (ih onlyClosings) ?_
        intro u head
        have kind : u.kind ∈ rest.map Token.kind := List.mem_map_of_mem (List.mem_of_mem_head? head)
        rw [later] at kind
        simp [adjoins, List.eq_of_mem_replicate kind, Kind.canBeginOperand]

theorem openings (bare : Bare opened closed tokens) : openings tokens = opened := by
  have counted : (tokens.map Token.kind).countP (· = .opening) = opened := by
    rw [show tokens.map Token.kind = _ from bare]
    simp [List.countP_replicate]
  rw [← counted, List.countP_map]
  rfl

theorem closings (bare : Bare opened closed tokens) : closings tokens = closed := by
  have counted : (tokens.map Token.kind).countP (· = .closing) = closed := by
    rw [show tokens.map Token.kind = _ from bare]
    simp [List.countP_replicate]
  rw [← counted, List.countP_map]
  rfl

end Bare

/-- Where no operand stands beside another one, no group is opened after one was closed. -/
theorem bare_of_explicit {tokens : List Token} (explicit : Explicit tokens)
    (delimiters : ∀ t ∈ tokens, t.delimits = true) : ∃ opened closed, Bare opened closed tokens := by
  induction tokens with
  | nil => exact ⟨0, 0, rfl⟩
  | cons t rest ih =>
    obtain ⟨opened, closed, bare⟩ := ih explicit.tail fun u member => delimiters u (List.mem_cons_of_mem t member)
    rcases delimits_iff.mp (delimiters t (List.mem_cons_self)) with opening | closing
    · refine ⟨opened + 1, closed, ?_⟩
      rw [Bare, List.map_cons, bare, opening, List.replicate_succ, List.cons_append]
    · cases opened with
      | zero =>
        refine ⟨0, closed + 1, ?_⟩
        rw [Bare, List.map_cons, bare, closing, List.replicate_succ]
        rfl
      | succ opened =>
        cases rest with
        | nil => simp [Bare] at bare
        | cons u rest =>
          have opening : u.kind = .opening := (List.cons.inj bare).1
          have apart := explicit.1
          simp [adjoins, opening, closing, Kind.canEndOperand, Kind.canBeginOperand] at apart

/-- With matching groups, the tokens are hollow exactly if nothing but delimiters is there once
    the concatenations are written. -/
theorem hollow_iff (d : Dialect) {tokens : List Token} (noConcat : ∀ t ∈ tokens, t.kind ≠ .concat)
    (groups : unclosed [] tokens = .ok []) :
    Hollow tokens ↔ (d.makeExplicit tokens).filter (!·.delimits) = [] := by
  constructor
  · rintro ⟨depth, bare⟩
    rw [d.makeExplicit_of_explicit bare.explicit, List.filter_eq_nil_iff]
    intro t member
    simp [bare.delimits t member]
  · intro noneKept
    have delimiters : ∀ t ∈ d.makeExplicit tokens, t.delimits = true := by
      simpa [List.filter_eq_nil_iff] using noneKept
    have unwritten : (d.makeExplicit tokens).filter (·.kind ≠ .concat) = tokens := by
      rw [d.filter_makeExplicit (by simp [Dialect.concat]), List.filter_eq_self]
      simpa using noConcat
    have keepsAll : (d.makeExplicit tokens).filter (·.kind ≠ .concat) = d.makeExplicit tokens := by
      rw [List.filter_eq_self]
      intro t member
      have kind := delimits_iff.mp (delimiters t member)
      rcases kind with kind | kind <;> simp [kind]
    have same : d.makeExplicit tokens = tokens := keepsAll.symm.trans unwritten
    have explicit := d.explicit_makeExplicit tokens
    rw [same] at explicit delimiters
    obtain ⟨opened, closed, bare⟩ := bare_of_explicit explicit delimiters
    have balanced := openings_of_ok groups
    rw [bare.openings, bare.closings, List.length_nil, Nat.zero_add] at balanced
    exact ⟨closed, balanced ▸ bare⟩

theorem countP_kept {tokens order : List Token} (perm : order.Perm (tokens.filter (!·.delimits))) {p : Token → Bool}
    (inner : ∀ t, p t = true → t.delimits = false) : order.countP p = tokens.countP p := by
  rw [perm.countP_eq, List.countP_filter]
  refine List.countP_congr ?_
  intro t _
  constructor
  · intro both
    exact (Bool.and_eq_true_iff.mp both).1
  · intro counts
    simp [counts, inner t counts]

theorem literals_kept {tokens order : List Token} (perm : order.Perm (tokens.filter (!·.delimits))) :
    literals order = literals tokens := by
  refine countP_kept perm ?_
  intro t literal
  simp_all [delimits]

theorem joints_kept {tokens order : List Token} (perm : order.Perm (tokens.filter (!·.delimits))) :
    joints order = joints tokens := by
  refine countP_kept perm ?_
  rintro ⟨kind, char, index⟩ joint
  cases kind <;> simp [Kind.arity, delimits] at joint ⊢

end Token

namespace Dialect
open Token (Hollow Overclosed Underclosed unclosed composeAll literals joints Alternates)
open RegexAutomaton.Tree (ReadsImplicit)
open scoped Computability

/-- The groups decide what the rearrangement answers. -/
theorem ofExplicit_settles (d : Dialect) (tokens : List Token) :
    Postorder.Settles (unclosed [] tokens) ((d.makeExplicit tokens).filter (!·.delimits))
      (Postorder.ofExplicit (d.makeExplicit tokens)) := by
  have settles := Postorder.arrange_settles (d.makeExplicit tokens) [] (by simp)
  rw [List.filter_nil, List.nil_append, ← Token.unclosed_filter, d.filter_makeExplicit (fun _ => rfl),
    Token.unclosed_filter] at settles
  exact settles

/-- Literals that are more than the operators that join them are one more, and nothing is out of
    place: the tokens are an expression. -/
theorem exists_reads_of_literals {d : Dialect} {tokens : List Token} (noConcat : ∀ t ∈ tokens, t.kind ≠ .concat)
    (groups : unclosed [] tokens = .ok []) (more : joints (d.makeExplicit tokens) < literals (d.makeExplicit tokens)) :
    ∃ tree, ReadsImplicit tokens tree := by
  obtain ⟨bound, tight⟩ := Token.count_of_explicit (d.explicit_makeExplicit tokens) true (by simp)
  have oneMore : literals (d.makeExplicit tokens) = joints (d.makeExplicit tokens) + true.toNat := by
    rw [Bool.toNat_true] at bound ⊢
    omega
  exact Tree.exists_readsImplicit noConcat (Token.alternates_of_makeExplicit d (tight oneMore)) groups

/-- If no operator lacks an operand, then no operand lacks an operator: the tokens are an
    expression, unless there are none. -/
theorem exists_reads_of_composeAll {d : Dialect} {tokens order : List Token} {made : List (Regex Char)}
    (noConcat : ∀ t ∈ tokens, t.kind ≠ .concat) (groups : unclosed [] tokens = .ok [])
    (perm : order.Perm ((d.makeExplicit tokens).filter (!·.delimits))) (nonempty : order ≠ [])
    (composed : composeAll [] order = some made) : ∃ tree, ReadsImplicit tokens tree := by
  have balance := Token.balance_of_composeAll composed
  rw [Token.literals_kept perm, Token.joints_kept perm, List.length_nil, Nat.zero_add] at balance
  have filled : 0 < made.length := List.length_pos_iff.mpr (Token.composeAll_ne_nil composed (.inl nonempty))
  exact exists_reads_of_literals (d := d) noConcat groups (by omega)

/-- What an expression is like if compiling it answers so, whatever tokens a fault names. -/
def Grounds (d : Dialect) (expression : String) : Except Fault Compiled → Prop
  | .error (.reservedMarker marker _) => marker = d.marker ∧ d.marker ∈ expression.toList
  | .error (.unmatchedClosing _) => d.marker ∉ expression.toList ∧ Overclosed (read d.kindOf expression)
  | .error (.unmatchedOpening _) =>
    d.marker ∉ expression.toList ∧ ¬ Overclosed (read d.kindOf expression) ∧ Underclosed (read d.kindOf expression)
  | .error .emptyExpression =>
    d.marker ∉ expression.toList ∧ ¬ Overclosed (read d.kindOf expression) ∧
      ¬ Underclosed (read d.kindOf expression) ∧ Hollow (read d.kindOf expression)
  | .ok _ =>
    d.marker ∉ expression.toList ∧ ¬ Overclosed (read d.kindOf expression) ∧
      ¬ Underclosed (read d.kindOf expression) ∧ ¬ Hollow (read d.kindOf expression) ∧
      ∃ tree, ReadsImplicit (read d.kindOf expression) tree
  | .error (.missingOperand _ _ _ _) =>
    d.marker ∉ expression.toList ∧ ¬ Overclosed (read d.kindOf expression) ∧
      ¬ Underclosed (read d.kindOf expression) ∧ ¬ Hollow (read d.kindOf expression) ∧
      ¬ ∃ tree, ReadsImplicit (read d.kindOf expression) tree
  | .error (.leftoverFragments _) => False
  | .error (.closedFragment _ _) => False

theorem kind_ne_concat_of_mem_read {d : Dialect} {expression : String} :
    ∀ t ∈ read d.kindOf expression, t.kind ≠ .concat := by
  intro t member
  obtain ⟨index, inside, rfl⟩ := List.mem_mapIdx.mp member
  exact d.kindOf_ne_concat _

/-- With matching groups the assembly decides, and by its stack alone. -/
theorem grounds_of_order {d : Dialect} {expression : String} {order : List Token}
    (absent : d.marker ∉ expression.toList) (groups : unclosed [] (read d.kindOf expression) = .ok [])
    (done : Postorder.ofExplicit (d.makeExplicit (read d.kindOf expression)) = .ok order)
    (perm : order.Perm ((d.makeExplicit (read d.kindOf expression)).filter (!·.delimits))) :
    d.Grounds expression (d.compile expression) := by
  have notOver := Token.not_overclosed_of_ok groups
  have notUnder : ¬ Underclosed (read d.kindOf expression) := by simp [Token.underclosed_iff_of_ok groups]
  have hollow : Hollow (read d.kindOf expression) ↔ order = [] := by
    rw [Token.hollow_iff d kind_ne_concat_of_mem_read groups]
    constructor
    · intro noneKept
      exact (noneKept ▸ perm).eq_nil
    · rintro rfl
      exact perm.nil_eq.symm
  have answer := compile_of_order absent done
  by_cases empty : order = []
  · subst empty
    rw [answer]
    exact ⟨absent, notOver, notUnder, hollow.mpr rfl⟩
  cases composed : composeAll [] order with
  | some made =>
    obtain ⟨tree, reads⟩ := exists_reads_of_composeAll kind_ne_concat_of_mem_read groups perm empty composed
    obtain ⟨c, accepted, -⟩ := compile_of_reads absent reads
    rw [accepted]
    exact ⟨absent, notOver, notUnder, mt hollow.mp empty, tree, reads⟩
  | none =>
    have inner : ∀ t ∈ order, t.delimits = false := by
      intro t member
      simpa using (List.mem_filter.mp (perm.subset member)).2
    obtain ⟨_, t, _, found, -, -, -, stuck⟩ := Assembly.takeAll_of_stuck inner Assembly.faithful_empty composed
    rw [assemble, stuck] at answer
    have unread : ¬ ∃ tree, ReadsImplicit (read d.kindOf expression) tree := by
      rintro ⟨tree, reads⟩
      obtain ⟨c, accepted, -⟩ := compile_of_reads absent reads
      cases accepted.symm.trans answer
    rw [answer]
    exact ⟨absent, notOver, notUnder, mt hollow.mp empty, unread⟩

theorem compile_grounds (d : Dialect) (expression : String) : d.Grounds expression (d.compile expression) := by
  by_cases present : d.marker ∈ expression.toList
  · obtain ⟨index, answer⟩ := compile_of_mem present
    rw [answer]
    exact ⟨rfl, present⟩
  have settles := d.ofExplicit_settles (read d.kindOf expression)
  cases groups : unclosed [] (read d.kindOf expression) with
  | error t =>
    rw [groups] at settles
    rw [compile_of_fault present settles]
    exact ⟨present, Token.overclosed_of_error groups⟩
  | ok left =>
    rw [groups] at settles
    cases left with
    | nil =>
      obtain ⟨order, done, perm⟩ := settles
      exact grounds_of_order present groups done perm
    | cons t left =>
      rw [compile_of_fault present settles]
      exact ⟨present, Token.not_overclosed_of_ok groups, (Token.underclosed_iff_of_ok groups).mpr (by simp)⟩

theorem reads_of_compile {d : Dialect} {expression : String} {c : Compiled} (compiled : d.compile expression = .ok c) :
    d.marker ∉ expression.toList ∧ ∃ tree, ReadsImplicit (read d.kindOf expression) tree := by
  have grounds := d.compile_grounds expression
  rw [compiled] at grounds
  obtain ⟨absent, -, -, -, reads⟩ := grounds
  exact ⟨absent, reads⟩

/-- Compiling accepts exactly the expressions of the grammar, and each fault has its own
    ground: they are ruled out one after the other, and what remains lacks an operand. -/
theorem compile_answers (d : Dialect) (expression : String) :
    ((∃ index, d.compile expression = .error (.reservedMarker d.marker index)) ↔ d.marker ∈ expression.toList) ∧
    ((∃ index, d.compile expression = .error (.unmatchedClosing index)) ↔
      d.marker ∉ expression.toList ∧ Overclosed (read d.kindOf expression)) ∧
    ((∃ index, d.compile expression = .error (.unmatchedOpening index)) ↔
      d.marker ∉ expression.toList ∧ ¬ Overclosed (read d.kindOf expression) ∧
        Underclosed (read d.kindOf expression)) ∧
    (d.compile expression = .error .emptyExpression ↔
      d.marker ∉ expression.toList ∧ ¬ Overclosed (read d.kindOf expression) ∧
        ¬ Underclosed (read d.kindOf expression) ∧ Hollow (read d.kindOf expression)) ∧
    ((∃ c, d.compile expression = .ok c) ↔
      d.marker ∉ expression.toList ∧ ¬ Overclosed (read d.kindOf expression) ∧
        ¬ Underclosed (read d.kindOf expression) ∧ ¬ Hollow (read d.kindOf expression) ∧
        ∃ tree, ReadsImplicit (read d.kindOf expression) tree) ∧
    ((∃ operator index expected found,
        d.compile expression = .error (.missingOperand operator index expected found)) ↔
      d.marker ∉ expression.toList ∧ ¬ Overclosed (read d.kindOf expression) ∧
        ¬ Underclosed (read d.kindOf expression) ∧ ¬ Hollow (read d.kindOf expression) ∧
        ¬ ∃ tree, ReadsImplicit (read d.kindOf expression) tree) ∧
    (∀ count, d.compile expression ≠ .error (.leftoverFragments count)) ∧
    ∀ operator index, d.compile expression ≠ .error (.closedFragment operator index) := by
  have grounds := d.compile_grounds expression
  cases answer : d.compile expression with
  | ok c =>
    rw [answer] at grounds
    obtain ⟨absent, notOver, notUnder, filled, reads⟩ := grounds
    simp [absent, notOver, notUnder, filled, reads]
  | error fault =>
    rw [answer] at grounds
    cases fault with
    | reservedMarker marker index =>
      obtain ⟨same, present⟩ := grounds
      simp [same, present]
    | unmatchedClosing index =>
      obtain ⟨absent, overclosed⟩ := grounds
      simp [absent, overclosed]
    | unmatchedOpening index =>
      obtain ⟨absent, notOver, underclosed⟩ := grounds
      simp [absent, notOver, underclosed]
    | emptyExpression =>
      obtain ⟨absent, notOver, notUnder, hollow⟩ := grounds
      simp [absent, notOver, notUnder, hollow]
    | missingOperand operator index expected found =>
      obtain ⟨absent, notOver, notUnder, filled, unread⟩ := grounds
      simp [absent, notOver, notUnder, filled, unread]
    | leftoverFragments count => exact grounds.elim
    | closedFragment operator index => exact grounds.elim

/-! ## The language of what is accepted -/

/-- A compiled expression has been read by the grammar, and whatever tree it was read as, the
    automaton accepts just the words of its language. -/
theorem accepts_iff_of_compile {d : Dialect} {expression : String} {c : Compiled}
    (compiled : d.compile expression = .ok c) :
    (∃ tree, ReadsImplicit (read d.kindOf expression) tree) ∧
      ∀ tree, ReadsImplicit (read d.kindOf expression) tree →
        ∀ word, c.automaton.Accepts word ↔ word ∈ tree.regex.language := by
  have grounds := d.compile_grounds expression
  rw [compiled] at grounds
  obtain ⟨absent, -, -, -, read⟩ := grounds
  refine ⟨read, ?_⟩
  intro tree reads
  obtain ⟨made, answer, accepts⟩ := compile_of_reads absent reads
  cases compiled.symm.trans answer
  exact accepts

-- A star closes no group here, as closures come before delimiters.
theorem accepts_iff_of_compile_colliding : ∃ c, ({ closing := '*' } : Dialect).compile "ab*|c" = .ok c ∧
    ∀ word, c.automaton.Accepts word ↔ word ∈ ({['a']} * {['b']}∗ + {['c']} : Language Char) := by
  have letter (c : Char) (n : Nat) : Tree.Reads false .power [⟨.literal, c, n⟩] (.literal ⟨.literal, c, n⟩) :=
    .atom (.literal rfl)
  have star : (⟨.closure, '*', 2⟩ : Token).kind = .closure := rfl
  have bar : (⟨.union, '|', 3⟩ : Token).kind = .union := rfl
  have joint : Tree.Joint false none := rfl
  have product := Tree.Reads.concat joint (.power (letter 'a' 0)) (.star star (letter 'b' 1))
  have reads : ReadsImplicit (read ({ closing := '*' } : Dialect).kindOf "ab*|c") _ :=
    .union bar (.product product) (.power (letter 'c' 4))
  refine ⟨_, rfl, ?_⟩
  exact (accepts_iff_of_compile rfl).2 _ reads

end Dialect

end RegexAutomaton
