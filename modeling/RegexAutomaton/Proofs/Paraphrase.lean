import RegexAutomaton.Proofs.Acceptance
import RegexAutomaton.Proofs.Contexts

/-!
Different ways to write an expression. The automaton that an expression is compiled to is that
of its regular expression (`compile_of_tree`), and this one does not depend on how
concatenations are grouped. So nothing of an expression matters but the kinds of its tokens and
its literals, and of its groups only those that hold a looser operator.
-/
namespace RegexAutomaton

/-- The labelled automaton of the fragment of an expression in an arena of its own. -/
def Regex.automaton? {α : Type} (r : Regex α) : Option (Automaton α) :=
  (({} : Arena α).realize? r).map fun (f, arena) => (arena.finish f).relabel

theorem Regex.Regrouped.automaton?_eq {α : Type} {r q : Regex α} (same : r.Regrouped q) :
    r.automaton? = q.automaton? :=
  congrArg (Option.map _) (Arena.realize?_congr same {})

/-! ## From a tree to its automaton -/

/-- The postorder of a tree makes the fragment of its expression and puts it on the stack. -/
theorem Assembly.takeAll_postorder {level : Tree.Level} {tokens : List Token} {tree : Tree}
    (reads : Tree.Reads true level tokens tree) :
    ∀ {arena b : Arena Char} {f : Fragment} (stack : List Fragment), arena.realize? tree.regex = some (f, b) →
      (⟨arena, stack⟩ : Assembly).takeAll tree.postorder = .ok ⟨b, f :: stack⟩ := by
  induction reads with
  | @literal t kind =>
    intro arena b f stack realized
    have made : arena.literal t.char = (f, b) := Option.some.inj realized
    simp [Tree.postorder, takeAll, take, kind, made, place]
  | group _ _ _ inner => exact inner
  | atom _ inner => exact inner
  | star kind _ operand =>
    intro arena b f stack realized
    obtain ⟨⟨g, c⟩, inner, made⟩ := Option.bind_eq_some_iff.mp realized
    rw [Tree.postorder, takeAll_append, operand stack inner]
    simp [takeAll, take, kind, made, place, Except.bind]
  | power _ inner => exact inner
  | @concat operator _ _ _ _ joint _ _ first second =>
    cases operator with
    | none => cases joint
    | some operator =>
      intro arena b f stack realized
      obtain ⟨⟨g, c⟩, left, rest⟩ := Option.bind_eq_some_iff.mp realized
      obtain ⟨⟨h, d⟩, right, made⟩ := Option.bind_eq_some_iff.mp rest
      rw [Tree.postorder, takeAll_append, takeAll_append, first stack left, Except.bind, second (g :: stack) right]
      simp [takeAll, take, joint.2, made, place, Except.bind]
  | product _ inner => exact inner
  | union kind _ _ first second =>
    intro arena b f stack realized
    obtain ⟨⟨g, c⟩, left, rest⟩ := Option.bind_eq_some_iff.mp realized
    obtain ⟨⟨h, d⟩, right, made⟩ := Option.bind_eq_some_iff.mp rest
    rw [Tree.postorder, takeAll_append, takeAll_append, first stack left, Except.bind, second (g :: stack) right]
    simp [takeAll, take, kind, made, place, Except.bind]

theorem assemble_postorder {tokens : List Token} {tree : Tree} (reads : Tree.ReadsExplicit tokens tree) :
    ∃ m, assemble tree.postorder = .ok m ∧ tree.regex.automaton? = some m.relabel := by
  obtain ⟨f, b, realized, -⟩ := Arena.exists_realize? {} tree.regex
  refine ⟨b.finish f, ?_, by simp [Regex.automaton?, realized]⟩
  have taken := Assembly.takeAll_postorder reads [] realized
  simp only [assemble, taken, Except.bind, Assembly.finish]

/-- An expression of the grammar compiles to the automaton of its regular expression. -/
theorem Dialect.compile_of_tree {d : Dialect} {expression : String} {tree : Tree}
    (absent : d.marker ∉ expression.toList) (reads : Tree.ReadsImplicit (read d.kindOf expression) tree) :
    ∃ c, d.compile expression = .ok c ∧ tree.regex.automaton? = some c.automaton := by
  obtain ⟨explicit, written, same⟩ := Tree.exists_readsExplicit d reads
  obtain ⟨m, assembled, realized⟩ := assemble_postorder written
  rw [compile_of_order absent (Postorder.arranges_of_reads written).ofExplicit, assembled]
  exact ⟨_, rfl, same ▸ realized⟩

/-! ## Texts -/

namespace Dialect
variable {d d' : Dialect} {level low : Tree.Level} {front inner back text other : String} {r q : Regex Char}

/-- The shapes of the tokens of a text. -/
def shapes (d : Dialect) (text : String) : List (Token.Kind × Option Char) := (read d.kindOf text).map Token.shape

/-- The text, read at the level, is an expression for the regular expression. -/
def Spells (d : Dialect) (level : Tree.Level) (text : String) (r : Regex Char) : Prop :=
  ∃ tree, Tree.Reads false level (read d.kindOf text) tree ∧ tree.regex = r

/-- An expression of the level `low` between the two texts is a part of an expression. -/
def Encloses (d : Dialect) (low : Tree.Level) (front back : String) : Prop :=
  ∃ plug, Tree.Around false low .sum (read d.kindOf front) (read d.kindOf back) plug

/-- The delimiters are not used for anything that comes before them. -/
def Groups (d : Dialect) : Prop := d.kindOf d.opening = .opening ∧ d.kindOf d.closing = .closing

/-- The text between delimiters. -/
def group (d : Dialect) (text : String) : String := String.singleton d.opening ++ text ++ String.singleton d.closing

/-- Both expressions compile, and to equal automata. -/
def SameAutomaton (d : Dialect) (text : String) (d' : Dialect) (other : String) : Prop :=
  ∃ c c', d.compile text = .ok c ∧ d'.compile other = .ok c' ∧ c.automaton = c'.automaton

theorem shapes_eq (d : Dialect) (text : String) :
    d.shapes text = text.toList.map fun c => Token.shape ⟨d.kindOf c, c, 0⟩ :=
  List.ext_getElem (by simp [shapes, read]) (by simp [shapes, read, Token.shape])

theorem shapes_singleton (d : Dialect) (c : Char) :
    d.shapes (String.singleton c) = [Token.shape ⟨d.kindOf c, c, 0⟩] := by
  simp [shapes_eq]

theorem shapes_append (d : Dialect) (front back : String) :
    d.shapes (front ++ back) = d.shapes front ++ d.shapes back := by
  simp [shapes_eq]

theorem mem_group_iff (d : Dialect) (text : String) (c : Char) :
    c ∈ (d.group text).toList ↔ c = d.opening ∨ c ∈ text.toList ∨ c = d.closing := by
  simp [group]

namespace Spells

theorem of_tokens {tokens : List Token} {tree : Tree} (reads : Tree.Reads false level tokens tree)
    (same : d.shapes text = tokens.map Token.shape) : d.Spells level text tree.regex :=
  reads.of_shape same

theorem of_shapes (spells : d.Spells level text r) (same : d'.shapes other = d.shapes text) :
    d'.Spells level other r := by
  obtain ⟨tree, reads, rfl⟩ := spells
  exact of_tokens reads same

theorem group (groups : d.Groups) (spells : d.Spells level text r) : d.Spells .atom (d.group text) r := by
  obtain ⟨tree, reads, rfl⟩ := spells
  let opening : Token := ⟨.opening, d.opening, 0⟩
  let closing : Token := ⟨.closing, d.closing, 0⟩
  have around : Tree.Reads false .atom (opening :: read d.kindOf text ++ [closing]) tree :=
    .group rfl rfl reads.toSum
  refine of_tokens around ?_
  simp only [Dialect.group, shapes_append, shapes_singleton, groups.1, groups.2]
  simp [shapes, opening, closing]

theorem ofAtom (spells : d.Spells .atom text r) (level : Tree.Level) : d.Spells level text r := by
  obtain ⟨tree, reads, regex⟩ := spells
  exact ⟨tree, reads.ofAtom level, regex⟩

theorem juxtapose (first : d.Spells .product text r) (second : d.Spells .product other q) :
    ∃ p, d.Spells .product (text ++ other) p ∧ p.Regrouped (.concat r q) := by
  obtain ⟨left, readsLeft, rfl⟩ := first
  obtain ⟨right, readsRight, rfl⟩ := second
  obtain ⟨tree, reads, same⟩ := readsLeft.juxtapose readsRight
  refine ⟨tree.regex, of_tokens reads ?_, same⟩
  rw [shapes_append, List.map_append]
  rfl

theorem fill {plug : Regex Char → Regex Char}
    (around : Tree.Around false low .sum (read d.kindOf front) (read d.kindOf back) plug)
    (spells : d.Spells low inner r) : d.Spells .sum (front ++ inner ++ back) (plug r) := by
  obtain ⟨tree, reads, rfl⟩ := spells
  obtain ⟨whole, filled, same⟩ := around.reads reads
  rw [← same]
  refine of_tokens filled ?_
  rw [shapes_append, shapes_append, List.map_append, List.map_append]
  rfl

theorem compile (spells : d.Spells .sum text r) (absent : d.marker ∉ text.toList) :
    ∃ c, d.compile text = .ok c ∧ r.automaton? = some c.automaton := by
  obtain ⟨tree, reads, rfl⟩ := spells
  exact compile_of_tree absent reads

theorem sameAutomaton (first : d.Spells .sum text r) (second : d'.Spells .sum other q) (same : r.Regrouped q)
    (absent : d.marker ∉ text.toList) (absentToo : d'.marker ∉ other.toList) :
    d.SameAutomaton text d' other := by
  obtain ⟨c, compiled, automaton⟩ := first.compile absent
  obtain ⟨c', compiledToo, automatonToo⟩ := second.compile absentToo
  refine ⟨c, c', compiled, compiledToo, Option.some.inj ?_⟩
  rw [← automaton, ← automatonToo, same.automaton?_eq]

end Spells

theorem exists_spells_of_compile {c : Compiled} (compiled : d.compile text = .ok c) : ∃ r, d.Spells .sum text r := by
  obtain ⟨-, tree, reads⟩ := reads_of_compile compiled
  exact ⟨tree.regex, tree, reads, rfl⟩

theorem eq_of_regrouped {c c' : Compiled} (compiled : d.compile text = .ok c) (compiledToo : d'.compile other = .ok c')
    (first : d.Spells .sum text r) (second : d'.Spells .sum other q) (same : r.Regrouped q) :
    c.automaton = c'.automaton := by
  have absent := (reads_of_compile compiled).1
  have absentToo := (reads_of_compile compiledToo).1
  obtain ⟨_, _, made, madeToo, equal⟩ := first.sameAutomaton second same absent absentToo
  cases compiled.symm.trans made
  cases compiledToo.symm.trans madeToo
  exact equal

theorem sameAutomaton_of_shapes {c : Compiled} (compiled : d.compile text = .ok c) (absent : d'.marker ∉ other.toList)
    (same : d'.shapes other = d.shapes text) : d.SameAutomaton text d' other := by
  obtain ⟨r, spells⟩ := exists_spells_of_compile compiled
  exact spells.sameAutomaton (spells.of_shapes same) (.refl r) (reads_of_compile compiled).1 absent

theorem sameAutomaton_group (groups : d.Groups) (encloses : d.Encloses low front back) (spells : d.Spells low inner r)
    (absent : d.marker ∉ (front ++ d.group inner ++ back).toList) :
    d.SameAutomaton (front ++ inner ++ back) d (front ++ d.group inner ++ back) := by
  obtain ⟨plug, around⟩ := encloses
  have grouped := ((spells.group groups).ofAtom low).fill around
  refine (spells.fill around).sameAutomaton grouped (.refl _) ?_ absent
  intro present
  apply absent
  simp only [String.toList_append, List.mem_append, mem_group_iff] at present ⊢
  tauto

section
variable {x y z : String} {p : Regex Char}

/-- Of three products in a row, the first two or the last two in a group. -/
theorem Spells.group_of_three (groups : d.Groups) (first : d.Spells .product x r) (second : d.Spells .product y q)
    (third : d.Spells .product z p) :
    ∃ all toRight toLeft, d.Spells .product (x ++ y ++ z) all ∧
      d.Spells .product (x ++ d.group (y ++ z)) toRight ∧ all.Regrouped toRight ∧
      d.Spells .product (d.group (x ++ y) ++ z) toLeft ∧ all.Regrouped toLeft := by
  obtain ⟨firstTwo, spellsFirst, sameFirst⟩ := first.juxtapose second
  obtain ⟨lastTwo, spellsLast, sameLast⟩ := second.juxtapose third
  obtain ⟨all, spellsAll, sameAll⟩ := spellsFirst.juxtapose third
  obtain ⟨toRight, spellsRight, sameRight⟩ := first.juxtapose ((spellsLast.group groups).ofAtom .product)
  obtain ⟨toLeft, spellsLeft, sameLeft⟩ := ((spellsFirst.group groups).ofAtom .product).juxtapose third
  refine ⟨all, toRight, toLeft, spellsAll, spellsRight, ?_, spellsLeft, sameAll.trans sameLeft.symm⟩
  have inFull : all.Regrouped (.concat (.concat r q) p) := sameAll.trans (.concat sameFirst (.refl p))
  have shifted : all.Regrouped (.concat r lastTwo) :=
    (inFull.trans (.assoc r q p)).trans (.concat (.refl r) sameLast.symm)
  exact shifted.trans sameRight.symm

theorem sameAutomaton_group_of_three (groups : d.Groups) (encloses : d.Encloses .product front back)
    (first : d.Spells .product x r) (second : d.Spells .product y q) (third : d.Spells .product z p)
    (absent : d.marker ∉ (front ++ (x ++ d.group (y ++ z)) ++ back).toList) :
    d.SameAutomaton (front ++ (x ++ y ++ z) ++ back) d (front ++ (x ++ d.group (y ++ z)) ++ back) ∧
      d.SameAutomaton (front ++ (x ++ y ++ z) ++ back) d (front ++ (d.group (x ++ y) ++ z) ++ back) := by
  obtain ⟨plug, around⟩ := encloses
  obtain ⟨all, toRight, toLeft, plain, right, sameRight, left, sameLeft⟩ := first.group_of_three groups second third
  have absentPlain : d.marker ∉ (front ++ (x ++ y ++ z) ++ back).toList := by
    intro present
    apply absent
    simp only [String.toList_append, List.mem_append, mem_group_iff] at present ⊢
    tauto
  have absentLeft : d.marker ∉ (front ++ (d.group (x ++ y) ++ z) ++ back).toList := by
    intro present
    apply absent
    simp only [String.toList_append, List.mem_append, mem_group_iff] at present ⊢
    tauto
  have whole := plain.fill around
  exact ⟨whole.sameAutomaton (right.fill around) (around.regrouped sameRight) absentPlain absent,
    whole.sameAutomaton (left.fill around) (around.regrouped sameLeft) absentPlain absentLeft⟩

end

/-- How an expression is written does not show in its automaton: only its regular expression does,
    and of this not how concatenations are grouped. In particular reserved characters may be
    replaced by others of the same kind, such as one union by another, also by those of another
    dialect; any part may be put into a group; and of three factors in a row, or three
    products, any two neighbours may. -/
theorem automaton_eq_of_regrouped (d d' : Dialect) :
    (∀ text c, d.compile text = .ok c → ∃ r, d.Spells .sum text r) ∧
    (∀ text other c c' r q, d.compile text = .ok c → d'.compile other = .ok c' → d.Spells .sum text r →
      d'.Spells .sum other q → r.Regrouped q → c.automaton = c'.automaton) ∧
    (∀ text other c, d.compile text = .ok c → d'.marker ∉ other.toList → d'.shapes other = d.shapes text →
      d.SameAutomaton text d' other) ∧
    (d.Groups → ∀ low front inner back r, d.Encloses low front back → d.Spells low inner r →
      d.marker ∉ (front ++ d.group inner ++ back).toList →
      d.SameAutomaton (front ++ inner ++ back) d (front ++ d.group inner ++ back)) ∧
    (d.Groups → ∀ front x y z back r q p, d.Encloses .product front back → d.Spells .product x r →
      d.Spells .product y q → d.Spells .product z p →
      d.marker ∉ (front ++ (x ++ d.group (y ++ z)) ++ back).toList →
      d.SameAutomaton (front ++ (x ++ y ++ z) ++ back) d (front ++ (x ++ d.group (y ++ z)) ++ back) ∧
        d.SameAutomaton (front ++ (x ++ y ++ z) ++ back) d (front ++ (d.group (x ++ y) ++ z) ++ back)) := by
  refine ⟨?_, ?_, ?_, ?_, ?_⟩
  · intro text c compiled
    exact exists_spells_of_compile compiled
  · intro text other c c' r q compiled compiledToo first second same
    exact eq_of_regrouped compiled compiledToo first second same
  · intro text other c compiled absent same
    exact sameAutomaton_of_shapes compiled absent same
  · intro groups low front inner back r encloses spells absent
    exact sameAutomaton_group groups encloses spells absent
  · intro groups front x y z back r q p encloses first second third absent
    exact sameAutomaton_group_of_three groups encloses first second third absent

-- The second dialect writes unions and closures with other characters.
theorem automaton_eq_of_regrouped_nested :
    SameAutomaton {} "a(bc)|d" { unions := ['/'], closure := '%' } "(ab)c/d" ∧
    SameAutomaton {} "(a|b)*" { unions := ['/'], closure := '%' } "(a/b)%" ∧
    SameAutomaton {} "(ab|d)*" {} "((ab)|d)*" ∧
    SameAutomaton {} "(ab*c|d)*" {} "(a(b*c)|d)*" ∧
    SameAutomaton {} "(ab*c|d)*" {} "((ab*)c|d)*" := by
  have letter (c : Char) (n : Nat) : Tree.Reads false .power [⟨.literal, c, n⟩] (.literal ⟨.literal, c, n⟩) :=
    .atom (.literal rfl)
  have opens (n : Nat) : (⟨.opening, '(', n⟩ : Token).kind = .opening := rfl
  have closes (n : Nat) : (⟨.closing, ')', n⟩ : Token).kind = .closing := rfl
  have bar (c : Char) (n : Nat) : (⟨.union, c, n⟩ : Token).kind = .union := rfl
  have star (n : Nat) : (⟨.closure, '*', n⟩ : Token).kind = .closure := rfl
  have joint : Tree.Joint false none := rfl
  obtain ⟨-, law, shapes, group, three⟩ :=
    automaton_eq_of_regrouped {} { unions := ['/'], closure := '%' }
  have groups : Groups {} := ⟨rfl, rfl⟩
  have hole : Encloses {} .product "(" "|d)*" := by
    have inside := Tree.Around.left (bar '|' 0) (.product .hole) (.power (letter 'd' 1))
    have around : Tree.Around false .product .sum (read (kindOf {}) "(") (read (kindOf {}) "|d)*") _ :=
      .product (.power (.star (star 3) (.atom (.group (opens 0) (closes 2) inside))))
    exact ⟨_, around⟩
  refine ⟨?_, ?_, ?_, ?_⟩
  · have last := Tree.Reads.concat joint (.power (letter 'b' 2)) (letter 'c' 3)
    have toRight : Tree.ReadsImplicit (read (kindOf {}) "a(bc)|d") _ :=
      .union (bar '|' 5)
        (.product (.concat joint (.power (letter 'a' 0)) (.atom (.group (opens 1) (closes 4) (.product last)))))
        (.power (letter 'd' 6))
    have first := Tree.Reads.concat joint (.power (letter 'a' 1)) (letter 'b' 2)
    have toLeft : Tree.ReadsImplicit (read (kindOf { unions := ['/'], closure := '%' }) "(ab)c/d") _ :=
      .union (bar '/' 5)
        (.product (.concat joint (.power (.atom (.group (opens 0) (closes 3) (.product first)))) (letter 'c' 4)))
        (.power (letter 'd' 6))
    exact ⟨_, _, rfl, rfl, law _ _ _ _ _ _ rfl rfl ⟨_, toRight, rfl⟩ ⟨_, toLeft, rfl⟩
      (.union (.symm (.assoc _ _ _)) (.refl _))⟩
  · exact shapes _ _ _ rfl (by decide) rfl
  · have pair : Spells {} .product "ab" _ := ⟨_, .concat joint (.power (letter 'a' 0)) (letter 'b' 1), rfl⟩
    exact group groups _ _ _ _ _ hole pair (by decide)
  · have first : Spells {} .product "a" _ := ⟨_, .power (letter 'a' 0), rfl⟩
    have second : Spells {} .product "b*" _ := ⟨_, .power (.star (star 1) (letter 'b' 0)), rfl⟩
    have third : Spells {} .product "c" _ := ⟨_, .power (letter 'c' 0), rfl⟩
    exact three groups _ _ _ _ _ _ _ _ hole first second third (by decide)

end Dialect

end RegexAutomaton
