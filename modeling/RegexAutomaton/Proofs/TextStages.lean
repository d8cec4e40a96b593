import RegexAutomaton.Proofs.Denotation
import RegexAutomaton.Proofs.Grouping
import RegexAutomaton.Proofs.Relocation

/-!
The stages on texts agree with compiling. A text forgets which of its characters are operators
and where they were read, and the next stage reads it anew. It finds the same kinds, since
the tokens of an expression without the marker are `Legible`, whatever uses their characters
have; and positions matter to no stage. So the two ways succeed together, with the same
forms, and when they fail they blame the same token (`Blames`): the one way by its
place in the text, the other by its position in the expression. A concatenation that
was written has the position of the token after it, but a fault can be about one
of the two only (`Legible.kind_eq_of_concerns`, `pairwise_makeExplicit`).
-/
namespace RegexAutomaton

/-- The position of the token at a place of the list. -/
def Token.indexAt (tokens : List Token) (place : Nat) : Nat := (tokens[place]?.map Token.index).getD place

@[simp] theorem Token.render_relocate (place : Nat → Nat) (tokens : List Token) :
    render (tokens.map (relocate place)) = render tokens := by
  simp [render, relocate, Function.comp_def]

namespace Dialect
variable {d : Dialect} {expression : String} {tokens : List Token}

/-! ## Reading a text back -/

/-- In an explicit text the character of each token means what the token is. -/
def Legible (d : Dialect) (tokens : List Token) : Prop := ∀ t ∈ tokens, d.explicitKindOf t.char = t.kind

/-- A legible text is read as the tokens that it was written from, but for their positions. -/
theorem Legible.relocate_readExplicit (legible : d.Legible tokens) :
    (d.readExplicit (Token.render tokens)).map (Token.relocate (Token.indexAt tokens)) = tokens := by
  refine List.ext_getElem (by simp [readExplicit, read, Token.toList_render]) fun place inside inside' => ?_
  have kind := legible tokens[place] (List.getElem_mem inside')
  simp [readExplicit, read, Token.toList_render, Token.relocate, Token.indexAt, inside', kind]

theorem index_lt_of_mem_read {meaning : Char → Token.Kind} {text : String} {t : Token} (inside : t ∈ read meaning text) :
    t.index < (read meaning text).length ∧ (read meaning text)[t.index]? = some t := by
  obtain ⟨place, within, rfl⟩ := List.mem_iff_getElem.mp inside
  have index : (read meaning text)[place].index = place := by simp [read]
  rw [index]
  exact ⟨within, List.getElem?_eq_getElem within⟩

theorem char_of_mem_read {meaning : Char → Token.Kind} {text : String} {t : Token} (inside : t ∈ read meaning text) :
    t.kind = meaning t.char ∧ t.char ∈ text.toList := by
  constructor
  · obtain ⟨place, within, rfl⟩ := List.mem_iff_getElem.mp inside
    simp [read]
  · rw [← render_read meaning text, Token.toList_render]
    exact List.mem_map_of_mem inside

/-- What an explicit list holds: the tokens that were there before, and concatenations, each
    right before the token whose position it has. -/
theorem mem_makeExplicit {t : Token} (inside : t ∈ d.makeExplicit tokens) :
    t ∈ tokens ∨ ∃ u ∈ tokens, t = d.concat u.index ∧ [t, u] <:+: d.makeExplicit tokens := by
  rcases exists_pair_of_mem_makeExplicit inside with own | ⟨front, u, v, back, rfl, adjoins, rfl⟩
  · exact .inl own
  · have meets : d.between (front ++ [u]).getLast? (v :: back).head? = some (d.concat v.index) := by
      simp [between, adjoins]
    obtain ⟨behind, written⟩ := List.head?_eq_some_iff.mp (d.head?_makeExplicit (v :: back))
    have split := d.makeExplicit_append (front ++ [u]) (v :: back)
    rw [meets, written] at split
    exact .inr ⟨v, by simp, rfl, d.makeExplicit (front ++ [u]), behind, by simpa using split.symm⟩

theorem exists_index_of_mem_makeExplicit {t : Token} (inside : t ∈ d.makeExplicit tokens) :
    ∃ u ∈ tokens, t.index = u.index := by
  rcases mem_makeExplicit inside with own | ⟨u, own, rfl, -⟩
  · exact ⟨t, own, rfl⟩
  · exact ⟨u, own, rfl⟩

/-- Positions never decrease along an explicit list, and a concatenation is of another kind than
    the token after it, whose position it has. -/
theorem pairwise_makeExplicit (ordered : tokens.Pairwise (·.index < ·.index)) (plain : ∀ t ∈ tokens, t.kind ≠ .concat) :
    (d.makeExplicit tokens).Pairwise fun t u => t.index < u.index ∨ t.index = u.index ∧ t.kind ≠ u.kind := by
  have behind {t : Token} {rest : List Token} (first : ∀ u ∈ rest, t.index < u.index) :
      ∀ v ∈ d.makeExplicit rest, t.index < v.index := by
    intro v inside
    obtain ⟨u, own, same⟩ := exists_index_of_mem_makeExplicit inside
    exact same ▸ first u own
  fun_induction makeExplicit d tokens with
  | case1 => exact .nil
  | case2 t => exact List.pairwise_singleton _ t
  | case3 t u rest adjoin ih =>
    obtain ⟨first, ordered⟩ := List.pairwise_cons.mp ordered
    obtain ⟨second, -⟩ := List.pairwise_cons.mp ordered
    refine .cons (List.forall_mem_cons.mpr ⟨.inl (first u (.head rest)), fun v inside => .inl (behind first v inside)⟩)
      (.cons ?_ (ih ordered fun v inside => plain v (.tail t inside)))
    intro v inside
    rcases exists_pair_of_mem_makeExplicit inside with own | ⟨front, x, w, back, split, -, rfl⟩
    · rcases List.mem_cons.mp own with rfl | later
      · exact .inr ⟨rfl, (plain v (.tail t own)).symm⟩
      · exact .inl (second v later)
    · -- no concatenation is written before the first token of a list
      have later : w ∈ rest := by
        cases front with
        | nil =>
          obtain ⟨-, rfl⟩ := List.cons.inj split
          exact .head back
        | cons y front =>
          obtain ⟨-, rfl⟩ := List.cons.inj split
          exact List.mem_append_right front (.tail x (.head back))
      exact .inl (second w later)
  | case4 t u rest apart ih =>
    obtain ⟨first, ordered⟩ := List.pairwise_cons.mp ordered
    exact .cons (fun v inside => .inl (behind first v inside)) (ih ordered fun v inside => plain v (.tail t inside))

theorem legible_makeExplicit (absent : d.marker ∉ expression.toList) :
    d.Legible (d.makeExplicit (read d.kindOf expression)) := by
  intro t inside
  rcases mem_makeExplicit inside with own | ⟨u, -, rfl, -⟩
  · obtain ⟨kind, char⟩ := char_of_mem_read own
    have other : t.char ≠ d.marker := fun same => absent (same ▸ char)
    rw [explicitKindOf_of_ne other, kind]
  · exact (d.explicitKindOf_eq_concat_iff d.marker).mpr rfl

theorem Legible.ofExplicit {order : List Token} (legible : d.Legible tokens)
    (arranged : Postorder.ofExplicit tokens = .ok order) : d.Legible order := by
  intro t inside
  have kept := (Postorder.perm_of_ofExplicit arranged).mem_iff.mp inside
  exact legible t (List.mem_filter.mp kept).1

/-! ## The stages -/

theorem explicitText_eq_ok_iff {explicit : String} :
    d.explicitText expression = .ok explicit ↔
      d.marker ∉ expression.toList ∧ explicit = Token.render (d.makeExplicit (read d.kindOf expression)) := by
  cases answer : d.readImplicit expression with
  | error fault =>
    have present : ¬ (d.marker ∉ expression.toList) := fun absent => by
      rw [readImplicit_of_not_mem absent] at answer
      cases answer
    simp [explicitText, answer, bind, Except.bind, present]
  | ok tokens =>
    obtain ⟨absent, rfl⟩ := readImplicit_eq_ok_iff.mp answer
    simp [explicitText, answer, bind, Except.bind, pure, Except.pure, absent, eq_comm]

theorem compile_of_explicitText {fault : Fault} (failed : d.explicitText expression = .error fault) :
    d.compile expression = .error fault := by
  cases answer : d.readImplicit expression with
  | error other =>
    rw [explicitText, answer] at failed
    rw [compile, answer]
    cases failed
    rfl
  | ok tokens =>
    rw [explicitText, answer] at failed
    cases failed

theorem Legible.postorderText_eq_ok_iff (legible : d.Legible tokens) {postorder : String} :
    d.postorderText (Token.render tokens) = .ok postorder ↔
      ∃ order, Postorder.ofExplicit tokens = .ok order ∧ Token.render order = postorder := by
  have moved := Postorder.ofExplicit_relocate (Token.indexAt tokens) (d.readExplicit (Token.render tokens))
  rw [legible.relocate_readExplicit] at moved
  cases answer : Postorder.ofExplicit (d.readExplicit (Token.render tokens)) with
  | error fault => simp [postorderText, answer, moved, relocated, bind, Except.bind]
  | ok order => simp [postorderText, answer, moved, relocated, bind, Except.bind, pure, Except.pure]

theorem postorderText_eq_error_iff {explicit : String} {fault : Fault} :
    d.postorderText explicit = .error fault ↔ Postorder.ofExplicit (d.readExplicit explicit) = .error fault := by
  cases answer : Postorder.ofExplicit (d.readExplicit explicit) <;>
    simp [postorderText, answer, bind, Except.bind, pure, Except.pure]

theorem Legible.assembleText_eq (legible : d.Legible tokens) :
    assemble tokens = relocated (Token.indexAt tokens) id (d.assembleText (Token.render tokens)) := by
  rw [assembleText, ← assemble_relocate, legible.relocate_readExplicit]

theorem Legible.assembleText_eq_ok_iff (legible : d.Legible tokens) {m : Automaton Char} :
    d.assembleText (Token.render tokens) = .ok m ↔ assemble tokens = .ok m := by
  rw [legible.assembleText_eq]
  cases d.assembleText (Token.render tokens) <;> simp [relocated]

/-! ## Faults -/

/-- The token stands in the expression at its position, or it is a concatenation that is written
    right before the token there. -/
def Stems (d : Dialect) (expression : String) (t : Token) : Prop :=
  (read d.kindOf expression)[t.index]? = some t ∨
    ∃ u, (read d.kindOf expression)[t.index]? = some u ∧ t = d.concat u.index ∧
      [t, u] <:+: d.makeExplicit (read d.kindOf expression)

theorem stems_of_mem {t : Token} (inside : t ∈ d.makeExplicit (read d.kindOf expression)) : d.Stems expression t := by
  rcases mem_makeExplicit inside with own | ⟨u, own, rfl, together⟩
  · exact .inl (index_lt_of_mem_read own).2
  · exact .inr ⟨u, (index_lt_of_mem_read own).2, rfl, together⟩

/-- No two places have tokens of one position and one kind. -/
def ToldApart (tokens : List Token) : Prop := tokens.Pairwise fun t u => ¬ (t.index = u.index ∧ t.kind = u.kind)

theorem ToldApart.place_eq (apart : ToldApart tokens) {t u : Token} {place other : Nat} (here : tokens[place]? = some t)
    (there : tokens[other]? = some u) (index : t.index = u.index) (kind : t.kind = u.kind) : other = place := by
  obtain ⟨inside, rfl⟩ := List.getElem?_eq_some_iff.mp here
  obtain ⟨inside', rfl⟩ := List.getElem?_eq_some_iff.mp there
  rcases Nat.lt_trichotomy place other with less | same | more
  · exact absurd ⟨index, kind⟩ (List.pairwise_iff_getElem.mp apart _ _ inside inside' less)
  · exact same.symm
  · exact absurd ⟨index.symm, kind.symm⟩ (List.pairwise_iff_getElem.mp apart _ _ inside' inside more)

/-- The tokens are some of those of the explicit form of the expression, in any order: what is read
    back from their text can be traced to the expression. -/
structure Derived (d : Dialect) (expression : String) (tokens : List Token) : Prop where
  legible : d.Legible tokens
  stems : ∀ t ∈ tokens, d.Stems expression t
  apart : ToldApart tokens

theorem derived_makeExplicit (absent : d.marker ∉ expression.toList) :
    d.Derived expression (d.makeExplicit (read d.kindOf expression)) where
  legible := legible_makeExplicit absent
  stems _ := stems_of_mem
  apart := by
    have ordered : (read d.kindOf expression).Pairwise (·.index < ·.index) := by
      rw [List.pairwise_iff_getElem]
      intro i j inside inside' less
      simpa [read] using less
    have plain : ∀ t ∈ read d.kindOf expression, t.kind ≠ .concat := fun t inside =>
      (char_of_mem_read inside).1 ▸ d.kindOf_ne_concat t.char
    refine (pairwise_makeExplicit ordered plain).imp fun {t u} order same => ?_
    rcases order with less | ⟨-, other⟩
    · omega
    · exact other same.2

theorem Derived.ofExplicit (derived : d.Derived expression tokens) {order : List Token}
    (arranged : Postorder.ofExplicit tokens = .ok order) : d.Derived expression order where
  legible := derived.legible.ofExplicit arranged
  stems t inside :=
    derived.stems t (List.mem_filter.mp ((Postorder.perm_of_ofExplicit arranged).mem_iff.mp inside)).1
  apart := by
    have symmetric : ∀ {t u : Token}, ¬ (t.index = u.index ∧ t.kind = u.kind) → ¬ (u.index = t.index ∧ u.kind = t.kind) :=
      fun apart same => apart ⟨same.1.symm, same.2.symm⟩
    exact ((Postorder.perm_of_ofExplicit arranged).pairwise_iff symmetric).mpr (derived.apart.filter _)

/-- Tokens of an explicit text that one fault can be about are of one kind. -/
theorem Legible.kind_eq_of_concerns (legible : d.Legible tokens) {fault : Fault} {t u : Token} (inside : t ∈ tokens)
    (inside' : u ∈ tokens) (first : fault.Concerns t) (second : fault.Concerns u) : t.kind = u.kind := by
  have chars (same : t.char = u.char) : t.kind = u.kind := by
    rw [← legible t inside, ← legible u inside', same]
  cases fault with
  | unmatchedClosing | unmatchedOpening => exact first.trans second.symm
  | reservedMarker | closedFragment => exact chars (first.trans second.symm)
  | missingOperand => exact chars (first.1.trans second.1.symm)
  | leftoverFragments | emptyExpression => cases first

/-- A fault in a text and a fault in an expression are the same, but for the way in which they name
    the token: the one gives its place among the tokens of the text, the other the position in
    the expression that the token stems from. The token is one that the faults are about, and at no
    other place is there one of this position that they could be about. -/
structure Blames (d : Dialect) (expression : String) (tokens : List Token) (there here : Fault) : Prop where
  cause : here = there.relocate (Token.indexAt tokens)
  token : ∀ place ∈ there.index?, ∃ t, tokens[place]? = some t ∧ here.PointsTo t ∧ d.Stems expression t
  alone : ∀ place ∈ there.index?, ∀ other t, tokens[other]? = some t → here.PointsTo t → other = place

theorem Derived.exists_blames {α : Type} {stage : List Token → Except Fault α} (derived : d.Derived expression tokens)
    (blind : Blind stage) (points : Points stage) {there : Fault}
    (failed : stage (d.readExplicit (Token.render tokens)) = .error there) :
    ∃ here, stage tokens = .error here ∧ d.Blames expression tokens there here := by
  have readBack := derived.legible.relocate_readExplicit
  have moved := blind (Token.indexAt tokens) _ _ failed
  rw [readBack] at moved
  have token : ∀ place ∈ there.index?, ∃ t, tokens[place]? = some t ∧
      (there.relocate (Token.indexAt tokens)).PointsTo t := by
    intro place named
    obtain ⟨t, inside, pointed⟩ := points _ _ _ failed named
    obtain rfl : t.index = place := Option.some.inj (pointed.1.symm.trans named)
    have found := congrArg (·[t.index]?) readBack
    simp only [List.getElem?_map, readExplicit, (index_lt_of_mem_read inside).2, Option.map_some] at found
    exact ⟨_, found.symm, pointed.relocate _⟩
  refine ⟨_, moved, rfl, ?_, ?_⟩
  · intro place named
    obtain ⟨t, found, pointed⟩ := token place named
    exact ⟨t, found, pointed, derived.stems t (List.mem_of_getElem? found)⟩
  · intro place named other u there' pointed'
    obtain ⟨t, found, pointed⟩ := token place named
    have index : t.index = u.index := Option.some.inj (pointed.1.symm.trans pointed'.1)
    have kind := derived.legible.kind_eq_of_concerns (List.mem_of_getElem? found) (List.mem_of_getElem? there') pointed.2
      pointed'.2
    exact derived.apart.place_eq found there' index kind

/-! ## Compiling by texts -/

theorem compile_eq_ok_iff_texts {c : Compiled} :
    d.compile expression = .ok c ↔
      ∃ explicit postorder automaton, d.explicitText expression = .ok explicit ∧
        d.postorderText explicit = .ok postorder ∧ d.assembleText postorder = .ok automaton ∧
        c = ⟨expression, explicit, postorder, automaton.relabel⟩ := by
  rw [compile_eq_ok_iff]
  constructor
  · rintro ⟨tokens, order, m, answer, arranged, built, rfl⟩
    obtain ⟨absent, rfl⟩ := readImplicit_eq_ok_iff.mp answer
    have legible := legible_makeExplicit absent
    have written := explicitText_eq_ok_iff.mpr ⟨absent, rfl⟩
    have rearranged := legible.postorderText_eq_ok_iff.mpr ⟨order, arranged, rfl⟩
    exact ⟨_, _, m, written, rearranged, (legible.ofExplicit arranged).assembleText_eq_ok_iff.mpr built, rfl⟩
  · rintro ⟨_, _, m, written, rearranged, built, rfl⟩
    obtain ⟨absent, rfl⟩ := explicitText_eq_ok_iff.mp written
    have legible := legible_makeExplicit absent
    obtain ⟨order, arranged, rfl⟩ := legible.postorderText_eq_ok_iff.mp rearranged
    exact ⟨_, order, m, readImplicit_of_not_mem absent, arranged,
      (legible.ofExplicit arranged).assembleText_eq_ok_iff.mp built, rfl⟩

theorem exists_blames_of_postorderText {explicit : String} {there : Fault}
    (written : d.explicitText expression = .ok explicit) (failed : d.postorderText explicit = .error there) :
    Token.render (d.makeExplicit (read d.kindOf expression)) = explicit ∧
      ∃ here, d.compile expression = .error here ∧
        d.Blames expression (d.makeExplicit (read d.kindOf expression)) there here := by
  obtain ⟨absent, rfl⟩ := explicitText_eq_ok_iff.mp written
  obtain ⟨here, faulty, blames⟩ := (derived_makeExplicit absent).exists_blames blind_ofExplicit
    Postorder.points_ofExplicit (postorderText_eq_error_iff.mp failed)
  exact ⟨rfl, here, compile_of_fault absent faulty, blames⟩

theorem exists_blames_of_assembleText {explicit postorder : String} {there : Fault}
    (written : d.explicitText expression = .ok explicit) (rearranged : d.postorderText explicit = .ok postorder)
    (failed : d.assembleText postorder = .error there) :
    ∃ order here, Postorder.ofExplicit (d.makeExplicit (read d.kindOf expression)) = .ok order ∧
      Token.render order = postorder ∧ d.compile expression = .error here ∧ d.Blames expression order there here := by
  obtain ⟨absent, rfl⟩ := explicitText_eq_ok_iff.mp written
  have derived := derived_makeExplicit absent
  obtain ⟨order, arranged, rfl⟩ := derived.legible.postorderText_eq_ok_iff.mp rearranged
  obtain ⟨here, faulty, blames⟩ := (derived.ofExplicit arranged).exists_blames blind_assemble points_assemble failed
  exact ⟨order, here, arranged, rfl, (compile_eq_error_iff absent arranged).mpr faulty, blames⟩

/-- Compiling an expression and passing it through the stages as a text agree: both succeed, with
    the same forms and the same automaton, or both fail, for the same cause and at the same
    token. The tokens in whose text a stage fails are the explicit form of the expression
    or its postorder. -/
theorem compile_agrees_with_texts (d : Dialect) (expression : String) :
    (∀ c, d.compile expression = .ok c ↔
      ∃ explicit postorder automaton, d.explicitText expression = .ok explicit ∧
        d.postorderText explicit = .ok postorder ∧ d.assembleText postorder = .ok automaton ∧
        c = ⟨expression, explicit, postorder, automaton.relabel⟩) ∧
    (∀ fault, d.explicitText expression = .error fault → d.compile expression = .error fault) ∧
    (∀ explicit there, d.explicitText expression = .ok explicit → d.postorderText explicit = .error there →
      Token.render (d.makeExplicit (read d.kindOf expression)) = explicit ∧
        ∃ here, d.compile expression = .error here ∧
          d.Blames expression (d.makeExplicit (read d.kindOf expression)) there here) ∧
    ∀ explicit postorder there, d.explicitText expression = .ok explicit → d.postorderText explicit = .ok postorder →
      d.assembleText postorder = .error there →
      ∃ order here, Postorder.ofExplicit (d.makeExplicit (read d.kindOf expression)) = .ok order ∧
        Token.render order = postorder ∧ d.compile expression = .error here ∧
        d.Blames expression order there here := by
  refine ⟨fun c => compile_eq_ok_iff_texts, fun fault => compile_of_explicitText, ?_, ?_⟩
  · intro explicit there written failed
    exact exists_blames_of_postorderText written failed
  · intro explicit postorder there written rearranged failed
    exact exists_blames_of_assembleText written rearranged failed

/-- The explicit text has a concatenation before the delimiter, with the same position in the
    expression; so the delimiter stands at 2 there, and the token at 1 is not the one to blame. And
    the concatenation at the end of a postorder is that before the group. -/
theorem compile_agrees_with_texts_misplaced :
    (explicitText {} "a(" = .ok "a?(" ∧ postorderText {} "a?(" = .error (.unmatchedOpening 2) ∧
      compile {} "a(" = .error (.unmatchedOpening 1) ∧
      Blames {} "a(" (makeExplicit {} (read (kindOf {}) "a(")) (.unmatchedOpening 2) (.unmatchedOpening 1) ∧
      ¬ Blames {} "a(" (makeExplicit {} (read (kindOf {}) "a(")) (.unmatchedOpening 1) (.unmatchedOpening 1)) ∧
    explicitText {} "ab()" = .ok "a?b?()" ∧ postorderText {} "a?b?()" = .ok "ab??" ∧
      assembleText {} "ab??" = .error (.missingOperand '?' 3 2 1) ∧
      ∃ order, Token.render order = "ab??" ∧ compile {} "ab()" = .error (.missingOperand '?' 2 2 1) ∧
        Blames {} "ab()" order (.missingOperand '?' 3 2 1) (.missingOperand '?' 2 2 1) := by
  refine ⟨⟨rfl, rfl, ?_⟩, rfl, rfl, rfl, ?_⟩
  · obtain ⟨-, -, rearranging, -⟩ := compile_agrees_with_texts {} "a("
    obtain ⟨-, here, faulty, blames⟩ := rearranging "a?(" (.unmatchedOpening 2) rfl rfl
    cases faulty
    refine ⟨rfl, blames, fun wrong => ?_⟩
    obtain ⟨t, there, ⟨-, opening⟩, -⟩ := wrong.token 1 rfl
    cases there
    cases opening
  · obtain ⟨-, -, -, assembling⟩ := compile_agrees_with_texts {} "ab()"
    obtain ⟨order, here, -, text, faulty, blames⟩ :=
      assembling "a?b?()" "ab??" (.missingOperand '?' 3 2 1) rfl rfl rfl
    cases faulty
    exact ⟨order, text, rfl, blames⟩

end Dialect

end RegexAutomaton
