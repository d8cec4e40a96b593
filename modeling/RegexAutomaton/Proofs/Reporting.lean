import RegexAutomaton.Journal
import RegexAutomaton.Proofs.FaultPositions
import RegexAutomaton.Proofs.QuotedText
import RegexAutomaton.Proofs.Shape

/-!
What the journal of a compilation tells. Each token that the assembly takes is reported by the
composition that it asks for and the fragment that is made, and the report ends at the first token
that is not taken (`tells_compositions`). So the journal of an expression that compiles follows
the assembly to its end, and then tells the size of the automaton (`journal_of_compile_ok`); if
the assembly fails, it tells just the tokens in front of the one that stops it, and if an earlier
stage does, it is empty (`journal_of_compile_error`). Each event is reported in a line of its own,
whatever texts are in it, for all characters of a message can be seen (`shown_message`,
`newline_not_mem_message`).
-/
namespace RegexAutomaton

namespace Journal

/-! ## Compositions -/

/-- The events tell how an assembly takes the tokens and becomes another one: each names the
    composition that its token asks for, and the fragment that is on top of the stack then. -/
inductive Tells : Assembly → List Token → List Event → Assembly → Prop where
  | done (a : Assembly) : Tells a [] [] a
  | step {a b c : Assembly} {t : Token} {rest : List Token} {composition : Composition} {fragment : Fragment}
      {events : List Event} (taken : a.take t = .ok b) (asked : Composition.ofKind? t.kind = some composition)
      (made : b.stack.head? = some fragment) (later : Tells b rest events c) :
      Tells a (t :: rest) (.composed composition fragment :: events) c

theorem Tells.exists_composed {a b : Assembly} {tokens : List Token} {events : List Event} (tells : Tells a tokens events b)
    {event : Event} (inside : event ∈ events) : ∃ composition fragment, event = .composed composition fragment := by
  induction tells with
  | done => cases inside
  | step _ _ _ _ ih =>
    rcases List.mem_cons.mp inside with rfl | later
    · exact ⟨_, _, rfl⟩
    · exact ih later

theorem composed?_of_take {a b : Assembly} {t : Token} (taken : a.take t = .ok b) :
    ∃ composition fragment, Composition.ofKind? t.kind = some composition ∧ b.stack.head? = some fragment ∧
      composed? t b = some (.composed composition fragment) := by
  rcases Assembly.take_cases taken with ⟨kind, rfl⟩ | ⟨f, g, h, rest, arena, kind, -, -, rfl⟩ |
    ⟨f, g, h, rest, arena, kind, -, -, rfl⟩ | ⟨f, h, rest, arena, kind, -, -, rfl⟩
  all_goals
    rw [composed?, kind]
    exact ⟨_, _, rfl, rfl, rfl⟩

/-- What is reported tells all tokens that are taken, and ends at the first one that is not. -/
theorem tells_compositions {a b : Assembly} {front : List Token} (taken : a.takeAll front = .ok b) (back : List Token)
    (stopped : ∀ t ∈ back.head?, ∃ fault, b.take t = .error fault) :
    Tells a front (compositions a (front ++ back)) b := by
  induction front generalizing a with
  | nil =>
    cases taken
    cases back with
    | nil => exact .done b
    | cons t rest =>
      obtain ⟨fault, refused⟩ := stopped t rfl
      rw [List.nil_append, compositions, refused]
      exact .done b
  | cons t rest ih =>
    obtain ⟨next, first, later⟩ := Assembly.exists_take_of_takeAll_cons taken
    obtain ⟨composition, fragment, asked, made, reported⟩ := composed?_of_take first
    have same : compositions a (t :: (rest ++ back)) =
        .composed composition fragment :: compositions next (rest ++ back) := by
      simp [compositions, first, reported]
    rw [List.cons_append, same]
    exact .step first asked made (ih later)

theorem tells_all_compositions {a b : Assembly} {tokens : List Token} (taken : a.takeAll tokens = .ok b) :
    Tells a tokens (compositions a tokens) b := by
  have tells := tells_compositions taken [] (fun t none => by cases none)
  rwa [List.append_nil] at tells

end Journal

/-! ## Journals -/

namespace Dialect
open Journal
open Token (Passes FirstStop)
variable {d : Dialect} {expression : String}

theorem journal_of_assembled {order : List Token} {m : Automaton Char} (absent : d.marker ∉ expression.toList)
    (arranged : Postorder.ofExplicit (d.makeExplicit (read d.kindOf expression)) = .ok order)
    (built : assemble order = .ok m) :
    d.journal expression =
      .arranged (d.makeExplicit (read d.kindOf expression)).length order.length ::
        .compiling expression (Token.render (d.makeExplicit (read d.kindOf expression))) (Token.render order) ::
        compositions {} order ++
          [.assembled m.size order.length,
            .tabulated (Table.ofAutomaton {} m.relabel).rows.length (Table.ofAutomaton {} m.relabel).header.length] := by
  simp only [journal, readImplicit_of_not_mem absent, arranged, built]

theorem journal_of_refused {order : List Token} {fault : Fault} (absent : d.marker ∉ expression.toList)
    (arranged : Postorder.ofExplicit (d.makeExplicit (read d.kindOf expression)) = .ok order)
    (refused : assemble order = .error fault) :
    d.journal expression =
      .arranged (d.makeExplicit (read d.kindOf expression)).length order.length ::
        .compiling expression (Token.render (d.makeExplicit (read d.kindOf expression))) (Token.render order) ::
        compositions {} order := by
  simp only [journal, readImplicit_of_not_mem absent, arranged, refused, List.append_nil]

/-- The journal of an expression that compiles: all tokens of the postorder, up to the fragment of
    the whole automaton. -/
theorem journal_of_compile_ok {c : Compiled} (compiled : d.compile expression = .ok c) :
    ∃ order events arena, Token.render order = c.postorder ∧
      Tells {} order events ⟨arena, [⟨c.automaton.start, c.automaton.accepting⟩]⟩ ∧
      d.journal expression =
        .arranged c.explicit.length c.postorder.length :: .compiling expression c.explicit c.postorder :: events ++
          [.assembled c.automaton.size c.postorder.length,
            .tabulated c.automaton.size (Table.ofAutomaton {} c.automaton).header.length] := by
  obtain ⟨tokens, order, m, answer, arranged, built, rfl⟩ := compile_eq_ok_iff.mp compiled
  obtain ⟨absent, rfl⟩ := readImplicit_eq_ok_iff.mp answer
  obtain ⟨⟨arena, _⟩, f, taken, rfl, rfl⟩ := exists_finish_of_assemble built
  have count (tokens : List Token) : (Token.render tokens).length = tokens.length := by
    rw [← String.length_toList, Token.toList_render, List.length_map]
  have rows : (Table.ofAutomaton {} (arena.finish f).relabel).rows.length = (arena.finish f).size := by
    rw [Table.length_rows, Automaton.order_relabel, (trim_of_assemble built).length_order]
  refine ⟨order, compositions {} order, arena, rfl, tells_all_compositions taken, ?_⟩
  rw [journal_of_assembled absent arranged built, count, count, Automaton.size_relabel]
  simp only [rows]

/-- The journal of an expression that does not compile: nothing if the assembly is not reached, and
    otherwise the tokens in front of the one that stops the assembly, or all if none does. -/
theorem journal_of_compile_error {fault : Fault} (failed : d.compile expression = .error fault) :
    d.journal expression = [] ∧
        (d.readImplicit expression = .error fault ∨
          Postorder.ofExplicit (d.makeExplicit (read d.kindOf expression)) = .error fault) ∨
      ∃ order taken events a, Postorder.ofExplicit (d.makeExplicit (read d.kindOf expression)) = .ok order ∧
        assemble order = .error fault ∧ (taken = order ∧ Passes order ∨ ∃ t, FirstStop order taken t) ∧
        Tells {} taken events a ∧
        d.journal expression =
          .arranged (d.makeExplicit (read d.kindOf expression)).length order.length ::
            .compiling expression (Token.render (d.makeExplicit (read d.kindOf expression))) (Token.render order) ::
            events := by
  rcases stage_of_compile_error failed with unread | misgrouped | ⟨order, absent, arranged, refused⟩
  · exact .inl ⟨by simp only [journal, unread], .inl unread⟩
  · refine .inl ⟨?_, .inr misgrouped⟩
    cases answer : d.readImplicit expression with
    | error other => simp only [journal, answer]
    | ok tokens =>
      obtain ⟨-, rfl⟩ := readImplicit_eq_ok_iff.mp answer
      simp only [journal, answer, misgrouped]
  · have written := journal_of_refused absent arranged refused
    rcases Token.passes_or_firstStop order with passes | ⟨front, t, first⟩
    · obtain ⟨a, taken, -⟩ := Assembly.takeAll_of_passes passes
      exact .inr ⟨order, order, _, a, arranged, refused, .inl ⟨rfl, passes⟩, tells_all_compositions taken, written⟩
    · have ⟨⟨back, split⟩, passes, stops⟩ := first
      obtain ⟨a, taken, height⟩ := Assembly.takeAll_of_passes passes
      rw [height] at stops
      have tells : Tells {} front (compositions {} order) a := by
        rw [split]
        refine tells_compositions taken (t :: back) ?_
        rintro u ⟨⟩
        exact ⟨_, Assembly.take_of_stops stops⟩
      exact .inr ⟨order, front, _, a, arranged, refused, .inr ⟨t, first⟩, tells, written⟩

/-- The last event tells whether the expression compiles. -/
theorem tabulated_mem_journal_iff :
    (∃ rows columns, .tabulated rows columns ∈ d.journal expression) ↔ ∃ c, d.compile expression = .ok c := by
  constructor
  · rintro ⟨rows, columns, inside⟩
    cases answer : d.compile expression with
    | ok c => exact ⟨c, rfl⟩
    | error fault =>
      rcases journal_of_compile_error answer with ⟨empty, -⟩ | ⟨order, taken, events, a, -, -, -, tells, written⟩
      · rw [empty] at inside
        cases inside
      · have composed : .tabulated rows columns ∈ events := by simpa [written] using inside
        obtain ⟨composition, fragment, same⟩ := tells.exists_composed composed
        cases same
  · rintro ⟨c, compiled⟩
    obtain ⟨order, events, arena, -, -, written⟩ := journal_of_compile_ok compiled
    refine ⟨c.automaton.size, (Table.ofAutomaton {} c.automaton).header.length, ?_⟩
    rw [written]
    simp

end Dialect

/-! ## Messages -/

namespace Journal
open Text (isPrintable isDistinct)

/-- All characters of the text can be seen. -/
def Shown (text : String) : Prop := ∀ c ∈ text.toList, isDistinct c = true

theorem Shown.append {front back : String} (shown : Shown front) (shown' : Shown back) : Shown (front ++ back) := by
  intro c inside
  rw [String.toList_append, List.mem_append] at inside
  rcases inside with first | second
  · exact shown c first
  · exact shown' c second

theorem shown_of_isPrintable {text : String} (printable : text.toList.all isPrintable = true) : Shown text :=
  fun c inside => Text.isDistinct_of_isPrintable (List.all_eq_true.mp printable c inside)

theorem shown_repr (n : Nat) : Shown (Nat.repr n) := by
  intro c inside
  rw [Nat.repr_eq_ofList_toDigits, String.toList_ofList] at inside
  have digit := Nat.isDigit_of_mem_toDigits (by decide) (by decide) inside
  obtain ⟨low, high⟩ : 48 ≤ c.toNat ∧ c.toNat ≤ 57 := by
    simpa [Char.isDigit, UInt32.le_iff_toNat_le] using digit
  refine Text.isDistinct_of_isPrintable ?_
  simp only [isPrintable, Bool.and_eq_true, decide_eq_true_eq]
  omega

theorem shown_quote (text : String) : Shown (Text.quote text) := fun _ => Text.isDistinct_of_mem_quote

theorem shown_render (s : StateId) : Shown s.render := (shown_of_isPrintable (by decide +kernel)).append (shown_repr s)

theorem shown_name (composition : Composition) : Shown composition.name := by
  cases composition <;> exact shown_of_isPrintable (by decide +kernel)

/-- Nothing in a message is hidden. -/
theorem shown_message (event : Event) : Shown event.message := by
  unfold Event.message
  cases event with
  | arranged explicitCount postorderCount =>
    refine .append (.append (.append (.append ?_ (shown_repr explicitCount)) ?_) (shown_repr postorderCount)) ?_
    all_goals exact shown_of_isPrintable (by decide +kernel)
  | compiling expression explicit postorder =>
    refine .append (.append (.append (.append (.append ?_ (shown_quote expression)) ?_) (shown_quote explicit)) ?_)
      (shown_quote postorder)
    all_goals exact shown_of_isPrintable (by decide +kernel)
  | composed composition fragment =>
    refine .append (.append (.append (.append (shown_name composition) ?_) (shown_render fragment.start)) ?_)
      (shown_render fragment.stop)
    all_goals exact shown_of_isPrintable (by decide +kernel)
  | assembled states tokenCount =>
    refine .append (.append (.append (.append ?_ (shown_repr states)) ?_) (shown_repr tokenCount)) ?_
    all_goals exact shown_of_isPrintable (by decide +kernel)
  | tabulated rows columns =>
    refine .append (.append (.append (.append ?_ (shown_repr rows)) ?_) (shown_repr columns)) ?_
    all_goals exact shown_of_isPrintable (by decide +kernel)

/-- Each event takes one line. -/
theorem newline_not_mem_message (event : Event) : '\n' ∉ event.message.toList := by
  intro inside
  have space := Text.eq_space_of_isDistinct (shown_message event '\n' inside) (by decide)
  cases space

end Journal

end RegexAutomaton
