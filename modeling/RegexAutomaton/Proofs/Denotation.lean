import RegexAutomaton.Compiler
import RegexAutomaton.Proofs.Assembling
import RegexAutomaton.Proofs.Juxtaposition
import RegexAutomaton.Proofs.Precedence

/-!
Expressions of the grammar. If the tokens of an expression have a tree, then compiling
succeeds, and the automaton accepts the language of the tree: the written concatenations
change the tree but not its regular expression, the rearrangement yields its postorder, and
the assembly makes of this a fragment that is sound for it.
-/
namespace RegexAutomaton

theorem Automaton.accepts_relabel {α : Type} (m : Automaton α) (word : List α) :
    m.relabel.Accepts word ↔ m.Accepts word :=
  Arena.path_iff_of_same fun s _ => m.edges_relabel s

namespace Dialect

/-- What compiling does with the tokens of an expression without the marker. -/
theorem compile_of_order {d : Dialect} {expression : String} {order : List Token}
    (absent : d.marker ∉ expression.toList)
    (done : Postorder.ofExplicit (d.makeExplicit (read d.kindOf expression)) = .ok order) :
    d.compile expression = (assemble order).map fun m =>
      ⟨expression, Token.render (d.makeExplicit (read d.kindOf expression)), Token.render order, m.relabel⟩ := by
  simp only [compile, readImplicit_of_not_mem absent, bind, Except.bind, done]
  cases assemble order <;> rfl

/-- After the arrangement only the assembly can fail. -/
theorem compile_eq_error_iff {d : Dialect} {expression : String} {order : List Token} {fault : Fault}
    (absent : d.marker ∉ expression.toList)
    (done : Postorder.ofExplicit (d.makeExplicit (read d.kindOf expression)) = .ok order) :
    d.compile expression = .error fault ↔ assemble order = .error fault := by
  rw [compile_of_order absent done]
  cases assemble order <;> simp [Except.map]

theorem compile_of_fault {d : Dialect} {expression : String} {fault : Fault} (absent : d.marker ∉ expression.toList)
    (refused : Postorder.ofExplicit (d.makeExplicit (read d.kindOf expression)) = .error fault) :
    d.compile expression = .error fault := by
  simp only [compile, readImplicit_of_not_mem absent, bind, Except.bind, refused]

theorem compile_of_mem {d : Dialect} {expression : String} (present : d.marker ∈ expression.toList) :
    ∃ index, d.compile expression = .error (.reservedMarker d.marker index) := by
  have found : (expression.toList.findIdx? (· = d.marker)).isSome = true := by
    simpa using present
  obtain ⟨index, first⟩ := Option.isSome_iff_exists.mp found
  refine ⟨index, ?_⟩
  simp only [compile, readImplicit, first, bind, Except.bind]

/-- An expression of the grammar compiles, to an automaton for the language of its tree. -/
theorem compile_of_reads {d : Dialect} {expression : String} {tree : Tree} (absent : d.marker ∉ expression.toList)
    (reads : Tree.ReadsImplicit (read d.kindOf expression) tree) :
    ∃ c, d.compile expression = .ok c ∧ ∀ word, c.automaton.Accepts word ↔ word ∈ tree.regex.language := by
  obtain ⟨explicit, written, same⟩ := Tree.exists_readsExplicit d reads
  have order := (Postorder.arranges_of_reads written).ofExplicit
  obtain ⟨m, assembled, accepts⟩ := assemble_of_composeAll (Token.composeAll_postorder written [])
  rw [compile_of_order absent order, assembled]
  refine ⟨_, rfl, ?_⟩
  intro word
  rw [Automaton.accepts_relabel, accepts, same]

end Dialect

end RegexAutomaton
