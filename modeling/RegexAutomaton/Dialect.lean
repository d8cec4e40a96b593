import RegexAutomaton.Token
import RegexAutomaton.Fault

/-!
A dialect fixes which characters of an expression are operators and delimiters.
One character may be given several uses; the order of the tests in `kindOf` and
`explicitKindOf` then decides. An expression as it is typed leaves its
concatenations out (`readImplicit`); in an explicit text they are written with the
marker (`readExplicit`).
-/
namespace RegexAutomaton

/-- The reserved characters of expressions. -/
structure Dialect where
  unions : List Char := ['+', '|']
  closure : Char := '*'
  opening : Char := '('
  closing : Char := ')'
  marker : Char := '?'
  deriving DecidableEq

namespace Dialect

/-- What a character means where concatenation is implicit. -/
def kindOf (d : Dialect) (c : Char) : Token.Kind :=
  if c ∈ d.unions then .union
  else if c = d.closure then .closure
  else if c = d.opening then .opening
  else if c = d.closing then .closing
  else .literal

/-- What a character means where concatenation is written: the marker comes before
    any other use of its character. -/
def explicitKindOf (d : Dialect) (c : Char) : Token.Kind :=
  if c = d.marker then .concat else d.kindOf c

theorem kindOf_ne_concat (d : Dialect) (c : Char) : d.kindOf c ≠ .concat := by
  unfold kindOf
  repeat' split
  all_goals simp

theorem explicitKindOf_eq_concat_iff (d : Dialect) (c : Char) : d.explicitKindOf c = .concat ↔ c = d.marker := by
  unfold explicitKindOf
  by_cases same : c = d.marker
  · simp [same]
  · simp [same, kindOf_ne_concat]

theorem explicitKindOf_of_ne {d : Dialect} {c : Char} (other : c ≠ d.marker) : d.explicitKindOf c = d.kindOf c :=
  if_neg other

/-- The characters of a text as tokens, each with its position, counted in characters. -/
def read (meaning : Char → Token.Kind) (text : String) : List Token :=
  text.toList.mapIdx fun index c => ⟨meaning c, c, index⟩

theorem length_read (meaning : Char → Token.Kind) (text : String) :
    (read meaning text).length = text.toList.length := by
  simp [read]

theorem render_read (meaning : Char → Token.Kind) (text : String) : Token.render (read meaning text) = text := by
  have chars : (read meaning text).map Token.char = text.toList :=
    List.ext_getElem (by simp [read]) (by simp [read])
  simp [Token.render, chars]

/-- The tokens of an expression with implicit concatenation. The marker is kept for
    concatenations, so its first occurrence is a fault. -/
def readImplicit (d : Dialect) (expression : String) : Except Fault (List Token) :=
  match expression.toList.findIdx? (· = d.marker) with
  | some index => .error (.reservedMarker d.marker index)
  | none => .ok (read d.kindOf expression)

/-- The tokens of a text in which concatenations are written. -/
def readExplicit (d : Dialect) (text : String) : List Token := read d.explicitKindOf text

theorem readImplicit_of_not_mem {d : Dialect} {expression : String} (absent : d.marker ∉ expression.toList) :
    d.readImplicit expression = .ok (read d.kindOf expression) := by
  have none_found : expression.toList.findIdx? (· = d.marker) = none := by
    rw [List.findIdx?_eq_none_iff]
    intro c inside
    have differs : c ≠ d.marker := fun same => absent (same ▸ inside)
    simpa using differs
  simp [readImplicit, none_found]

theorem readImplicit_eq_ok_iff {d : Dialect} {expression : String} {tokens : List Token} :
    d.readImplicit expression = .ok tokens ↔ d.marker ∉ expression.toList ∧ tokens = read d.kindOf expression := by
  by_cases present : d.marker ∈ expression.toList
  · have found : (expression.toList.findIdx? (· = d.marker)).isSome = true := by simpa using present
    obtain ⟨index, first⟩ := Option.isSome_iff_exists.mp found
    simp [readImplicit, first, present]
  · simp [readImplicit_of_not_mem present, present, eq_comm]

end Dialect

end RegexAutomaton
