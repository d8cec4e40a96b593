import RegexAutomaton.Table.Basic
import RegexAutomaton.Text.Blank

/-!
Tables as aligned text. Every column is as wide as its longest text, counted in
characters; a rule under the headings carries a plus sign under each bar. Lines
lose the blank characters at their end, the rule does not.
-/
namespace RegexAutomaton.Layout

/-- The widths of `count` columns, each that of its longest text. -/
def widths (count : Nat) (grid : List (List String)) : List Nat :=
  grid.foldr (fun line => List.zipWith max (line.map fun text => text.toList.length)) (List.replicate count 0)

/-- A text filled up with spaces to a width; longer texts stay as they are. -/
def pad (width : Nat) (text : String) : List Char :=
  text.toList ++ List.replicate (width - text.toList.length) ' '

/-- The texts of a line in their columns, with a bar between two columns. -/
def line (widths : List Nat) (texts : List String) : List Char :=
  Text.trimEnd (List.intercalate [' ', '|', ' '] (List.zipWith pad widths texts))

/-- The rule under the headings. -/
def rule (widths : List Nat) : List Char :=
  List.intercalate ['-', '+', '-'] (widths.map fun width => List.replicate width '-')

/-- The lines of a grid whose first line holds the headings. -/
def lines : List (List String) → List (List Char)
  | [] => []
  | headings :: rest =>
    let widths := widths headings.length (headings :: rest)
    line widths headings :: rule widths :: rest.map (line widths)

theorem length_widths {count : Nat} {grid : List (List String)} (even : ∀ texts ∈ grid, texts.length = count) :
    (widths count grid).length = count := by
  induction grid with
  | nil => simp [widths]
  | cons texts rest ih =>
    have first : texts.length = count := even texts (.head rest)
    have later : (widths count rest).length = count := ih fun other inside => even other (.tail texts inside)
    simp only [widths] at later ⊢
    simp [first, later]

theorem length_pad {width : Nat} {text : String} (fits : text.toList.length ≤ width) :
    (pad width text).length = width := by
  simp only [pad, List.length_append, List.length_replicate]
  omega

end RegexAutomaton.Layout

namespace RegexAutomaton.Table

/-- The table as text, each line ended by a line feed. -/
def text (t : Table) : String := String.ofList ((Layout.lines t.grid).flatMap (· ++ ['\n']))

end RegexAutomaton.Table
