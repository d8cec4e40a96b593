import RegexAutomaton.Text.Runs

/-!
Blank characters: those with the Unicode property White_Space. `trimEnd` removes
them from the end of a text; what remains is empty or ends in another character.
-/
namespace RegexAutomaton.Text

/-- The runs of blank characters. -/
def blankRuns : Runs :=
  [(0x9, 0xD), (0x20, 0x20), (0x85, 0x85), (0xA0, 0xA0), (0x1680, 0x1680), (0x2000, 0x200A),
   (0x2028, 0x2029), (0x202F, 0x202F), (0x205F, 0x205F), (0x3000, 0x3000)]

/-- The character has the property White_Space. -/
def isBlank (c : Char) : Bool := blankRuns.contains c

/-- The text without the blank characters at its end. -/
def trimEnd (text : List Char) : List Char := (text.reverse.dropWhile isBlank).reverse

/-- What is removed from a text are blank characters at its end. -/
theorem exists_blanks (text : List Char) :
    ∃ blanks, text = trimEnd text ++ blanks ∧ ∀ c ∈ blanks, isBlank c = true := by
  refine ⟨(text.reverse.takeWhile isBlank).reverse, ?_, fun c inside => ?_⟩
  · rw [trimEnd, ← List.reverse_append, List.takeWhile_append_dropWhile, List.reverse_reverse]
  · exact List.all_eq_true.mp List.all_takeWhile c (List.mem_reverse.mp inside)

theorem trimEnd_of_getLast? {text : List Char} (ending : text.getLast?.any isBlank = false) :
    trimEnd text = text := by
  rw [List.getLast?_eq_head?_reverse] at ending
  cases shape : text.reverse with
  | nil => simp [trimEnd, List.reverse_eq_nil_iff.mp shape]
  | cons c rest =>
    have last : isBlank c = false := by simpa [shape] using ending
    rw [trimEnd, shape, List.dropWhile_cons_of_neg (by simp [last]), ← shape, List.reverse_reverse]

theorem trimEnd_concat (text : List Char) (c : Char) :
    trimEnd (text ++ [c]) = if isBlank c then trimEnd text else text ++ [c] := by
  by_cases blank : isBlank c = true <;> simp [trimEnd, blank]

theorem trimEnd_append_blanks (text : List Char) {blanks : List Char} (all : ∀ c ∈ blanks, isBlank c = true) :
    trimEnd (text ++ blanks) = trimEnd text := by
  induction blanks generalizing text with
  | nil => simp
  | cons c rest ih =>
    have blank : isBlank c = true := all c (.head rest)
    have later := ih (text ++ [c]) fun d inside => all d (.tail c inside)
    rw [List.append_assoc, List.singleton_append] at later
    rw [later, trimEnd_concat, if_pos blank]

end RegexAutomaton.Text
