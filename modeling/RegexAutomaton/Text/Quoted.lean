import RegexAutomaton.Text.Graphic
import RegexAutomaton.Text.Combining
import RegexAutomaton.Text.Ignorable

/-!
Quoted text: between two quotation marks, so written that every character can be told.
The quotation mark, the backslash and four controls are escaped by a backslash and
one character. Any other character is written as it is if it can be seen by itself,
and by its number if not.
-/
namespace RegexAutomaton.Text

/-- The character can be seen, and apart from the one before it. -/
def isDistinct (c : Char) : Bool := isGraphic c && !isIgnorable c && !isCombining c

/-- A character by its number, in lower-case hexadecimal digits. -/
def escapeNumber (c : Char) : List Char := ['\\', 'u', '\x7b'] ++ Nat.toDigits 16 c.toNat ++ ['\x7d']

/-- A character as it is written inside quotation marks. -/
def escape : Char → List Char
  | '"' => ['\\', '"']
  | '\\' => ['\\', '\\']
  | '\x00' => ['\\', '0']
  | '\t' => ['\\', 't']
  | '\n' => ['\\', 'n']
  | '\r' => ['\\', 'r']
  | c => if isDistinct c then [c] else escapeNumber c

/-- The text between quotation marks. -/
def quote (text : String) : String := String.ofList ('"' :: text.toList.flatMap escape ++ ['"'])

end RegexAutomaton.Text
