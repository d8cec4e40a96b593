import Mathlib.Data.List.Basic
import RegexAutomaton.Text.Quoted

/-!
What a quoted text tells. A reader that goes through it character by character, and remembers only
whether it is behind a backslash or within a number (`Reading`), finds the text that was quoted and
where the quotation ends, whatever comes behind it (`readQuoted_quote`). All that is written can be
seen (`isDistinct_of_mem_quote`): what could not is written by its number, in
characters that all three tables spare. So the only blank in a quoted text is the space.
-/
namespace RegexAutomaton.Text

/-! ## Numbers -/

/-- The value of a hexadecimal digit. -/
def hexValue (c : Char) : Nat := if c.isDigit then c.toNat - '0'.toNat else c.toNat - 'a'.toNat + 10

/-- The number that digits are read as when `value` was read before them. -/
def readDigits (value : Nat) (digits : List Char) : Nat := digits.foldl (fun value c => 16 * value + hexValue c) value

theorem hexValue_digitChar : ∀ n < 16, hexValue (Nat.digitChar n) = n := by decide

theorem readDigits_toDigits (n : Nat) : readDigits 0 (Nat.toDigits 16 n) = n := by
  induction n using Nat.strongRecOn with
  | ind n ih =>
    by_cases small : n < 16
    · rw [Nat.toDigits_of_lt_base small]
      simp [readDigits, hexValue_digitChar n small]
    · have front := ih (n / 16) (by omega)
      unfold readDigits at front ⊢
      rw [Nat.toDigits_of_base_le (by decide) (by omega), List.foldl_append, front, List.foldl_cons, List.foldl_nil,
        hexValue_digitChar (n % 16) (Nat.mod_lt n (by decide))]
      omega

theorem exists_digitChar_of_mem_toDigits {n : Nat} {c : Char} (inside : c ∈ Nat.toDigits 16 n) :
    ∃ k < 16, c = Nat.digitChar k := by
  induction n using Nat.strongRecOn with
  | ind n ih =>
    by_cases small : n < 16
    · rw [Nat.toDigits_of_lt_base small, List.mem_singleton] at inside
      exact ⟨n, small, inside⟩
    · rw [Nat.toDigits_of_base_le (by decide) (by omega), List.mem_append, List.mem_singleton] at inside
      rcases inside with front | last
      · exact ih (n / 16) (by omega) front
      · exact ⟨n % 16, Nat.mod_lt n (by decide), last⟩

/-! ## Reading back -/

/-- Where the reader is: between two characters, behind a backslash, before the brace of a number,
    or in a number of which it has read some digits. -/
inductive Reading where
  | between
  | escaped
  | opened
  | number (value : Nat)

/-- What a character stands for behind a backslash. -/
def unescape : Char → Char
  | '0' => '\x00'
  | 't' => '\t'
  | 'n' => '\n'
  | 'r' => '\r'
  | c => c

/-- Puts a character in front of the text that was read. -/
def prepend (c : Char) (found : Option (List Char × List Char)) : Option (List Char × List Char) :=
  found.map fun (text, rest) => (c :: text, rest)

/-- Reads up to the quotation mark; gives what was quoted and what comes behind it. -/
def readOn : Reading → List Char → Option (List Char × List Char)
  | _, [] => none
  | .between, c :: rest =>
    if c = '"' then some ([], rest)
    else if c = '\\' then readOn .escaped rest
    else prepend c (readOn .between rest)
  | .escaped, c :: rest => if c = 'u' then readOn .opened rest else prepend (unescape c) (readOn .between rest)
  | .opened, c :: rest => if c = '\x7b' then readOn (.number 0) rest else none
  | .number value, c :: rest =>
    if c = '\x7d' then prepend (Char.ofNat value) (readOn .between rest)
    else readOn (.number (16 * value + hexValue c)) rest

/-- Reads a quoted text at the beginning of another text. -/
def readQuoted : List Char → Option (List Char × List Char)
  | '"' :: rest => readOn .between rest
  | _ => none

theorem readOn_number {digits : List Char} (unclosed : '\x7d' ∉ digits) (value : Nat) (rest : List Char) :
    readOn (.number value) (digits ++ '\x7d' :: rest) =
      prepend (Char.ofNat (readDigits value digits)) (readOn .between rest) := by
  induction digits generalizing value with
  | nil => rfl
  | cons c digits ih =>
    obtain ⟨other, later⟩ : '\x7d' ≠ c ∧ '\x7d' ∉ digits := by simpa using unclosed
    rw [List.cons_append, readOn, if_neg (Ne.symm other), ih later]
    rfl

theorem readOn_escapeNumber (c : Char) (rest : List Char) :
    readOn .between (escapeNumber c ++ rest) = prepend c (readOn .between rest) := by
  have digits : '\x7d' ∉ Nat.toDigits 16 c.toNat := by
    intro inside
    obtain ⟨k, small, same⟩ := exists_digitChar_of_mem_toDigits inside
    have other : ∀ k < 16, '\x7d' ≠ Nat.digitChar k := by decide
    exact other k small same
  have number := readOn_number digits 0 rest
  rw [readDigits_toDigits, Char.ofNat_toNat] at number
  rw [← number, escapeNumber, List.append_assoc, List.append_assoc]
  rfl

/-- One character is read back, whatever follows. -/
theorem readOn_escape (c : Char) (rest : List Char) :
    readOn .between (escape c ++ rest) = prepend c (readOn .between rest) := by
  unfold escape
  split
  case h_7 notQuote notBackslash _ _ _ _ =>
    split
    · rw [List.singleton_append, readOn, if_neg notQuote, if_neg notBackslash]
    · exact readOn_escapeNumber c rest
  all_goals rfl

theorem readOn_escapes (text rest : List Char) : readOn .between (text.flatMap escape ++ '"' :: rest) = some (text, rest) := by
  induction text with
  | nil => rfl
  | cons c text ih =>
    rw [List.flatMap_cons, List.append_assoc, readOn_escape, ih]
    rfl

/-- A quoted text is read back, and what comes behind it is left. -/
theorem readQuoted_quote (text : String) (rest : List Char) :
    readQuoted ((quote text).toList ++ rest) = some (text.toList, rest) := by
  rw [quote, String.toList_ofList, List.append_assoc]
  exact readOn_escapes text.toList rest

example : quote "\x1b[1m\"" = "\"\\u\x7b1b\x7d[1m\\\"\"" := by decide +kernel

theorem quote_inj {text other : String} : quote text = quote other ↔ text = other := by
  refine ⟨fun same => ?_, congrArg quote⟩
  have first := readQuoted_quote text []
  rw [same, readQuoted_quote other []] at first
  exact (String.toList_inj.mp (congrArg Prod.fst (Option.some.inj first))).symm

/-! ## Visible characters -/

/-- The character is one of those from the space to the tilde. -/
def isPrintable (c : Char) : Bool := 0x20 ≤ c.toNat && c.toNat ≤ 0x7E

theorem isDistinct_of_isPrintable {c : Char} (printable : isPrintable c = true) : isDistinct c = true := by
  obtain ⟨low, high⟩ : 0x20 ≤ c.toNat ∧ c.toNat ≤ 0x7E := by simpa [isPrintable] using printable
  have graphic := Runs.contains_of_spares (by decide +kernel : nonGraphicRuns.spares 0x20 0x7E = true) low high
  have shown := Runs.contains_of_spares (by decide +kernel : ignorableRuns.spares 0x20 0x7E = true) low high
  have apart := Runs.contains_of_spares (by decide +kernel : extenderRuns.spares 0x20 0x7E = true) low high
  simp [isDistinct, isGraphic, isIgnorable, isCombining, graphic, shown, apart]

theorem isPrintable_of_mem_escapeNumber {c d : Char} (inside : d ∈ escapeNumber c) : isPrintable d = true := by
  rw [escapeNumber, List.mem_append, List.mem_append] at inside
  rcases inside with (front | digit) | brace
  · exact List.all_eq_true.mp (by decide : ['\\', 'u', '\x7b'].all isPrintable = true) d front
  · obtain ⟨k, small, rfl⟩ := exists_digitChar_of_mem_toDigits digit
    have digits : ∀ k < 16, isPrintable (Nat.digitChar k) = true := by decide
    exact digits k small
  · exact List.all_eq_true.mp (by decide : ['\x7d'].all isPrintable = true) d brace

theorem isDistinct_of_mem_escape {c d : Char} (inside : d ∈ escape c) : isDistinct d = true := by
  have printed {code : List Char} (printable : code.all isPrintable = true) (inside : d ∈ code) : isDistinct d = true :=
    isDistinct_of_isPrintable (List.all_eq_true.mp printable d inside)
  unfold escape at inside
  split at inside
  case h_7 =>
    split at inside
    · rename_i distinct
      exact List.mem_singleton.mp inside ▸ distinct
    · exact isDistinct_of_isPrintable (isPrintable_of_mem_escapeNumber inside)
  all_goals exact printed (by decide) inside

/-- A quoted text shows all of its characters. -/
theorem isDistinct_of_mem_quote {text : String} {c : Char} (inside : c ∈ (quote text).toList) : isDistinct c = true := by
  rw [quote, String.toList_ofList, List.mem_append, List.mem_cons] at inside
  have mark : isDistinct '"' = true := isDistinct_of_isPrintable (by decide)
  rcases inside with (rfl | escaped) | last
  · exact mark
  · obtain ⟨d, -, escaped⟩ := List.mem_flatMap.mp escaped
    exact isDistinct_of_mem_escape escaped
  · exact List.mem_singleton.mp last ▸ mark

/-- Of the blank characters only the space can be seen. -/
theorem eq_space_of_isDistinct {c : Char} (distinct : isDistinct c = true) (blank : isBlank c = true) : c = ' ' := by
  by_contra other
  simp [isDistinct, isGraphic_of_isBlank blank other] at distinct

end RegexAutomaton.Text
