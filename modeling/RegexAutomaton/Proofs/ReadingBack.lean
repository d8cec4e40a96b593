import Mathlib.Data.List.Basic
import Mathlib.Data.List.Forall2
import RegexAutomaton.Automaton.Step
import RegexAutomaton.Table.Layout

/-!
Reading a printed table back. The rule tells where the columns are: its plus signs stand where a
line has the bars between its fields (`plusSigns_rule`, `getElem?_joined`). The fields themselves may
hold bars, plus signs and dashes, or nothing at all, so a line is cut at these places and nowhere
else (`pieces_joined`). What is trimmed from the end of a line is missing only where blanks would
be trimmed from the fields (`map_trimEnd_pieces`). Thus the text of a table gives its grid back,
as long as no text in it has a line feed or blanks at its end (`readBack_text`).
-/
namespace RegexAutomaton.Layout
open Text (isBlank trimEnd)

/-! ## Lines of fields -/

/-- Fields side by side, with a bar between any two. -/
def joined (fields : List (List Char)) : List Char := List.intercalate [' ', '|', ' '] fields

/-- Where the bars between columns of the given widths stand, if the first column begins at
    `start`. -/
def bars : (start : Nat) → (widths : List Nat) → List Nat
  | start, width :: next :: rest => (start + width + 1) :: bars (start + width + 3) (next :: rest)
  | _, _ => []

@[simp] theorem joined_singleton (field : List Char) : joined [field] = field := List.intercalate_singleton

/-- What follows the first field begins after a separator, whatever stands before it. -/
theorem append_joined (front field next : List Char) (rest : List (List Char)) :
    front ++ joined (field :: next :: rest) = (front ++ field ++ [' ', '|', ' ']) ++ joined (next :: rest) := by
  simp [joined, List.intercalate_cons_cons]

theorem bars_append (front field next : List Char) (rest : List (List Char)) :
    bars front.length ((field :: next :: rest).map List.length) =
      (front.length + field.length + 1) ::
        bars (front ++ field ++ [' ', '|', ' ']).length ((next :: rest).map List.length) := by
  simp [bars, Nat.add_assoc]

theorem getElem?_joined (front : List Char) (fields : List (List Char)) {place : Nat}
    (bar : place ∈ bars front.length (fields.map List.length)) : (front ++ joined fields)[place]? = some '|' := by
  match fields with
  | [] => cases bar
  | [_] => cases bar
  | field :: next :: rest =>
    rw [bars_append] at bar
    rw [append_joined]
    rcases List.mem_cons.mp bar with rfl | later
    · have length : front.length + field.length + 1 = (front ++ field).length + 1 := by simp
      rw [length, List.append_assoc, List.getElem?_append_right (by omega), Nat.add_sub_cancel_left]
      rfl
    · exact getElem?_joined _ (next :: rest) later

theorem mem_intercalate {separator : List Char} {fields : List (List Char)} {c : Char}
    (inside : c ∈ List.intercalate separator fields) : c ∈ separator ∨ ∃ field ∈ fields, c ∈ field := by
  match fields with
  | [] => simp at inside
  | [field] => exact .inr ⟨field, .head _, by simpa using inside⟩
  | field :: next :: rest =>
    rw [List.intercalate_cons_cons, List.mem_append, List.mem_append] at inside
    rcases inside with (own | between) | later
    · exact .inr ⟨field, .head _, own⟩
    · exact .inl between
    · rcases mem_intercalate later with between | ⟨other, member, within⟩
      · exact .inl between
      · exact .inr ⟨other, .tail _ member, within⟩

/-! ## The rule -/

/-- The places of the plus signs in a rule. -/
def plusSigns (rule : List Char) : List Nat := rule.idxsOf '+'

theorem mem_rule {widths : List Nat} {c : Char} (inside : c ∈ rule widths) : c = '-' ∨ c = '+' := by
  rcases mem_intercalate inside with between | ⟨dashes, member, within⟩
  · simp only [List.mem_cons, List.not_mem_nil] at between
    grind
  · obtain ⟨width, -, rfl⟩ := List.mem_map.mp member
    exact .inl (List.eq_of_mem_replicate within)

theorem idxsOf_dashes (width start : Nat) : (List.replicate width '-').idxsOf '+' start = [] := by
  rw [List.idxsOf_eq_nil_iff]
  intro c dash
  rw [List.eq_of_mem_replicate dash]
  rfl

theorem idxsOf_rule (widths : List Nat) (start : Nat) : (rule widths).idxsOf '+' start = bars start widths := by
  match widths with
  | [] => rfl
  | [width] =>
    have shape : rule [width] = List.replicate width '-' := List.intercalate_singleton
    rw [shape, idxsOf_dashes]
    rfl
  | width :: next :: rest =>
    have shape : rule (width :: next :: rest) =
        List.replicate width '-' ++ (['-', '+', '-'] ++ rule (next :: rest)) := by
      rw [rule, List.map_cons, List.map_cons, List.intercalate_cons_cons, List.append_assoc]
      rfl
    rw [shape, List.idxsOf_append, List.idxsOf_append, idxsOf_dashes, idxsOf_rule (next :: rest), bars]
    simp

theorem plusSigns_rule (widths : List Nat) : plusSigns (rule widths) = bars 0 widths := idxsOf_rule widths 0

/-! ## Cutting -/

/-- The pieces of a line between the bars at the given places, each with the blank before its bar
    and without the one after the bar before. Where the line has ended there is nothing. -/
def pieces (line : List Char) : (start : Nat) → (places : List Nat) → List (List Char)
  | start, [] => [line.drop start]
  | start, place :: later => (line.take place).drop start :: pieces line (place + 2) later

/-- The texts that stand between the bars at the given places. -/
def cut (places : List Nat) (line : List Char) : List String :=
  (pieces line 0 places).map fun piece => String.ofList (trimEnd piece)

theorem blank_of_spaces {count : Nat} {c : Char} (inside : c ∈ List.replicate count ' ') : isBlank c = true := by
  rw [List.eq_of_mem_replicate inside]
  decide

/-- Blanks at the end of a line do not matter. -/
theorem map_trimEnd_pieces (line : List Char) {blanks : List Char} (blank : ∀ c ∈ blanks, isBlank c = true)
    (start : Nat) (places : List Nat) :
    (pieces (line ++ blanks) start places).map trimEnd = (pieces line start places).map trimEnd := by
  induction places generalizing start with
  | nil =>
    have rest : ∀ c ∈ blanks.drop (start - line.length), isBlank c = true := fun c inside =>
      blank c (List.mem_of_mem_drop inside)
    simp [pieces, List.drop_append, Text.trimEnd_append_blanks _ rest]
  | cons place later ih =>
    have rest : ∀ c ∈ (blanks.take (place - line.length)).drop (start - (line.take place).length), isBlank c = true :=
      fun c inside => blank c (List.mem_of_mem_take (List.mem_of_mem_drop inside))
    simp only [pieces, List.map_cons, ih, List.take_append, List.drop_append, Text.trimEnd_append_blanks _ rest]

theorem pieces_joined (front : List Char) (fields : List (List Char)) (present : fields ≠ []) :
    (pieces (front ++ joined fields) front.length (bars front.length (fields.map List.length))).map trimEnd =
      fields.map trimEnd := by
  match fields with
  | [] => exact absurd rfl present
  | [field] => simp [bars, pieces]
  | field :: next :: rest =>
    have split : front ++ joined (field :: next :: rest) =
        front ++ (field ++ [' ']) ++ (['|', ' '] ++ joined (next :: rest)) := by
      rw [append_joined]
      simp
    have bar : front.length + field.length + 1 = (front ++ (field ++ [' '])).length := by simp [Nat.add_assoc]
    have first : ((front ++ joined (field :: next :: rest)).take (front.length + field.length + 1)).drop front.length =
        field ++ [' '] := by
      rw [split, bar, List.take_left, List.drop_left]
    have trimmed : trimEnd (field ++ [' ']) = trimEnd field :=
      Text.trimEnd_append_blanks field fun c (space : c ∈ List.replicate 1 ' ') => blank_of_spaces space
    have length : front.length + field.length + 1 + 2 = (front ++ field ++ [' ', '|', ' ']).length := by simp; omega
    have later := pieces_joined (front ++ field ++ [' ', '|', ' ']) (next :: rest) (by simp)
    rw [bars_append, pieces, List.map_cons, first, trimmed, length, append_joined, later]
    rfl

/-! ## Printed lines -/

/-- The field is the text, filled up with spaces. -/
def Fills (text : String) (field : List Char) : Prop := ∃ spaces, field = text.toList ++ List.replicate spaces ' '

/-- The line shows the texts in columns of the given widths: each fills a field that is as wide as
    its column, the fields are separated by bars, and blanks are trimmed from the end. -/
def Aligned (widths : List Nat) (texts : List String) (line : List Char) : Prop :=
  ∃ fields, List.Forall₂ Fills texts fields ∧ fields.map List.length = widths ∧ line = trimEnd (joined fields)

/-- Every text fits into its column. -/
def Fits (widths : List Nat) (texts : List String) : Prop :=
  List.Forall₂ (fun width text => text.toList.length ≤ width) widths texts

theorem aligned_line {widths : List Nat} {texts : List String} (fits : Fits widths texts) :
    Aligned widths texts (line widths texts) := by
  refine ⟨List.zipWith pad widths texts, ?_, ?_, rfl⟩
  · induction fits with
    | nil => exact .nil
    | cons _ _ ih => exact .cons ⟨_, rfl⟩ ih
  · induction fits with
    | nil => rfl
    | cons narrow _ ih => rw [List.zipWith_cons_cons, List.map_cons, length_pad narrow, ih]

/-- No text ends in a blank character. -/
def Trimmed (texts : List String) : Prop := ∀ text ∈ texts, text.toList.getLast?.any isBlank = false

theorem Fills.trimEnd_eq {text : String} {field : List Char} (fills : Fills text field)
    (ending : text.toList.getLast?.any isBlank = false) : String.ofList (trimEnd field) = text := by
  obtain ⟨spaces, rfl⟩ := fills
  rw [Text.trimEnd_append_blanks _ fun _ => blank_of_spaces, Text.trimEnd_of_getLast? ending, String.ofList_toList]

theorem texts_of_fields {texts : List String} {fields : List (List Char)} (filled : List.Forall₂ Fills texts fields)
    (trimmed : Trimmed texts) : (fields.map fun field => String.ofList (trimEnd field)) = texts := by
  induction filled with
  | nil => rfl
  | cons fills _ ih =>
    have first := fills.trimEnd_eq (trimmed _ (.head _))
    have later := ih fun text inside => trimmed text (.tail _ inside)
    rw [List.map_cons, first, later]

namespace Aligned
variable {widths : List Nat} {texts : List String} {shown : List Char}

/-- Cutting at the bars gives the texts back. -/
theorem cut_eq (aligned : Aligned widths texts shown) (trimmed : Trimmed texts) (present : texts ≠ []) :
    cut (bars 0 widths) shown = texts := by
  obtain ⟨fields, filled, rfl, rfl⟩ := aligned
  obtain ⟨blanks, whole, blank⟩ := Text.exists_blanks (joined fields)
  have nonempty : fields ≠ [] := by
    rintro rfl
    cases filled
    exact present rfl
  have untrimmed : (pieces (joined fields) 0 (bars 0 (fields.map List.length))).map trimEnd = fields.map trimEnd :=
    pieces_joined [] fields nonempty
  calc
    cut (bars 0 (fields.map List.length)) (trimEnd (joined fields))
      = ((pieces (trimEnd (joined fields)) 0 (bars 0 (fields.map List.length))).map trimEnd).map String.ofList := by
        rw [cut, List.map_map]
        rfl
    _ = (fields.map trimEnd).map String.ofList := by
        rw [← map_trimEnd_pieces _ blank, ← whole, untrimmed]
    _ = texts := by
        rw [List.map_map]
        exact texts_of_fields filled trimmed

/-- No bar is trimmed from the end of a line. -/
theorem getElem?_bar (aligned : Aligned widths texts shown) {place : Nat} (bar : place ∈ bars 0 widths) :
    shown[place]? = some '|' := by
  obtain ⟨fields, -, rfl, rfl⟩ := aligned
  obtain ⟨blanks, whole, blank⟩ := Text.exists_blanks (joined fields)
  have there : (joined fields)[place]? = some '|' := getElem?_joined [] fields bar
  rw [whole] at there
  by_cases inside : place < (trimEnd (joined fields)).length
  · rw [List.getElem?_append_left inside] at there
    exact there
  · -- what has been trimmed is blank, and a bar is not
    rw [List.getElem?_append_right (by omega)] at there
    exact absurd (blank '|' (List.mem_of_getElem? there)) (by decide)

theorem newline_not_mem (aligned : Aligned widths texts shown) (whole : ∀ text ∈ texts, '\n' ∉ text.toList) :
    '\n' ∉ shown := by
  obtain ⟨fields, filled, -, rfl⟩ := aligned
  obtain ⟨blanks, split, -⟩ := Text.exists_blanks (joined fields)
  intro inside
  have printed : '\n' ∈ joined fields := by
    rw [split]
    exact List.mem_append_left blanks inside
  rcases mem_intercalate printed with between | ⟨field, member, within⟩
  · exact absurd between (by decide)
  · obtain ⟨place, there, rfl⟩ := List.mem_iff_getElem.mp member
    have known : place < texts.length := filled.length_eq ▸ there
    obtain ⟨spaces, shape⟩ : Fills texts[place] fields[place] := filled.get known there
    rw [shape, List.mem_append] at within
    rcases within with own | space
    · exact whole _ (List.getElem_mem known) own
    · exact absurd (List.eq_of_mem_replicate space) (by decide)

end Aligned

/-! ## Widths -/

theorem fits_max_left (texts : List String) {widths : List Nat} (even : widths.length = texts.length) :
    Fits (List.zipWith max (texts.map fun text => text.toList.length) widths) texts := by
  induction texts generalizing widths with
  | nil => exact .nil
  | cons text rest ih =>
    cases widths with
    | nil => cases even
    | cons width later => exact .cons (Nat.le_max_left _ _) (ih (Nat.succ.inj even))

theorem Fits.max_right {widths : List Nat} {texts : List String} (fits : Fits widths texts) {others : List Nat}
    (even : others.length = widths.length) : Fits (List.zipWith max others widths) texts := by
  induction fits generalizing others with
  | nil =>
    rw [List.zipWith_nil_right]
    exact .nil
  | cons narrow _ ih =>
    cases others with
    | nil => cases even
    | cons other later => exact .cons (Nat.le_trans narrow (Nat.le_max_right _ _)) (ih (Nat.succ.inj even))

theorem fits_widths {count : Nat} {grid : List (List String)} (even : ∀ texts ∈ grid, texts.length = count)
    {texts : List String} (member : texts ∈ grid) : Fits (widths count grid) texts := by
  induction grid with
  | nil => cases member
  | cons first rest ih =>
    have evenRest : ∀ other ∈ rest, other.length = count := fun other inside => even other (.tail first inside)
    have lengths : (widths count rest).length = first.length := (length_widths evenRest).trans (even first (.head rest)).symm
    rcases List.mem_cons.mp member with rfl | later
    · exact fits_max_left texts lengths
    · exact (ih evenRest later).max_right (by simpa using lengths.symm)

/-! ## Texts of lines -/

/-- The lines of a text, each of which is ended by a line feed. -/
def linesOf (text : String) : List (List Char) := (text.toList.splitOn '\n').dropLast

theorem splitOn_ended {lines : List (List Char)} (whole : ∀ line ∈ lines, '\n' ∉ line) :
    (lines.flatMap (· ++ ['\n'])).splitOn '\n' = lines ++ [[]] := by
  induction lines with
  | nil => rfl
  | cons line rest ih =>
    have later := ih fun other inside => whole other (.tail line inside)
    rw [List.flatMap_cons, List.append_assoc, List.singleton_append,
      List.splitOn_append_cons_self_of_not_mem (whole line (.head rest)), later]
    rfl

theorem linesOf_ended {lines : List (List Char)} (whole : ∀ line ∈ lines, '\n' ∉ line) :
    linesOf (String.ofList (lines.flatMap (· ++ ['\n']))) = lines := by
  rw [linesOf, String.toList_ofList, splitOn_ended whole, List.dropLast_concat]

/-- The grid that a text shows: the second line is the rule, and all others are cut at its plus
    signs. -/
def readBack (text : String) : List (List String) :=
  match linesOf text with
  | headings :: rule :: rows => (headings :: rows).map (cut (plusSigns rule))
  | _ => []

end RegexAutomaton.Layout

namespace RegexAutomaton.Table
open Layout

/-- No text of the grid holds a line feed or ends in a blank character. -/
def Clean (grid : List (List String)) : Prop := ∀ texts ∈ grid, (∀ text ∈ texts, '\n' ∉ text.toList) ∧ Trimmed texts

/-- How a text shows a grid: in one line for each line of the grid and a rule in second place, all
    of them ended by a line feed. The rule is made of dashes and plus signs, and these stand just
    under the bars between the columns, in every line. -/
structure Prints (grid : List (List String)) (text : String) (headings rule : List Char) (rows : List (List Char)) :
    Prop where
  ended : text = String.ofList ((headings :: rule :: rows).flatMap (· ++ ['\n']))
  separate : linesOf text = headings :: rule :: rows
  dashed : ∀ c ∈ rule, c = '-' ∨ c = '+'
  aligned : ∃ widths, plusSigns rule = bars 0 widths ∧ List.Forall₂ (Aligned widths) grid (headings :: rows)
  barred : ∀ shown ∈ headings :: rows, ∀ place ∈ plusSigns rule, shown[place]? = some '|'

theorem map_cut {widths : List Nat} {grid : List (List String)} {lines : List (List Char)}
    (aligned : List.Forall₂ (Aligned widths) grid lines) (clean : ∀ texts ∈ grid, Trimmed texts ∧ texts ≠ []) :
    lines.map (cut (bars 0 widths)) = grid := by
  induction aligned with
  | nil => rfl
  | cons first _ ih =>
    obtain ⟨trimmed, present⟩ := clean _ (.head _)
    have later := ih fun texts inside => clean texts (.tail _ inside)
    rw [List.map_cons, first.cut_eq trimmed present, later]

theorem Prints.readBack_eq {grid : List (List String)} {text : String} {headings rule : List Char}
    {rows : List (List Char)} (prints : Prints grid text headings rule rows)
    (clean : ∀ texts ∈ grid, Trimmed texts ∧ texts ≠ []) : readBack text = grid := by
  obtain ⟨widths, columns, aligned⟩ := prints.aligned
  have read : readBack text = (headings :: rows).map (cut (plusSigns rule)) := by
    unfold readBack
    rw [prints.separate]
  rw [read, columns]
  exact map_cut aligned clean

/-- The lines of a grid print it: each is aligned with the widths of all of them, and none is broken
    by a line feed of its own. -/
theorem exists_prints {headings : List String} {rest : List (List String)}
    (even : ∀ texts ∈ headings :: rest, texts.length = headings.length)
    (whole : ∀ texts ∈ headings :: rest, ∀ text ∈ texts, '\n' ∉ text.toList) :
    ∃ first rule rows, Prints (headings :: rest)
      (String.ofList ((Layout.lines (headings :: rest)).flatMap (· ++ ['\n']))) first rule rows := by
  let widths := widths headings.length (headings :: rest)
  have aligned : ∀ texts ∈ headings :: rest, Aligned widths texts (line widths texts) := fun texts member =>
    aligned_line (fits_widths even member)
  have unbroken : ∀ l ∈ Layout.lines (headings :: rest), '\n' ∉ l := by
    intro l member
    rcases List.mem_cons.mp member with rfl | member
    · exact (aligned headings (.head _)).newline_not_mem (whole headings (.head _))
    rcases List.mem_cons.mp member with rfl | member
    · intro inside
      rcases mem_rule inside with wrong | wrong <;> cases wrong
    · obtain ⟨texts, row, rfl⟩ := List.mem_map.mp member
      exact (aligned texts (.tail _ row)).newline_not_mem (whole texts (.tail _ row))
  have columns : plusSigns (rule widths) = bars 0 widths := plusSigns_rule widths
  refine ⟨line widths headings, rule widths, rest.map (line widths), ?_⟩
  constructor
  · rfl
  · exact linesOf_ended unbroken
  · exact fun c => mem_rule
  · refine ⟨widths, columns, ?_⟩
    rw [← List.map_cons, List.forall₂_map_right_iff, List.forall₂_same]
    exact aligned
  · intro l member place bar
    rw [← List.map_cons, List.mem_map] at member
    obtain ⟨texts, shown, rfl⟩ := member
    rw [columns] at bar
    exact (aligned texts shown).getElem?_bar bar

/-- A table is printed in aligned columns, and its grid can be read off the text. -/
theorem readBack_text {α : Type} [Symbol α] (markers : Markers) (m : Automaton α)
    (clean : Clean (Table.ofAutomaton markers m).grid) :
    (∃ headings rule rows,
      Prints (Table.ofAutomaton markers m).grid (Table.ofAutomaton markers m).text headings rule rows) ∧
    readBack (Table.ofAutomaton markers m).text = (Table.ofAutomaton markers m).grid := by
  have even : ∀ texts ∈ (Table.ofAutomaton markers m).grid,
      texts.length = (Table.ofAutomaton markers m).header.length + 1 := fun _ member => length_grid_line member
  obtain ⟨headings, rule, rows, prints⟩ := exists_prints even fun texts member => (clean texts member).1
  refine ⟨⟨headings, rule, rows, prints⟩, prints.readBack_eq fun texts member => ⟨(clean texts member).2, ?_⟩⟩
  rintro rfl
  cases even [] member

/-- A bar or a plus sign. -/
def barOrPlus : Automaton Char :=
  (({} : Arena Char).run [.literal '|', .literal '+', .union ⟨0, 1⟩ ⟨2, 3⟩]).2.finish ⟨4, 5⟩

/-- Symbols like those that separate the columns, and a marker that leaves cells empty, also at the
    end of a line. -/
theorem readBack_text_barOrPlus :
    Clean (Table.ofAutomaton { epsilon := "" } barOrPlus).grid ∧
      readBack (Table.ofAutomaton { epsilon := "" } barOrPlus).text =
        [["state", "", "+", "|"], ["→q0", "q1,q2", "", ""], ["q1", "", "", "q3"], ["q2", "", "q4", ""],
          ["q3", "q5", "", ""], ["q4", "q5", "", ""], ["q5*", "", "", ""]] := by
  have clean : Clean (Table.ofAutomaton { epsilon := "" } barOrPlus).grid := by
    unfold Clean Trimmed
    decide +kernel
  obtain ⟨-, same⟩ := readBack_text { epsilon := "" } barOrPlus clean
  refine ⟨clean, same.trans ?_⟩
  decide +kernel

end RegexAutomaton.Table
