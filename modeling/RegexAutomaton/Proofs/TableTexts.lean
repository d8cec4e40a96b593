import Mathlib.Data.List.Basic
import RegexAutomaton.Proofs.Shape
import RegexAutomaton.Table.Basic

/-!
What the texts of a table tell. Labels given by place can be told apart (`placeLabel_inj`), and
so can the cells that list them (`Table.cellText_inj`). A heading tells what its column holds,
but for one case: a symbol may be written like the epsilon marker. Two tables with the same
headings still have the same columns as soon as both or none of them have a column
of silent edges (`Column.eq_of_headings`). Columns themselves tell their symbols, as long as
the texts of symbols do (`Column.ofSymbol_inj`).
-/
namespace RegexAutomaton

/-! ## Labels -/

theorem toList_placeLabel (place : Nat) : (placeLabel place).toList = 'q' :: Nat.toDigits 10 place := by
  simp [placeLabel, Nat.repr_eq_ofList_toDigits]

theorem repr_inj {i j : Nat} : Nat.repr i = Nat.repr j ↔ i = j := by
  refine ⟨fun same => ?_, congrArg Nat.repr⟩
  have digits : Nat.toDigits 10 i = Nat.toDigits 10 j := by
    simpa [Nat.repr_eq_ofList_toDigits] using congrArg String.toList same
  calc
    i = Nat.ofDigitChars 10 (Nat.toDigits 10 i) 0 := Nat.ofDigitChars_ten_toDigits.symm
    _ = Nat.ofDigitChars 10 (Nat.toDigits 10 j) 0 := by rw [digits]
    _ = j := Nat.ofDigitChars_ten_toDigits

theorem placeLabel_inj {i j : Nat} : placeLabel i = placeLabel j ↔ i = j := by
  rw [placeLabel, placeLabel, String.append_right_inj, repr_inj]

theorem comma_not_mem_placeLabel (place : Nat) : ',' ∉ (placeLabel place).toList := by
  rw [toList_placeLabel]
  intro inside
  rcases List.mem_cons.mp inside with q | digit
  · cases q
  · exact absurd (Nat.isDigit_of_mem_toDigits (by decide) (by decide) digit) (by decide)

/-! ## Cells -/

namespace Table

theorem toList_cellText_of_ne_nil (t : Table) {labels : List String} (some : labels ≠ []) :
    (t.cellText labels).toList = List.intercalate [','] (labels.map String.toList) := by
  simp [cellText, some, String.toList_intercalate]

/-- A cell that is not empty begins with the letter of its first label. -/
theorem head?_cellText (t : Table) (place : Nat) (places : List Nat) :
    (t.cellText ((place :: places).map placeLabel)).toList.head? = some 'q' := by
  rw [toList_cellText_of_ne_nil t (by simp)]
  cases places <;> simp [toList_placeLabel, List.intercalate_cons_cons]

theorem splitOn_cellText (t : Table) (place : Nat) (places : List Nat) :
    (t.cellText ((place :: places).map placeLabel)).toList.splitOn ',' =
      (place :: places).map fun i => (placeLabel i).toList := by
  have whole : ∀ label ∈ ((place :: places).map placeLabel).map String.toList, ',' ∉ label := by
    simp only [List.mem_map]
    rintro _ ⟨_, ⟨i, -, rfl⟩, rfl⟩
    exact comma_not_mem_placeLabel i
  rw [toList_cellText_of_ne_nil t (by simp), List.splitOn_intercalate ',' whole (by simp), List.map_map]
  rfl

/-- The text of a cell tells the labels in it, unless the epsilon marker looks like the beginning
    of a label. -/
theorem cellText_inj {t : Table} (marker : t.markers.epsilon.toList.head? ≠ some 'q') {places places' : List Nat} :
    t.cellText (places.map placeLabel) = t.cellText (places'.map placeLabel) ↔ places = places' := by
  refine ⟨fun same => ?_, fun same => same ▸ rfl⟩
  have heads := congrArg (·.toList.head?) same
  rcases places with _ | ⟨i, rest⟩ <;> rcases places' with _ | ⟨j, rest'⟩
  · rfl
  · rw [head?_cellText] at heads
    exact absurd heads marker
  · rw [head?_cellText] at heads
    exact absurd heads.symm marker
  · have labels := congrArg (·.toList.splitOn ',') same
    simp only [splitOn_cellText] at labels
    exact List.map_injective_iff.mpr (fun i j chars => placeLabel_inj.mp (String.toList_injective chars)) labels

end Table

/-! ## Symbols -/

/-- Input symbols that can be told apart by their texts. -/
class LawfulSymbol (α : Type) [Symbol α] : Prop where
  text_injective : Function.Injective fun x : α => Symbol.text x

instance : LawfulSymbol Char where
  text_injective := fun _ _ => String.singleton_inj.mp

instance : LawfulSymbol String where
  text_injective := fun _ _ same => same

/-- A minus sign is no digit. -/
theorem minus_append_ne_repr (text : String) (n : Nat) : "-" ++ text ≠ Nat.repr n := by
  intro same
  have chars : '-' :: text.toList = Nat.toDigits 10 n := by
    simpa [Nat.repr_eq_ofList_toDigits] using congrArg String.toList same
  have minus : '-' ∈ Nat.toDigits 10 n := chars ▸ List.mem_cons_self
  exact absurd (Nat.isDigit_of_mem_toDigits (by decide) (by decide) minus) (by decide)

instance : LawfulSymbol Int where
  text_injective := by
    rintro (i | i) (j | j) same
    · rw [repr_inj.mp same]
    · exact absurd (Eq.symm same) (minus_append_ne_repr _ _)
    · exact absurd same (minus_append_ne_repr _ _)
    · rw [Nat.succ.inj (repr_inj.mp ((String.append_right_inj "-").mp same))]

/-! ## Columns -/

attribute [ext] Column

namespace Column

theorem ofSymbol_inj {α : Type} [Symbol α] [LawfulSymbol α] {markers : Markers} {x y : Option α} :
    ofSymbol markers x = ofSymbol markers y ↔ x = y := by
  refine ⟨fun same => ?_, congrArg _⟩
  rcases x with _ | x <;> rcases y with _ | y
  · rfl
  · simp [ofSymbol] at same
  · simp [ofSymbol] at same
  · exact congrArg some (LawfulSymbol.text_injective (Column.mk.inj same).1)

theorem Before.silent_eq_false {c d : Column} (before : c.Before d) (same : c.heading = d.heading) : c.silent = false := by
  rcases before with less | ⟨-, low, -⟩
  · exact absurd (same ▸ less) (String.lt_irrefl _)
  · exact low

/-- Of the columns with one heading only the last can be silent. -/
theorem silent_at {cs ds : List Column} {epsilon : String} (ordered : cs.Pairwise Before)
    (ordered' : ds.Pairwise Before) (headings : cs.map heading = ds.map heading)
    (marked : ∀ d ∈ ds, d.silent = true → d.heading = epsilon) (some : ∃ d ∈ ds, d.silent = true) {i : Nat}
    (inside : i < cs.length) (inside' : i < ds.length) (silent : cs[i].silent = true) (marker : cs[i].heading = epsilon) :
    ds[i].silent = true := by
  have same : ∀ k (h : k < cs.length) (h' : k < ds.length), cs[k].heading = ds[k].heading := by
    intro k h h'
    simpa [h, h'] using congrArg (·[k]?) headings
  have lengths : cs.length = ds.length := by simpa using congrArg List.length headings
  obtain ⟨d, member, quiet⟩ := some
  obtain ⟨j, within', rfl⟩ := List.mem_iff_getElem.mp member
  have within : j < cs.length := by omega
  have marker' : ds[j].heading = epsilon := marked _ (List.getElem_mem within') quiet
  rcases Nat.lt_trichotomy i j with before | rfl | after
  · have left : cs[i].Before cs[j] := List.pairwise_iff_getElem.mp ordered i j inside within before
    have low := left.silent_eq_false (marker.trans (marker'.symm.trans (same j within within').symm))
    rw [low] at silent
    cases silent
  · exact quiet
  · have left : ds[j].Before ds[i] := List.pairwise_iff_getElem.mp ordered' j i within' inside' after
    have low := left.silent_eq_false (marker'.trans (marker.symm.trans (same i inside inside')))
    rw [low] at quiet
    cases quiet

/-- Columns in order with the same headings are the same, if both or none of the lists have a
    silent column. -/
theorem eq_of_headings {cs ds : List Column} {epsilon : String} (ordered : cs.Pairwise Before)
    (ordered' : ds.Pairwise Before) (marked : ∀ c ∈ cs, c.silent = true → c.heading = epsilon)
    (marked' : ∀ d ∈ ds, d.silent = true → d.heading = epsilon)
    (both : (∃ c ∈ cs, c.silent = true) ↔ ∃ d ∈ ds, d.silent = true)
    (headings : cs.map heading = ds.map heading) : cs = ds := by
  have lengths : cs.length = ds.length := by simpa using congrArg List.length headings
  refine List.ext_getElem lengths fun i inside inside' => ?_
  have same : cs[i].heading = ds[i].heading := by simpa [inside, inside'] using congrArg (·[i]?) headings
  have silent : cs[i].silent = true ↔ ds[i].silent = true := by
    constructor
    · intro quiet
      have member := List.getElem_mem inside
      exact silent_at ordered ordered' headings marked' (both.mp ⟨_, member, quiet⟩) inside inside' quiet
        (marked _ member quiet)
    · intro quiet
      have member := List.getElem_mem inside'
      exact silent_at ordered' ordered headings.symm marked (both.mpr ⟨_, member, quiet⟩) inside' inside quiet
        (marked' _ member quiet)
  exact Column.ext same (Bool.eq_iff_iff.mpr silent)

end Column

end RegexAutomaton
