/-!
The columns of a transition table: one for each symbol on an edge and one for the edges
that read nothing. Columns are ordered by their heading; where a symbol reads
like the heading of the other kind of column, the symbol's column comes first.
-/
namespace RegexAutomaton

/-- Input symbols that can head a column. -/
class Symbol (α : Type) where
  text : α → String

instance : Symbol Char := ⟨String.singleton⟩

instance : Symbol String := ⟨id⟩

/-- Integers are written in decimal, negative ones with a leading minus sign. -/
instance : Symbol Int where
  text
    | .ofNat n => Nat.repr n
    | .negSucc n => "-" ++ Nat.repr (n + 1)

/-- The texts that decorate a table: the heading of symbol-free edges, which also fills
    empty cells, and what is put before the start state and after accepting states. -/
structure Markers where
  epsilon : String := "ε"
  start : String := "→"
  accepting : String := "*"
  deriving DecidableEq

/-- A column: its heading, and whether it holds the edges without a symbol. -/
structure Column where
  heading : String
  silent : Bool
  deriving DecidableEq

namespace Column

/-- The column of an edge with the given symbol, or with none. -/
def ofSymbol {α : Type} [Symbol α] (markers : Markers) : Option α → Column
  | some symbol => ⟨Symbol.text symbol, false⟩
  | none => ⟨markers.epsilon, true⟩

/-- One column stands to the left of another. -/
def Before (c d : Column) : Prop := c.heading < d.heading ∨ c.heading = d.heading ∧ c.silent = false ∧ d.silent = true

instance (c d : Column) : Decidable (c.Before d) := inferInstanceAs (Decidable (_ ∨ _))

/-- Puts a column in its place among ordered columns, unless it is there already. -/
def insert (c : Column) : List Column → List Column
  | [] => [c]
  | d :: rest => if c.Before d then c :: d :: rest else if c = d then d :: rest else d :: insert c rest

/-- The distinct columns of a list, in order. -/
def sort (columns : List Column) : List Column := columns.foldr insert []

/-! ## The order of columns -/

theorem Before.trans {c d e : Column} (first : c.Before d) (second : d.Before e) : c.Before e := by
  obtain less | ⟨same, low, _⟩ := first <;> obtain less' | ⟨same', _, high⟩ := second
  · exact .inl (String.lt_trans less less')
  · exact .inl (same' ▸ less)
  · exact .inl (same ▸ less')
  · exact .inr ⟨same.trans same', low, high⟩

theorem Before.ne {c d : Column} (before : c.Before d) : c ≠ d := by
  rintro rfl
  rcases before with less | ⟨-, low, high⟩
  · exact String.lt_irrefl _ less
  · rw [low] at high
    cases high

theorem before_of_not_before {c d : Column} (not_left : ¬ c.Before d) (different : c ≠ d) : d.Before c := by
  have le : d.heading ≤ c.heading := String.not_lt.mp fun less => not_left (.inl less)
  by_cases same : d.heading = c.heading
  · refine .inr ⟨same, ?_⟩
    obtain ⟨ct, ce⟩ := c
    obtain ⟨dt, de⟩ := d
    simp only [Before, not_or] at not_left
    cases ce <;> cases de <;> simp_all
  · exact .inl (String.not_le.mp fun ge => same (String.le_antisymm le ge))

@[simp] theorem mem_insert {c d : Column} {columns : List Column} : d ∈ insert c columns ↔ d = c ∨ d ∈ columns := by
  induction columns with
  | nil => simp [insert]
  | cons e rest ih =>
    simp only [insert]
    split
    · simp
    · split
      · rename_i same
        simp [same]
      · simp [ih, or_left_comm]

@[simp] theorem mem_sort {c : Column} {columns : List Column} : c ∈ sort columns ↔ c ∈ columns := by
  induction columns with
  | nil => simp [sort]
  | cons d rest ih => simpa [sort] using or_congr_right ih

theorem pairwise_insert (c : Column) {columns : List Column} (ordered : columns.Pairwise Before) :
    (insert c columns).Pairwise Before := by
  induction columns with
  | nil => simp [insert]
  | cons d rest ih =>
    obtain ⟨first, later⟩ := List.pairwise_cons.mp ordered
    simp only [insert]
    split
    · rename_i left
      refine List.pairwise_cons.mpr ⟨fun e inside => ?_, ordered⟩
      obtain rfl | inside := List.mem_cons.mp inside
      · exact left
      · exact left.trans (first e inside)
    · split
      · exact ordered
      · rename_i not_left different
        refine List.pairwise_cons.mpr ⟨fun e inside => ?_, ih later⟩
        obtain rfl | inside := mem_insert.mp inside
        · exact before_of_not_before not_left different
        · exact first e inside

theorem pairwise_sort (columns : List Column) : (sort columns).Pairwise Before := by
  induction columns with
  | nil => exact .nil
  | cons c _ ih => exact pairwise_insert c ih

end Column

end RegexAutomaton
