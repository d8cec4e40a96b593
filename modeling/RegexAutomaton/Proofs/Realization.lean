import RegexAutomaton.Proofs.Composition

/-!
The arena of an expression. `realize?` makes the compositions that a regular expression calls
for, the left operand first; it never fails, and leaves the states that were there as
they were (`exists_realize?`). So an edge from one of these states may be added before or after
it (`realize?_link`). Concatenation adds no state but only such an edge: however the
concatenations of an expression are grouped, its arena is the same one
(`realize?_congr`).
-/
namespace RegexAutomaton

/-- The expressions differ only in the grouping of their concatenations. -/
inductive Regex.Regrouped {α : Type} : Regex α → Regex α → Prop where
  | refl (r : Regex α) : Regrouped r r
  | symm {r q : Regex α} (same : Regrouped r q) : Regrouped q r
  | trans {r q p : Regex α} (first : Regrouped r q) (second : Regrouped q p) : Regrouped r p
  | assoc (r q p : Regex α) : Regrouped (.concat (.concat r q) p) (.concat r (.concat q p))
  | union {r r' q q' : Regex α} (left : Regrouped r r') (right : Regrouped q q') :
      Regrouped (.union r q) (.union r' q')
  | concat {r r' q q' : Regex α} (left : Regrouped r r') (right : Regrouped q q') :
      Regrouped (.concat r q) (.concat r' q')
  | star {r r' : Regex α} (operand : Regrouped r r') : Regrouped (.star r) (.star r')

namespace Arena
variable {α : Type}

/-- The fragment of an expression, built behind the states of the arena. -/
def realize? (a : Arena α) : Regex α → Option (Fragment × Arena α)
  | .symbol x => some (a.literal x)
  | .union left right => do
    let (f, b) ← a.realize? left
    let (g, c) ← b.realize? right
    c.union? f g
  | .concat left right => do
    let (f, b) ← a.realize? left
    let (g, c) ← b.realize? right
    c.concat? f g
  | .star operand => do
    let (f, b) ← a.realize? operand
    b.star? f

/-- `b` is `a` with an open fragment behind its states, which have kept their edges. -/
structure Adjoins (a : Arena α) (f : Fragment) (b : Arena α) : Prop where
  opened : b.isOpen f = true
  behind_start : a.size ≤ f.start
  behind_stop : a.size ≤ f.stop
  kept : ∀ s < a.size, b.edges s = a.edges s

variable {a b c : Arena α} {f g : Fragment}

namespace Adjoins

theorem size_lt (adjoins : a.Adjoins f b) : a.size < b.size :=
  Nat.lt_of_le_of_lt adjoins.behind_start ((isOpen_iff b f).mp adjoins.opened).1

theorem stop_lt (adjoins : a.Adjoins f b) : f.stop < b.size := ((isOpen_iff b f).mp adjoins.opened).2.1

/-- A fragment stays open when another one is added behind it. -/
theorem isOpen_of_adjoins (first : a.Adjoins f b) (second : b.Adjoins g c) : c.isOpen f = true := by
  obtain ⟨start, stop, none⟩ := (isOpen_iff b f).mp first.opened
  have grown := second.size_lt
  refine (isOpen_iff c f).mpr ⟨by lia, by lia, ?_⟩
  rw [second.kept f.stop stop, none]

theorem composable (first : a.Adjoins f b) (second : b.Adjoins g c) : c.composable f g = true := by
  have behind := second.behind_stop
  have inside := first.stop_lt
  exact (composable_iff c f g).mpr ⟨first.isOpen_of_adjoins second, second.opened, by lia⟩

theorem kept_trans (first : a.Adjoins f b) (second : b.Adjoins g c) : ∀ s < a.size, c.edges s = a.edges s := by
  intro s old
  rw [second.kept s (Nat.lt_trans old first.size_lt), first.kept s old]

/-- Two new states, when neither the second of them nor an older state gets an edge. -/
theorem of_fresh {added : StateId → List (Edge α)} (grown : a.size ≤ b.size)
    (kept : ∀ s < a.size, b.edges s = a.edges s) (adds : Adds b c 2 added)
    (untouched : ∀ s, s < a.size ∨ s = b.size + 1 → added s = []) :
    a.Adjoins b.fresh c where
  opened := by
    refine isOpen_fresh adds.size ?_
    rw [adds.edges_of_size_le (Nat.le_succ _), untouched _ (.inr rfl)]
  behind_start := grown
  behind_stop := Nat.le_succ_of_le grown
  kept := by
    intro s old
    rw [adds.edges, untouched s (.inl old), List.append_nil, kept s old]

theorem literal (a : Arena α) (x : α) : a.Adjoins (a.literal x).1 (a.literal x).2 := by
  refine of_fresh (Nat.le_refl _) (fun _ _ => rfl) (adds_literal a x) ?_
  intro s which
  rw [if_neg (by lia)]

theorem union (first : a.Adjoins f b) (second : b.Adjoins g c) :
    ∃ h d, c.union? f g = some (h, d) ∧ a.Adjoins h d := by
  obtain ⟨d, made, adds⟩ := union?_adds (first.composable second)
  have left := first.behind_stop
  have leftInside := first.stop_lt
  have right := second.behind_stop
  have rightInside := second.stop_lt
  refine ⟨c.fresh, d, made, of_fresh (by lia) (first.kept_trans second) adds ?_⟩
  intro s which
  rw [if_neg (by lia), if_neg (by lia)]

theorem concat (first : a.Adjoins f b) (second : b.Adjoins g c) :
    c.concat? f g = some (⟨f.start, g.stop⟩, c.link f.stop none g.start) ∧
      a.Adjoins ⟨f.start, g.stop⟩ (c.link f.stop none g.start) := by
  have fits := first.composable second
  have left := first.behind_stop
  have inside := first.stop_lt
  have right := second.behind_stop
  have untouched : ∀ s, s ≠ f.stop → (c.link f.stop none g.start).edges s = c.edges s := by
    intro s other
    rw [edges_link, if_neg fun both => other both.1]
  obtain ⟨start, -, -⟩ := (isOpen_iff c f).mp (first.isOpen_of_adjoins second)
  obtain ⟨-, stop, none⟩ := (isOpen_iff c g).mp second.opened
  refine ⟨if_pos fits, (isOpen_iff _ _).mpr ⟨?_, ?_, ?_⟩, first.behind_start, ?_, ?_⟩
  · rwa [size_link]
  · rwa [size_link]
  · rw [untouched g.stop (by lia), none]
  · change a.size ≤ g.stop
    lia
  · intro s old
    rw [untouched s (by lia), first.kept_trans second s old]

theorem star (adjoins : a.Adjoins f b) : ∃ h c, b.star? f = some (h, c) ∧ a.Adjoins h c := by
  obtain ⟨c, made, adds⟩ := star?_adds adjoins.opened
  have behind := adjoins.behind_stop
  have inside := adjoins.stop_lt
  refine ⟨b.fresh, c, made, of_fresh (by lia) adjoins.kept adds ?_⟩
  intro s which
  rw [if_neg (by lia)]

end Adjoins

/-- Every expression has a fragment, whatever the arena. -/
theorem exists_realize? (a : Arena α) (r : Regex α) : ∃ f b, a.realize? r = some (f, b) ∧ a.Adjoins f b := by
  induction r generalizing a with
  | symbol x => exact ⟨_, _, rfl, .literal a x⟩
  | union left right ihLeft ihRight =>
    obtain ⟨f, b, first, leftAdjoins⟩ := ihLeft a
    obtain ⟨g, c, second, rightAdjoins⟩ := ihRight b
    obtain ⟨h, d, made, adjoins⟩ := leftAdjoins.union rightAdjoins
    exact ⟨h, d, by simp [realize?, first, second, made], adjoins⟩
  | concat left right ihLeft ihRight =>
    obtain ⟨f, b, first, leftAdjoins⟩ := ihLeft a
    obtain ⟨g, c, second, rightAdjoins⟩ := ihRight b
    obtain ⟨made, adjoins⟩ := leftAdjoins.concat rightAdjoins
    exact ⟨_, _, by simp [realize?, first, second, made], adjoins⟩
  | star operand ih =>
    obtain ⟨f, b, inner, adjoins⟩ := ih a
    obtain ⟨h, c, made, adjoins⟩ := adjoins.star
    exact ⟨h, c, by simp [realize?, inner, made], adjoins⟩

theorem adjoins_of_realize? {r : Regex α} (realized : a.realize? r = some (f, b)) : a.Adjoins f b := by
  obtain ⟨_, _, same, adjoins⟩ := a.exists_realize? r
  rw [realized] at same
  cases same
  exact adjoins

/-! ## Edges from older states -/

section
variable {s t u v : StateId} {x y : Option α}

/-- Edges from different states may be added in either order. -/
theorem link_comm (apart : s ≠ t) : (a.link s x u).link t y v = (a.link t y v).link s x u := by
  refine congrArg Arena.mk (Array.ext_getElem? fun i => ?_)
  simp only [link, Array.getElem?_modify]
  by_cases first : s = i
  · have second : t ≠ i := fun same => apart (first.trans same.symm)
    simp [first, second]
  · simp [first]

theorem addState_link (old : s < a.size) : (a.link s x u).addState = a.addState.link s x u := by
  refine congrArg Arena.mk (Array.ext_getElem? fun i => ?_)
  have size : (a.link s x u).states.size = a.states.size := size_link a s u x
  simp only [addState, link, Array.getElem?_push, Array.getElem?_modify] at size ⊢
  rw [size]
  by_cases fresh : i = a.states.size
  · have other : s ≠ i := fresh ▸ Nat.ne_of_lt old
    simp [fresh, fresh ▸ other]
  · simp [fresh]

theorem grow_link (old : s < a.size) : (a.link s x u).grow = a.grow.link s x u := by
  rw [grow, addState_link old, addState_link (by simpa using Nat.lt_succ_of_lt old), grow]

theorem fresh_link : (a.link s x u).fresh = a.fresh := by
  simp [fresh]

theorem isOpen_link (other : s ≠ f.stop) : (a.link s x u).isOpen f = a.isOpen f := by
  rw [Bool.eq_iff_iff, isOpen_iff, isOpen_iff, size_link, edges_link, if_neg fun both => other both.1.symm]

theorem composable_link (first : s ≠ f.stop) (second : s ≠ g.stop) :
    (a.link s x u).composable f g = a.composable f g := by
  rw [composable, composable, isOpen_link first, isOpen_link second]

theorem literal_link (old : s < a.size) (c : α) :
    (a.link s x u).literal c = ((a.literal c).1, (a.literal c).2.link s x u) := by
  have apart : s ≠ a.fresh.start := Nat.ne_of_lt old
  simp only [literal, fresh_link, grow_link old, link_comm apart]

theorem union?_link (old : s < a.size) (first : s ≠ f.stop) (second : s ≠ g.stop) :
    (a.link s x u).union? f g = (a.union? f g).map fun (h, b) => (h, b.link s x u) := by
  have apart : s ≠ a.fresh.start := Nat.ne_of_lt old
  simp only [union?, composable_link first second, fresh_link, grow_link old, link_comm apart, link_comm first,
    link_comm second]
  split <;> rfl

theorem concat?_link (first : s ≠ f.stop) (second : s ≠ g.stop) :
    (a.link s x u).concat? f g = (a.concat? f g).map fun (h, b) => (h, b.link s x u) := by
  simp only [concat?, composable_link first second, link_comm first]
  split <;> rfl

theorem star?_link (old : s < a.size) (other : s ≠ f.stop) :
    (a.link s x u).star? f = (a.star? f).map fun (h, b) => (h, b.link s x u) := by
  have apart : s ≠ a.fresh.start := Nat.ne_of_lt old
  simp only [star?, isOpen_link other, fresh_link, grow_link old, link_comm apart, link_comm other]
  split <;> rfl

/-- An expression is realized in the same way whether an older state has got its edge before. -/
theorem realize?_link (old : s < a.size) (r : Regex α) :
    (a.link s x u).realize? r = (a.realize? r).map fun (f, b) => (f, b.link s x u) := by
  -- The operands end behind the old state, so no composition adds an edge to it.
  induction r generalizing a with
  | symbol c => exact congrArg some (literal_link old c)
  | union left right ihLeft ihRight =>
    obtain ⟨f, b, first, leftAdjoins⟩ := a.exists_realize? left
    obtain ⟨g, c, second, rightAdjoins⟩ := b.exists_realize? right
    have inLeft := leftAdjoins.size_lt
    have inRight := rightAdjoins.size_lt
    have notLeft := leftAdjoins.behind_stop
    have notRight := rightAdjoins.behind_stop
    simp only [realize?, ihLeft old, ihRight (show s < b.size by lia), first, second, Option.map_some,
      Option.bind_eq_bind, Option.bind_some]
    exact union?_link (by lia) (by lia) (by lia)
  | concat left right ihLeft ihRight =>
    obtain ⟨f, b, first, leftAdjoins⟩ := a.exists_realize? left
    obtain ⟨g, c, second, rightAdjoins⟩ := b.exists_realize? right
    have inLeft := leftAdjoins.size_lt
    have notLeft := leftAdjoins.behind_stop
    have notRight := rightAdjoins.behind_stop
    simp only [realize?, ihLeft old, ihRight (show s < b.size by lia), first, second, Option.map_some,
      Option.bind_eq_bind, Option.bind_some]
    exact concat?_link (by lia) (by lia)
  | star operand ih =>
    obtain ⟨f, b, inner, adjoins⟩ := a.exists_realize? operand
    have inside := adjoins.size_lt
    have notStop := adjoins.behind_stop
    simp only [realize?, ih old, inner, Option.map_some, Option.bind_eq_bind, Option.bind_some]
    exact star?_link (by lia) (by lia)

end

/-! ## Grouping of concatenations -/

/-- Of three operands in a row the first is joined to the second, and the second to the third.
    The grouping only decides which of the two edges is added first. -/
theorem realize?_assoc (a : Arena α) (r q p : Regex α) :
    a.realize? (.concat (.concat r q) p) = a.realize? (.concat r (.concat q p)) := by
  obtain ⟨f, b, first, adjoinsFirst⟩ := a.exists_realize? r
  obtain ⟨g, c, second, adjoinsSecond⟩ := b.exists_realize? q
  obtain ⟨h, d, third, adjoinsThird⟩ := c.exists_realize? p
  obtain ⟨joinedLeft, adjoinsLeft⟩ := adjoinsFirst.concat adjoinsSecond
  obtain ⟨joinedRight, adjoinsRight⟩ := adjoinsSecond.concat adjoinsThird
  have old : f.stop < c.size := Nat.lt_trans adjoinsFirst.stop_lt adjoinsSecond.size_lt
  have apart : f.stop ≠ g.stop := ((composable_iff c f g).mp (adjoinsFirst.composable adjoinsSecond)).2.2
  have later : (c.link f.stop none g.start).realize? p = some (h, d.link f.stop none g.start) := by
    rw [realize?_link old, third, Option.map_some]
  calc a.realize? (.concat (.concat r q) p)
      = (d.link f.stop none g.start).concat? ⟨f.start, g.stop⟩ h := by
        simp [realize?, first, second, joinedLeft, later]
    _ = some (⟨f.start, h.stop⟩, (d.link f.stop none g.start).link g.stop none h.start) :=
        (adjoinsLeft.concat (adjoins_of_realize? later)).1
    _ = some (⟨f.start, h.stop⟩, (d.link g.stop none h.start).link f.stop none g.start) := by
        rw [link_comm apart]
    _ = (d.link g.stop none h.start).concat? f ⟨g.start, h.stop⟩ := (adjoinsFirst.concat adjoinsRight).1.symm
    _ = a.realize? (.concat r (.concat q p)) := by
        simp [realize?, first, second, third, joinedRight]

/-- However the concatenations of an expression are grouped, its arena and its fragment
    are the same. -/
theorem realize?_congr {r q : Regex α} (same : r.Regrouped q) (a : Arena α) : a.realize? r = a.realize? q := by
  induction same generalizing a with
  | refl r => rfl
  | symm _ ih => exact (ih a).symm
  | trans _ _ first second => exact (first a).trans (second a)
  | assoc r q p => exact realize?_assoc a r q p
  | union _ _ left right => simp only [realize?, left, right]
  | concat _ _ left right => simp only [realize?, left, right]
  | star _ operand => simp only [realize?, operand]

end Arena

end RegexAutomaton
