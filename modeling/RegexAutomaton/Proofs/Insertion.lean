import RegexAutomaton.Proofs.TextStages

/-!
What making an expression explicit inserts. The tokens of the explicit list are marked here by
whether they were there before (`Placed`); a list may be completed by concatenations between
operands that stand side by side, and is complete once no such operands are left
(`Completes`). There is exactly one way to do so (`completes_iff`), and it can be undone: what
was there before is the list of the tokens without the mark, and in a text, where there are no
marks, all characters but the marker (`completes_makeExplicit`).
-/
namespace RegexAutomaton

/-- A token of an explicit list, and whether it was inserted. -/
structure Placed where
  token : Token
  inserted : Bool
  deriving DecidableEq

namespace Placed

/-- The tokens that were there before. -/
def own (placed : List Placed) : List Token := (placed.filter (!·.inserted)).map token

@[simp] theorem own_cons_kept (t : Token) (placed : List Placed) : own (⟨t, false⟩ :: placed) = t :: own placed := rfl

@[simp] theorem own_cons_inserted (t : Token) (placed : List Placed) : own (⟨t, true⟩ :: placed) = own placed := rfl

end Placed

namespace Dialect
variable {d : Dialect} {tokens : List Token} {placed : List Placed}

/-- Every inserted token is a concatenation at the position of the token after it. It stands
    between two tokens that were there before, of which the first ends an operand and the second
    begins one. -/
def Justified (d : Dialect) (placed : List Placed) : Prop :=
  ∀ place x, placed[place]? = some x → x.inserted = true →
    ∃ before t u, place = before + 1 ∧ placed[before]? = some ⟨t, false⟩ ∧ placed[place + 1]? = some ⟨u, false⟩ ∧
      t.adjoins u = true ∧ x.token = d.concat u.index

/-- The marked list completes the tokens: they are what it holds without the insertions, each
    insertion is justified, and none is missing. -/
structure Completes (d : Dialect) (tokens : List Token) (placed : List Placed) : Prop where
  own : Placed.own placed = tokens
  justified : d.Justified placed
  explicit : Token.Explicit (placed.map Placed.token)

/-- Inserts a concatenation between any two operands that stand side by side, and marks it. -/
def complete (d : Dialect) : List Token → List Placed
  | [] => []
  | [t] => [⟨t, false⟩]
  | t :: u :: rest =>
    if t.adjoins u then ⟨t, false⟩ :: ⟨d.concat u.index, true⟩ :: d.complete (u :: rest)
    else ⟨t, false⟩ :: d.complete (u :: rest)

theorem head?_complete (d : Dialect) (tokens : List Token) :
    (d.complete tokens).head? = tokens.head?.map fun t => ⟨t, false⟩ := by
  match tokens with
  | [] => rfl
  | [_] => rfl
  | t :: u :: rest => unfold complete; split <;> rfl

theorem complete_cons (d : Dialect) (t : Token) (rest : List Token) :
    ∃ later, d.complete (t :: rest) = ⟨t, false⟩ :: later :=
  List.head?_eq_some_iff.mp (d.head?_complete (t :: rest))

theorem map_token_complete (d : Dialect) (tokens : List Token) :
    (d.complete tokens).map Placed.token = d.makeExplicit tokens := by
  fun_induction complete d tokens with
  | case1 => rfl
  | case2 => rfl
  | case3 t u rest adjoins ih => simp [makeExplicit, adjoins, ih]
  | case4 t u rest apart ih => simp [makeExplicit, apart, ih]

theorem own_complete (d : Dialect) (tokens : List Token) : Placed.own (d.complete tokens) = tokens := by
  fun_induction complete d tokens with
  | case1 => rfl
  | case2 => rfl
  | case3 t u rest adjoins ih => simp [ih]
  | case4 t u rest apart ih => simp [ih]

/-! ## Insertions one by one -/

theorem Justified.own_first {x : Placed} (justified : d.Justified (x :: placed)) : x.inserted = false := by
  by_contra inserted
  obtain ⟨before, _, _, first, -⟩ := justified 0 x rfl (by simpa using inserted)
  cases first

theorem Justified.cons (justified : d.Justified placed) (t : Token) : d.Justified (⟨t, false⟩ :: placed) := by
  intro place x there inserted
  cases place with
  | zero =>
    cases there
    cases inserted
  | succ place =>
    obtain ⟨before, t', u, rfl, left, right, rest⟩ := justified place x there inserted
    exact ⟨before + 1, t', u, rfl, left, right, rest⟩

theorem Justified.insert {t u : Token} (justified : d.Justified (⟨u, false⟩ :: placed)) (adjoins : t.adjoins u = true) :
    d.Justified (⟨t, false⟩ :: ⟨d.concat u.index, true⟩ :: ⟨u, false⟩ :: placed) := by
  intro place x there inserted
  match place with
  | 0 =>
    cases there
    cases inserted
  | 1 =>
    cases there
    exact ⟨0, t, u, rfl, rfl, rfl, adjoins, rfl⟩
  | place + 2 =>
    obtain ⟨before, t', u', rfl, left, right, rest⟩ := justified place x there inserted
    exact ⟨before + 2, t', u', rfl, left, right, rest⟩

/-- What follows a token that was there before does not depend on what precedes it. -/
theorem Justified.of_append (front : List Placed) {y : Placed} (justified : d.Justified (front ++ y :: placed))
    (own : y.inserted = false) : d.Justified (y :: placed) := by
  have shift (place : Nat) : (front ++ y :: placed)[front.length + place]? = (y :: placed)[place]? := by
    rw [List.getElem?_append_right (by omega), Nat.add_sub_cancel_left]
  intro place x there inserted
  obtain ⟨before, t, u, same, left, right, rest⟩ := justified _ x ((shift place).trans there) inserted
  cases place with
  | zero =>
    cases there
    rw [own] at inserted
    cases inserted
  | succ previous =>
    obtain rfl : before = front.length + previous := by omega
    exact ⟨previous, t, u, rfl, (shift previous).symm.trans left, (shift (previous + 2)).symm.trans right, rest⟩

theorem justified_complete (d : Dialect) (tokens : List Token) : d.Justified (d.complete tokens) := by
  fun_induction complete d tokens with
  | case1 => intro place x there; cases there
  | case2 t => exact Justified.cons (fun place x there => by cases there) t
  | case3 t u rest adjoins ih =>
    obtain ⟨later, shape⟩ := d.complete_cons u rest
    rw [shape] at ih ⊢
    exact ih.insert adjoins
  | case4 t u rest apart ih => exact ih.cons t

theorem completes_complete (d : Dialect) (tokens : List Token) : d.Completes tokens (d.complete tokens) where
  own := d.own_complete tokens
  justified := d.justified_complete tokens
  explicit := d.map_token_complete tokens ▸ d.explicit_makeExplicit tokens

/-- A complete list is determined by the tokens that were there before: it begins with one of
    them, and whether an insertion comes next is decided by the one after it. -/
theorem eq_complete (placed : List Placed) (justified : d.Justified placed)
    (explicit : Token.Explicit (placed.map Placed.token)) : placed = d.complete (Placed.own placed) := by
  match placed with
  | [] => rfl
  | [⟨t, inserted⟩] =>
    obtain rfl : inserted = false := justified.own_first
    rfl
  | ⟨t, inserted⟩ :: ⟨u, false⟩ :: rest =>
    obtain rfl : inserted = false := justified.own_first
    have apart : ¬ t.adjoins u = true := by simpa using explicit.1
    have completed := eq_complete (⟨u, false⟩ :: rest) (.of_append [_] justified rfl) explicit.2
    rw [Placed.own_cons_kept] at completed
    rw [Placed.own_cons_kept, Placed.own_cons_kept, complete, if_neg apart, ← completed]
  | ⟨t, inserted⟩ :: ⟨c, true⟩ :: rest =>
    obtain rfl : inserted = false := justified.own_first
    obtain ⟨_, t', u, place, left, right, adjoins, token⟩ := justified 1 ⟨c, true⟩ rfl rfl
    cases place
    cases left
    obtain rfl : c = d.concat u.index := token
    obtain ⟨later, rfl⟩ : ∃ later, rest = ⟨u, false⟩ :: later := by
      rw [← List.head?_eq_some_iff, List.head?_eq_getElem?]
      exact right
    have completed := eq_complete (⟨u, false⟩ :: later) (.of_append [_, _] justified rfl) explicit.2.2
    rw [Placed.own_cons_kept] at completed
    rw [Placed.own_cons_kept, Placed.own_cons_inserted, Placed.own_cons_kept, complete, if_pos adjoins, ← completed]

theorem completes_iff : d.Completes tokens placed ↔ placed = d.complete tokens := by
  constructor
  · rintro ⟨rfl, justified, explicit⟩
    exact eq_complete placed justified explicit
  · rintro rfl
    exact d.completes_complete tokens

theorem length_makeExplicit_lt (d : Dialect) {tokens : List Token} (present : tokens ≠ []) :
    (d.makeExplicit tokens).length < 2 * tokens.length := by
  fun_induction makeExplicit d tokens with
  | case1 => exact absurd rfl present
  | case2 => simp
  | case3 t u rest adjoins ih =>
    have later := ih (by simp)
    simp only [List.length_cons] at later ⊢
    omega
  | case4 t u rest apart ih =>
    have later := ih (by simp)
    simp only [List.length_cons] at later ⊢
    omega

/-! ## Texts -/

/-- A text without the marker. -/
def unmark (d : Dialect) (text : String) : String := String.ofList (text.toList.filter (· ≠ d.marker))

theorem unmark_of_explicitText {expression text : String} (written : d.explicitText expression = .ok text) :
    d.unmark text = expression := by
  obtain ⟨absent, rfl⟩ := explicitText_eq_ok_iff.mp written
  have skips : ∀ index, (decide ((d.concat index).char ≠ d.marker)) = false := fun index => by simp [concat]
  have all : ∀ t ∈ read d.kindOf expression, decide (t.char ≠ d.marker) = true := by
    intro t inside
    have other : t.char ≠ d.marker := fun same => absent (same ▸ (char_of_mem_read inside).2)
    simpa using other
  calc
    d.unmark (Token.render (d.makeExplicit (read d.kindOf expression)))
      = Token.render ((d.makeExplicit (read d.kindOf expression)).filter (·.char ≠ d.marker)) := by
        rw [unmark, Token.toList_render, List.filter_map]
        rfl
    _ = Token.render (read d.kindOf expression) := by
        rw [d.filter_makeExplicit skips, List.filter_eq_self.mpr all]
    _ = expression := render_read d.kindOf expression

/-- There is exactly one way to complete a list of tokens, and making it explicit is this way. No
    two operands stand side by side in what comes out; so it stays as it is when it is made
    explicit again, and it has less than twice as many tokens. The explicit text of an expression
    tells the expression: it is what is left without the markers. -/
theorem completes_makeExplicit (d : Dialect) (tokens : List Token) :
    Token.Explicit (d.makeExplicit tokens) ∧ (∃! placed, d.Completes tokens placed) ∧
    (∀ placed, d.Completes tokens placed → placed.map Placed.token = d.makeExplicit tokens) ∧
    d.makeExplicit (d.makeExplicit tokens) = d.makeExplicit tokens ∧
    (tokens ≠ [] → (d.makeExplicit tokens).length < 2 * tokens.length) ∧
    (∀ expression text, d.explicitText expression = .ok text → d.unmark text = expression) ∧
    ∀ expression other text, d.explicitText expression = .ok text → d.explicitText other = .ok text →
      expression = other := by
  have explicit := d.explicit_makeExplicit tokens
  refine ⟨explicit, ?_, ?_, d.makeExplicit_of_explicit explicit, d.length_makeExplicit_lt, ?_, ?_⟩
  · exact ⟨d.complete tokens, d.completes_complete tokens, fun placed completes => completes_iff.mp completes⟩
  · intro placed completes
    rw [completes_iff.mp completes, map_token_complete]
  · intro expression text written
    exact unmark_of_explicitText written
  · intro expression other text written written'
    exact (unmark_of_explicitText written).symm.trans (unmark_of_explicitText written')

/-- Of the two concatenations one was there before. -/
def partlyWritten : List Placed :=
  [⟨⟨.literal, 'a', 0⟩, false⟩, ⟨⟨.concat, '?', 1⟩, true⟩, ⟨⟨.literal, 'b', 1⟩, false⟩, ⟨⟨.concat, '?', 2⟩, false⟩,
    ⟨⟨.literal, 'c', 3⟩, false⟩]

theorem completes_makeExplicit_partlyWritten :
    Completes {} (readExplicit {} "ab?c") partlyWritten ∧
      partlyWritten.map Placed.token = makeExplicit {} (readExplicit {} "ab?c") ∧
      (makeExplicit {} (readExplicit {} "ab?c")).length < 8 ∧ explicitText {} "a(b)*c" = .ok "a?(b)*?c" ∧
      unmark {} "a?(b)*?c" = "a(b)*c" := by
  have completes : Completes {} (readExplicit {} "ab?c") partlyWritten := completes_iff.mpr (by decide)
  obtain ⟨-, -, same, -, short, unmarked, -⟩ := completes_makeExplicit {} (readExplicit {} "ab?c")
  exact ⟨completes, same partlyWritten completes, short (by decide), rfl, unmarked "a(b)*c" "a?(b)*?c" rfl⟩

end Dialect

end RegexAutomaton
