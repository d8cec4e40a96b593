import Mathlib.Data.List.TakeWhile
import RegexAutomaton.Postorder

/-!
Groups of a token list, well-formed or not. `unclosed` matches closing delimiters with
opening ones and looks at nothing else; it fails just if some prefix has more closings than
openings, and leaves the openings that there are in excess. It decides what the
rearrangement into postorder answers (`arrange_settles`): the first closing delimiter that
closes nothing is a fault, then the last group that is never closed, and otherwise all
tokens but the delimiters are kept.
-/
namespace RegexAutomaton

/-- Two places of a list are the same, or one of them stands before the other. -/
theorem eq_or_between {β : Type} {front back front' back' : List β} {x y : β}
    (split : front ++ x :: back = front' ++ y :: back') :
    front = front' ∧ x = y ∨ (∃ between, front' = front ++ x :: between ∧ back = between ++ y :: back') ∨
      ∃ between, front = front' ++ y :: between ∧ back' = between ++ x :: back := by
  rcases List.append_eq_append_iff.mp split with ⟨between, rfl, rest⟩ | ⟨between, rfl, rest⟩
  · cases between with
    | nil => exact .inl ⟨(List.append_nil front).symm, (List.cons.inj rest).1⟩
    | cons u between =>
      obtain ⟨rfl, later⟩ := List.cons.inj rest
      exact .inr (.inl ⟨between, rfl, later⟩)
  · cases between with
    | nil => exact .inl ⟨List.append_nil front', (List.cons.inj rest).1.symm⟩
    | cons u between =>
      obtain ⟨rfl, later⟩ := List.cons.inj rest
      exact .inr (.inr ⟨between, rfl, later⟩)

/-- A place in two lists that are put together is in the second one, or in the first. -/
theorem exists_of_append_eq {β : Type} {lead list front back : List β} {x : β} (split : lead ++ list = front ++ x :: back) :
    (∃ before, front = lead ++ before ∧ list = before ++ x :: back) ∨
      ∃ between, lead = front ++ x :: between ∧ back = between ++ list := by
  rcases List.append_eq_append_iff.mp split with ⟨before, rfl, rest⟩ | ⟨between, rfl, rest⟩
  · exact .inl ⟨before, rfl, rest⟩
  · cases between with
    | nil => exact .inl ⟨[], by simp, rest.symm⟩
    | cons y between =>
      obtain ⟨rfl, later⟩ := List.cons.inj rest
      exact .inr ⟨between, rfl, later⟩

namespace Token

/-- The token opens or closes a group. -/
def delimits (t : Token) : Bool := t.kind = .opening || t.kind = .closing

theorem delimits_iff {t : Token} : t.delimits = true ↔ t.kind = .opening ∨ t.kind = .closing := by simp [delimits]

/-- The openings that are not closed after the tokens, the latest first, when `outer` are not
    closed before them; or the first closing that has nothing to close. -/
def unclosed : (outer tokens : List Token) → Except Token (List Token)
  | outer, [] => .ok outer
  | outer, t :: rest =>
    match t.kind, outer with
    | .opening, outer => unclosed (t :: outer) rest
    | .closing, [] => .error t
    | .closing, _ :: outer => unclosed outer rest
    | _, outer => unclosed outer rest

/-! ## Counting delimiters -/

/-- The number of opening delimiters. -/
def openings (tokens : List Token) : Nat := tokens.countP (·.kind = .opening)

/-- The number of closing delimiters. -/
def closings (tokens : List Token) : Nat := tokens.countP (·.kind = .closing)

/-- Somewhere more groups have been closed than opened. -/
def Overclosed (tokens : List Token) : Prop := ∃ front, front <+: tokens ∧ openings front < closings front

/-- In the end more groups have been opened than closed. -/
def Underclosed (tokens : List Token) : Prop := closings tokens < openings tokens

theorem openings_cons (t : Token) (rest : List Token) :
    openings (t :: rest) = openings rest + (decide (t.kind = .opening)).toNat := by
  by_cases opening : t.kind = .opening <;> simp [openings, opening]

theorem closings_cons (t : Token) (rest : List Token) :
    closings (t :: rest) = closings rest + (decide (t.kind = .closing)).toNat := by
  by_cases closing : t.kind = .closing <;> simp [closings, closing]

theorem openings_concat_closing {t : Token} (closing : t.kind = .closing) (front : List Token) :
    openings (front ++ [t]) = openings front := by
  simp [openings, closing]

theorem closings_concat_closing {t : Token} (closing : t.kind = .closing) (front : List Token) :
    closings (front ++ [t]) = closings front + 1 := by
  simp [closings, closing]

theorem unclosed_of_inner {t : Token} (inner : t.delimits = false) (outer rest : List Token) :
    unclosed outer (t :: rest) = unclosed outer rest := by
  obtain ⟨kind, char, index⟩ := t
  cases kind <;> simp [delimits] at inner <;> simp only [unclosed]

/-- A token closes nothing, or the number of open groups changes by what it opens and closes. -/
theorem unclosed_cons (outer : List Token) (t : Token) :
    (t.kind = .closing ∧ outer = [] ∧ ∀ rest, unclosed outer (t :: rest) = .error t) ∨
      ∃ next, (∀ rest, unclosed outer (t :: rest) = unclosed next rest) ∧
        next.length + (decide (t.kind = .closing)).toNat = outer.length + (decide (t.kind = .opening)).toNat := by
  by_cases opening : t.kind = .opening
  · exact .inr ⟨t :: outer, fun rest => by simp only [unclosed, opening], by simp [opening]⟩
  · by_cases closing : t.kind = .closing
    · cases outer with
      | nil => exact .inl ⟨closing, rfl, fun rest => by simp only [unclosed, closing]⟩
      | cons o outer => exact .inr ⟨outer, fun rest => by simp only [unclosed, closing], by simp [closing]⟩
    · have inner : t.delimits = false := by simp [delimits, opening, closing]
      exact .inr ⟨outer, unclosed_of_inner inner outer, by simp [opening, closing]⟩

/-- As long as each closing finds an opening, none of the prefixes closes too much. -/
theorem count_of_unclosed {tokens outer left : List Token} (groups : unclosed outer tokens = .ok left) :
    (∀ front, front <+: tokens → closings front ≤ outer.length + openings front) ∧
      left.length + closings tokens = outer.length + openings tokens := by
  induction tokens generalizing outer with
  | nil =>
    cases groups
    refine ⟨?_, rfl⟩
    intro front begins
    rw [List.prefix_nil.mp begins]
    exact Nat.zero_le _
  | cons t rest ih =>
    rcases unclosed_cons outer t with ⟨_, _, fault⟩ | ⟨next, same, change⟩
    · cases groups.symm.trans (fault rest)
    · obtain ⟨prefixes, total⟩ := ih ((same rest).symm.trans groups)
      rw [openings_cons, closings_cons]
      refine ⟨?_, by omega⟩
      intro front begins
      rcases List.prefix_cons_iff.mp begins with rfl | ⟨front, rfl, inside⟩
      · exact Nat.zero_le _
      · have bound := prefixes front inside
        rw [openings_cons, closings_cons]
        omega

/-- Where a closing finds no opening, all groups before it are closed. -/
theorem exists_split_of_error {outer tokens : List Token} {t : Token} (fault : unclosed outer tokens = .error t) :
    ∃ front back, tokens = front ++ t :: back ∧ t.kind = .closing ∧ unclosed outer front = .ok [] := by
  induction tokens generalizing outer with
  | nil => cases fault
  | cons u rest ih =>
    rcases unclosed_cons outer u with ⟨closing, rfl, stuck⟩ | ⟨next, same, -⟩
    · obtain rfl : u = t := Except.error.inj ((stuck rest).symm.trans fault)
      exact ⟨[], rest, rfl, closing, rfl⟩
    · obtain ⟨front, back, rfl, closing, closed⟩ := ih ((same rest).symm.trans fault)
      exact ⟨u :: front, back, rfl, closing, (same front).trans closed⟩

theorem overclosed_of_error {tokens : List Token} {t : Token} (fault : unclosed [] tokens = .error t) :
    Overclosed tokens := by
  obtain ⟨front, back, rfl, closing, closed⟩ := exists_split_of_error fault
  have counted := (count_of_unclosed closed).2
  refine ⟨front ++ [t], ⟨back, by simp⟩, ?_⟩
  rw [openings_concat_closing closing, closings_concat_closing closing]
  simp only [List.length_nil] at counted
  omega

theorem not_overclosed_of_ok {tokens left : List Token} (groups : unclosed [] tokens = .ok left) :
    ¬ Overclosed tokens := by
  rintro ⟨front, begins, excess⟩
  have bound := (count_of_unclosed groups).1 front begins
  rw [List.length_nil] at bound
  omega

theorem openings_of_ok {tokens left : List Token} (groups : unclosed [] tokens = .ok left) :
    openings tokens = left.length + closings tokens := by
  have total := (count_of_unclosed groups).2
  rw [List.length_nil, Nat.zero_add] at total
  exact total.symm

theorem underclosed_iff_of_ok {tokens left : List Token} (groups : unclosed [] tokens = .ok left) :
    Underclosed tokens ↔ left ≠ [] := by
  rw [Underclosed, openings_of_ok groups, ← List.length_pos_iff]
  omega

/-- Only delimiters matter. -/
theorem unclosed_filter (outer tokens : List Token) :
    unclosed outer (tokens.filter delimits) = unclosed outer tokens := by
  induction tokens generalizing outer with
  | nil => rfl
  | cons t rest ih =>
    cases inner : t.delimits with
    | false => rw [List.filter_cons_of_neg (by simp [inner]), unclosed_of_inner inner, ih]
    | true =>
      rw [List.filter_cons_of_pos inner]
      rcases delimits_iff.mp inner with kind | kind
      · simp only [unclosed, kind, ih]
      · cases outer with
        | nil => simp only [unclosed, kind]
        | cons o outer => simp only [unclosed, kind, ih]

end Token

/-! ## What the rearrangement does with groups -/

namespace Postorder
open Token (unclosed)

/-- What the groups call for: a fault at the first closing without a group, or at the last
    opening that is never closed, or else the tokens that are kept, in some order. -/
def Settles : Except Token (List Token) → List Token → Except Fault (List Token) → Prop
  | .error t, _, result => result = .error (.unmatchedClosing t.index)
  | .ok (t :: _), _, result => result = .error (.unmatchedOpening t.index)
  | .ok [], kept, result => ∃ order, result = .ok order ∧ order.Perm kept

theorem Settles.prepend {groups : Except Token (List Token)} {kept : List Token} {result : Except Fault (List Token)}
    (settles : Settles groups kept result) (front : List Token) :
    Settles groups (front ++ kept) ((front ++ ·) <$> result) := by
  match groups, settles with
  | .error t, same =>
    obtain rfl : result = _ := same
    rfl
  | .ok (t :: _), same =>
    obtain rfl : result = _ := same
    rfl
  | .ok [], ⟨order, same, perm⟩ =>
    subst same
    exact ⟨front ++ order, rfl, perm.append_left front⟩

theorem Settles.perm {groups : Except Token (List Token)} {kept other : List Token}
    {result : Except Fault (List Token)} (settles : Settles groups kept result) (same : kept.Perm other) :
    Settles groups other result := by
  match groups, settles with
  | .error t, fault => exact fault
  | .ok (t :: _), fault => exact fault
  | .ok [], ⟨order, done, perm⟩ => exact ⟨order, done, perm.trans same⟩

theorem map_eq_ok {front order : List Token} {result : Except Fault (List Token)}
    (done : (front ++ ·) <$> result = .ok order) : ∃ later, result = .ok later ∧ order = front ++ later := by
  cases result with
  | error fault => cases done
  | ok later => exact ⟨later, rfl, (Except.ok.inj done).symm⟩

theorem not_opening_of_makesWay {arriving t : Token} (makes : makesWay arriving t = true) : isOpening t = false := by
  simp only [makesWay, Bool.and_eq_true, Bool.not_eq_true'] at makes
  exact makes.1

/-- Without delimiters nothing is dropped and no group is opened. -/
theorem filter_of_plain {tokens : List Token} (plain : ∀ t ∈ tokens, isOpening t = false ∧ t.kind ≠ .closing) :
    tokens.filter isOpening = [] ∧ tokens.filter (!·.delimits) = tokens := by
  constructor
  · rw [List.filter_eq_nil_iff]
    intro t member
    simp [(plain t member).1]
  · rw [List.filter_eq_self]
    intro t member
    obtain ⟨notOpening, notClosing⟩ := plain t member
    have notOpening : t.kind ≠ .opening := by simpa [isOpening] using notOpening
    simp [Token.delimits, notOpening, notClosing]

/-- Tokens taken from the stack as long as none is an opening: the openings stay, and so do
    all tokens that are not delimiters. -/
theorem filter_takeWhile {waiting : List Token} (noClosing : ∀ t ∈ waiting, t.kind ≠ .closing) {p : Token → Bool}
    (spares : ∀ t, p t = true → isOpening t = false) :
    waiting.filter isOpening = (waiting.dropWhile p).filter isOpening ∧
      waiting.filter (!·.delimits) = waiting.takeWhile p ++ (waiting.dropWhile p).filter (!·.delimits) := by
  have plain : ∀ t ∈ waiting.takeWhile p, isOpening t = false ∧ t.kind ≠ .closing := fun t member =>
    ⟨spares t (List.mem_takeWhile_imp member), noClosing t ((List.takeWhile_sublist p).subset member)⟩
  obtain ⟨noneOpens, allKept⟩ := filter_of_plain plain
  have parts := List.takeWhile_append_dropWhile (p := p) (l := waiting)
  constructor
  · have openings := congrArg (List.filter isOpening) parts
    rw [List.filter_append, noneOpens, List.nil_append] at openings
    exact openings.symm
  · have tokens := congrArg (List.filter (!·.delimits)) parts
    rw [List.filter_append, allKept] at tokens
    exact tokens.symm

theorem arrange_settles (tokens waiting : List Token) (noClosing : ∀ t ∈ waiting, t.kind ≠ .closing) :
    Settles (unclosed (waiting.filter isOpening) tokens) ((waiting ++ tokens).filter (!·.delimits))
      (arrange tokens waiting) := by
  induction tokens generalizing waiting with
  | nil =>
    rw [unclosed, arrange, ← List.head?_filter]
    cases opened : waiting.filter isOpening with
    | cons t _ => rfl
    | nil =>
      have plain : ∀ t ∈ waiting, isOpening t = false ∧ t.kind ≠ .closing := by
        intro t member
        have notOpening := List.filter_eq_nil_iff.mp opened t member
        exact ⟨by simpa using notOpening, noClosing t member⟩
      rw [List.append_nil, (filter_of_plain plain).2]
      exact ⟨waiting, rfl, List.Perm.refl _⟩
  | cons t rest ih =>
    have kept (p : Token → Bool) : ∀ u ∈ waiting.dropWhile p, u.kind ≠ .closing :=
      fun u member => noClosing u ((List.dropWhile_sublist p).subset member)
    -- An arriving operator takes some tokens from the stack, but no opening.
    have operator : t.delimits = false →
        Settles (unclosed (waiting.filter isOpening) rest) ((waiting ++ t :: rest).filter (!·.delimits))
          ((waiting.takeWhile (makesWay t) ++ ·) <$> arrange rest (t :: waiting.dropWhile (makesWay t))) := by
      intro inner
      obtain ⟨notOpening, notClosing⟩ : t.kind ≠ .opening ∧ t.kind ≠ .closing := by
        simpa [Token.delimits] using inner
      have passes : isOpening t = false := by simpa [isOpening] using notOpening
      obtain ⟨sameOpenings, sameTokens⟩ := filter_takeWhile noClosing fun u makes => not_opening_of_makesWay makes
      have later := ih (t :: waiting.dropWhile (makesWay t)) (List.forall_mem_cons.mpr ⟨notClosing, kept _⟩)
      rw [List.filter_cons_of_neg (by simp [passes]), ← sameOpenings] at later
      refine (later.prepend (waiting.takeWhile (makesWay t))).perm ?_
      simp only [List.filter_append, sameTokens, List.cons_append, List.filter_cons, inner, Bool.not_false, if_true,
        List.append_assoc]
      exact List.perm_middle.symm.append_left _
    cases kind : t.kind with
    | literal =>
      simp only [unclosed, arrange, kind]
      have inner : t.delimits = false := by simp [Token.delimits, kind]
      refine ((ih waiting noClosing).prepend [t]).perm ?_
      rw [List.filter_append, List.filter_append, List.filter_cons_of_pos (by simp [inner]), List.singleton_append]
      exact List.perm_middle.symm
    | opening =>
      simp only [unclosed, arrange, kind]
      have later := ih (t :: waiting) (List.forall_mem_cons.mpr ⟨by simp [kind], noClosing⟩)
      rw [List.filter_cons_of_pos (by simp [isOpening, kind])] at later
      have outer : t.delimits = true := by simp [Token.delimits, kind]
      refine later.perm ?_
      simp [outer]
    | closing =>
      simp only [unclosed, arrange, kind]
      obtain ⟨sameOpenings, sameTokens⟩ := filter_takeWhile noClosing (p := (!isOpening ·)) fun u => by simp
      rw [sameOpenings]
      cases dropped : waiting.dropWhile (!isOpening ·) with
      | nil => rfl
      | cons o outer =>
        have opens : isOpening o = true := by
          have head := List.head?_dropWhile_not (!isOpening ·) waiting
          simpa [dropped] using head
        have inner := kept (!isOpening ·)
        rw [dropped] at sameTokens inner
        rw [List.filter_cons_of_pos opens]
        refine ((ih outer (List.forall_mem_cons.mp inner).2).prepend _).perm ?_
        have closes : t.delimits = true := by simp [Token.delimits, kind]
        have opening : o.delimits = true := by simp_all [Token.delimits, isOpening]
        simp [sameTokens, closes, opening]
    | union =>
      simp only [unclosed, arrange, kind]
      exact operator (by simp [Token.delimits, kind])
    | concat =>
      simp only [unclosed, arrange, kind]
      exact operator (by simp [Token.delimits, kind])
    | closure =>
      simp only [unclosed, arrange, kind]
      exact operator (by simp [Token.delimits, kind])

/-- A postorder holds every token but the delimiters, unchanged and as often as before. -/
theorem perm_of_ofExplicit {tokens order : List Token} (done : ofExplicit tokens = .ok order) :
    order.Perm (tokens.filter (!·.delimits)) := by
  have settles := arrange_settles tokens [] (by simp)
  change arrange tokens [] = .ok order at done
  rw [done] at settles
  match groups : unclosed ([].filter isOpening) tokens, settles with
  | .error t, fault => cases fault
  | .ok (t :: _), fault => cases fault
  | .ok [], ⟨_, same, perm⟩ =>
    cases same
    exact perm

theorem not_delimits_of_ofExplicit {tokens order : List Token} (done : ofExplicit tokens = .ok order) :
    ∀ t ∈ order, t.delimits = false := by
  intro t member
  simpa using (List.mem_filter.mp ((perm_of_ofExplicit done).subset member)).2

end Postorder

end RegexAutomaton
