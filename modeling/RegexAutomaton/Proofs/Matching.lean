import RegexAutomaton.Dialect
import RegexAutomaton.Proofs.Grouping

/-!
What the rearrangement into postorder answers, for every list of tokens. A group is closed by
the first closing delimiter before which all inner groups are closed (`GroupEnds`). The fault is
the first closing with which more groups are closed than were opened; without one it is the last
opening whose group is never closed; and without any of these the tokens that are no delimiters
are kept, the literals in their order (`ofExplicit_answers`). All of this is read off the
openings that `unclosed` leaves, which stand in the order in which their groups were opened.
-/
namespace RegexAutomaton

namespace Token

/-- As many groups are closed as opened, and nowhere more. -/
def Balanced (tokens : List Token) : Prop := ¬ Overclosed tokens ∧ openings tokens = closings tokens

/-- A group that is opened right before the tokens is closed by one of them. -/
def GroupEnds (tokens : List Token) : Prop :=
  ∃ inner t rest, tokens = inner ++ t :: rest ∧ t.kind = .closing ∧ Balanced inner

/-- The first closing with which more groups have been closed than opened. -/
def FirstExcess (tokens : List Token) (t : Token) : Prop :=
  ∃ front back, tokens = front ++ t :: back ∧ t.kind = .closing ∧ openings (front ++ [t]) < closings (front ++ [t]) ∧
    ¬ Overclosed front

/-- The last opening whose group is never closed. -/
def LastUnmatched (tokens : List Token) (t : Token) : Prop :=
  ∃ front back, tokens = front ++ t :: back ∧ t.kind = .opening ∧ ¬ GroupEnds back ∧
    ∀ between later rest, back = between ++ later :: rest → later.kind = .opening → GroupEnds rest

theorem openings_append (front back : List Token) : openings (front ++ back) = openings front + openings back :=
  List.countP_append

theorem closings_append (front back : List Token) : closings (front ++ back) = closings front + closings back :=
  List.countP_append

theorem closings_le_of_not_overclosed {front back : List Token} (within : ¬ Overclosed (front ++ back)) :
    closings front ≤ openings front :=
  Nat.le_of_not_lt fun excess => within ⟨front, List.prefix_append front back, excess⟩

/-! ## Openings that are left -/

theorem unclosed_append (outer front back : List Token) :
    unclosed outer (front ++ back) = (unclosed outer front).bind (unclosed · back) := by
  induction front generalizing outer with
  | nil => rfl
  | cons t rest ih =>
    rw [List.cons_append]
    rcases unclosed_cons outer t with ⟨-, -, stuck⟩ | ⟨next, same, -⟩
    · rw [stuck, stuck, Except.bind]
    · rw [same, same, ih]

/-- The latest opening that is left was there before, with all later ones closed by the tokens;
    or it is one of the tokens, and all groups after it are closed. -/
theorem exists_split_of_ok {outer tokens left : List Token} {o : Token} (groups : unclosed outer tokens = .ok (o :: left)) :
    (∃ inner, outer = inner ++ o :: left ∧ unclosed inner tokens = .ok []) ∨
      ∃ front back, tokens = front ++ o :: back ∧ o.kind = .opening ∧ unclosed [] back = .ok [] := by
  induction tokens generalizing outer with
  | nil =>
    cases groups
    exact .inl ⟨[], rfl, rfl⟩
  | cons t rest ih =>
    have inside : (∃ front back, rest = front ++ o :: back ∧ o.kind = .opening ∧ unclosed [] back = .ok []) →
        ∃ front back, t :: rest = front ++ o :: back ∧ o.kind = .opening ∧ unclosed [] back = .ok [] := by
      rintro ⟨front, back, rfl, opening, closed⟩
      exact ⟨t :: front, back, rfl, opening, closed⟩
    cases kind : t.kind with
    | opening =>
      simp only [unclosed, kind] at groups
      rcases ih groups with ⟨inner, split, closed⟩ | later
      · cases inner with
        | nil =>
          obtain ⟨rfl, rfl⟩ := List.cons.inj split
          exact .inr ⟨[], rest, rfl, kind, closed⟩
        | cons u inner =>
          obtain ⟨rfl, rfl⟩ := List.cons.inj split
          exact .inl ⟨inner, rfl, by simp only [unclosed, kind, closed]⟩
      · exact .inr (inside later)
    | closing =>
      cases outer with
      | nil => simp [unclosed, kind] at groups
      | cons u outer =>
        simp only [unclosed, kind] at groups
        rcases ih groups with ⟨inner, rfl, closed⟩ | later
        · exact .inl ⟨u :: inner, rfl, by simp only [unclosed, kind, closed]⟩
        · exact .inr (inside later)
    | _ =>
      have inner : t.delimits = false := by simp [delimits, kind]
      rw [unclosed_of_inner inner] at groups
      rcases ih groups with ⟨inner, rfl, closed⟩ | later
      · exact .inl ⟨inner, rfl, by rw [unclosed_of_inner ‹_›, closed]⟩
      · exact .inr (inside later)

/-! ## What is left and what is unmatched -/

theorem exists_of_not_overclosed {tokens : List Token} (within : ¬ Overclosed tokens) :
    ∃ left, unclosed [] tokens = .ok left := by
  cases groups : unclosed [] tokens with
  | error t => exact absurd (overclosed_of_error groups) within
  | ok left => exact ⟨left, rfl⟩

theorem balanced_iff {tokens : List Token} : Balanced tokens ↔ unclosed [] tokens = .ok [] := by
  constructor
  · rintro ⟨within, same⟩
    obtain ⟨left, groups⟩ := exists_of_not_overclosed within
    have counted := openings_of_ok groups
    have none : left = [] := List.eq_nil_of_length_eq_zero (by omega)
    rw [groups, none]
  · intro groups
    have counted := openings_of_ok groups
    exact ⟨not_overclosed_of_ok groups, by simpa using counted⟩

theorem groupEnds_iff {tokens : List Token} : GroupEnds tokens ↔ Overclosed tokens := by
  constructor
  · rintro ⟨inner, t, rest, rfl, closing, -, same⟩
    refine ⟨inner ++ [t], ⟨rest, by simp⟩, ?_⟩
    rw [openings_concat_closing closing, closings_concat_closing closing]
    omega
  · intro excess
    cases groups : unclosed [] tokens with
    | ok left => exact absurd excess (not_overclosed_of_ok groups)
    | error t =>
      obtain ⟨front, back, split, closing, closed⟩ := exists_split_of_error groups
      exact ⟨front, t, back, split, closing, balanced_iff.mpr closed⟩

theorem firstExcess_iff {tokens : List Token} {t : Token} : FirstExcess tokens t ↔ unclosed [] tokens = .error t := by
  constructor
  · rintro ⟨front, back, rfl, closing, excess, within⟩
    obtain ⟨left, groups⟩ := exists_of_not_overclosed within
    have counted := openings_of_ok groups
    rw [openings_concat_closing closing, closings_concat_closing closing] at excess
    have empty : left = [] := List.eq_nil_of_length_eq_zero (by omega)
    rw [unclosed_append, groups, empty, Except.bind]
    simp only [unclosed, closing]
  · intro fault
    obtain ⟨front, back, rfl, closing, closed⟩ := exists_split_of_error fault
    obtain ⟨within, same⟩ := balanced_iff.mpr closed
    refine ⟨front, back, rfl, closing, ?_, within⟩
    rw [openings_concat_closing closing, closings_concat_closing closing]
    omega

/-- If all groups that are opened in the tokens are closed, so is each that is opened by one of them. -/
theorem groupEnds_of_balanced {front back : List Token} {t : Token} (balanced : Balanced (front ++ t :: back))
    (opening : t.kind = .opening) : GroupEnds back := by
  obtain ⟨within, same⟩ := balanced
  have before := closings_le_of_not_overclosed within
  rw [openings_append, closings_append, openings_cons, closings_cons] at same
  simp only [opening] at same
  exact groupEnds_iff.mpr ⟨back, List.prefix_refl back, by simp at same; omega⟩

theorem lastUnmatched_of_ok {tokens left : List Token} {o : Token} (groups : unclosed [] tokens = .ok (o :: left)) :
    LastUnmatched tokens o := by
  rcases exists_split_of_ok groups with ⟨inner, split, -⟩ | ⟨front, back, split, opening, closed⟩
  · simp at split
  · have balanced := balanced_iff.mpr closed
    refine ⟨front, back, split, opening, fun ends => balanced.1 (groupEnds_iff.mp ends), ?_⟩
    rintro between later rest rfl opening
    exact groupEnds_of_balanced balanced opening

theorem LastUnmatched.unique {tokens : List Token} {t t' : Token} (last : LastUnmatched tokens t)
    (last' : LastUnmatched tokens t') : t = t' := by
  obtain ⟨front, back, rfl, opening, unmatched, later⟩ := last
  obtain ⟨front', back', split, opening', unmatched', later'⟩ := last'
  rcases eq_or_between split with ⟨-, same⟩ | ⟨between, -, rfl⟩ | ⟨between, -, rfl⟩
  · exact same
  · exact absurd (later between t' back' rfl opening') unmatched'
  · exact absurd (later' between t back rfl opening) unmatched

/-- Each opening among the tokens opens a group that is closed. -/
def AllMatched (tokens : List Token) : Prop :=
  ∀ front t back, tokens = front ++ t :: back → t.kind = .opening → GroupEnds back

theorem LastUnmatched.not_allMatched {tokens : List Token} {t : Token} (last : LastUnmatched tokens t) :
    ¬ AllMatched tokens := by
  obtain ⟨front, back, split, opening, unmatched, -⟩ := last
  exact fun matched => unmatched (matched front t back split opening)

end Token

namespace Postorder
open Token (unclosed Overclosed FirstExcess LastUnmatched AllMatched)

/-! ## What is kept -/

/-- Literals are written as they come, since none of them ever waits. -/
theorem literals_of_arrange {tokens waiting order : List Token} (noLiteral : ∀ t ∈ waiting, t.kind ≠ .literal)
    (done : arrange tokens waiting = .ok order) :
    order.filter (·.kind = .literal) = tokens.filter (·.kind = .literal) := by
  induction tokens generalizing waiting order with
  | nil =>
    simp only [arrange] at done
    split at done
    · cases done
    · cases done
      simpa [List.filter_eq_nil_iff] using noLiteral
  | cons t rest ih =>
    have taken (p : Token → Bool) : (waiting.takeWhile p).filter (·.kind = .literal) = [] := by
      refine List.filter_eq_nil_iff.mpr fun u member => ?_
      simpa using noLiteral u ((List.takeWhile_sublist p).subset member)
    have kept (p : Token → Bool) : ∀ u ∈ waiting.dropWhile p, u.kind ≠ .literal :=
      fun u member => noLiteral u ((List.dropWhile_sublist p).subset member)
    have operator : t.kind ≠ .literal →
        (waiting.takeWhile (makesWay t) ++ ·) <$> arrange rest (t :: waiting.dropWhile (makesWay t)) = .ok order →
        order.filter (·.kind = .literal) = (t :: rest).filter (·.kind = .literal) := by
      intro other done
      obtain ⟨later, onward, rfl⟩ := map_eq_ok done
      rw [List.filter_append, taken, List.nil_append, ih (List.forall_mem_cons.mpr ⟨other, kept _⟩) onward,
        List.filter_cons_of_neg (by simpa using other)]
    cases kind : t.kind with
    | literal =>
      simp only [arrange, kind] at done
      have done : ([t] ++ ·) <$> arrange rest waiting = .ok order := done
      obtain ⟨later, onward, rfl⟩ := map_eq_ok done
      simp [kind, ih noLiteral onward]
    | opening =>
      simp only [arrange, kind] at done
      rw [ih (List.forall_mem_cons.mpr ⟨by simp [kind], noLiteral⟩) done, List.filter_cons_of_neg (by simp [kind])]
    | closing =>
      simp only [arrange, kind] at done
      split at done
      · cases done
      · rename_i o outer dropped
        obtain ⟨later, onward, rfl⟩ := map_eq_ok done
        have inner := kept (!isOpening ·)
        rw [dropped] at inner
        rw [List.filter_append, taken, List.nil_append, ih (List.forall_mem_cons.mp inner).2 onward,
          List.filter_cons_of_neg (by simp [kind])]
    | union =>
      simp only [arrange, kind] at done
      exact operator (by simp [kind]) done
    | concat =>
      simp only [arrange, kind] at done
      exact operator (by simp [kind]) done
    | closure =>
      simp only [arrange, kind] at done
      exact operator (by simp [kind]) done

/-- The first closing with which more groups have been closed than opened is the fault; if there
    is none, it is the last opening whose group is never closed. If there is none of these either,
    there is no fault, and the answer is some order of the tokens that are no delimiters, with the
    literals in their order. -/
theorem ofExplicit_answers (tokens : List Token) :
    (∀ index, ofExplicit tokens = .error (.unmatchedClosing index) ↔ ∃ t, FirstExcess tokens t ∧ t.index = index) ∧
    (∀ index, ofExplicit tokens = .error (.unmatchedOpening index) ↔
      ¬ Overclosed tokens ∧ ∃ t, LastUnmatched tokens t ∧ t.index = index) ∧
    (∀ fault, ofExplicit tokens = .error fault →
      ∃ index, fault = .unmatchedClosing index ∨ fault = .unmatchedOpening index) ∧
    ((∃ order, ofExplicit tokens = .ok order) ↔ ¬ Overclosed tokens ∧ AllMatched tokens) ∧
    ∀ order, ofExplicit tokens = .ok order →
      order.Perm (tokens.filter (!·.delimits)) ∧
        order.filter (·.kind = .literal) = tokens.filter (·.kind = .literal) := by
  have settles : Settles (unclosed [] tokens) (tokens.filter (!·.delimits)) (ofExplicit tokens) :=
    arrange_settles tokens [] (by simp)
  have kept : ∀ order, ofExplicit tokens = .ok order →
      order.Perm (tokens.filter (!·.delimits)) ∧
        order.filter (·.kind = .literal) = tokens.filter (·.kind = .literal) :=
    fun order done => ⟨perm_of_ofExplicit done, literals_of_arrange (by simp) done⟩
  have excess : ∀ t, FirstExcess tokens t ↔ unclosed [] tokens = .error t := fun t => Token.firstExcess_iff
  match groups : unclosed [] tokens, settles with
  | .error t, answer =>
    have answer : ofExplicit tokens = .error (.unmatchedClosing t.index) := answer
    have overclosed : Overclosed tokens := Token.overclosed_of_error groups
    refine ⟨?_, ?_, ?_, ?_, kept⟩ <;> simp [answer, excess, groups, overclosed]
  | .ok (t :: left), answer =>
    have answer : ofExplicit tokens = .error (.unmatchedOpening t.index) := answer
    have last := Token.lastUnmatched_of_ok groups
    have only : ∀ t', LastUnmatched tokens t' ↔ t = t' := fun t' => ⟨last.unique, by rintro rfl; exact last⟩
    have within : ¬ Overclosed tokens := Token.not_overclosed_of_ok groups
    refine ⟨?_, ?_, ?_, ?_, kept⟩ <;> simp [answer, excess, groups, within, only, last.not_allMatched]
  | .ok [], ⟨order, answer, _⟩ =>
    have balanced := Token.balanced_iff.mpr groups
    have matched : AllMatched tokens := by
      rintro front t back rfl opening
      exact Token.groupEnds_of_balanced balanced opening
    have none : ∀ t, ¬ LastUnmatched tokens t := fun t last => last.not_allMatched matched
    refine ⟨?_, ?_, ?_, ?_, kept⟩ <;> simp [answer, excess, groups, balanced.1, none, matched]

-- Operators may stand anywhere: the first list lacks operands on all sides of its group.
theorem ofExplicit_answers_misplaced :
    (∃ order, ofExplicit (({} : Dialect).readExplicit "|(*b||)a?") = .ok order ∧
      order.Perm ((({} : Dialect).readExplicit "|(*b||)a?").filter (!·.delimits)) ∧
      order.filter (·.kind = .literal) = [⟨.literal, 'b', 3⟩, ⟨.literal, 'a', 7⟩]) ∧
    (∃ t, LastUnmatched (({} : Dialect).readExplicit "((|a)*(b(c)") t ∧ t.index = 6) ∧
    ∃ t, FirstExcess (({} : Dialect).readExplicit "(a))(*)") t ∧ t.index = 3 := by
  obtain ⟨-, -, -, -, kept⟩ := ofExplicit_answers (({} : Dialect).readExplicit "|(*b||)a?")
  obtain ⟨-, opened, -⟩ := ofExplicit_answers (({} : Dialect).readExplicit "((|a)*(b(c)")
  obtain ⟨closed, -⟩ := ofExplicit_answers (({} : Dialect).readExplicit "(a))(*)")
  exact ⟨⟨_, rfl, kept _ rfl⟩, ((opened 6).mp rfl).2, (closed 3).mp rfl⟩

end Postorder

end RegexAutomaton
