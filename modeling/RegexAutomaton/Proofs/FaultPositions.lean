import RegexAutomaton.Proofs.Acceptance
import RegexAutomaton.Proofs.Matching
import RegexAutomaton.Proofs.StackHeight
import RegexAutomaton.Proofs.TextStages

/-!
Where faults point. Tokens keep the position that they were read at through all stages, and a
concatenation that is written has that of the operand behind it (`exists_pair_of_mem_makeExplicit`).
So whichever stage fails, the character at the position of its fault is the one to blame
(`Offends`): the marker at its first place, a delimiter of the right kind, an operator
that lacks operands, or the beginning of an operand that another one ends right before.
-/
namespace RegexAutomaton.Dialect
variable {d : Dialect} {expression : String}

/-- The character, which stands in the text at the index, is what the fault is about. -/
def Offends (d : Dialect) (text : List Char) (index : Nat) (c : Char) : Fault → Prop
  | .reservedMarker marker _ => c = d.marker ∧ marker = d.marker ∧ d.marker ∉ text.take index
  | .unmatchedOpening _ => d.kindOf c = .opening
  | .unmatchedClosing _ => d.kindOf c = .closing
  | .missingOperand operator _ expected found =>
    found < expected ∧
      (c = operator ∧ d.kindOf c ∈ [.union, .closure] ∧ expected = (d.kindOf c).arity ∨
        operator = d.marker ∧ expected = 2 ∧ d.kindOf c ∈ [.literal, .opening] ∧ 1 ≤ index ∧
          ∃ before, text[index - 1]? = some before ∧ d.kindOf before ∈ [.literal, .closing, .closure])
  | .closedFragment _ _ => False
  | .leftoverFragments _ => False
  | .emptyExpression => False

/-! ## Positions of tokens -/

/-- A token that was read at some place of a text. -/
theorem getElem?_of_read {meaning : Char → Token.Kind} {text : String} {place : Nat} {t : Token}
    (there : (read meaning text)[place]? = some t) :
    t.index = place ∧ text.toList[place]? = some t.char ∧ meaning t.char = t.kind := by
  obtain ⟨inside, rfl⟩ := List.getElem?_eq_some_iff.mp there
  have within : place < text.toList.length := by rwa [length_read] at inside
  simp [read, within]

/-- A token of a text stands there at its position. -/
theorem getElem?_of_mem_read {meaning : Char → Token.Kind} {text : String} {t : Token} (inside : t ∈ read meaning text) :
    text.toList[t.index]? = some t.char ∧ meaning t.char = t.kind :=
  (getElem?_of_read (index_lt_of_mem_read inside).2).2

/-! ## The faults of the stages -/

theorem offends_of_readImplicit {fault : Fault} (failed : d.readImplicit expression = .error fault) :
    ∃ index c, fault = .reservedMarker d.marker index ∧ expression.toList[index]? = some c ∧
      d.Offends expression.toList index c fault := by
  rw [readImplicit] at failed
  split at failed
  · rename_i index found
    cases failed
    obtain ⟨inside, here, before⟩ := List.findIdx?_eq_some_iff_getElem.mp found
    have here : expression.toList[index] = d.marker := by simpa using here
    refine ⟨index, d.marker, rfl, here ▸ List.getElem?_eq_getElem inside, rfl, rfl, ?_⟩
    intro earlier
    obtain ⟨place, within, same⟩ := List.mem_iff_getElem.mp earlier
    rw [List.length_take, Nat.lt_min] at within
    rw [List.getElem_take] at same
    exact before place within.1 (by simp [same])
  · cases failed

theorem offends_of_ofExplicit {fault : Fault}
    (failed : Postorder.ofExplicit (d.makeExplicit (read d.kindOf expression)) = .error fault) :
    ∃ index c, fault.index? = some index ∧ expression.toList[index]? = some c ∧
      d.Offends expression.toList index c fault := by
  have settles := d.ofExplicit_settles (read d.kindOf expression)
  rw [failed] at settles
  match groups : Token.unclosed [] (read d.kindOf expression), settles with
  | .error t, same =>
    cases same
    obtain ⟨front, back, split, closing, -⟩ := Token.exists_split_of_error groups
    have inside : t ∈ read d.kindOf expression := split ▸ List.mem_append_right front (.head back)
    obtain ⟨there, kind⟩ := getElem?_of_mem_read inside
    exact ⟨t.index, t.char, rfl, there, kind.trans closing⟩
  | .ok (t :: left), same =>
    cases same
    obtain ⟨front, back, split, opening, -⟩ := Token.lastUnmatched_of_ok groups
    have inside : t ∈ read d.kindOf expression := split ▸ List.mem_append_right front (.head back)
    obtain ⟨there, kind⟩ := getElem?_of_mem_read inside
    exact ⟨t.index, t.char, rfl, there, kind.trans opening⟩
  | .ok [], ⟨order, done, _⟩ => cases done

/-- An operator of an explicit expression that lacks operands was typed, or it is a concatenation
    that was written between two operands. -/
theorem offends_of_short {t : Token} (inside : t ∈ d.makeExplicit (read d.kindOf expression)) {found : Nat}
    (short : found < t.kind.arity) :
    ∃ c, expression.toList[t.index]? = some c ∧
      d.Offends expression.toList t.index c (.missingOperand t.char t.index t.kind.arity found) := by
  rcases exists_pair_of_mem_makeExplicit inside with own | ⟨front, u, v, back, split, adjoins, rfl⟩
  · obtain ⟨there, kind⟩ := getElem?_of_mem_read own
    have notConcat : t.kind ≠ .concat := kind ▸ d.kindOf_ne_concat t.char
    refine ⟨t.char, there, short, .inl ⟨rfl, ?_, by rw [kind]⟩⟩
    rw [kind]
    cases other : t.kind <;> simp [other, Token.Kind.arity] at short notConcat ⊢
  · have before : (read d.kindOf expression)[front.length]? = some u := by simp [split]
    have behind : (read d.kindOf expression)[front.length + 1]? = some v := by simp [split]
    obtain ⟨-, thereBefore, kindBefore⟩ := getElem?_of_read before
    obtain ⟨index, there, kind⟩ := getElem?_of_read behind
    obtain ⟨ends, begins⟩ := Bool.and_eq_true_iff.mp adjoins
    rw [← index] at there
    refine ⟨v.char, there, short, .inr ⟨rfl, rfl, ?_, ?_, u.char, ?_, ?_⟩⟩
    · rw [kind]
      cases other : v.kind <;> simp [other, Token.Kind.canBeginOperand] at begins ⊢
    · show 1 ≤ v.index
      omega
    · show expression.toList[v.index - 1]? = some u.char
      rw [index]
      exact thereBefore
    · rw [kindBefore]
      cases other : u.kind <;> simp [other, Token.Kind.canEndOperand] at ends ⊢

theorem offends_of_assemble {order : List Token} {fault : Fault} {index : Nat}
    (done : Postorder.ofExplicit (d.makeExplicit (read d.kindOf expression)) = .ok order)
    (failed : assemble order = .error fault) (named : fault.index? = some index) :
    ∃ c, expression.toList[index]? = some c ∧ d.Offends expression.toList index c fault := by
  obtain ⟨front, t, found, first, -, short, rfl⟩ :=
    exists_firstStop_of_error (Postorder.not_delimits_of_ofExplicit done) failed named
  cases named
  have kept := (Postorder.perm_of_ofExplicit done).subset first.mem
  exact offends_of_short (List.mem_filter.mp kept).1 short

/-- A fault of compiling is that of the first stage that fails. -/
theorem stage_of_compile_error {fault : Fault} (failed : d.compile expression = .error fault) :
    d.readImplicit expression = .error fault ∨
      Postorder.ofExplicit (d.makeExplicit (read d.kindOf expression)) = .error fault ∨
      ∃ order, d.marker ∉ expression.toList ∧
        Postorder.ofExplicit (d.makeExplicit (read d.kindOf expression)) = .ok order ∧
        assemble order = .error fault := by
  cases answer : d.readImplicit expression with
  | error other =>
    rw [compile, answer] at failed
    have same : other = fault := Except.error.inj failed
    exact .inl (same ▸ rfl)
  | ok tokens =>
    obtain ⟨absent, rfl⟩ := readImplicit_eq_ok_iff.mp answer
    cases arranged : Postorder.ofExplicit (d.makeExplicit (read d.kindOf expression)) with
    | error other =>
      have same : other = fault := Except.error.inj ((compile_of_fault absent arranged).symm.trans failed)
      exact .inr (.inl (same ▸ rfl))
    | ok order =>
      exact .inr (.inr ⟨order, absent, rfl, (compile_eq_error_iff absent arranged).mp failed⟩)

/-- A fault that names a position names one of the expression, and the character there is to blame
    for it. -/
theorem offends_of_compile {fault : Fault} {index : Nat} (failed : d.compile expression = .error fault)
    (named : fault.index? = some index) :
    index < expression.toList.length ∧
      ∃ c, expression.toList[index]? = some c ∧ d.Offends expression.toList index c fault := by
  have offender : ∃ c, expression.toList[index]? = some c ∧ d.Offends expression.toList index c fault := by
    rcases stage_of_compile_error failed with unread | misgrouped | ⟨order, -, arranged, refused⟩
    · obtain ⟨place, c, rfl, there, offends⟩ := offends_of_readImplicit unread
      cases named
      exact ⟨c, there, offends⟩
    · obtain ⟨place, c, here, there, offends⟩ := offends_of_ofExplicit misgrouped
      cases here.symm.trans named
      exact ⟨c, there, offends⟩
    · exact offends_of_assemble arranged refused named
  obtain ⟨c, there, offends⟩ := offender
  exact ⟨(List.getElem?_eq_some_iff.mp there).1, c, there, offends⟩

/-- The concatenation that lacks an operand was written where the empty group opens; positions count
    characters, of which the first one takes two bytes. -/
theorem offends_of_compile_emptyGroup :
    ({} : Dialect).compile "äb()" = .error (.missingOperand '?' 2 2 1) ∧ 2 < "äb()".toList.length ∧
      ∃ c, "äb()".toList[2]? = some c ∧ ({} : Dialect).Offends "äb()".toList 2 c (.missingOperand '?' 2 2 1) := by
  have failed : ({} : Dialect).compile "äb()" = .error (.missingOperand '?' 2 2 1) := rfl
  exact ⟨failed, offends_of_compile failed rfl⟩

end RegexAutomaton.Dialect
