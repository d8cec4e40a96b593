import RegexAutomaton.Assembly
import RegexAutomaton.Explicit
import RegexAutomaton.Postorder

/-!
Stages do not look at positions. When the positions of the tokens are changed, each stage does
what it did before, and its answer has the changed positions: so the same text may be read
with the positions that it has itself or with those of the expression that it comes from.
A fault that names a position points to a token that it is about (`points_ofExplicit`,
`points_assemble`).
-/
namespace RegexAutomaton

/-- The token at another position. -/
def Token.relocate (place : Nat → Nat) (t : Token) : Token := { t with index := place t.index }

/-- The fault with its position changed, if it names one. -/
def Fault.relocate (place : Nat → Nat) : Fault → Fault
  | .unmatchedClosing index => .unmatchedClosing (place index)
  | .unmatchedOpening index => .unmatchedOpening (place index)
  | .reservedMarker marker index => .reservedMarker marker (place index)
  | .missingOperand operator index expected found => .missingOperand operator (place index) expected found
  | .closedFragment operator index => .closedFragment operator (place index)
  | .leftoverFragments count => .leftoverFragments count
  | .emptyExpression => .emptyExpression

@[simp] theorem Fault.index?_relocate (place : Nat → Nat) (fault : Fault) :
    (fault.relocate place).index? = fault.index?.map place := by
  cases fault <;> rfl

/-- An answer with the positions in it changed. -/
def relocated {α β : Type} (place : Nat → Nat) (move : α → β) : Except Fault α → Except Fault β
  | .ok a => .ok (move a)
  | .error fault => .error (fault.relocate place)

theorem relocated_map {α β γ δ : Type} {place : Nat → Nat} {move : β → δ} {move' : α → γ} {f : α → β} {g : γ → δ}
    (commutes : ∀ a, move (f a) = g (move' a)) (answer : Except Fault α) :
    relocated place move (f <$> answer) = g <$> relocated place move' answer := by
  cases answer with
  | ok a => exact congrArg Except.ok (commutes a)
  | error fault => rfl

theorem relocated_bind {α β : Type} {place : Nat → Nat} {answer : Except Fault α} {next : α → Except Fault β} :
    relocated place id (answer.bind next) = (relocated place id answer).bind fun a => relocated place id (next a) := by
  cases answer <;> rfl

namespace Token
variable {place : Nat → Nat} {test : Token → Bool}

theorem takeWhile_relocate (blind : ∀ t, test (t.relocate place) = test t) (tokens : List Token) :
    (tokens.map (relocate place)).takeWhile test = (tokens.takeWhile test).map (relocate place) := by
  rw [List.takeWhile_map, show test ∘ relocate place = test from funext blind]

theorem dropWhile_relocate (blind : ∀ t, test (t.relocate place) = test t) (tokens : List Token) :
    (tokens.map (relocate place)).dropWhile test = (tokens.dropWhile test).map (relocate place) := by
  rw [List.dropWhile_map, show test ∘ relocate place = test from funext blind]

theorem find?_relocate (blind : ∀ t, test (t.relocate place) = test t) (tokens : List Token) :
    (tokens.map (relocate place)).find? test = (tokens.find? test).map (relocate place) := by
  rw [List.find?_map, show test ∘ relocate place = test from funext blind]

end Token

open Token (relocate)

namespace Dialect

/-- A text behind another one is read as it is on its own, but further on. -/
theorem read_append (meaning : Char → Token.Kind) (front back : String) :
    read meaning (front ++ back) =
      read meaning front ++ (read meaning back).map (relocate (· + front.toList.length)) := by
  have moved : (read meaning back).map (relocate (· + front.toList.length)) =
      back.toList.mapIdx fun index c => ⟨meaning c, c, index + front.toList.length⟩ :=
    List.ext_getElem (by simp [read]) (by simp [read, relocate])
  rw [moved, read, read, String.toList_append, List.mapIdx_append]

theorem makeExplicit_relocate (d : Dialect) (place : Nat → Nat) (tokens : List Token) :
    d.makeExplicit (tokens.map (relocate place)) = (d.makeExplicit tokens).map (relocate place) := by
  fun_induction makeExplicit d tokens with
  | case1 => rfl
  | case2 => rfl
  | case3 t u rest adjoin ih =>
    have adjoins : (t.relocate place).adjoins (u.relocate place) = true := adjoin
    have later : d.makeExplicit (u.relocate place :: rest.map (relocate place)) = _ := ih
    simp only [List.map_cons, makeExplicit, adjoins, if_true, later]
    rfl
  | case4 t u rest apart ih =>
    have apart : ¬ (t.relocate place).adjoins (u.relocate place) = true := apart
    have later : d.makeExplicit (u.relocate place :: rest.map (relocate place)) = _ := ih
    simp only [List.map_cons, makeExplicit, apart, later]
    rfl

end Dialect

namespace Postorder

theorem arrange_relocate (place : Nat → Nat) (tokens waiting : List Token) :
    arrange (tokens.map (relocate place)) (waiting.map (relocate place)) =
      relocated place (List.map (relocate place)) (arrange tokens waiting) := by
  induction tokens generalizing waiting with
  | nil =>
    rw [List.map_nil, arrange, arrange, Token.find?_relocate fun _ => rfl]
    cases waiting.find? isOpening <;> rfl
  | cons t rest ih =>
    rw [List.map_cons, arrange, arrange]
    cases kind : t.kind with
    | literal =>
      simp only [show (relocate place t).kind = .literal from kind]
      rw [ih]
      exact (relocated_map (fun order => List.map_cons) _).symm
    | opening =>
      simp only [show (relocate place t).kind = .opening from kind]
      exact ih (t :: waiting)
    | closing =>
      simp only [show (relocate place t).kind = .closing from kind]
      rw [Token.dropWhile_relocate fun _ => rfl, Token.takeWhile_relocate fun _ => rfl]
      cases waiting.dropWhile (!isOpening ·) with
      | nil => rfl
      | cons _ outer =>
        simp only [List.map_cons]
        rw [ih]
        exact (relocated_map (fun order => List.map_append) _).symm
    | union | concat | closure =>
      simp only [show (relocate place t).kind = _ from kind]
      rw [show makesWay (relocate place t) = makesWay t from rfl, Token.dropWhile_relocate fun _ => rfl,
        Token.takeWhile_relocate fun _ => rfl, ← List.map_cons, ih]
      exact (relocated_map (fun order => List.map_append) _).symm

theorem ofExplicit_relocate (place : Nat → Nat) (tokens : List Token) :
    ofExplicit (tokens.map (relocate place)) = relocated place (List.map (relocate place)) (ofExplicit tokens) :=
  arrange_relocate place tokens []

end Postorder

namespace Assembly

theorem place_relocate (place : Nat → Nat) (t : Token) (rest : List Fragment) (made : Option (Fragment × Arena Char)) :
    Assembly.place (t.relocate place) rest made = relocated place id (Assembly.place t rest made) := by
  cases made <;> rfl

theorem take_relocate (place : Nat → Nat) (a : Assembly) (t : Token) :
    a.take (t.relocate place) = relocated place id (a.take t) := by
  obtain ⟨arena, stack⟩ := a
  obtain ⟨kind, char, index⟩ := t
  cases kind with
  | literal | opening | closing => rfl
  | union | concat =>
    rcases stack with _ | ⟨g, _ | ⟨f, rest⟩⟩
    · rfl
    · rfl
    · exact place_relocate place _ _ _
  | closure =>
    rcases stack with _ | ⟨f, rest⟩
    · rfl
    · exact place_relocate place _ _ _

theorem takeAll_relocate (place : Nat → Nat) (a : Assembly) (tokens : List Token) :
    a.takeAll (tokens.map (relocate place)) = relocated place id (a.takeAll tokens) := by
  induction tokens generalizing a with
  | nil => rfl
  | cons t rest ih =>
    have split : ∀ u us, a.takeAll (u :: us) = (a.take u).bind (·.takeAll us) := fun u us => by
      simp [takeAll, bind]
    rw [List.map_cons, split, split, take_relocate, relocated_bind]
    exact congrArg _ (funext fun b => ih b)

end Assembly

theorem assemble_relocate (place : Nat → Nat) (tokens : List Token) :
    assemble (tokens.map (relocate place)) = relocated place id (assemble tokens) := by
  have finished : ∀ a : Assembly, relocated place id a.finish = a.finish := by
    rintro ⟨arena, _ | ⟨f, _ | ⟨g, rest⟩⟩⟩ <;> rfl
  rw [assemble, assemble, Assembly.takeAll_relocate, relocated_bind]
  exact congrArg _ (funext fun a => (finished a).symm)

/-! ## Stages -/

/-- The stage does not look at positions: they only come back in its faults. -/
def Blind {α : Type} (stage : List Token → Except Fault α) : Prop :=
  ∀ place tokens fault, stage tokens = .error fault →
    stage (tokens.map (relocate place)) = .error (fault.relocate place)

theorem blind_ofExplicit : Blind Postorder.ofExplicit := by
  intro place tokens fault failed
  rw [Postorder.ofExplicit_relocate, failed]
  rfl

theorem blind_assemble : Blind assemble := by
  intro place tokens fault failed
  rw [assemble_relocate, failed]
  rfl

/-! ## What faults are about -/

/-- The token can be what the fault is about: a delimiter that has no counterpart, the marker, or
    an operator with the character and the number of operands that the fault tells. -/
def Fault.Concerns : Fault → Token → Prop
  | .unmatchedClosing _, t => t.kind = .closing
  | .unmatchedOpening _, t => t.kind = .opening
  | .reservedMarker marker _, t => t.char = marker
  | .missingOperand operator _ expected found, t =>
    t.char = operator ∧ t.kind.arity = expected ∧ found < expected
  | .closedFragment operator _, t => t.char = operator
  | .leftoverFragments _, _ => False
  | .emptyExpression, _ => False

/-- The fault names the position of the token and is about it. -/
def Fault.PointsTo (fault : Fault) (t : Token) : Prop := fault.index? = some t.index ∧ fault.Concerns t

theorem Fault.PointsTo.relocate {fault : Fault} {t : Token} (points : fault.PointsTo t) (place : Nat → Nat) :
    (fault.relocate place).PointsTo (t.relocate place) := by
  obtain ⟨named, concerns⟩ := points
  constructor
  · rw [index?_relocate, named]
    rfl
  · cases fault <;> exact concerns

/-- A fault of the stage that names a position points to one of the tokens. -/
def Points {α : Type} (stage : List Token → Except Fault α) : Prop :=
  ∀ tokens fault index, stage tokens = .error fault → fault.index? = some index → ∃ t ∈ tokens, fault.PointsTo t

namespace Postorder

theorem map_eq_error {front : List Token → List Token} {result : Except Fault (List Token)} {fault : Fault}
    (failed : front <$> result = .error fault) : result = .error fault := by
  cases result with
  | error other =>
    cases failed
    rfl
  | ok later => cases failed

/-- A fault points to an opening that waits in the end, or to a closing that finds none waiting. -/
theorem arrange_points {tokens waiting : List Token} {fault : Fault} (failed : arrange tokens waiting = .error fault) :
    ∃ t ∈ waiting ++ tokens, fault.PointsTo t := by
  induction tokens generalizing waiting with
  | nil =>
    rw [arrange] at failed
    cases found : waiting.find? isOpening with
    | none =>
      rw [found] at failed
      cases failed
    | some t =>
      rw [found] at failed
      cases failed
      have opening : t.kind = .opening := by simpa [isOpening] using List.find?_some found
      exact ⟨t, List.mem_append_left [] (List.mem_of_find?_eq_some found), rfl, opening⟩
  | cons t rest ih =>
    have later {stack : List Token} (kept : stack ⊆ t :: waiting) (failed : arrange rest stack = .error fault) :
        ∃ u ∈ waiting ++ t :: rest, fault.PointsTo u := by
      obtain ⟨u, inside, points⟩ := ih failed
      refine ⟨u, ?_, points⟩
      rcases List.mem_append.mp inside with waits | comes
      · rcases List.mem_cons.mp (kept waits) with rfl | waits
        · exact List.mem_append_right waiting (.head rest)
        · exact List.mem_append_left _ waits
      · exact List.mem_append_right waiting (.tail t comes)
    have dropped (p : Token → Bool) : waiting.dropWhile p ⊆ waiting := (List.dropWhile_sublist p).subset
    rw [arrange] at failed
    cases kind : t.kind with
    | literal =>
      rw [kind] at failed
      exact later (List.subset_cons_self t waiting) (map_eq_error failed)
    | opening =>
      rw [kind] at failed
      exact later (List.Subset.refl _) failed
    | closing =>
      rw [kind] at failed
      have waits := dropped (!isOpening ·)
      cases groups : waiting.dropWhile (!isOpening ·) with
      | nil =>
        simp only [groups] at failed
        cases failed
        exact ⟨t, List.mem_append_right waiting (.head rest), rfl, kind⟩
      | cons o outer =>
        simp only [groups] at failed waits
        exact later (fun u member => .tail t (waits (.tail o member))) (map_eq_error failed)
    | union | concat | closure =>
      rw [kind] at failed
      exact later (List.cons_subset_cons t (dropped _)) (map_eq_error failed)

theorem points_ofExplicit : Points ofExplicit := fun _ _ _ failed _ => arrange_points failed

end Postorder

namespace Assembly

/-- The fault of a token that is not taken points to this token. -/
theorem take_points {a : Assembly} {t : Token} {fault : Fault} (failed : a.take t = .error fault) :
    fault.PointsTo t := by
  have placed {rest : List Fragment} {made : Option (Fragment × Arena Char)}
      (failed : Assembly.place t rest made = .error fault) : fault.PointsTo t := by
    cases made with
    | none =>
      cases failed
      exact ⟨rfl, rfl⟩
    | some made => cases failed
  obtain ⟨arena, stack⟩ := a
  cases kind : t.kind with
  | literal =>
    simp only [take, kind] at failed
    exact placed failed
  | union | concat =>
    rcases stack with _ | ⟨g, _ | ⟨f, rest⟩⟩
    · simp only [take, kind] at failed
      cases failed
      exact ⟨rfl, rfl, congrArg Token.Kind.arity kind, by decide⟩
    · simp only [take, kind] at failed
      cases failed
      exact ⟨rfl, rfl, congrArg Token.Kind.arity kind, by simp [Token.Kind.arity]⟩
    · simp only [take, kind] at failed
      exact placed failed
  | closure =>
    rcases stack with _ | ⟨f, rest⟩
    · simp only [take, kind] at failed
      cases failed
      exact ⟨rfl, rfl, congrArg Token.Kind.arity kind, by decide⟩
    · simp only [take, kind] at failed
      exact placed failed
  | opening | closing =>
    simp only [take, kind] at failed
    cases failed
    exact ⟨rfl, kind⟩

theorem takeAll_points {a : Assembly} {tokens : List Token} {fault : Fault} (failed : a.takeAll tokens = .error fault) :
    ∃ t ∈ tokens, fault.PointsTo t := by
  induction tokens generalizing a with
  | nil => cases failed
  | cons t rest ih =>
    cases taken : a.take t with
    | error other =>
      have same : other = fault := by simpa [takeAll, taken, bind, Except.bind] using failed
      exact ⟨t, .head rest, same ▸ take_points taken⟩
    | ok b =>
      have later : b.takeAll rest = .error fault := by simpa [takeAll, taken, bind, Except.bind] using failed
      obtain ⟨u, inside, points⟩ := ih later
      exact ⟨u, .tail t inside, points⟩

end Assembly

theorem points_assemble : Points assemble := by
  intro tokens fault index failed named
  cases taken : ({} : Assembly).takeAll tokens with
  | error other =>
    have same : other = fault := by simpa [assemble, taken, Except.bind] using failed
    exact same ▸ Assembly.takeAll_points taken
  | ok a =>
    -- what is left over is the fault of no single token
    have finished : a.finish = .error fault := by simpa [assemble, taken, Except.bind] using failed
    obtain ⟨arena, _ | ⟨f, _ | ⟨g, rest⟩⟩⟩ := a <;> cases finished <;> cases named

end RegexAutomaton
