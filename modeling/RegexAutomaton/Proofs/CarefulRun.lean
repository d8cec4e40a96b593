import RegexAutomaton.Automaton.Step
import RegexAutomaton.Proofs.Composition

/-!
Runs that use every fragment at most once. `Careful` says of a run from the empty arena
that it only composes, that every operand is a fragment which an earlier step returned,
and that no fragment is an operand twice; in what order fragments are used is free. No
step of such a run is refused, and the fragments that are not used yet always spell the
language of the expression that they were composed from (`Careful.path_iff_mem_language`). The
invariant is `Ledger`: the unused fragments, with their expressions, are separated.
-/
namespace RegexAutomaton.Step
variable {α : Type}

/-- The fragments that a step is given. -/
def operands : Step α → List Fragment
  | .union f g | .concat f g => [f, g]
  | .star f => [f]
  | .addState | .addEdge _ _ _ | .literal _ => []

/-- The step makes a fragment, of a symbol or of other fragments. -/
def composes : Step α → Bool
  | .literal _ | .union _ _ | .concat _ _ | .star _ => true
  | .addState | .addEdge _ _ _ => false

/-- What the steps answer when they begin with the empty arena. -/
def answers (steps : List (Step α)) : List Reply := (({} : Arena α).run steps).1

/-- The arena that the steps make of the empty one. -/
def outcome (steps : List (Step α)) : Arena α := (({} : Arena α).run steps).2

/-- A run that only composes fragments which earlier steps returned, and none of them twice. -/
structure Careful (steps : List (Step α)) : Prop where
  composes : ∀ s ∈ steps, s.composes = true
  earlier : ∀ n (inside : n < steps.length), ∀ f ∈ steps[n].operands, .fragment f ∈ answers (steps.take n)
  once : (steps.flatMap operands).Nodup

/-- The run has returned the fragment and not used it. -/
def Unused (steps : List (Step α)) (f : Fragment) : Prop :=
  .fragment f ∈ answers steps ∧ f ∉ steps.flatMap operands

/-- The run answered the step with the fragment. -/
def Returned (steps : List (Step α)) (s : Step α) (f : Fragment) : Prop := (s, .fragment f) ∈ steps.zip (answers steps)

/-- The expression that a fragment was composed from in the course of a run. -/
inductive ComposedFrom (steps : List (Step α)) : Fragment → Regex α → Prop where
  | literal {f : Fragment} {x : α} (returned : Returned steps (.literal x) f) : ComposedFrom steps f (.symbol x)
  | union {f g h : Fragment} {r q : Regex α} (returned : Returned steps (.union f g) h)
      (first : ComposedFrom steps f r) (second : ComposedFrom steps g q) : ComposedFrom steps h (.union r q)
  | concat {f g h : Fragment} {r q : Regex α} (returned : Returned steps (.concat f g) h)
      (first : ComposedFrom steps f r) (second : ComposedFrom steps g q) : ComposedFrom steps h (.concat r q)
  | star {f h : Fragment} {r : Regex α} (returned : Returned steps (.star f) h) (operand : ComposedFrom steps f r) :
      ComposedFrom steps h (.star r)

/-! ## One more step -/

theorem answers_concat (steps : List (Step α)) (s : Step α) :
    answers (steps ++ [s]) = answers steps ++ [((outcome steps).step s).1] := by
  simp [answers, outcome, Arena.run_append, Arena.run]

theorem outcome_concat (steps : List (Step α)) (s : Step α) :
    outcome (steps ++ [s]) = ((outcome steps).step s).2 := by
  simp [outcome, Arena.run_append, Arena.run]

theorem length_answers (steps : List (Step α)) : (answers steps).length = steps.length := by
  induction steps using List.reverseRecOn with
  | nil => rfl
  | append_singleton steps s ih => simp [answers_concat, ih]

theorem returned_concat {steps : List (Step α)} {s t : Step α} {f : Fragment} :
    Returned (steps ++ [s]) t f ↔ Returned steps t f ∨ (t = s ∧ ((outcome steps).step s).1 = .fragment f) := by
  rw [Returned, answers_concat, List.zip_append (length_answers steps).symm, List.mem_append]
  simp [Returned, eq_comm]

theorem ComposedFrom.concat_step {steps : List (Step α)} {f : Fragment} {r : Regex α} (s : Step α)
    (composed : ComposedFrom steps f r) : ComposedFrom (steps ++ [s]) f r := by
  induction composed with
  | literal returned => exact .literal (returned_concat.mpr (.inl returned))
  | union returned _ _ first second => exact .union (returned_concat.mpr (.inl returned)) first second
  | concat returned _ _ first second => exact .concat (returned_concat.mpr (.inl returned)) first second
  | star returned _ operand => exact .star (returned_concat.mpr (.inl returned)) operand

/-- Of a careful run with one more step, the run before it is careful, and the operands of
    the step are different fragments which that run has returned and not used. -/
theorem Careful.split {steps : List (Step α)} {s : Step α} (careful : Careful (steps ++ [s])) :
    Careful steps ∧ s.composes = true ∧ s.operands.Nodup ∧ ∀ f ∈ s.operands, Unused steps f := by
  obtain ⟨composes, earlier, once⟩ := careful
  rw [List.flatMap_append, List.flatMap_singleton, List.nodup_append] at once
  obtain ⟨before, within, across⟩ := once
  refine ⟨⟨?_, ?_, before⟩, composes s (by simp), within, ?_⟩
  · intro t member
    exact composes t (List.mem_append_left _ member)
  · intro n inside f operand
    have later := earlier n (by simp; omega) f
    rw [List.getElem_append_left inside, List.take_append_of_le_length (Nat.le_of_lt inside)] at later
    exact later operand
  · intro f operand
    have last := earlier steps.length (by simp) f
    rw [List.getElem_concat_length rfl, List.take_left] at last
    exact ⟨last operand, fun used => across f used f operand rfl⟩

theorem Careful.take {steps : List (Step α)} (careful : Careful steps) (n : Nat) : Careful (steps.take n) := by
  induction steps using List.reverseRecOn with
  | nil => simpa using careful
  | append_singleton steps s ih =>
    rcases Nat.lt_or_ge steps.length n with long | short
    · rwa [List.take_of_length_le (by simp; omega)]
    · rw [List.take_append_of_le_length short]
      exact ih careful.split.1

/-! ## The unused fragments -/

/-- The fragments that a run has not used yet, each with its expression, and what the run
    has returned altogether. -/
structure Ledger (steps : List (Step α)) (live : List (Fragment × Regex α)) : Prop where
  separated : (outcome steps).Separated live
  unused : ∀ f, f ∈ live.map Prod.fst ↔ Unused steps f
  composed : ∀ p ∈ live, ComposedFrom steps p.1 p.2
  spent : ∀ f ∈ steps.flatMap operands, .fragment f ∈ answers steps
  returned : ∀ reply ∈ answers steps, ∃ f, reply = .fragment f ∧ f.start < (outcome steps).size ∧
    (outcome steps).Reachable f.start f.stop
  distinct : (answers steps).Nodup

namespace Ledger
variable {steps : List (Step α)} {live : List (Fragment × Regex α)}

theorem start_lt (ledger : Ledger steps live) {f : Fragment} (returned : .fragment f ∈ answers steps) :
    f.start < (outcome steps).size := by
  obtain ⟨_, same, inside, -⟩ := ledger.returned _ returned
  cases same
  exact inside

theorem reaches_stop (ledger : Ledger steps live) {f : Fragment} (returned : .fragment f ∈ answers steps) :
    (outcome steps).Reachable f.start f.stop := by
  obtain ⟨_, same, -, reach⟩ := ledger.returned _ returned
  cases same
  exact reach

/-- A step that puts a new fragment into the place of unused ones keeps the ledger. -/
theorem concat_step {s : Step α} (parts : List (Fragment × Regex α)) {rest : List (Fragment × Regex α)}
    {h : Fragment} {r : Regex α} (ledger : Ledger steps live) (same : live.Perm (parts ++ rest))
    (given : parts.map Prod.fst = s.operands) (answer : ((outcome steps).step s).1 = .fragment h)
    (separated : ((outcome steps).step s).2.Separated ((h, r) :: rest)) (new : .fragment h ∉ answers steps)
    (composed : ComposedFrom (steps ++ [s]) h r) : Ledger (steps ++ [s]) ((h, r) :: rest) := by
  have names : (live.map Prod.fst).Perm (s.operands ++ rest.map Prod.fst) := by
    rw [← given, ← List.map_append]
    exact same.map Prod.fst
  have across := (List.nodup_append.mp (names.nodup_iff.mp ledger.separated.nodup)).2.2
  have unused : ∀ f, Unused steps f ↔ f ∈ s.operands ∨ f ∈ rest.map Prod.fst := by
    intro f
    rw [← ledger.unused, names.mem_iff, List.mem_append]
  have sound : ((outcome steps).step s).2.Sound h r := separated.sound (h, r) (by simp)
  have grows := Arena.growsTo_step (outcome steps) s
  refine ⟨by rwa [outcome_concat], ?_, ?_, ?_, ?_, ?_⟩
  · intro f
    rw [Unused, answers_concat, answer, List.flatMap_append, List.flatMap_singleton, List.map_cons, List.mem_cons]
    simp only [List.mem_append, List.mem_singleton, Reply.fragment.injEq, not_or]
    constructor
    · rintro (rfl | other)
      · exact ⟨.inr rfl, fun used => new (ledger.spent _ used),
          fun operand => new ((unused _).mpr (.inl operand)).1⟩
      · obtain ⟨returned, notUsed⟩ := (unused f).mpr (.inr other)
        exact ⟨.inl returned, notUsed, fun operand => across f operand f other rfl⟩
    · rintro ⟨returned | rfl, notUsed, notOperand⟩
      · exact .inr (((unused f).mp ⟨returned, notUsed⟩).resolve_left notOperand)
      · exact .inl rfl
  · intro p member
    rcases List.mem_cons.mp member with rfl | member
    · exact composed
    · exact (ledger.composed p (same.mem_iff.mpr (List.mem_append_right _ member))).concat_step s
  · intro f used
    rw [answers_concat, List.mem_append]
    rw [List.flatMap_append, List.flatMap_singleton, List.mem_append] at used
    rcases used with before | operand
    · exact .inl (ledger.spent f before)
    · exact .inl ((unused f).mpr (.inl operand)).1
  · intro reply member
    rw [answers_concat, answer, List.mem_append] at member
    rw [outcome_concat]
    rcases member with before | last
    · obtain ⟨f, rfl, inside, reach⟩ := ledger.returned reply before
      exact ⟨f, rfl, Nat.lt_of_lt_of_le inside grows.size_le, grows.reachable reach⟩
    · exact ⟨h, List.mem_singleton.mp last, sound.start_lt, sound.reaches_stop⟩
  · rw [answers_concat, answer, List.nodup_append]
    refine ⟨ledger.distinct, List.nodup_singleton _, ?_⟩
    rintro reply before _ last rfl
    exact new (List.mem_singleton.mp last ▸ before)

theorem exists_perm (ledger : Ledger steps live) {f : Fragment} (unused : Unused steps f) :
    ∃ r rest, live.Perm ((f, r) :: rest) := by
  obtain ⟨⟨_, r⟩, member, rfl⟩ := List.mem_map.mp ((ledger.unused f).mpr unused)
  obtain ⟨front, back, rfl⟩ := List.append_of_mem member
  exact ⟨r, front ++ back, List.perm_middle⟩

theorem exists_perm_pair (ledger : Ledger steps live) {f g : Fragment} (different : f ≠ g) (first : Unused steps f)
    (second : Unused steps g) : ∃ r q rest, live.Perm ((f, r) :: (g, q) :: rest) := by
  obtain ⟨r, others, same⟩ := ledger.exists_perm first
  obtain ⟨⟨g, q⟩, member, rfl⟩ := List.mem_map.mp ((ledger.unused g).mpr second)
  have inside : (g, q) ∈ others := by
    refine (List.mem_cons.mp (same.mem_iff.mp member)).resolve_left ?_
    intro equal
    exact different (congrArg Prod.fst equal).symm
  obtain ⟨front, back, rfl⟩ := List.append_of_mem inside
  exact ⟨r, q, front ++ back, same.trans (List.perm_middle.cons _)⟩

theorem fresh_new (ledger : Ledger steps live) : .fragment (outcome steps).fresh ∉ answers steps :=
  fun returned => Nat.lt_irrefl _ (ledger.start_lt returned)

theorem empty : Ledger ([] : List (Step α)) [] where
  separated := Arena.separated_empty
  unused := by simp [Unused, answers, Arena.run]
  composed := by simp
  spent := by simp
  returned := by simp [answers, Arena.run]
  distinct := by simp [answers, Arena.run]

end Ledger

/-- Every careful run has a ledger; each step is answered with a fragment. -/
theorem Careful.exists_ledger {steps : List (Step α)} (careful : Careful steps) : ∃ live, Ledger steps live := by
  induction steps using List.reverseRecOn with
  | nil => exact ⟨[], Ledger.empty⟩
  | append_singleton steps s ih =>
    obtain ⟨before, composes, different, unused⟩ := careful.split
    obtain ⟨live, ledger⟩ := ih before
    have last {h : Fragment} (answer : ((outcome steps).step s).1 = .fragment h) : Returned (steps ++ [s]) s h :=
      returned_concat.mpr (.inr ⟨rfl, answer⟩)
    have kept {f : Fragment} {r : Regex α} {rest : List (Fragment × Regex α)} (same : live.Perm rest)
        (member : (f, r) ∈ rest) : ComposedFrom (steps ++ [s]) f r :=
      (ledger.composed _ (same.mem_iff.mpr member)).concat_step s
    cases s with
    | addState => cases composes
    | addEdge source target symbol => cases composes
    | literal x =>
      have separated := ledger.separated.literal x
      exact ⟨_, ledger.concat_step [] (List.Perm.refl _) rfl rfl separated ledger.fresh_new (.literal (last rfl))⟩
    | union f g =>
      have apart : f ≠ g := by simpa [operands] using different
      obtain ⟨r, q, rest, same⟩ :=
        ledger.exists_perm_pair apart (unused f (by simp [operands])) (unused g (by simp [operands]))
      obtain ⟨b, made, separated⟩ := (ledger.separated.perm same).union
      have performed : (outcome steps).step (.union f g) = (.fragment (outcome steps).fresh, b) := by
        simp only [Arena.step, made, Arena.composed]
      have answer := congrArg Prod.fst performed
      exact ⟨_, ledger.concat_step [(f, r), (g, q)] same rfl answer (by rwa [performed]) ledger.fresh_new
        (.union (last answer) (kept same (by simp)) (kept same (by simp)))⟩
    | concat f g =>
      have apart : f ≠ g := by simpa [operands] using different
      obtain ⟨r, q, rest, same⟩ :=
        ledger.exists_perm_pair apart (unused f (by simp [operands])) (unused g (by simp [operands]))
      have before := ledger.separated.perm same
      obtain ⟨b, made, separated⟩ := before.concat
      have performed : (outcome steps).step (.concat f g) = (.fragment ⟨f.start, g.stop⟩, b) := by
        simp only [Arena.step, made, Arena.composed]
      have answer := congrArg Prod.fst performed
      -- No state is new here, but so far no path led from the first fragment to the end of the second.
      have new : .fragment ⟨f.start, g.stop⟩ ∉ answers steps := by
        intro returned
        have reach : (outcome steps).Reachable f.start g.stop := ledger.reaches_stop returned
        have ends := (before.sound (g, q) (by simp)).reaches_stop
        exact (List.pairwise_cons.mp before.apart).1 (g, q) (by simp) g.stop reach ends
      exact ⟨_, ledger.concat_step [(f, r), (g, q)] same rfl answer (by rwa [performed]) new
        (.concat (last answer) (kept same (by simp)) (kept same (by simp)))⟩
    | star f =>
      obtain ⟨r, rest, same⟩ := ledger.exists_perm (unused f (by simp [operands]))
      obtain ⟨b, made, separated⟩ := (ledger.separated.perm same).star
      have performed : (outcome steps).step (.star f) = (.fragment (outcome steps).fresh, b) := by
        simp only [Arena.step, made, Arena.composed]
      have answer := congrArg Prod.fst performed
      exact ⟨_, ledger.concat_step [(f, r)] same rfl answer (by rwa [performed]) ledger.fresh_new
        (.star (last answer) (kept same (by simp)))⟩

/-! ## One expression for each fragment -/

theorem Returned.unique {steps : List (Step α)} {s t : Step α} {f : Fragment} (distinct : (answers steps).Nodup)
    (first : Returned steps s f) (second : Returned steps t f) : s = t := by
  obtain ⟨n, insideFirst, atFirst⟩ := List.mem_iff_getElem.mp first
  obtain ⟨m, insideSecond, atSecond⟩ := List.mem_iff_getElem.mp second
  rw [List.getElem_zip, Prod.mk.injEq] at atFirst atSecond
  obtain ⟨rfl, answerFirst⟩ := atFirst
  obtain ⟨rfl, answerSecond⟩ := atSecond
  have same : n = m := distinct.getElem_inj_iff.mp (answerFirst.trans answerSecond.symm)
  subst same
  rfl

theorem ComposedFrom.unique {steps : List (Step α)} {f : Fragment} {r q : Regex α} (distinct : (answers steps).Nodup)
    (first : ComposedFrom steps f r) (second : ComposedFrom steps f q) : r = q := by
  induction first generalizing q with
  | literal returned =>
    cases second with
    | literal other =>
      cases returned.unique distinct other
      rfl
    | union other => cases returned.unique distinct other
    | concat other => cases returned.unique distinct other
    | star other => cases returned.unique distinct other
  | union returned _ _ ihFirst ihSecond =>
    cases second with
    | literal other => cases returned.unique distinct other
    | union other left right =>
      cases returned.unique distinct other
      rw [ihFirst left, ihSecond right]
    | concat other => cases returned.unique distinct other
    | star other => cases returned.unique distinct other
  | concat returned _ _ ihFirst ihSecond =>
    cases second with
    | literal other => cases returned.unique distinct other
    | union other => cases returned.unique distinct other
    | concat other left right =>
      cases returned.unique distinct other
      rw [ihFirst left, ihSecond right]
    | star other => cases returned.unique distinct other
  | star returned _ ih =>
    cases second with
    | literal other => cases returned.unique distinct other
    | union other => cases returned.unique distinct other
    | concat other => cases returned.unique distinct other
    | star other operand =>
      cases returned.unique distinct other
      rw [ih operand]

/-- In a careful run no step is refused and no fragment is returned twice. After every step,
    each fragment that is not used yet was composed from one expression, and the paths of
    the whole arena between its states spell the language of that expression. -/
theorem Careful.path_iff_mem_language {steps : List (Step α)} (careful : Careful steps) :
    (∀ reply ∈ answers steps, reply ≠ .refused) ∧ (answers steps).Nodup ∧
      ∀ n f, Unused (steps.take n) f → ∃ r, (∀ other, ComposedFrom (steps.take n) f other ↔ other = r) ∧
        ∀ word, (outcome (steps.take n)).Path f.start word f.stop ↔ word ∈ r.language := by
  obtain ⟨_, ledger⟩ := careful.exists_ledger
  refine ⟨?_, ledger.distinct, ?_⟩
  · intro reply member
    obtain ⟨f, rfl, -, -⟩ := ledger.returned reply member
    intro refused
    cases refused
  · intro n f unused
    obtain ⟨_, before⟩ := (careful.take n).exists_ledger
    obtain ⟨⟨f, r⟩, member, rfl⟩ := List.mem_map.mp ((before.unused f).mpr unused)
    refine ⟨r, ?_, (before.separated.sound (f, r) member).spells⟩
    intro other
    constructor
    · intro composed
      exact composed.unique before.distinct (before.composed (f, r) member)
    · rintro rfl
      exact before.composed (f, other) member

/-- A run in which the fragment returned first is used last, and as a second operand. -/
def outOfOrder : List (Step Char) :=
  [.literal 'a', .literal 'b', .literal 'c', .star ⟨2, 3⟩, .union ⟨6, 7⟩ ⟨4, 5⟩, .concat ⟨8, 9⟩ ⟨0, 1⟩]

theorem path_iff_mem_language_outOfOrder :
    Careful outOfOrder ∧ Unused (outOfOrder.take 5) ⟨0, 1⟩ ∧ Unused outOfOrder ⟨8, 1⟩ ∧
      (∀ word, (outcome (outOfOrder.take 5)).Path 0 word 1 ↔ word = ['a']) ∧
      ∀ word, (outcome outOfOrder).Path 8 word 1 ↔
        word ∈ (Regex.concat (.union (.star (.symbol 'b')) (.symbol 'c')) (.symbol 'a')).language := by
  have careful : Careful outOfOrder := ⟨by decide, by decide, by decide⟩
  have early : Unused (outOfOrder.take 5) ⟨0, 1⟩ := ⟨by decide, by decide⟩
  have late : Unused outOfOrder ⟨8, 1⟩ := ⟨by decide, by decide⟩
  have symbolA : ComposedFrom (outOfOrder.take 5) ⟨0, 1⟩ (.symbol 'a') := .literal (by unfold Returned; decide)
  have whole : ComposedFrom outOfOrder ⟨8, 1⟩
      (.concat (.union (.star (.symbol 'b')) (.symbol 'c')) (.symbol 'a')) := by
    refine .concat (f := ⟨8, 9⟩) (g := ⟨0, 1⟩) (by unfold Returned; decide) ?_ (.literal (by unfold Returned; decide))
    refine .union (f := ⟨6, 7⟩) (g := ⟨4, 5⟩) (by unfold Returned; decide) ?_ (.literal (by unfold Returned; decide))
    exact .star (f := ⟨2, 3⟩) (by unfold Returned; decide) (.literal (by unfold Returned; decide))
  obtain ⟨-, -, sound⟩ := careful.path_iff_mem_language
  obtain ⟨r, onlyEarly, spellsEarly⟩ := sound 5 ⟨0, 1⟩ early
  obtain ⟨q, onlyLate, spellsLate⟩ := sound 6 ⟨8, 1⟩ late
  obtain rfl := (onlyEarly _).mp symbolA
  obtain rfl := (onlyLate _).mp whole
  exact ⟨careful, early, late, spellsEarly, spellsLate⟩

end RegexAutomaton.Step
