import RegexAutomaton.Proofs.Labelling
import RegexAutomaton.Proofs.TableTexts
import RegexAutomaton.Proofs.WalkOrder

/-!
What is done to an automaton after it was finished: it is labelled, and its start and its accepting
state are moved, in any order and any number of times. No step of a run labels a state
(`label_outcome`), and no revision adds or takes a state or an edge (`sameGraph_reviseAll`). As
labelling looks at nothing but the start and the edges (`SameGraph.relabel_eq`), it makes of a
revised automaton what it makes of the automaton as it was finished: labels leave no traces. What it
makes is said by `Labels`.
-/
namespace RegexAutomaton

/-! ## Steps label no state -/

namespace Arena
variable {α : Type}

@[simp] theorem label_addState (a : Arena α) (s : StateId) : a.addState.label s = a.label s := by
  simp only [label, addState, Array.getElem?_push]
  split
  · rename_i fresh
    simp [fresh]
  · rfl

@[simp] theorem label_grow (a : Arena α) (s : StateId) : a.grow.label s = a.label s := by
  rw [grow, label_addState, label_addState]

@[simp] theorem label_link (a : Arena α) (source target s : StateId) (symbol : Option α) :
    (a.link source symbol target).label s = a.label s := by
  simp only [label, link, Array.getElem?_modify]
  by_cases same : source = s
  · subst same
    cases a.states[source]? <;> simp
  · simp [same]

theorem label_composed {a : Arena α} {s : StateId} {result : Option (Fragment × Arena α)}
    (kept : ∀ made ∈ result, made.2.label s = a.label s) : (a.composed result).2.label s = a.label s := by
  cases result with
  | none => rfl
  | some made => exact kept made rfl

theorem label_step (a : Arena α) (step : Step α) (s : StateId) : (a.step step).2.label s = a.label s := by
  cases step with
  | addState => exact a.label_addState s
  | addEdge source target symbol =>
    simp only [Arena.step, addEdge?]
    split
    · rename_i made
      split at made
      · cases made
        exact a.label_link source target s symbol
      · cases made
    · rfl
  | literal symbol =>
    apply label_composed
    simp [literal]
  | union f g =>
    apply label_composed
    simp [union?]
  | concat f g =>
    apply label_composed
    simp [concat?]
  | star f =>
    apply label_composed
    simp [star?]

theorem label_run (a : Arena α) (steps : List (Step α)) (s : StateId) : (a.run steps).2.label s = a.label s := by
  induction steps generalizing a with
  | nil => rfl
  | cons step rest ih => exact (ih (a.step step).2).trans (a.label_step step s)

end Arena

theorem Step.label_outcome {α : Type} (steps : List (Step α)) (s : StateId) : (outcome steps).label s = none := by
  rw [outcome, Arena.label_run]
  rfl

/-! ## Revisions -/

/-- What can be done to an automaton that is finished. -/
inductive Revision where
  | relabel
  | restart (s : StateId)
  | redirect (s : StateId)
  deriving DecidableEq

namespace Automaton
variable {α : Type} {m n k : Automaton α}

/-- The automaton after one revision. -/
def revise (m : Automaton α) : Revision → Automaton α
  | .relabel => m.relabel
  | .restart s => { m with start := s }
  | .redirect s => { m with accepting := s }

/-- The automaton after the revisions, in order. -/
def reviseAll (m : Automaton α) (revisions : List Revision) : Automaton α := revisions.foldl revise m

theorem Obtained.reviseAll (obtained : m.Obtained) (revisions : List Revision) : (m.reviseAll revisions).Obtained := by
  induction revisions generalizing m with
  | nil => exact obtained
  | cons revision rest ih =>
    cases revision with
    | relabel => exact ih (.relabel obtained)
    | restart s => exact ih (.restart obtained s)
    | redirect s => exact ih (.redirect obtained s)

/-- Both automata have the same states and the same edges, in the same order; labels, start and
    accepting state may differ. -/
structure SameGraph (m n : Automaton α) : Prop where
  size : n.size = m.size
  edges : ∀ s, n.edges s = m.edges s

theorem SameGraph.refl (m : Automaton α) : m.SameGraph m := ⟨rfl, fun _ => rfl⟩

theorem SameGraph.trans (first : m.SameGraph n) (second : n.SameGraph k) : m.SameGraph k where
  size := second.size.trans first.size
  edges := fun s => (second.edges s).trans (first.edges s)

theorem sameGraph_revise (m : Automaton α) (revision : Revision) : m.SameGraph (m.revise revision) := by
  cases revision with
  | relabel => exact ⟨m.size_relabel, m.edges_relabel⟩
  | restart s => exact ⟨rfl, fun _ => rfl⟩
  | redirect s => exact ⟨rfl, fun _ => rfl⟩

theorem sameGraph_reviseAll (m : Automaton α) (revisions : List Revision) : m.SameGraph (m.reviseAll revisions) := by
  induction revisions generalizing m with
  | nil => exact SameGraph.refl m
  | cons revision rest ih => exact (m.sameGraph_revise revision).trans (ih (m.revise revision))

theorem SameGraph.order_eq (same : m.SameGraph n) (start : n.start = m.start) : n.order = m.order := by
  rw [order, order, start]
  exact Arena.bfs_congr same.size (fun s => congrArg (List.map Edge.target) (same.edges s)) m.start

theorem SameGraph.closed (same : m.SameGraph n) (closed : m.Closed) : n.Closed := by
  intro s e edge
  rw [same.edges] at edge
  rw [same.size]
  exact closed s e edge

/-- Labelling looks at the start and at the edges, and keeps the accepting state; the labels that
    there were before do not matter. -/
theorem SameGraph.relabel_eq (same : m.SameGraph n) (start : n.start = m.start) (accepting : n.accepting = m.accepting) :
    n.relabel = m.relabel := by
  have states : n.relabel.states = m.relabel.states := by
    apply Array.ext_getElem?
    intro s
    rw [states_relabel, states_relabel, same.size, same.edges, same.order_eq start]
  calc
    n.relabel = ⟨⟨n.relabel.states⟩, n.start, n.accepting⟩ := rfl
    _ = ⟨⟨m.relabel.states⟩, m.start, m.accepting⟩ := by rw [states, start, accepting]
    _ = m.relabel := rfl

theorem relabel_relabel (m : Automaton α) : m.relabel.relabel = m.relabel :=
  SameGraph.relabel_eq (m.sameGraph_revise .relabel) rfl rfl

/-- The labels that revisions have left do not matter for the next labelling. -/
theorem relabel_reviseAll (m : Automaton α) (revisions : List Revision) :
    (m.reviseAll revisions).relabel =
      { m with start := (m.reviseAll revisions).start, accepting := (m.reviseAll revisions).accepting }.relabel := by
  obtain ⟨size, edges⟩ := m.sameGraph_reviseAll revisions
  exact SameGraph.relabel_eq ⟨size, edges⟩ rfl rfl

/-! ## What labelling does -/

/-- The second automaton is the first one labelled: the state at a place of the order has `q` and
    the number of the place as its label, states that are not reached have none, and nothing else
    is changed. So labels tell the states that are reached apart, and all of these have one. -/
structure Labels (m n : Automaton α) : Prop where
  start : n.start = m.start
  accepting : n.accepting = m.accepting
  graph : m.SameGraph n
  order : n.order = m.order
  named : ∀ place s, m.order[place]? = some s → n.label s = some ("q" ++ Nat.repr place)
  unnamed : ∀ s, ¬ m.Reachable m.start s → n.label s = none
  apart : ∀ s ∈ m.order, ∀ t ∈ m.order, n.label s = n.label t → s = t
  first : m.start < m.size → n.label m.start = some "q0"
  complete : n.isLabelled = true

theorem labels_relabel (m : Automaton α) : m.Labels m.relabel where
  start := rfl
  accepting := rfl
  graph := m.sameGraph_revise .relabel
  order := m.order_relabel
  named := by
    intro place s there
    obtain ⟨inside, rfl⟩ := List.getElem?_eq_some_iff.mp there
    rw [label_relabel_of_mem (List.getElem_mem inside), m.nodup_order.idxOf_getElem]
    rfl
  unnamed := by
    intro s unreached
    have absent : s ∉ m.order := fun walked => unreached (mem_order_iff.mp walked).2
    rw [label_relabel_eq, List.idxOf?_eq_none_iff.mpr absent]
    rfl
  apart := by
    intro s walked t walked' same
    rw [label_relabel_of_mem walked, label_relabel_of_mem walked', Option.some.injEq, placeLabel_inj] at same
    exact (List.idxOf_inj walked).mp same
  first := by
    intro inside
    rw [label_relabel_of_mem (mem_order_iff.mpr ⟨inside, Arena.Reachable.refl m.toArena m.start⟩), order,
      Arena.idxOf_start]
    rfl
  complete := by
    rw [isLabelled, order_relabel, List.all_eq_true]
    intro s walked
    rw [label_relabel_of_mem walked]
    rfl

/-- Labelling an automaton that was finished from some run and then revised in whatever way names
    the states that its start leads to by their places, and changes nothing else. What comes out
    depends on the start, the accepting state and the edges only, so labelling once more changes
    nothing, and the automaton as it was finished, which has no labels, is labelled in the same
    way once it is given this start. -/
theorem relabel_canonical (steps : List (Step α)) (f : Fragment) (revisions : List Revision)
    (finished : n = (Step.outcome steps).finish f) (revised : m = n.reviseAll revisions) :
    m.Labels m.relabel ∧ m.relabel.relabel = m.relabel ∧
      (∀ k : Automaton α, m.SameGraph k → k.start = m.start → k.accepting = m.accepting → k.relabel = m.relabel) ∧
      (∀ s, n.label s = none) ∧ m.relabel = { n with start := m.start, accepting := m.accepting }.relabel := by
  refine ⟨m.labels_relabel, m.relabel_relabel, fun k => SameGraph.relabel_eq, ?_, ?_⟩
  · intro s
    rw [finished]
    exact Step.label_outcome steps s
  · rw [revised]
    exact n.relabel_reviseAll revisions

/-- A letter, and a state that leads to it but is not reached from it. -/
def letterWithLead : Automaton Char := (Step.outcome [.literal 'a', .addState, .addEdge 2 0 none]).finish ⟨0, 1⟩

/-- The letter was labelled, and then the automaton was made to begin with the state before it: so
    the start has no label, and the letter has those that are due to others. -/
def letterWithLabels : Automaton Char := letterWithLead.reviseAll [.relabel, .restart 2]

theorem relabel_canonical_letterWithLabels :
    letterWithLabels.label 0 = some "q0" ∧ letterWithLabels.relabel.label 0 = some "q1" ∧
      letterWithLabels.relabel.label 2 = some "q0" ∧
      letterWithLabels.relabel = { letterWithLead with start := 2 }.relabel := by
  have order : letterWithLabels.order = [2, 0, 1] := by decide +kernel
  obtain ⟨labels, -, -, -, same⟩ :=
    relabel_canonical [.literal 'a', .addState, .addEdge 2 0 none] ⟨0, 1⟩ [.relabel, .restart 2] rfl
      (show letterWithLabels = letterWithLead.reviseAll [.relabel, .restart 2] from rfl)
  refine ⟨by decide +kernel, ?_, ?_, same⟩
  · exact labels.named 1 0 (by rw [order]; rfl)
  · exact labels.first (by decide)

end Automaton

end RegexAutomaton
