import Mathlib.Data.List.Nodup
import RegexAutomaton.Proofs.Revision

/-!
When the rows of a table can be told apart by their labels. The labels of a revised automaton are
those of its last labelling, so no two states share one (`Stamped`); and no two places give the same
name. But a table calls a state without a label by its place now, and this name may be the label
that another state got by its place then (`Clash`). Apart from that all rows have names of their
own (`nodup_labels_iff`). There is no clash as long as the start has a label, since then all states
that it leads to have one.
-/
namespace RegexAutomaton.Automaton
variable {α : Type} {m : Automaton α} {order : List StateId}

/-- The labels are those of one labelling, by the places in an order that no edge leaves. -/
structure Stamped (m : Automaton α) (order : List StateId) : Prop where
  once : order.Nodup
  stays : ∀ s ∈ order, ∀ e ∈ m.edges s, e.target ∈ order
  label : ∀ s name, m.label s = some name ↔ ∃ place, order[place]? = some s ∧ name = placeLabel place

theorem stamped_relabel (closed : m.Closed) : m.relabel.Stamped m.order where
  once := m.nodup_order
  stays := by
    intro s walked e edge
    rw [edges_relabel] at edge
    exact target_mem_order closed walked edge
  label := by
    intro s name
    constructor
    · intro labelled
      have walked : s ∈ m.order := by
        by_contra absent
        rw [label_relabel_eq, List.idxOf?_eq_none_iff.mpr absent] at labelled
        cases labelled
      rw [label_relabel_of_mem walked] at labelled
      exact ⟨_, List.getElem?_idxOf walked, (Option.some.inj labelled).symm⟩
    · rintro ⟨place, there, rfl⟩
      exact m.labels_relabel.named place s there

theorem Stamped.exists_revise (stamped : m.Stamped order) (closed : m.Closed) (revision : Revision) :
    ∃ order', (m.revise revision).Stamped order' := by
  obtain ⟨once, stays, label⟩ := stamped
  cases revision with
  | relabel => exact ⟨m.order, stamped_relabel closed⟩
  | restart s => exact ⟨order, once, stays, label⟩
  | redirect s => exact ⟨order, once, stays, label⟩

theorem Stamped.exists_reviseAll (stamped : m.Stamped order) (closed : m.Closed) (revisions : List Revision) :
    ∃ order', (m.reviseAll revisions).Stamped order' := by
  induction revisions generalizing m order with
  | nil => exact ⟨order, stamped⟩
  | cons revision rest ih =>
    obtain ⟨order', revised⟩ := stamped.exists_revise closed revision
    have closed : (m.revise revision).Closed := (m.sameGraph_revise revision).closed closed
    exact ih revised closed

/-- An automaton without labels counts as labelled by the empty order. -/
theorem stamped_finish (steps : List (Step α)) (f : Fragment) : ((Step.outcome steps).finish f).Stamped [] where
  once := .nil
  stays := by simp
  label := by
    intro s name
    have unlabelled : ((Step.outcome steps).finish f).label s = none := Step.label_outcome steps s
    simp [unlabelled]

theorem Stamped.eq_of_label (stamped : m.Stamped order) {s t : StateId} {name : String} (first : m.label s = some name)
    (second : m.label t = some name) : s = t := by
  obtain ⟨place, there, rfl⟩ := (stamped.label s name).mp first
  obtain ⟨place', there', same⟩ := (stamped.label t _).mp second
  obtain rfl := placeLabel_inj.mp same
  exact Option.some.inj (there.symm.trans there')

theorem Stamped.label_ne_none_iff (stamped : m.Stamped order) {s : StateId} : m.label s ≠ none ↔ s ∈ order := by
  rw [Option.ne_none_iff_exists']
  constructor
  · rintro ⟨name, labelled⟩
    obtain ⟨place, there, -⟩ := (stamped.label s name).mp labelled
    exact List.mem_of_getElem? there
  · intro walked
    obtain ⟨place, there⟩ := List.mem_iff_getElem?.mp walked
    exact ⟨_, (stamped.label s _).mpr ⟨place, there, rfl⟩⟩

/-- If a state has a label, so have all that it leads to. -/
theorem Stamped.label_ne_none (stamped : m.Stamped order) {s t : StateId} (labelled : m.label s ≠ none)
    (reach : m.Reachable s t) : m.label t ≠ none := by
  rw [stamped.label_ne_none_iff] at labelled ⊢
  exact reach.mem (· ∈ order) labelled stamped.stays

/-! ## Names -/

/-- The label of a state that is reached is the name that another one without a label has by its
    place. -/
def Clash (m : Automaton α) : Prop :=
  ∃ s t place, m.order[place]? = some s ∧ m.label s = none ∧ t ∈ m.order ∧ m.label t = some (placeLabel place)

theorem nodup_names_iff (stamped : m.Stamped order) : (m.order.map (m.nameIn m.order)).Nodup ↔ ¬ m.Clash := by
  rw [List.nodup_map_iff_inj_on m.nodup_order]
  constructor
  · rintro apart ⟨s, t, place, there, unlabelled, walked, labelled⟩
    obtain ⟨inside, rfl⟩ := List.getElem?_eq_some_iff.mp there
    have names : m.nameIn m.order m.order[place] = m.nameIn m.order t := by
      rw [nameIn, nameIn, unlabelled, labelled, m.nodup_order.idxOf_getElem]
      rfl
    have same := apart _ (List.getElem_mem inside) t walked names
    rw [same, labelled] at unlabelled
    cases unlabelled
  · intro noClash s walked t walked' names
    have clash {s t : StateId} (walked : s ∈ m.order) (walked' : t ∈ m.order) (unlabelled : m.label s = none)
        (labelled : m.label t = some (placeLabel (m.order.idxOf s))) : False :=
      noClash ⟨s, t, m.order.idxOf s, List.getElem?_idxOf walked, unlabelled, walked', labelled⟩
    rw [nameIn, nameIn] at names
    cases first : m.label s with
    | none =>
      cases second : m.label t with
      | none =>
        rw [first, second] at names
        exact (List.idxOf_inj walked).mp (placeLabel_inj.mp names)
      | some name =>
        rw [first, second] at names
        cases names
        exact (clash walked walked' first second).elim
    | some name =>
      cases second : m.label t with
      | none =>
        rw [first, second] at names
        cases names
        exact (clash walked' walked second first).elim
      | some name' =>
        rw [first, second] at names
        cases names
        exact stamped.eq_of_label first second

/-! ## Rows -/

variable [Symbol α]

theorem labels_rows (m : Automaton α) (markers : Markers) :
    (Table.ofAutomaton markers m).rows.map Row.label = m.order.map (m.nameIn m.order) := by
  simp [Table.ofAutomaton, row]

/-- What a cell lists is the label of a row. -/
theorem mem_labels_of_mem_cell (closed : m.Closed) {markers : Markers} {row : Row} {cell : List String} {name : String}
    (shown : row ∈ (Table.ofAutomaton markers m).rows) (part : cell ∈ row.cells) (listed : name ∈ cell) :
    name ∈ (Table.ofAutomaton markers m).rows.map Row.label := by
  obtain ⟨s, walked, rfl⟩ := List.mem_map.mp shown
  obtain ⟨column, -, rfl⟩ := List.mem_map.mp part
  obtain ⟨e, edge, rfl⟩ := List.mem_map.mp listed
  rw [labels_rows]
  exact List.mem_map_of_mem (target_mem_order closed walked (List.mem_filter.mp edge).1)

/-- In a list without repetitions each member has one place. -/
theorem existsUnique_place {β : Type} {l : List β} (once : l.Nodup) {x : β} (member : x ∈ l) :
    ∃! place : Nat, l[place]? = some x := by
  obtain ⟨place, inside, rfl⟩ := List.mem_iff_getElem.mp member
  refine ⟨place, List.getElem?_eq_getElem inside, ?_⟩
  intro other there
  obtain ⟨inside', same⟩ := List.getElem?_eq_some_iff.mp there
  exact once.getElem_inj_iff.mp same

/-- The rows of a table have labels that are all different just if no state without a label is
    called what another state has as its label; and then each name in a cell is the label of one
    row. This is so in particular if the start has a label, or if no state that is reached has
    one. -/
theorem nodup_labels_iff (steps : List (Step α)) (f : Fragment) (revisions : List Revision) (markers : Markers)
    (revised : m = ((Step.outcome steps).finish f).reviseAll revisions) :
    (((Table.ofAutomaton markers m).rows.map Row.label).Nodup ↔ ¬ m.Clash) ∧
      (¬ m.Clash → ∀ row ∈ (Table.ofAutomaton markers m).rows, ∀ cell ∈ row.cells, ∀ name ∈ cell,
        ∃! place : Nat, ((Table.ofAutomaton markers m).rows.map Row.label)[place]? = some name) ∧
      (m.label m.start ≠ none → ¬ m.Clash) ∧ ((∀ s ∈ m.order, m.label s = none) → ¬ m.Clash) := by
  have obtained : m.Obtained := revised ▸ (Obtained.finish steps f).reviseAll revisions
  obtain ⟨order, stamped⟩ := (stamped_finish steps f).exists_reviseAll (Obtained.finish steps f).closed revisions
  rw [← revised] at stamped
  have told : ((Table.ofAutomaton markers m).rows.map Row.label).Nodup ↔ ¬ m.Clash := by
    rw [labels_rows, nodup_names_iff stamped]
  refine ⟨told, ?_, ?_, ?_⟩
  · intro noClash row shown cell part name listed
    exact existsUnique_place (told.mpr noClash) (mem_labels_of_mem_cell obtained.closed shown part listed)
  · rintro labelled ⟨s, t, place, there, unlabelled, -, -⟩
    have walked : s ∈ m.order := List.mem_of_getElem? there
    exact stamped.label_ne_none labelled (mem_order_iff.mp walked).2 unlabelled
  · rintro unlabelled ⟨s, t, place, -, -, walked, labelled⟩
    rw [unlabelled t walked] at labelled
    cases labelled

/-- The start of `letterWithLabels` has no label and is called by its place, and this name is the
    label that the letter has kept. -/
theorem label_shared_by_rows :
    (Table.ofAutomaton {} letterWithLabels).rows.map Row.label = ["q0", "q0", "q1"] ∧
      ¬ ((Table.ofAutomaton {} letterWithLabels).rows.map Row.label).Nodup := by
  have labels : (Table.ofAutomaton {} letterWithLabels).rows.map Row.label = ["q0", "q0", "q1"] := by decide +kernel
  refine ⟨labels, ?_⟩
  rw [labels]
  decide

/-- Two letters in a row, labelled and then made to begin at the end of the first one. -/
def pairFromMiddle : Automaton Char := ((Step.outcome Step.pair).finish ⟨0, 3⟩).reviseAll [.relabel, .restart 1]

theorem nodup_labels_iff_pairFromMiddle :
    (Table.ofAutomaton {} pairFromMiddle).rows.map Row.label = ["q1", "q2", "q3"] ∧ ¬ pairFromMiddle.Clash ∧
      ∃! place : Nat, ((Table.ofAutomaton {} pairFromMiddle).rows.map Row.label)[place]? = some "q3" := by
  obtain ⟨-, once, labelled, -⟩ := nodup_labels_iff Step.pair ⟨0, 3⟩ [.relabel, .restart 1] {}
    (show pairFromMiddle = ((Step.outcome Step.pair).finish ⟨0, 3⟩).reviseAll [.relabel, .restart 1] from rfl)
  have noClash : ¬ pairFromMiddle.Clash := labelled (by decide +kernel)
  have shown : (⟨"q2", "q2", false, false, [["q3"], []]⟩ : Row) ∈ (Table.ofAutomaton {} pairFromMiddle).rows := by
    decide +kernel
  exact ⟨by decide +kernel, noClash, once noClash _ shown ["q3"] (by decide) "q3" (by decide)⟩

end RegexAutomaton.Automaton
