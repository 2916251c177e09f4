import Dataplane.Pipeline.Graph
import Dataplane.Proofs.Contents
import Dataplane.Proofs.Tables

/-! The table of a list of transitions holds those that some packet can take, each under its
ends. -/
namespace Dataplane

/-- Source and target. -/
def Transition.ends (t : Transition) : Stage × Stage := (t.source, t.target)

/-- Some packet can take the transition. -/
def Transition.Open (t : Transition) : Prop := t.guard.isEmpty = false

instance (t : Transition) : Decidable t.Open := inferInstanceAs (Decidable (_ = _))

namespace TransitionTable

/-- The transition between two stages. -/
def between? (table : TransitionTable) (ends : Stage × Stage) : Option Transition :=
  table[ends.1]?.bind (·[ends.2]?)

theorem insert_of_not_open {table : TransitionTable} {t : Transition} (h : ¬t.Open) :
    table.insert t = .ok table := by
  rw [Transition.Open, Bool.not_eq_false] at h
  rw [insert, if_pos h]

theorem insert_of_open {table : TransitionTable} {t : Transition} (h : t.Open) :
    table.insert t =
      if (table.between? t.ends).isSome then .error (.duplicateTransition t.source t.target)
      else .ok (Std.ExtTreeMap.insert table t.source
        ((Std.ExtTreeMap.getD table t.source ∅).insert t.target t)) := by
  have hcontains : (Std.ExtTreeMap.getD table t.source ∅).contains t.target =
      (table.between? t.ends).isSome := by
    rw [Std.ExtTreeMap.getD_eq_getD_getElem?, between?, Transition.ends]
    cases table[t.source]? with
    | none => simp
    | some targets => exact Std.ExtTreeMap.contains_eq_isSome_getElem?
  unfold insert
  rw [if_neg (by rw [h]; exact Bool.false_ne_true)]
  simp only [hcontains]

/-- What an insertion that succeeds has done. -/
theorem insert_eq_ok {table next : TransitionTable} {t : Transition} (h : table.insert t = .ok next) :
    ¬t.Open ∧ next = table ∨ t.Open ∧ table.between? t.ends = none ∧
      next = Std.ExtTreeMap.insert table t.source
        ((Std.ExtTreeMap.getD table t.source ∅).insert t.target t) := by
  by_cases ht : t.Open
  · rw [insert_of_open ht] at h
    split at h
    · contradiction
    · rename_i hfree
      exact Or.inr ⟨ht, Option.not_isSome_iff_eq_none.mp hfree, (Except.ok.inj h).symm⟩
  · rw [insert_of_not_open ht] at h
    exact Or.inl ⟨ht, (Except.ok.inj h).symm⟩

theorem between?_insert (table : TransitionTable) (t : Transition) (ends : Stage × Stage) :
    between? (Std.ExtTreeMap.insert table t.source
      ((Std.ExtTreeMap.getD table t.source ∅).insert t.target t)) ends =
      if t.ends = ends then some t else table.between? ends := by
  obtain ⟨s, d⟩ := ends
  simp only [between?, Transition.ends, Std.ExtTreeMap.getElem?_insert, Std.compare_eq_iff_eq,
    Prod.mk.injEq]
  by_cases hs : t.source = s
  · subst s
    simp only [if_true, Option.bind_some, Std.ExtTreeMap.getElem?_insert, Std.compare_eq_iff_eq,
      true_and]
    split
    · rfl
    · rw [Std.ExtTreeMap.getD_eq_getD_getElem?]
      cases table[t.source]? with
      | none => simp
      | some targets => rfl
  · simp [hs]

/-- The ends of the transitions that some packet can take. -/
def openEnds (transitions : List Transition) : List (Stage × Stage) :=
  (transitions.filter (·.Open)).map Transition.ends

/-- The table can be extended by a list if and only if its transitions have different ends, none
of them in use. -/
theorem foldlM_insert_ok_iff (transitions : List Transition) (start : TransitionTable) :
    (∃ table, transitions.foldlM insert start = .ok table) ↔
      (openEnds transitions).Nodup ∧ ∀ ends ∈ openEnds transitions, start.between? ends = none := by
  induction transitions generalizing start with
  | nil => simp [openEnds, pure, Except.pure]
  | cons t rest ih =>
    rw [List.foldlM_cons]
    by_cases ht : t.Open
    · have hends : openEnds (t :: rest) = t.ends :: openEnds rest := by simp [openEnds, ht]
      rw [insert_of_open ht, hends, List.nodup_cons, List.forall_mem_cons]
      cases hused : start.between? t.ends with
      | some u => simp [bind, Except.bind]
      | none =>
        simp only [Option.isSome_none, Bool.false_eq_true, if_false]
        rw [ok_bind, ih]
        simp only [between?_insert]
        constructor
        · intro h
          obtain ⟨hnodup, hfree⟩ := h
          have hnot : t.ends ∉ openEnds rest := fun hmem => by simpa using hfree _ hmem
          refine ⟨⟨hnot, hnodup⟩, trivial, fun ends hmem => ?_⟩
          have := hfree ends hmem
          rwa [if_neg fun he : t.ends = ends => hnot (he ▸ hmem)] at this
        · intro h
          obtain ⟨⟨hnot, hnodup⟩, _, hfree⟩ := h
          refine ⟨hnodup, fun ends hmem => ?_⟩
          rw [if_neg fun he : t.ends = ends => hnot (he ▸ hmem), hfree ends hmem]
    · have hends : openEnds (t :: rest) = openEnds rest := by simp [openEnds, ht]
      rw [insert_of_not_open ht, hends]
      exact ih start

/-- The entries of an extended table. -/
theorem between?_foldlM_insert {transitions : List Transition} {start table : TransitionTable}
    (h : transitions.foldlM insert start = .ok table) (ends : Stage × Stage) (t : Transition) :
    table.between? ends = some t ↔
      start.between? ends = some t ∨ t ∈ transitions ∧ t.Open ∧ t.ends = ends := by
  have hstep (table : TransitionTable) (u : Transition) (next : TransitionTable)
      (hnext : table.insert u = .ok next) : next.between? ends = some t ↔
        table.between? ends = some t ∨ u = t ∧ u.Open ∧ u.ends = ends := by
    rcases insert_eq_ok hnext with ⟨hu, rfl⟩ | ⟨hu, hfree, rfl⟩
    · simp [hu]
    · rw [between?_insert]
      split
      · rename_i hends
        subst ends
        simp [hu, hfree]
      · rename_i hends
        simp [hends]
  rw [foldlM_iff hstep h]
  simp only [and_left_comm (b := _ = t), exists_eq_left]

theorem between?_empty (ends : Stage × Stage) : between? ∅ ends = none := by
  rw [between?, Std.ExtTreeMap.getElem?_empty]
  rfl

theorem ofList_ok_iff (transitions : List Transition) :
    (∃ table, ofList transitions = .ok table) ↔ (openEnds transitions).Nodup := by
  rw [ofList, foldlM_insert_ok_iff]
  simp [between?_empty]

theorem between?_ofList {transitions : List Transition} {table : TransitionTable}
    (h : ofList transitions = .ok table) (ends : Stage × Stage) (t : Transition) :
    table.between? ends = some t ↔ t ∈ transitions ∧ t.Open ∧ t.ends = ends := by
  rw [between?_foldlM_insert h, between?_empty]
  simp

end TransitionTable

namespace Graph

variable {g : Graph} {s : Stage} {t : Transition}

theorem transition?_eq (g : Graph) (source target : Stage) :
    g.transition? source target = g.table.between? (source, target) := rfl

theorem mem_successors : t ∈ g.successors s ↔ ∃ d, g.table.between? (s, d) = some t := by
  unfold successors TransitionTable.between?
  cases hs : g.table[s]? with
  | none => simp [hs]
  | some targets =>
    simp only [hs, Option.bind_some]
    exact mem_values

theorem mem_transitions (h : t ∈ g.successors s) : t ∈ g.transitions := by
  unfold successors at h
  split at h
  · rename_i targets hs
    exact List.mem_flatMap.mpr ⟨targets, mem_values.mpr ⟨s, hs⟩, h⟩
  · simp at h

theorem exists_mem_successors (h : t ∈ g.transitions) : ∃ r, t ∈ g.successors r := by
  obtain ⟨targets, htargets, ht⟩ := List.mem_flatMap.mp h
  obtain ⟨r, hr⟩ := mem_values.mp htargets
  exact ⟨r, by rw [successors, hr]; exact ht⟩

end Graph
end Dataplane
