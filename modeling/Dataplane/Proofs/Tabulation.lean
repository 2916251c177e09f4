import Dataplane.Proofs.Distinct

/-! A table keeps all transitions of its list that some packet can take, and nothing else. -/
namespace Dataplane

/-- Some packet can take each of the two transitions, and they have the same ends. -/
def Transition.Clashes (t u : Transition) : Prop := t.Open ∧ u.Open ∧ t.ends = u.ends

namespace TransitionTable

variable {table : TransitionTable} {t : Transition}

theorem nodup_openEnds_iff (transitions : List Transition) :
    (openEnds transitions).Nodup ↔ transitions.Pairwise fun t u => ¬t.Clashes u := by
  rw [openEnds, List.Nodup, List.pairwise_map, List.pairwise_filter]
  simp only [decide_eq_true_eq, Transition.Clashes, not_and, Ne]

theorem insert_eq_error {e : ModelError} :
    table.insert t = .error e ↔ t.Open ∧ (∃ u, table.between? t.ends = some u) ∧
      e = .duplicateTransition t.source t.target := by
  by_cases ht : t.Open
  · rw [insert_of_open ht, ← Option.isSome_iff_exists]
    split
    · rename_i hused
      simp [ht, hused, eq_comm]
    · rename_i hfree
      simp [hfree]
  · rw [insert_of_not_open ht]
    simp [ht]

/-- A list without clashes is in the table, so a transition clashes with one of the list if its ends
are in use. -/
theorem exists_clashes_iff {before : List Transition} (h : ofList before = .ok table)
    (t : Transition) :
    (∃ u ∈ before, u.Clashes t) ↔ t.Open ∧ ∃ u, table.between? t.ends = some u := by
  simp only [between?_ofList h, Transition.Clashes]
  constructor
  · intro h
    obtain ⟨u, hu, hopen, ht, hends⟩ := h
    exact ⟨ht, u, hu, hopen, hends⟩
  · intro h
    obtain ⟨ht, u, hu, hopen, hends⟩ := h
    exact ⟨u, hu, hopen, ht, hends⟩

/-- The first transition that clashes with an earlier one is reported. -/
theorem ofList_eq_error {transitions : List Transition} {e : ModelError} :
    ofList transitions = .error e ↔ ∃ before t after, transitions = before ++ t :: after ∧
      (before.Pairwise fun u u' => ¬u.Clashes u') ∧ (∃ u ∈ before, u.Clashes t) ∧
      e = .duplicateTransition t.source t.target := by
  rw [ofList, foldlM_eq_error]
  constructor
  · intro h
    obtain ⟨before, t, after, table, rfl, hbefore, ht⟩ := h
    obtain ⟨hopen, hused, rfl⟩ := insert_eq_error.mp ht
    have hnodup := (ofList_ok_iff before).mp ⟨table, hbefore⟩
    exact ⟨before, t, after, rfl, (nodup_openEnds_iff before).mp hnodup,
      (exists_clashes_iff hbefore t).mpr ⟨hopen, hused⟩, rfl⟩
  · intro h
    obtain ⟨before, t, after, rfl, hapart, hclash, rfl⟩ := h
    have hnodup := (nodup_openEnds_iff before).mpr hapart
    obtain ⟨table, hbefore⟩ := (ofList_ok_iff before).mpr hnodup
    obtain ⟨hopen, hused⟩ := (exists_clashes_iff hbefore t).mp hclash
    exact ⟨before, t, after, table, rfl, hbefore, insert_eq_error.mpr ⟨hopen, hused, rfl⟩⟩

/-- Stages without a transition have no entry. -/
def Tight (table : TransitionTable) : Prop :=
  ∀ (source : Stage) (targets : Std.ExtTreeMap Stage Transition),
    table[source]? = some targets → targets ≠ ∅

theorem Tight.insert {next : TransitionTable} (h : table.insert t = .ok next)
    (htight : table.Tight) : next.Tight := by
  rcases insert_eq_ok h with ⟨_, rfl⟩ | ⟨_, _, rfl⟩
  · exact htight
  · intro source targets htargets
    rw [Std.ExtTreeMap.getElem?_insert] at htargets
    split at htargets
    · cases htargets
      exact Std.ExtTreeMap.insert_ne_empty
    · exact htight source targets htargets

theorem tight_ofList {transitions : List Transition} (h : ofList transitions = .ok table) :
    table.Tight :=
  foldlM_keeps (fun _ _ _ => Tight.insert) h fun _ _ h => by simp at h

theorem Tight.getElem?_eq_none (h : table.Tight) (source : Stage) :
    table[source]? = none ↔ ∀ target, table.between? (source, target) = none := by
  cases hsource : table[source]? with
  | none => simp [between?, hsource]
  | some targets =>
    have hne := h source targets hsource
    rw [Ne, Std.ExtTreeMap.eq_empty_iff_forall_not_mem] at hne
    simpa [between?, hsource] using hne

/-- The transitions between stages determine a tight table. -/
theorem Tight.ext {other : TransitionTable} (h : table.Tight) (hother : other.Tight)
    (heq : ∀ ends, table.between? ends = other.between? ends) : table = other := by
  apply Std.ExtTreeMap.ext_getElem?
  intro source
  have hnone : table[source]? = none ↔ other[source]? = none := by
    rw [h.getElem?_eq_none, hother.getElem?_eq_none]
    simp only [heq]
  cases hs : table[source]? with
  | none => rw [hnone.mp hs]
  | some targets =>
    cases hs' : other[source]? with
    | none => simp [hs, hs'] at hnone
    | some targets' =>
      congr 1
      apply Std.ExtTreeMap.ext_getElem?
      intro target
      simpa [between?, hs, hs'] using heq (source, target)

theorem ofList_perm {transitions other : List Transition} (hperm : other.Perm transitions)
    (h : ofList transitions = .ok table) : ofList other = .ok table := by
  have hends : (openEnds other).Perm (openEnds transitions) := (hperm.filter _).map _
  have hnodup := (ofList_ok_iff transitions).mp ⟨table, h⟩
  obtain ⟨table', h'⟩ := (ofList_ok_iff other).mpr (hends.nodup_iff.mpr hnodup)
  have heq (ends : Stage × Stage) : table'.between? ends = table.between? ends := by
    refine Option.ext fun t => ?_
    rw [between?_ofList h', between?_ofList h, hperm.mem_iff]
  rw [h', (tight_ofList h').ext (tight_ofList h) heq]

end TransitionTable

namespace Graph

variable {g : Graph}

theorem mem_transitions_iff {t : Transition} :
    t ∈ g.transitions ↔ ∃ ends, g.table.between? ends = some t := by
  constructor
  · intro h
    obtain ⟨source, h⟩ := exists_mem_successors h
    obtain ⟨target, h⟩ := mem_successors.mp h
    exact ⟨(source, target), h⟩
  · intro h
    obtain ⟨⟨source, target⟩, h⟩ := h
    exact mem_transitions (mem_successors.mpr ⟨target, h⟩)

/-- Where every transition is stored under its ends, none is listed twice. -/
theorem nodup_transitions (h : ∀ ends t, g.table.between? ends = some t → t.ends = ends) :
    g.transitions.Nodup := by
  have hends {source target : Stage} {targets} {t : Transition}
      (htargets : (source, targets) ∈ g.table.toList) (ht : (target, t) ∈ targets.toList) :
      t.ends = (source, target) := by
    rw [Std.ExtTreeMap.mem_toList_iff_getElem?_eq_some] at htargets ht
    refine h (source, target) t ?_
    rw [TransitionTable.between?, htargets]
    exact ht
  rw [transitions, values_eq, List.flatMap_map]
  refine nodup_flatMap_of_key Transition.source (nodup_toList g.table) (fun entry hentry => ?_)
    fun entry hentry t ht => ?_
  · rw [values_eq]
    refine nodup_map_of_key (nodup_toList entry.2) fun x hx y hy heq => ?_
    have hsame := (hends hentry hx).symm.trans (heq ▸ hends hentry hy)
    exact (Prod.mk.inj hsame).2
  · rw [values_eq] at ht
    obtain ⟨x, hx, rfl⟩ := List.mem_map.mp ht
    exact (Prod.mk.inj (hends hentry hx)).1

/-- The transitions of a graph are those of its list that some packet can take. -/
theorem transitions_perm {transitions : List Transition}
    (h : TransitionTable.ofList transitions = .ok g.table) :
    g.transitions.Perm (transitions.filter (·.Open)) := by
  have hbetween := TransitionTable.between?_ofList h
  have hopen : (transitions.filter (·.Open)).Nodup :=
    ((TransitionTable.ofList_ok_iff transitions).mp ⟨_, h⟩).of_map
  have hlisted := g.nodup_transitions fun ends t ht => ((hbetween ends t).mp ht).2.2
  rw [List.perm_ext_iff_of_nodup hlisted hopen]
  intro t
  simp [mem_transitions_iff, hbetween]

end Graph

namespace TransitionTable

/-- A list makes a table unless two of its transitions clash, and then the first one that clashes
with an earlier one is reported. The table holds every transition that some packet can take, once
and under its ends, has no entry without a transition, and does not depend on the order of the
list. -/
theorem ofList_exact (transitions : List Transition) :
    ((∃ table, ofList transitions = .ok table) ↔
      transitions.Pairwise fun t u => ¬t.Clashes u) ∧
    (∀ table, ofList transitions = .ok table →
      (∀ source target t, table.between? (source, target) = some t ↔
        t ∈ transitions ∧ t.Open ∧ t.source = source ∧ t.target = target) ∧
      (∀ g : Graph, g.table = table → g.transitions.Perm (transitions.filter (·.Open))) ∧
      table.Tight ∧
      ∀ other, other.Perm transitions → ofList other = .ok table) ∧
    ∀ e, ofList transitions = .error e ↔
      ∃ before t after, transitions = before ++ t :: after ∧
        (before.Pairwise fun u u' => ¬u.Clashes u') ∧ (∃ u ∈ before, u.Clashes t) ∧
        e = .duplicateTransition t.source t.target := by
  refine ⟨?_, fun table h => ⟨fun source target t => ?_, ?_, tight_ofList h, ?_⟩,
    fun e => ofList_eq_error⟩
  · rw [ofList_ok_iff, nodup_openEnds_iff]
  · rw [between?_ofList h, Transition.ends, Prod.mk.injEq]
  · rintro g rfl
    exact Graph.transitions_perm h
  · exact fun other hperm => ofList_perm hperm h

end TransitionTable
end Dataplane
