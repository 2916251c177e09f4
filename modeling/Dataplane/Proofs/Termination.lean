import Dataplane.Proofs.Assembly
import Dataplane.Proofs.Worklist
import Mathlib.Algebra.Order.BigOperators.Group.Finset
import Mathlib.Data.Set.Card
import Mathlib.Logic.Function.Iterate

/-! Every solve ends. A stage becomes pending only when its packets grow, and there are finitely
many headers. -/
namespace Dataplane

namespace HeaderSpace

/-- The number of headers of a space. -/
noncomputable def card (s : HeaderSpace) : Nat := {σ : Valuation | s.eval σ = true}.ncard

theorem card_le_card {s t : HeaderSpace} (h : s.subset t = true) : s.card ≤ t.card :=
  Set.ncard_le_ncard ((s.subset_iff t).mp h) (Set.toFinite _)

theorem card_le_full (s : HeaderSpace) : s.card ≤ full.card :=
  card_le_card ((s.subset_iff full).mpr fun σ _ => eval_full σ)

theorem card_lt_card_union {s t : HeaderSpace} (h : ¬t.subset s = true) :
    s.card < (s.union t).card := by
  refine Set.ncard_lt_ncard ⟨(s.subset_iff _).mp (s.subset_union_left t), fun hback => h ?_⟩
    (Set.toFinite _)
  rw [subset_iff]
  intro σ hσ
  exact hback (by simp [hσ])

end HeaderSpace

namespace Progress

/-- The number of headers that may still arrive at the stages of `targets`. -/
noncomputable def room (targets : Finset Stage) (p : Progress) : Nat :=
  ∑ s ∈ targets, (HeaderSpace.full.card - (p.spaceAt s).card)

/-- An upper bound for the number of steps that are left. -/
noncomputable def effort (targets : Finset Stage) (p : Progress) : Nat :=
  p.room targets + p.pending.length

variable {targets : Finset Stage}

theorem room_grown_lt {p : Progress} {s : Stage} {packets : HeaderSpace} (hs : s ∈ targets)
    (h : ¬packets.subset (p.spaceAt s) = true) :
    (p.grown s packets).room targets < p.room targets := by
  have hlt := HeaderSpace.card_lt_card_union h
  have hle := ((p.spaceAt s).union packets).card_le_full
  refine Finset.sum_lt_sum (fun r _ => ?_) ⟨s, hs, ?_⟩
  · rw [spaceAt_grown]
    split
    · subst r
      omega
    · exact Nat.le_refl _
  · rw [spaceAt_grown, if_pos rfl]
    omega

theorem effort_extend_le (p : Progress) {s : Stage} (hs : s ∈ targets) (packets : HeaderSpace) :
    (p.extend s packets).1.effort targets ≤ p.effort targets := by
  rw [extend_eq]
  split
  · exact Nat.le_refl _
  · rename_i hsub
    have hroom := room_grown_lt hs hsub
    have hpending : (p.grown s packets).pending.length ≤ p.pending.length + 1 := by
      simp only [grown]
      split
      · omega
      · simp
    simp only [effort]
    omega

theorem effort_extendAll_le (p : Progress) {news : List (Stage × HeaderSpace)}
    (h : ∀ n ∈ news, n.1 ∈ targets) : (p.extendAll news).effort targets ≤ p.effort targets := by
  induction news generalizing p with
  | nil => exact Nat.le_refl _
  | cons n rest ih =>
    exact Nat.le_trans (ih _ fun m hm => h m (List.mem_cons_of_mem _ hm))
      (p.effort_extend_le (h n List.mem_cons_self) n.2)

end Progress

namespace Graph

/-- The stages that some transition leads to. -/
def targets (g : Graph) : Finset Stage := (g.transitions.map Transition.target).toFinset

theorem mem_targets {g : Graph} {s : Stage} {t : Transition} (h : t ∈ g.successors s) :
    t.target ∈ g.targets := List.mem_toFinset.mpr (List.mem_map_of_mem (mem_transitions h))

end Graph

namespace Progress

variable {g : Graph}

theorem iteration_advance {p : Progress} (hp : p.pending ≠ []) :
    (p.advance g).iteration = p.iteration + 1 := by
  obtain ⟨s, rest, hp⟩ := List.exists_cons_of_ne_nil hp
  rw [advance_cons hp, iteration_propagate]
  rfl

/-- Each step takes one stage off the queue, and every stage that it adds uses up headers. -/
theorem effort_advance_lt {p : Progress} (hp : p.pending ≠ []) :
    (p.advance g).effort g.targets < p.effort g.targets := by
  obtain ⟨s, rest, hp⟩ := List.exists_cons_of_ne_nil hp
  have hpop : (p.pop s rest).effort g.targets + 1 = p.effort g.targets := by
    simp only [effort, hp, List.length_cons]
    rfl
  have hpass : (p.advance g).effort g.targets ≤ (p.pop s rest).effort g.targets := by
    rw [advance_cons hp, propagate_eq]
    apply effort_extendAll_le
    simp only [List.mem_map]
    rintro n ⟨t, ht, rfl⟩
    exact Graph.mem_targets ht
  omega

/-- Steps that nothing stops, until no stage is pending. -/
def drain (g : Graph) (p : Progress) : Progress :=
  if p.pending = [] then p else (p.advance g).drain g
termination_by p.effort g.targets
decreasing_by
  exact effort_advance_lt ‹_›

theorem drain_nil {p : Progress} (hp : p.pending = []) : p.drain g = p := by
  rw [drain, if_pos hp]

@[simp] theorem drain_advance (p : Progress) : (p.advance g).drain g = p.drain g := by
  by_cases hp : p.pending = []
  · rw [advance_nil hp]
  · symm
    rw [drain, if_neg hp]

theorem pending_drain (g : Graph) (p : Progress) : (p.drain g).pending = [] := by
  fun_induction drain g p with
  | case1 p hp => exact hp
  | case2 p _ ih => exact ih

/-- What every step keeps holds in the end. -/
theorem drain_of_advance {P : Progress → Prop} (hstep : ∀ p, P p → P (p.advance g)) {p : Progress}
    (hp : P p) : P (p.drain g) := by
  fun_induction drain g p with
  | case1 => exact hp
  | case2 p _ ih => exact ih (hstep p hp)

theorem iteration_le_drain (g : Graph) (p : Progress) : p.iteration ≤ (p.drain g).iteration := by
  fun_induction drain g p with
  | case1 => exact Nat.le_refl _
  | case2 p hp ih =>
    rw [iteration_advance hp] at ih
    omega

/-- Iterations are left exactly while a stage is pending. -/
theorem iteration_lt_drain {p : Progress} :
    p.iteration < (p.drain g).iteration ↔ p.pending ≠ [] := by
  constructor
  · intro h hp
    rw [drain_nil hp] at h
    omega
  · intro hp
    have hle := iteration_le_drain g (p.advance g)
    rw [drain_advance, iteration_advance hp] at hle
    omega

/-- Without a signal, a run has an outcome if and only if the limit allows the steps it needs. If it
does not, the run stops in the state after the steps that are allowed. -/
theorem run_eq {limits : Limits} {p : Progress} (hp : p.iteration ≤ limits.maxIterations) :
    p.run g limits =
      if limits.signalled then (p, .error .signal)
      else if (p.drain g).iteration ≤ limits.maxIterations then
        (p.drain g, .ok ⟨(p.drain g).reached⟩)
      else ((advance g)^[limits.maxIterations - p.iteration] p, .error .iterationLimit) := by
  fun_induction run g limits p with
  | case1 p next hs ih =>
    have hiteration := iteration_of_step hs
    obtain ⟨hsignal, _, rfl⟩ := step_suspended hs
    have hleft : limits.maxIterations - p.iteration =
        limits.maxIterations - (p.advance g).iteration + 1 := by omega
    rw [ih (by omega), drain_advance, hleft, Function.iterate_succ_apply]
    simp only [hsignal, Bool.false_eq_true, if_false]
  | case2 p last outcome hs =>
    obtain ⟨hsignal, hpending, rfl, rfl⟩ := step_done hs
    rw [if_neg (by simp [hsignal]), drain_nil hpending, if_pos hp]
  | case3 p last cause hs =>
    obtain ⟨rfl, ⟨hsignal, rfl⟩ | ⟨hsignal, hpending, hlimit, rfl⟩⟩ := step_interrupted hs
    · rw [if_pos hsignal]
    · have hlt := iteration_lt_drain (g := g).mpr hpending
      have hleft : limits.maxIterations - last.iteration = 0 := by omega
      rw [if_neg (by simp [hsignal]), if_neg (by omega), hleft, Function.iterate_zero_apply]

theorem iteration_extendAll (p : Progress) (news : List (Stage × HeaderSpace)) :
    (p.extendAll news).iteration = p.iteration := by
  induction news generalizing p with
  | nil => rfl
  | cons n rest ih => exact (ih _).trans (iteration_extend p n.1 n.2)

theorem iteration_ofRoots (roots : Roots) : (ofRoots roots).iteration = 0 :=
  iteration_extendAll {} roots.toList

end Progress

namespace Graph

/-- The number of steps that a solve takes if nothing stops it. -/
def pops (g : Graph) (roots : Roots) : Nat := ((Progress.ofRoots roots).drain g).iteration

/-- What a solve finds if nothing stops it. -/
def outcome (g : Graph) (roots : Roots) : Outcome := ⟨((Progress.ofRoots roots).drain g).reached⟩

theorem solve_eq (g : Graph) (roots : Roots) (limits : Limits) :
    g.solve roots limits =
      if limits.signalled then .error .signal
      else if g.pops roots ≤ limits.maxIterations then .ok (g.outcome roots)
      else .error .iterationLimit := by
  have hstart := Progress.iteration_ofRoots roots
  rw [solve, Progress.run_eq (by omega), apply_ite Prod.snd, apply_ite Prod.snd]
  rfl

theorem solve_eq_ok {g : Graph} {roots : Roots} {limits : Limits} {o : Outcome}
    (h : g.solve roots limits = .ok o) : o = g.outcome roots := by
  rw [solve_eq] at h
  split_ifs at h
  exact (Except.ok.inj h).symm

/-- With enough iterations and no signal, a solve has an outcome. -/
theorem exists_solve_ok (g : Graph) (roots : Roots) :
    ∃ n, ∀ limits : Limits, limits.signalled = false → n ≤ limits.maxIterations →
      ∃ o, g.solve roots limits = .ok o := by
  refine ⟨g.pops roots, fun limits hsignal hn => ⟨g.outcome roots, ?_⟩⟩
  rw [solve_eq, if_neg (by simp [hsignal]), if_pos hn]

end Graph
end Dataplane
