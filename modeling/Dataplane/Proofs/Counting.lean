import Dataplane.Proofs.Fixpoint
import Dataplane.Proofs.Limits
import Mathlib.Data.Fintype.BigOperators

/-! How many steps a solve takes. It takes one for each stage that it reaches at least, and one for
each header that arrives at a stage at most. -/
namespace Dataplane

namespace Valuation

theorem set_set (σ : Valuation) (bit : Bit) (first last : Bool) :
    (σ.set bit first).set bit last = σ.set bit last := by
  funext b
  by_cases hb : b = bit
  · simp [set, hb]
  · simp [set, hb]

theorem set_self (σ : Valuation) (bit : Bit) : σ.set bit (σ bit) = σ := by
  funext b
  by_cases hb : b = bit
  · simp [set, hb]
  · simp [set, hb]

theorem ncard_split (P : Valuation → Prop) (bit : Bit) :
    {σ : Valuation | P σ}.ncard =
      {σ : Valuation | σ bit = false ∧ P σ}.ncard + {σ : Valuation | σ bit = true ∧ P σ}.ncard := by
  have hunion : {σ : Valuation | P σ} =
      {σ : Valuation | σ bit = false ∧ P σ} ∪ {σ : Valuation | σ bit = true ∧ P σ} := by
    ext σ
    cases hσ : σ bit <;> simp [hσ]
  have hdisjoint : Disjoint {σ : Valuation | σ bit = false ∧ P σ} {σ | σ bit = true ∧ P σ} := by
    rw [Set.disjoint_left]
    rintro σ ⟨hfalse, _⟩ ⟨htrue, _⟩
    simp [hfalse] at htrue
  rw [hunion, Set.ncard_union_eq hdisjoint (Set.toFinite _) (Set.toFinite _)]

end Valuation

namespace Diagram

/-- A diagram that does not test a bit is as often true with the bit as without it. -/
theorem ncard_sides {d : Diagram} {bit : Bit}
    (hd : ∀ σ value, d.eval (σ.set bit value) = d.eval σ) :
    {σ : Valuation | σ bit = true ∧ d.eval σ = true}.ncard =
      {σ : Valuation | σ bit = false ∧ d.eval σ = true}.ncard := by
  have himage : (·.set bit true) '' {σ : Valuation | σ bit = false ∧ d.eval σ = true} =
      {σ : Valuation | σ bit = true ∧ d.eval σ = true} := by
    ext τ
    constructor
    · rintro ⟨σ, ⟨_, hσ⟩, rfl⟩
      exact ⟨by simp [Valuation.set], (hd σ true).trans hσ⟩
    · rintro ⟨hbit, hτ⟩
      refine ⟨τ.set bit false, ⟨by simp [Valuation.set], (hd τ false).trans hτ⟩, ?_⟩
      dsimp only
      rw [τ.set_set, ← hbit, τ.set_self]
  have hback : Set.LeftInvOn (fun σ : Valuation => σ.set bit false) (·.set bit true)
      {σ : Valuation | σ bit = false ∧ d.eval σ = true} := by
    rintro σ ⟨hbit, _⟩
    dsimp only
    rw [σ.set_set, ← hbit, σ.set_self]
  rw [← himage, hback.injOn.ncard_image]

theorem models_leaf (value : Bool) : (leaf value).models = if value then 2 ^ 126 else 0 := rfl

theorem models_node (bit : Bit) (low high : Diagram) :
    (node bit low high).models = (low.models + high.models) / 2 := rfl

/-- Models are the valuations at which a reduced diagram is true. -/
theorem Reduced.models_eq {k : Nat} {d : Diagram} (h : Reduced k d) :
    d.models = {σ : Valuation | d.eval σ = true}.ncard := by
  induction d generalizing k with
  | leaf value =>
    cases value with
    | false => simp [models_leaf, eval]
    | true => simp [models_leaf, eval, Set.ncard_univ]
  | node bit low high hl hh =>
    obtain ⟨_, _, hdl, hdh⟩ := h
    have hlow := Valuation.ncard_split (low.eval · = true) bit
    have hhigh := Valuation.ncard_split (high.eval · = true) bit
    have hnode := Valuation.ncard_split ((node bit low high).eval · = true) bit
    have hfalse : {σ : Valuation | σ bit = false ∧ (node bit low high).eval σ = true} =
        {σ | σ bit = false ∧ low.eval σ = true} := by
      ext σ
      cases hσ : σ bit <;> simp [eval, hσ]
    have htrue : {σ : Valuation | σ bit = true ∧ (node bit low high).eval σ = true} =
        {σ | σ bit = true ∧ high.eval σ = true} := by
      ext σ
      cases hσ : σ bit <;> simp [eval, hσ]
    rw [← hl hdl, ncard_sides (hdl.eval_set (Nat.lt_succ_self _))] at hlow
    rw [← hh hdh, ncard_sides (hdh.eval_set (Nat.lt_succ_self _))] at hhigh
    rw [hfalse, htrue, ncard_sides (hdh.eval_set (Nat.lt_succ_self _))] at hnode
    rw [hnode, models_node]
    omega

end Diagram

namespace HeaderSpace

/-- Counting is exact. -/
theorem count_eq_card (s : HeaderSpace) : s.count = s.card :=
  (Diagram.count_eq_models s.diagram).trans s.reduced.models_eq

theorem count_empty : empty.count = 0 := Diagram.count_eq_models (.leaf false)

theorem count_lt_count_union {s t : HeaderSpace} (h : ¬t.subset s = true) :
    s.count < (s.union t).count := by
  rw [count_eq_card, count_eq_card]
  exact card_lt_card_union h

end HeaderSpace

namespace Progress

/-- The number of headers known to arrive, over all stages. -/
def volume (p : Progress) : Nat := ∑ s ∈ p.reached.keys.toFinset, (p.spaceAt s).count

theorem volume_lt_grown {p : Progress} {s : Stage} {packets : HeaderSpace}
    (h : ¬packets.subset (p.spaceAt s) = true) : p.volume < (p.grown s packets).volume := by
  have hkeys : (p.grown s packets).reached.keys.toFinset = insert s p.reached.keys.toFinset := by
    ext r
    rw [List.mem_toFinset, Std.ExtTreeMap.mem_keys, Finset.mem_insert, List.mem_toFinset,
      Std.ExtTreeMap.mem_keys, grown, Std.ExtTreeMap.mem_insert, Std.compare_eq_iff_eq, eq_comm]
  have hvolume : p.volume = ∑ r ∈ insert s p.reached.keys.toFinset, (p.spaceAt r).count := by
    refine (Finset.sum_insert_of_eq_zero_if_notMem fun hs => ?_).symm
    rw [List.mem_toFinset, Std.ExtTreeMap.mem_keys] at hs
    rw [spaceAt, Std.ExtTreeMap.getElem?_eq_none hs]
    exact HeaderSpace.count_empty
  have hlt := HeaderSpace.count_lt_count_union h
  rw [hvolume, volume, hkeys]
  refine Finset.sum_lt_sum (fun r _ => ?_) ⟨s, Finset.mem_insert_self s _, ?_⟩
  · rw [spaceAt_grown]
    split
    · subst r
      exact Nat.le_of_lt hlt
    · exact Nat.le_refl _
  · rw [spaceAt_grown, if_pos rfl]
    exact hlt

/-- Each reached stage is pending or has been passed on, and each time that a stage became pending
it had gained a header. -/
structure Accounted (p : Progress) : Prop extends WellFormed p where
  size_le : p.reached.size ≤ p.iteration + p.pending.length
  le_volume : p.iteration + p.pending.length ≤ p.volume

theorem accounted_empty : ({} : Progress).Accounted :=
  ⟨wellFormed_empty, by simp, by simp⟩

theorem Accounted.grown {p : Progress} (h : p.Accounted) {s : Stage} {packets : HeaderSpace}
    (hnews : ¬packets.subset (p.spaceAt s) = true) : (p.grown s packets).Accounted := by
  have hwf := h.toWellFormed.extend s packets
  rw [extend_eq, if_neg hnews] at hwf
  have hsize := h.size_le
  have hvolume := h.le_volume
  have hlt := volume_lt_grown hnews
  have hiteration : (p.grown s packets).iteration = p.iteration := rfl
  by_cases hq : s ∈ p.queued
  · -- A queued stage has an entry already, so neither the queue nor the table gets longer.
    have hs : p.reached.contains s = true := h.entered s ((h.queued_iff s).mp hq)
    have hpending : (p.grown s packets).pending = p.pending := if_pos hq
    have hentries : (p.grown s packets).reached.size = p.reached.size := by
      rw [Progress.grown, Std.ExtTreeMap.size_insert, if_pos hs]
    refine ⟨hwf, ?_, ?_⟩
    · rw [hentries, hiteration, hpending]
      exact hsize
    · rw [hiteration, hpending]
      omega
  · have hpending : (p.grown s packets).pending = p.pending ++ [s] := if_neg hq
    have hentries : (p.grown s packets).reached.size ≤ p.reached.size + 1 :=
      Std.ExtTreeMap.size_insert_le
    refine ⟨hwf, ?_, ?_⟩
    · rw [hiteration, hpending, List.length_append, List.length_singleton]
      omega
    · rw [hiteration, hpending, List.length_append, List.length_singleton]
      omega

theorem Accounted.extend {p : Progress} (h : p.Accounted) (s : Stage) (packets : HeaderSpace) :
    (p.extend s packets).1.Accounted := by
  rw [extend_eq]
  split
  · exact h
  · rename_i hnews
    exact h.grown hnews

theorem Accounted.extendAll {p : Progress} (h : p.Accounted) (news : List (Stage × HeaderSpace)) :
    (p.extendAll news).Accounted := by
  induction news generalizing p with
  | nil => exact h
  | cons n rest ih => exact ih (h.extend n.1 n.2)

theorem Accounted.pop {p : Progress} (h : p.Accounted) {s : Stage} {rest : List Stage}
    (hp : p.pending = s :: rest) : (p.pop s rest).Accounted := by
  have hsize := h.size_le
  have hvolume := h.le_volume
  rw [hp, List.length_cons] at hsize hvolume
  have hlength : (p.pop s rest).iteration + (p.pop s rest).pending.length =
      p.iteration + (rest.length + 1) := by
    show p.iteration + 1 + rest.length = _
    omega
  refine ⟨h.toWellFormed.pop hp, ?_, ?_⟩
  · rw [hlength]
    exact hsize
  · rw [hlength]
    exact hvolume

theorem Accounted.advance {p : Progress} (h : p.Accounted) (g : Graph) :
    (p.advance g).Accounted := by
  cases hp : p.pending with
  | nil =>
    rw [advance_nil hp]
    exact h
  | cons s rest =>
    rw [advance_cons hp, propagate_eq]
    exact (h.pop hp).extendAll _

end Progress

namespace Graph

/-- Every solve ends, loops and replaced sources notwithstanding. It takes a step for each stage
that it reaches, and not more steps than headers arrive. -/
theorem solve_terminates (g : Graph) (roots : Roots) :
    ∃ (n : Nat) (last : Progress), g.progressAt roots 0 = .ofRoots roots ∧
      (∀ k < n, ∀ limits : Limits, limits.signalled = false → k < limits.maxIterations →
        (g.progressAt roots k).step g limits = ⟨g.progressAt roots (k + 1), .suspended⟩) ∧
      g.progressAt roots n = last ∧
      (∀ limits : Limits, limits.signalled = false →
        last.step g limits = ⟨last, .done ⟨last.reached⟩⟩) ∧
      (∀ k < n, (g.progressAt roots k).pending ≠ []) ∧ last.pending = [] ∧ last.iteration = n ∧
      (∀ limits : Limits, limits.signalled = false → n ≤ limits.maxIterations →
        g.solve roots limits = .ok ⟨last.reached⟩) ∧
      last.reached.size ≤ n ∧
      n ≤ ∑ s ∈ last.reached.keys.toFinset, (last.spaceAt s).count := by
  have hstart : (Progress.ofRoots roots).Accounted :=
    Progress.accounted_empty.extendAll roots.toList
  have hlast : ((Progress.ofRoots roots).drain g).Accounted :=
    Progress.drain_of_advance (fun _ hp => hp.advance g) hstart
  have hpending := Progress.pending_drain g (.ofRoots roots)
  have hsize := hlast.size_le
  have hvolume := hlast.le_volume
  rw [hpending] at hsize hvolume
  refine ⟨g.pops roots, _, rfl, fun k hk limits hsignal hlimit => ?_, g.progressAt_pops roots,
    fun limits hsignal => Progress.step_nil hsignal hpending, fun k hk => pending_progressAt hk,
    hpending, rfl, fun limits hsignal hn => ?_, hsize, hvolume⟩
  · rw [step_progressAt hsignal hk, if_neg (Nat.not_le_of_lt hlimit)]
  · rw [solve_eq, if_neg (by simp [hsignal]), if_pos hn]
    rfl

end Graph
end Dataplane
