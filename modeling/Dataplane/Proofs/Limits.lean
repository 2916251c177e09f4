import Dataplane.Proofs.Fixpoint
import Dataplane.Proofs.Intervals

/-! What a limit changes: a solve that needs more steps stops there, and can be resumed. -/
namespace Dataplane

namespace Progress

variable {g : Graph}

theorem drain_iterate (p : Progress) (k : Nat) : ((advance g)^[k] p).drain g = p.drain g := by
  induction k with
  | zero => rfl
  | succ k ih => rw [Function.iterate_succ_apply', drain_advance, ih]

theorem iteration_iterate {p : Progress} {k : Nat} (hk : p.iteration + k ≤ (p.drain g).iteration) :
    ((advance g)^[k] p).iteration = p.iteration + k := by
  induction k with
  | zero => rfl
  | succ k ih =>
    have hprev := ih (by omega)
    have hpending : ((advance g)^[k] p).pending ≠ [] := by
      rw [← iteration_lt_drain (g := g), drain_iterate, hprev]
      omega
    rw [Function.iterate_succ_apply', iteration_advance hpending, hprev]
    omega

theorem iterate_eq_drain {p : Progress} {k : Nat} (hk : p.iteration + k = (p.drain g).iteration) :
    (advance g)^[k] p = p.drain g := by
  have hpending : ((advance g)^[k] p).pending = [] := by
    by_contra hne
    rw [← ne_eq, ← iteration_lt_drain (g := g), drain_iterate, iteration_iterate (by omega)] at hne
    omega
  rw [← drain_iterate p k, drain_nil hpending]

end Progress

namespace Graph

variable {g : Graph} {roots : Roots}

/-- A solve that nothing stops, after a number of steps. -/
def progressAt (g : Graph) (roots : Roots) (k : Nat) : Progress :=
  (Progress.advance g)^[k] (.ofRoots roots)

theorem iteration_progressAt {k : Nat} (hk : k ≤ g.pops roots) :
    (g.progressAt roots k).iteration = k := by
  have hstart := Progress.iteration_ofRoots roots
  have h := Progress.iteration_iterate (g := g) (p := .ofRoots roots) (k := k)
  rw [hstart, Nat.zero_add] at h
  exact h hk

theorem pending_progressAt {k : Nat} (hk : k < g.pops roots) :
    (g.progressAt roots k).pending ≠ [] := by
  have hiteration := iteration_progressAt (Nat.le_of_lt hk)
  rw [← Progress.iteration_lt_drain (g := g), hiteration, progressAt, Progress.drain_iterate]
  exact hk

theorem progressAt_pops (g : Graph) (roots : Roots) :
    g.progressAt roots (g.pops roots) = (Progress.ofRoots roots).drain g := by
  have hstart := Progress.iteration_ofRoots roots
  exact Progress.iterate_eq_drain (by rw [hstart, Nat.zero_add]; rfl)

/-- While a stage is pending, only the limit stops the next step, and leaves the state as it is. -/
theorem step_progressAt {limits : Limits} (hsignal : limits.signalled = false) {k : Nat}
    (hk : k < g.pops roots) :
    (g.progressAt roots k).step g limits = if limits.maxIterations ≤ k
      then ⟨g.progressAt roots k, .interrupted .iterationLimit⟩
      else ⟨g.progressAt roots (k + 1), .suspended⟩ := by
  have hnext : (g.progressAt roots k).advance g = g.progressAt roots (k + 1) :=
    (Function.iterate_succ_apply' _ _ _).symm
  rw [Progress.step_eq, if_neg (by simp [hsignal]), if_neg (pending_progressAt hk),
    iteration_progressAt (Nat.le_of_lt hk), hnext]

/-- When the steps are done, so is the solve. -/
theorem step_progressAt_pops {limits : Limits} (hsignal : limits.signalled = false) :
    (g.progressAt roots (g.pops roots)).step g limits =
      ⟨g.progressAt roots (g.pops roots), .done (g.outcome roots)⟩ := by
  have hpending := Progress.pending_drain g (.ofRoots roots)
  rw [progressAt_pops, Progress.step_nil hsignal hpending]
  rfl

/-- From each of its states, a solve is taken to its end, or as far as the limit allows. -/
theorem run_progressAt {limits : Limits} (hsignal : limits.signalled = false) {k : Nat}
    (hk : k ≤ g.pops roots) (hlimit : k ≤ limits.maxIterations) :
    (g.progressAt roots k).run g limits = if g.pops roots ≤ limits.maxIterations
      then (g.progressAt roots (g.pops roots), .ok (g.outcome roots))
      else (g.progressAt roots limits.maxIterations, .error .iterationLimit) := by
  have hiteration := iteration_progressAt hk
  have hdrain : (g.progressAt roots k).drain g = (Progress.ofRoots roots).drain g :=
    Progress.drain_iterate _ k
  have hstop : (Progress.advance g)^[limits.maxIterations - k] (g.progressAt roots k) =
      g.progressAt roots limits.maxIterations := by
    rw [progressAt, ← Function.iterate_add_apply, Nat.sub_add_cancel hlimit, progressAt]
  rw [Progress.run_eq (by omega), if_neg (by simp [hsignal]), hdrain, hiteration, hstop,
    progressAt_pops]
  rfl

/-- While a packet is not known at a stage that it reaches, steps are left. -/
theorem lt_pops_of_unknown {k : Nat} (hk : k ≤ g.pops roots) {s : Stage} {q : Packet}
    (hreaches : g.Reaches roots s q)
    (hunknown : ¬((g.progressAt roots k).spaceAt s).contains q = true) : k < g.pops roots := by
  refine Nat.lt_of_le_of_ne hk fun hlast => hunknown ?_
  have hinvariant := (Progress.Invariant.ofRoots g roots).drain
  rw [hlast, progressAt_pops]
  exact hinvariant.complete (Progress.pending_drain g _) hreaches

/-- The limit is exact. A solve that no limit stops goes through `pops` steps to its outcome. Under
a limit it has an outcome if and only if these steps are allowed, and always the same one. A lower
limit stops it after as many steps as are allowed, in the state of the solve that no limit stops:
the step that is refused leaves this state as it is, and from there the solve can be resumed. -/
theorem solve_limit_exact (g : Graph) (roots : Roots) (m : Nat) :
    (g.progressAt roots 0 = .ofRoots roots ∧
      ∀ limits : Limits, limits.signalled = false → g.pops roots ≤ limits.maxIterations →
        (∀ k < g.pops roots, (g.progressAt roots k).step g limits =
          ⟨g.progressAt roots (k + 1), .suspended⟩) ∧
        (g.progressAt roots (g.pops roots)).step g limits =
          ⟨g.progressAt roots (g.pops roots), .done (g.outcome roots)⟩) ∧
    ((∃ o, g.solve roots { maxIterations := m } = .ok o) ↔ g.pops roots ≤ m) ∧
    (g.pops roots ≤ m → g.solve roots { maxIterations := m } = .ok (g.outcome roots)) ∧
    (m < g.pops roots →
      g.solve roots { maxIterations := m } = .error .iterationLimit ∧
      (Progress.ofRoots roots).run g { maxIterations := m } =
        (g.progressAt roots m, .error .iterationLimit) ∧
      (∀ k < m, (g.progressAt roots k).step g { maxIterations := m } =
        ⟨g.progressAt roots (k + 1), .suspended⟩) ∧
      (g.progressAt roots m).step g { maxIterations := m } =
        ⟨g.progressAt roots m, .interrupted .iterationLimit⟩ ∧
      (g.progressAt roots m).iteration = m ∧
      ∀ limit, g.pops roots ≤ limit →
        (((Progress.ofRoots roots).run g { maxIterations := m }).1.run g
          { maxIterations := limit }).2 = .ok (g.outcome roots)) := by
  have hsolve : g.solve roots { maxIterations := m } =
      if g.pops roots ≤ m then .ok (g.outcome roots) else .error .iterationLimit :=
    g.solve_eq roots { maxIterations := m }
  have hrun (hm : m < g.pops roots) : (Progress.ofRoots roots).run g { maxIterations := m } =
      (g.progressAt roots m, .error .iterationLimit) :=
    (run_progressAt rfl (Nat.zero_le _) (Nat.zero_le m)).trans (if_neg (Nat.not_le_of_lt hm))
  refine ⟨⟨rfl, fun limits hsignal hlimit => ⟨fun k hk => ?_, step_progressAt_pops hsignal⟩⟩, ?_,
    fun hm => ?_, fun hm => ⟨?_, hrun hm, fun k hk => ?_, ?_, ?_, fun limit hlimit => ?_⟩⟩
  · rw [step_progressAt hsignal hk, if_neg (by omega)]
  · rw [hsolve]
    split_ifs with hm
    · simp [hm]
    · simp [hm]
  · rw [hsolve, if_pos hm]
  · rw [hsolve, if_neg (by omega)]
  · rw [step_progressAt rfl (by omega), if_neg (by dsimp only; omega)]
  · rw [step_progressAt rfl hm, if_pos (Nat.le_refl m)]
  · exact iteration_progressAt (Nat.le_of_lt hm)
  · have hresume : m ≤ limit := by omega
    rw [hrun hm, run_progressAt rfl (Nat.le_of_lt hm) hresume, if_pos hlimit]

/-- Packets of one source, at one end of the loop. -/
def wireRoots : Roots := {(.preNat wire, .value .srcIp 9)}

theorem contains_wireRoots {s : Stage} {q : Packet}
    (h : ((Progress.ofRoots wireRoots).spaceAt s).contains q = true) :
    s = .preNat wire ∧ q.srcIp = 9 := by
  obtain ⟨x, hx, hq⟩ := (Progress.contains_ofRoots wireRoots s q).mp h
  have hkeys : ∀ s ∈ wireRoots.keys, s = .preNat wire := by decide
  obtain rfl := hkeys s (Std.ExtTreeMap.mem_keys.mpr (mem_iff_exists.mpr ⟨x, hx⟩))
  obtain rfl : x = .value .srcIp 9 := (Option.some.inj hx).symm
  have hsource := (HeaderSpace.contains_value_of_lt (by decide) (by decide) q).mp hq
  exact ⟨rfl, UInt32.toNat_inj.mp hsource⟩

/-- A TCP packet goes round the loop once and comes back with another source. -/
theorem reaches_natLoop : natLoop.Reaches wireRoots (.postNat wire) (.probe 1 6) ∧
    natLoop.Reaches wireRoots (.preNat wire) (.probe 1 6) := by
  have hstart : natLoop.Reaches wireRoots (.preNat wire) (.probe 9 6) :=
    .root rfl ((HeaderSpace.contains_value .srcIp 9 _).mpr rfl)
  have htcp := (HeaderSpace.contains_value .ipProtocol 6 (.probe 9 6)).mpr rfl
  have hpool : (HeaderSpace.range .srcIp 1 2).contains (.probe 1 6) = true :=
    (HeaderSpace.contains_range_of_lt (by decide) (by decide) (by decide) _).mpr (by decide)
  have hnat : NatRule.Rewrites [⟨.value .ipProtocol 6, .range .srcIp 1 2⟩] (.probe 9 6)
      (.probe 1 6) :=
    (NatRule.rewrites_cons_of_pos htcp [] _).mpr ⟨(Packet.agreeOff_srcIp_iff _ _).mpr rfl, hpool⟩
  have hthere : natLoop.Reaches wireRoots (.postNat wire) (.probe 1 6) :=
    hstart.move ⟨_, List.mem_singleton.mpr rfl, rfl, HeaderSpace.contains_full _, hnat⟩
  exact ⟨hthere, hthere.move ⟨_, List.mem_singleton.mpr rfl, rfl, HeaderSpace.contains_full _, rfl⟩⟩

theorem one_lt_pops_natLoop : 1 < natLoop.pops wireRoots := by
  obtain ⟨hthere, hback⟩ := reaches_natLoop
  have hfirst : 0 < natLoop.pops wireRoots :=
    lt_pops_of_unknown (Nat.zero_le _) hthere fun hq => by
      cases (contains_wireRoots hq).1
  refine lt_pops_of_unknown hfirst hback fun hq => ?_
  obtain ⟨s, rest, hp⟩ := List.exists_cons_of_ne_nil (pending_progressAt hfirst)
  have hnext : natLoop.progressAt wireRoots 1 = _ := Progress.advance_cons hp
  rw [hnext, Progress.contains_propagate] at hq
  rcases hq with hq | ⟨t, ht, htarget, hq⟩
  · exact absurd (contains_wireRoots hq).2 (by decide)
  · obtain ⟨p, hp, _⟩ := (t.contains_traverse _ _).mp hq
    obtain ⟨rfl, _⟩ := contains_wireRoots hp
    obtain rfl := List.mem_singleton.mp ht
    cases htarget

/-- Neither no step nor one is enough for the loop. After one step it can be resumed. -/
theorem solve_limit_exact_natLoop : 1 < natLoop.pops wireRoots ∧
    natLoop.solve wireRoots { maxIterations := 0 } = .error .iterationLimit ∧
    (Progress.ofRoots wireRoots).step natLoop { maxIterations := 0 } =
      ⟨.ofRoots wireRoots, .interrupted .iterationLimit⟩ ∧
    natLoop.solve wireRoots { maxIterations := 1 } = .error .iterationLimit ∧
    (natLoop.progressAt wireRoots 1).iteration = 1 ∧
    (natLoop.progressAt wireRoots 1).step natLoop { maxIterations := 1 } =
      ⟨natLoop.progressAt wireRoots 1, .interrupted .iterationLimit⟩ ∧
    (((Progress.ofRoots wireRoots).run natLoop { maxIterations := 1 }).1.run natLoop
      { maxIterations := natLoop.pops wireRoots }).2 = .ok (natLoop.outcome wireRoots) := by
  have hpops := one_lt_pops_natLoop
  obtain ⟨hsolve, _, _, hstop, _⟩ := (solve_limit_exact natLoop wireRoots 0).2.2.2 (by omega)
  obtain ⟨hsolve', _, _, hstop', hiteration, hresume⟩ :=
    (solve_limit_exact natLoop wireRoots 1).2.2.2 hpops
  exact ⟨hpops, hsolve, hstop, hsolve', hiteration, hstop', hresume _ (Nat.le_refl _)⟩

end Graph
end Dataplane
