import Dataplane.Proofs.Origins
import Dataplane.Proofs.Projection

/-! Queries of a coarse graph find at least what the precise graph finds, and do not tell packets
with the same destination apart. -/
namespace Dataplane

/-- A coarse rule applies to more packets, and any source may come of it. -/
theorem NatRule.Rewrites.coarse {rules : List NatRule} {p q : Packet} (h : Rewrites rules p q) :
    Rewrites (rules.map NatRule.coarse) p q := by
  induction rules with
  | nil => exact h
  | cons rule rest ih =>
    by_cases hcoarse : rule.coarse.condition.contains p = true
    · exact (rewrites_cons_of_pos hcoarse _ q).mpr ⟨h.agreeOff, HeaderSpace.contains_full q⟩
    · have hprecise : ¬rule.condition.contains p = true := fun hp =>
        hcoarse (HeaderSpace.contains_projectDstIp_of_contains hp)
      exact (rewrites_cons_of_neg hcoarse _ q).mpr (ih ((rewrites_cons_of_neg hprecise _ q).mp h))

/-- Also the source that a packet has may come of a coarse rule. -/
theorem NatRule.rewrites_coarse_self (rules : List NatRule) (p : Packet) :
    Rewrites (rules.map NatRule.coarse) p p := by
  induction rules with
  | nil => rfl
  | cons rule rest ih =>
    by_cases hcoarse : rule.coarse.condition.contains p = true
    · exact (rewrites_cons_of_pos hcoarse _ p).mpr ⟨.refl _ p, HeaderSpace.contains_full p⟩
    · exact (rewrites_cons_of_neg hcoarse _ p).mpr ih

namespace Transition

theorem Crosses.coarse {t : Transition} {p q : Packet} (h : t.Crosses p q) : t.coarse.Crosses p q :=
  ⟨HeaderSpace.contains_projectDstIp_of_contains h.1, h.2.coarse⟩

theorem crosses_coarse_self {t : Transition} {p q r : Packet} (h : t.coarse.Crosses p q)
    (hr : r.dstIp = p.dstIp) : t.coarse.Crosses r r := by
  refine ⟨?_, NatRule.rewrites_coarse_self t.nat r⟩
  rw [← h.1]
  exact t.guard.dstOnly_projectDstIp r p hr

end Transition

namespace Graph

variable {g : Graph}

theorem mem_successors_coarse {s : Stage} {t : Transition} :
    t ∈ g.coarse.successors s ↔ ∃ t' ∈ g.successors s, t'.coarse = t := by
  simp only [mem_successors, ← transition?_eq, transition?_coarse, Option.map_eq_some_iff]
  constructor
  · intro h
    obtain ⟨d, t', ht', rfl⟩ := h
    exact ⟨t', ⟨d, ht'⟩, rfl⟩
  · intro h
    obtain ⟨t', ⟨d, ht'⟩, rfl⟩ := h
    exact ⟨d, t', ht', rfl⟩

theorem Moves.coarse {a b : Stage × Packet} (h : g.Moves a b) : g.coarse.Moves a b := by
  obtain ⟨t, ht, htarget, hcross⟩ := h
  exact ⟨t.coarse, mem_successors_coarse.mpr ⟨t, ht, rfl⟩, htarget, hcross.coarse⟩

/-- In a coarse graph a packet can follow any other one to the same destination, unchanged. -/
theorem path_coarse_self {r s : Stage} {p q : Packet}
    (h : Relation.ReflTransGen g.coarse.Moves (r, p) (s, q)) {x : Packet} (hx : x.dstIp = q.dstIp) :
    x.dstIp = p.dstIp ∧ Relation.ReflTransGen g.coarse.Moves (r, x) (s, x) := by
  generalize hlast : (s, q) = last at h
  induction h generalizing s q with
  | refl =>
    obtain ⟨rfl, rfl⟩ := Prod.mk.inj hlast
    exact ⟨hx, .refl⟩
  | @tail middle last hpath hmove ih =>
    subst hlast
    obtain ⟨t, ht, htarget, hcross⟩ := hmove
    obtain ⟨t', _, rfl⟩ := mem_successors_coarse.mp ht
    have hmiddle : x.dstIp = middle.2.dstIp := hx.trans hcross.dstIp_eq
    obtain ⟨hfirst, hpath⟩ := ih hmiddle rfl
    have hself := Transition.crosses_coarse_self hcross hmiddle
    exact ⟨hfirst, hpath.tail ⟨t'.coarse, ht, htarget, hself⟩⟩

section

variable {origins : Origins} {headers : HeaderSpace} {roots coarseRoots : Roots}
  (hcoarse : Roots.resolve g.coarse origins headers = .ok coarseRoots)

include hcoarse

theorem Reaches.coarse (hprecise : g.coarsening = .precise)
    (hroots : Roots.resolve g origins headers = .ok roots) {s : Stage} {q : Packet}
    (h : g.Reaches roots s q) : g.coarse.Reaches coarseRoots s q := by
  obtain ⟨r, x, p, hx, hp, hpath⟩ := h
  obtain ⟨origin, hmem, hstage, hp⟩ := (Roots.contains_resolve hroots r p).mp ⟨x, hx, hp⟩
  rw [hprecise] at hp
  obtain ⟨y, hy, hpy⟩ := (Roots.contains_resolve hcoarse r p).mpr
    ⟨origin, hmem, hstage, HeaderSpace.contains_projectDstIp_of_contains hp⟩
  exact ⟨r, y, p, hy, hpy, Relation.ReflTransGen.mono (fun _ _ => Moves.coarse) _ _ hpath⟩

theorem Reaches.of_dstIp_eq {s : Stage} {q x : Packet} (h : g.coarse.Reaches coarseRoots s q)
    (hx : x.dstIp = q.dstIp) : g.coarse.Reaches coarseRoots s x := by
  obtain ⟨r, y, p, hy, hp, hpath⟩ := h
  obtain ⟨hfirst, hpath⟩ := path_coarse_self hpath hx
  obtain ⟨origin, hmem, hstage, hp⟩ := (Roots.contains_resolve hcoarse r p).mp ⟨y, hy, hp⟩
  have horigin : (origin.2.inter headers).projectDstIp.contains x = true := by
    rw [(origin.2.inter headers).dstOnly_projectDstIp x p hfirst]
    exact hp
  obtain ⟨z, hz, hxz⟩ := (Roots.contains_resolve hcoarse r x).mpr ⟨origin, hmem, hstage, horigin⟩
  exact ⟨r, z, x, hz, hxz, hpath⟩

end

/-- The outcome of a coarse query covers the projection of the precise outcome, and says nothing
but destinations. -/
theorem coarse_query_covers {network : Network} {facts : Facts} {g c : Graph}
    (hg : build network facts .precise = .ok g) (hc : build network facts .dstIpOnly = .ok c)
    (origins : Origins) (headers : HeaderSpace) {limits coarseLimits : Limits}
    {o coarse : Outcome} (ho : g.queryHeaders origins headers limits = .ok o)
    (hcoarse : c.queryHeaders origins headers coarseLimits = .ok coarse) (s : Stage) :
    (o.spaceAt s).projectDstIp.subset (coarse.spaceAt s) = true ∧
      (coarse.spaceAt s).projectDstIp = coarse.spaceAt s := by
  rw [build_dstIpOnly, hg] at hc
  cases hc
  obtain ⟨_, _, _, _, _, _, _, hprecise, _⟩ := build_eq_ok hg
  obtain ⟨roots, hroots, hsolve⟩ := queryHeaders_eq_ok ho
  obtain ⟨coarseRoots, hcoarseRoots, hcoarseSolve⟩ := queryHeaders_eq_ok hcoarse
  have hspread {q x : Packet} (hq : (coarse.spaceAt s).contains q = true) (hx : x.dstIp = q.dstIp) :
      (coarse.spaceAt s).contains x = true := by
    rw [contains_solve hcoarseSolve] at hq ⊢
    exact hq.of_dstIp_eq hcoarseRoots hx
  constructor
  · rw [HeaderSpace.subset_iff_contains]
    intro x hx
    obtain ⟨q, hqx, hq⟩ := ((o.spaceAt s).contains_projectDstIp x).mp hx
    rw [contains_solve hsolve] at hq
    have hreached := (contains_solve hcoarseSolve s q).mpr (hq.coarse hcoarseRoots hprecise hroots)
    exact hspread hreached hqx.symm
  · refine HeaderSpace.DstOnly.projectDstIp_eq fun p q hpq => ?_
    rw [Bool.eq_iff_iff]
    exact ⟨fun hp => hspread hp hpq.symm, fun hq => hspread hq hpq⟩

theorem coarse_query_covers_loop : ∃ g c limits coarseLimits o coarse,
    build .loop .loop .precise = .ok g ∧ build .loop .loop .dstIpOnly = .ok c ∧
    g.queryHeaders .loop .full limits = .ok o ∧
    c.queryHeaders .loop .full coarseLimits = .ok coarse ∧
    (o.spaceAt .accept).projectDstIp.subset (coarse.spaceAt .accept) = true ∧
      (coarse.spaceAt .accept).projectDstIp = coarse.spaceAt .accept := by
  obtain ⟨g, hg⟩ := exists_build_loop .precise
  obtain ⟨c, hc⟩ := exists_build_loop .dstIpOnly
  obtain ⟨limits, o, ho⟩ := exists_queryHeaders_ok (Origins.loop_resolves hg) .full
  obtain ⟨coarseLimits, coarse, hcoarse⟩ := exists_queryHeaders_ok (Origins.loop_resolves hc) .full
  exact ⟨g, c, limits, coarseLimits, o, coarse, hg, hc, ho, hcoarse,
    coarse_query_covers hg hc .loop .full ho hcoarse .accept⟩

end Graph
end Dataplane
