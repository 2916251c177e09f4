import Dataplane.Proofs.Origins

/-! Queries of a precise graph are exact: they find the packets that the network forwards to each
stage, and no others. -/
namespace Dataplane

/-- An origin lets in a packet that is `allowed`, and the network forwards it to the stage, where
it arrives as `q`. -/
def Network.Delivers (network : Network) (facts : Facts) (origins : Origins)
    (allowed : Packet → Prop) (s : Stage) (q : Packet) : Prop :=
  ∃ origin ∈ origins.toList, ∃ r p, network.Enters origin.1 r ∧ origin.2.contains p = true ∧
    allowed p ∧ Relation.ReflTransGen (Forwards network facts) (r, p) (s, q)

namespace Graph

variable {network : Network} {facts : Facts} {g : Graph} {origins : Origins} {limits : Limits}
  {o : Outcome}

theorem reaches_iff_delivers (hg : build network facts .precise = .ok g) {headers : HeaderSpace}
    {roots : Roots} (hroots : Roots.resolve g origins headers = .ok roots) (s : Stage)
    (q : Packet) :
    g.Reaches roots s q ↔ network.Delivers facts origins (headers.contains · = true) s q := by
  have hmoves : g.Moves = Forwards network facts := by
    funext a b
    exact propext (moves_iff_forwards hg a b)
  have hstart (r : Stage) (p : Packet) : (∃ x, roots[r]? = some x ∧ x.contains p = true) ↔
      ∃ origin ∈ origins.toList, network.Enters origin.1 r ∧ origin.2.contains p = true ∧
        headers.contains p = true := by
    obtain ⟨_, _, _, _, _, _, _, hcoarsening, hplaces⟩ := build_eq_ok hg
    simp only [Roots.contains_resolve hroots, hplaces, hcoarsening, Coarsening.apply,
      Places.resolve?_ofNetwork (uniqueNames_of_build hg), HeaderSpace.contains_inter,
      Bool.and_eq_true]
  unfold Reaches Network.Delivers
  rw [hmoves]
  constructor
  · intro h
    obtain ⟨r, x, p, hx, hp, hpath⟩ := h
    obtain ⟨origin, hmem, henters, horigin, hheaders⟩ := (hstart r p).mp ⟨x, hx, hp⟩
    exact ⟨origin, hmem, r, p, henters, horigin, hheaders, hpath⟩
  · intro h
    obtain ⟨origin, hmem, r, p, henters, horigin, hheaders, hpath⟩ := h
    obtain ⟨x, hx, hp⟩ := (hstart r p).mpr ⟨origin, hmem, henters, horigin, hheaders⟩
    exact ⟨r, x, p, hx, hp, hpath⟩

theorem queryHeaders_iff_delivers (hg : build network facts .precise = .ok g)
    {headers : HeaderSpace} (h : g.queryHeaders origins headers limits = .ok o) (s : Stage) :
    (∀ q, (o.spaceAt s).contains q = true ↔
      network.Delivers facts origins (headers.contains · = true) s q) ∧
    (o.isReached s = true ↔
      ∃ q, network.Delivers facts origins (headers.contains · = true) s q) := by
  obtain ⟨roots, hroots, hsolve⟩ := queryHeaders_eq_ok h
  have hspace (q : Packet) : (o.spaceAt s).contains q = true ↔
      network.Delivers facts origins (headers.contains · = true) s q := by
    rw [contains_solve hsolve, reaches_iff_delivers hg hroots]
  refine ⟨hspace, ?_⟩
  rw [isReached_solve hsolve, HeaderSpace.isEmpty_eq_false_iff]
  exact exists_congr hspace

/-- A query finds exactly the packets that the network delivers, whether its destinations are given
as addresses or its traffic by a header space. -/
theorem query_exact (hg : build network facts .precise = .ok g) (origins : Origins)
    (limits : Limits) (s : Stage) :
    (∀ destination o, g.query origins destination limits = .ok o →
      (∀ q, (o.spaceAt s).contains q = true ↔
        network.Delivers facts origins (destination.includes ·.dstAddress = true) s q) ∧
      (o.isReached s = true ↔
        ∃ q, network.Delivers facts origins (destination.includes ·.dstAddress = true) s q)) ∧
    (∀ headers o, g.queryHeaders origins headers limits = .ok o →
      (∀ q, (o.spaceAt s).contains q = true ↔
        network.Delivers facts origins (headers.contains · = true) s q) ∧
      (o.isReached s = true ↔
        ∃ q, network.Delivers facts origins (headers.contains · = true) s q)) := by
  refine ⟨fun destination o h => ?_, fun headers o h => queryHeaders_iff_delivers hg h s⟩
  obtain ⟨headers, hheaders, h⟩ := query_eq_ok h
  have hallowed : (headers.contains · = true) = (destination.includes ·.dstAddress = true) := by
    funext p
    rw [IpSpace.contains_dstHeaders hheaders]
  rw [← hallowed]
  exact queryHeaders_iff_delivers hg h s

theorem query_exact_loop : ∃ g limits o, build .loop .loop .precise = .ok g ∧
    g.query .loop (.single ⟨1⟩) limits = .ok o ∧
    ∀ q, (o.spaceAt .accept).contains q = true ↔ Network.loop.Delivers .loop .loop
      ((IpSpace.single ⟨1⟩).includes ·.dstAddress = true) .accept q := by
  obtain ⟨g, hg⟩ := exists_build_loop .precise
  obtain ⟨limits, o, ho⟩ := exists_queryHeaders_ok (Origins.loop_resolves hg) (.value .dstIp 1)
  have hquery : g.query .loop (.single ⟨1⟩) limits = .ok o := ho
  exact ⟨g, limits, o, hg, hquery, ((query_exact hg .loop limits .accept).1 _ o hquery).1⟩

end Graph
end Dataplane
