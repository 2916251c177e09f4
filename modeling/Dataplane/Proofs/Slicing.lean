import Dataplane.Proofs.Origins
import Dataplane.Proofs.WellPosed

/-! A query for some of the traffic is a part of the query for all of it. -/
namespace Dataplane

namespace Coarsening

/-- Neither replacing sources nor coarsening leads into the space or out of it. -/
def Keeps : Coarsening → HeaderSpace → Prop
  | .precise, s => s.Ignores .srcIp
  | .dstIpOnly, s => s.DstOnly

variable {c : Coarsening} {s : HeaderSpace}

theorem Keeps.ignores_srcIp (h : c.Keeps s) : s.Ignores .srcIp := by
  cases c with
  | precise => exact h
  | dstIpOnly => exact h.ignores_srcIp

theorem Keeps.of_dstOnly (h : s.DstOnly) (c : Coarsening) : c.Keeps s := by
  cases c with
  | precise => exact h.ignores_srcIp
  | dstIpOnly => exact h

theorem Keeps.contains_apply_inter (h : c.Keeps s) (x : HeaderSpace) (p : Packet) :
    (c.apply (x.inter s)).contains p = true ↔
      (c.apply (x.inter .full)).contains p = true ∧ s.contains p = true := by
  have hpass : c.apply (x.inter s) = (c.apply x).inter s := by
    cases c with
    | precise => rfl
    | dstIpOnly => exact HeaderSpace.dstOnly_iff_projectDstIp_inter.mp h x
  rw [HeaderSpace.inter_full, hpass, HeaderSpace.contains_inter, Bool.and_eq_true]

end Coarsening

namespace Graph

variable {g : Graph} {s : HeaderSpace}

/-- A packet on its way does not enter or leave a space that ignores sources. -/
theorem contains_eq_of_path (hs : s.Ignores .srcIp) {a b : Stage × Packet}
    (h : Relation.ReflTransGen g.Moves a b) : s.contains a.2 = s.contains b.2 := by
  induction h with
  | refl => rfl
  | tail _ hmove ih =>
    obtain ⟨t, _, _, hcross⟩ := hmove
    rw [ih]
    exact hs _ _ hcross.2.agreeOff

variable {origins : Origins}

theorem reaches_inter (hs : g.coarsening.Keeps s) {roots all : Roots}
    (hroots : Roots.resolve g origins s = .ok roots)
    (hall : Roots.resolve g origins .full = .ok all) (r : Stage) (q : Packet) :
    g.Reaches roots r q ↔ g.Reaches all r q ∧ s.contains q = true := by
  have hstart (r : Stage) (p : Packet) : (∃ x, roots[r]? = some x ∧ x.contains p = true) ↔
      (∃ x, all[r]? = some x ∧ x.contains p = true) ∧ s.contains p = true := by
    rw [Roots.contains_resolve hroots, Roots.contains_resolve hall]
    simp only [hs.contains_apply_inter]
    constructor
    · intro h
      obtain ⟨origin, hmem, hstage, hp, hps⟩ := h
      exact ⟨⟨origin, hmem, hstage, hp⟩, hps⟩
    · intro h
      obtain ⟨⟨origin, hmem, hstage, hp⟩, hps⟩ := h
      exact ⟨origin, hmem, hstage, hp, hps⟩
  constructor
  · intro h
    obtain ⟨start, x, p, hx, hp, hpath⟩ := h
    obtain ⟨⟨y, hy, hpy⟩, hps⟩ := (hstart start p).mp ⟨x, hx, hp⟩
    have hkept := contains_eq_of_path hs.ignores_srcIp hpath
    exact ⟨⟨start, y, p, hy, hpy, hpath⟩, hkept.symm.trans hps⟩
  · intro h
    obtain ⟨⟨start, y, p, hy, hpy, hpath⟩, hq⟩ := h
    have hkept := contains_eq_of_path hs.ignores_srcIp hpath
    obtain ⟨x, hx, hp⟩ := (hstart start p).mpr ⟨⟨y, hy, hpy⟩, hkept.trans hq⟩
    exact ⟨start, x, p, hx, hp, hpath⟩

theorem contains_outcome (g : Graph) (roots : Roots) (r : Stage) (q : Packet) :
    ((g.outcome roots).spaceAt r).contains q = true ↔ g.Reaches roots r q := by
  have hsolve := g.solve_eq roots { maxIterations := g.pops roots }
  exact contains_solve (hsolve.trans (if_pos (Nat.le_refl _))) r q

/-- Only a signal or the limit keeps the query from its outcome. -/
def Computes (query : Limits → Except QueryError Outcome) (o : Outcome) : Prop :=
  ∃ n, ∀ limits, query limits =
    if limits.signalled then .error (.cancelled .signal)
    else if n ≤ limits.maxIterations then .ok o
    else .error (.cancelled .iterationLimit)

theorem computes_queryHeaders {roots : Roots} {headers : HeaderSpace}
    (h : Roots.resolve g origins headers = .ok roots) :
    Computes (g.queryHeaders origins headers) (g.outcome roots) := by
  refine ⟨g.pops roots, fun limits => ?_⟩
  unfold queryHeaders
  rw [h, ok_bind, g.solve_eq]
  by_cases hsignal : limits.signalled = true
  · rw [if_pos hsignal, if_pos hsignal]
  · rw [if_neg hsignal, if_neg hsignal]
    by_cases hn : g.pops roots ≤ limits.maxIterations
    · rw [if_pos hn, if_pos hn]
    · rw [if_neg hn, if_neg hn]

theorem exists_slice {all : Roots} (hall : Roots.resolve g origins .full = .ok all)
    (hresolves : ∀ origin ∈ origins.toList, ∃ r, g.places.resolve? origin.1 = some r)
    (hs : g.coarsening.Keeps s) : ∃ o, Computes (g.queryHeaders origins s) o ∧
      ∀ r, o.spaceAt r = ((g.outcome all).spaceAt r).inter s := by
  obtain ⟨roots, hroots⟩ := (Roots.exists_resolve_iff s).mpr hresolves
  refine ⟨g.outcome roots, computes_queryHeaders hroots, fun r => ?_⟩
  refine HeaderSpace.eq_of_contains_iff fun q => ?_
  rw [contains_outcome, reaches_inter hs hroots hall, HeaderSpace.contains_inter, Bool.and_eq_true,
    contains_outcome]

/-- A query can be cut into slices by spaces that are kept, and so by destinations: the outcome for
a slice is that for all packets, within the slice. -/
theorem query_slices {network : Network} {facts : Facts} {c : Coarsening}
    (h : build network facts c = .ok g)
    (hresolves : ∀ origin ∈ origins.toList, ∃ r, g.places.resolve? origin.1 = some r) :
    ∃ all, Computes (g.queryHeaders origins .full) all ∧ Computes (g.query origins .any) all ∧
      (∀ s, c.Keeps s → ∃ o, Computes (g.queryHeaders origins s) o ∧
        ∀ r, o.spaceAt r = (all.spaceAt r).inter s) ∧
      ∀ destination, destination.wellFormed = true → ∃ o, Computes (g.query origins destination) o ∧
        ∀ r q, (o.spaceAt r).contains q =
          ((all.spaceAt r).contains q && destination.includes q.dstAddress) := by
  obtain ⟨_, _, _, _, _, _, _, rfl, _⟩ := build_eq_ok h
  obtain ⟨all, hall⟩ := (Roots.exists_resolve_iff .full).mpr hresolves
  have hcomputes := computes_queryHeaders hall
  refine ⟨g.outcome all, hcomputes, hcomputes, fun s hs => exists_slice hall hresolves hs,
    fun destination hwell => ?_⟩
  obtain ⟨s, hheaders⟩ := (IpSpace.exists_headers_iff .dstIp destination).mpr hwell
  have hdst : s.DstOnly := IpSpace.Describes.dstOnly hheaders
  obtain ⟨o, ho, hslice⟩ := exists_slice hall hresolves (.of_dstOnly hdst g.coarsening)
  have hquery : g.query origins destination = g.queryHeaders origins s := by
    funext limits
    rw [query, hheaders]
  refine ⟨o, hquery ▸ ho, fun r q => ?_⟩
  rw [hslice, HeaderSpace.contains_inter, IpSpace.contains_dstHeaders hheaders]

theorem query_slices_loop : ∃ g all o o', build .loop .loop .precise = .ok g ∧
    Computes (g.queryHeaders .loop .full) all ∧
    Computes (g.queryHeaders .loop (.value .ipProtocol 6)) o ∧
    (∀ r, o.spaceAt r = (all.spaceAt r).inter (.value .ipProtocol 6)) ∧
    Computes (g.query .loop (.single ⟨1⟩)) o' ∧
    ∀ r q, (o'.spaceAt r).contains q =
      ((all.spaceAt r).contains q && (IpSpace.single ⟨1⟩).includes q.dstAddress) := by
  obtain ⟨g, hg⟩ := exists_build_loop .precise
  obtain ⟨all, hall, _, hslices, hdestinations⟩ := query_slices hg (Origins.loop_resolves hg)
  have hkeeps : Coarsening.precise.Keeps (.value .ipProtocol 6) := by
    intro p q hpq
    rw [Bool.eq_iff_iff, HeaderSpace.contains_value, HeaderSpace.contains_value,
      hpq .ipProtocol nofun]
  obtain ⟨o, ho, hslice⟩ := hslices _ hkeeps
  obtain ⟨o', ho', hdestination⟩ := hdestinations (.single ⟨1⟩) rfl
  exact ⟨g, all, o, o', hg, hall, ho, hslice, ho', hdestination⟩

end Graph
end Dataplane
