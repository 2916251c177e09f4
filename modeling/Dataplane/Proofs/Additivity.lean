import Dataplane.Proofs.Slicing

/-! The outcome of a query is the union of the outcomes for parts of its traffic. -/
namespace Dataplane

/-- What is kept of two spaces together is what is kept of each. -/
theorem Coarsening.apply_union (c : Coarsening) (x y : HeaderSpace) :
    c.apply (x.union y) = (c.apply x).union (c.apply y) := by
  cases c with
  | precise => rfl
  | dstIpOnly =>
    refine HeaderSpace.eq_of_contains_iff fun p => ?_
    simp only [apply, HeaderSpace.contains_union, Bool.or_eq_true,
      HeaderSpace.contains_projectDstIp, and_or_left, exists_or]

/-- The origins of two lists of entries in any order are those of one list and of the other. -/
theorem Origins.mem_toList_of_perm {both first second : Origins}
    (h : both.entries.Perm (first.entries ++ second.entries)) (origin : Location × HeaderSpace) :
    origin ∈ both.toList ↔ origin ∈ first.toList ∨ origin ∈ second.toList := by
  simp only [toList, List.mem_flatMap, h.mem_iff, List.mem_append, or_and_right, exists_or]

/-- The router of the loop sends UDP packets itself. -/
def Origins.router : Origins := ⟨[([.vrf "r" "v"], .value .ipProtocol 17)]⟩

theorem Origins.router_resolves {c : Coarsening} {g : Graph}
    (h : Graph.build .loop .loop c = .ok g) :
    ∀ origin ∈ router.toList, ∃ r, g.places.resolve? origin.1 = some r := by
  obtain ⟨_, _, _, _, _, _, _, _, hplaces⟩ := Graph.build_eq_ok h
  rw [hplaces]
  intro origin horigin
  cases List.mem_singleton.mp horigin
  exact ⟨_, rfl⟩

/-- The packet starts at the stage. -/
def Roots.Starts (roots : Roots) (r : Stage) (p : Packet) : Prop :=
  ∃ x, roots[r]? = some x ∧ x.contains p = true

/-- The packets that start are those that start under one of two other assignments. -/
def Roots.Joins (roots first second : Roots) : Prop :=
  ∀ r p, roots.Starts r p ↔ first.Starts r p ∨ second.Starts r p

namespace Graph

variable {g : Graph}

theorem reaches_iff_starts (g : Graph) (roots : Roots) (s : Stage) (q : Packet) :
    g.Reaches roots s q ↔
      ∃ r p, roots.Starts r p ∧ Relation.ReflTransGen g.Moves (r, p) (s, q) := by
  constructor
  · intro h
    obtain ⟨r, x, p, hx, hp, hpath⟩ := h
    exact ⟨r, p, ⟨x, hx, hp⟩, hpath⟩
  · intro h
    obtain ⟨r, p, ⟨x, hx, hp⟩, hpath⟩ := h
    exact ⟨r, x, p, hx, hp, hpath⟩

/-- A packet takes its way alone, so it does not matter which others start. -/
theorem reaches_or {roots first second : Roots} (h : roots.Joins first second) (s : Stage)
    (q : Packet) : g.Reaches roots s q ↔ g.Reaches first s q ∨ g.Reaches second s q := by
  have hstart (r : Stage) (p : Packet) :
      roots.Starts r p ↔ first.Starts r p ∨ second.Starts r p := h r p
  simp only [reaches_iff_starts, hstart, or_and_right, exists_or]

/-- At every stage the outcome of a query is the union of those of two others. -/
def Unites (query first second : Limits → Except QueryError Outcome) : Prop :=
  ∃ o o₁ o₂, Computes query o ∧ Computes first o₁ ∧ Computes second o₂ ∧
    ∀ s, o.spaceAt s = (o₁.spaceAt s).union (o₂.spaceAt s)

theorem unites_queryHeaders {origins origins₁ origins₂ : Origins}
    {headers headers₁ headers₂ : HeaderSpace} {roots roots₁ roots₂ : Roots}
    (hroots : Roots.resolve g origins headers = .ok roots)
    (hroots₁ : Roots.resolve g origins₁ headers₁ = .ok roots₁)
    (hroots₂ : Roots.resolve g origins₂ headers₂ = .ok roots₂)
    (hjoins : roots.Joins roots₁ roots₂) :
    Unites (g.queryHeaders origins headers) (g.queryHeaders origins₁ headers₁)
      (g.queryHeaders origins₂ headers₂) := by
  refine ⟨_, _, _, computes_queryHeaders hroots, computes_queryHeaders hroots₁,
    computes_queryHeaders hroots₂, fun s => ?_⟩
  refine HeaderSpace.eq_of_contains_iff fun q => ?_
  rw [HeaderSpace.contains_union, Bool.or_eq_true, contains_outcome, contains_outcome,
    contains_outcome, reaches_or hjoins]

section

variable {first second : Origins}
  (hfirst : ∀ origin ∈ first.toList, ∃ r, g.places.resolve? origin.1 = some r)

include hfirst

theorem unites_entries
    (hsecond : ∀ origin ∈ second.toList, ∃ r, g.places.resolve? origin.1 = some r)
    {both : Origins} (hperm : both.entries.Perm (first.entries ++ second.entries))
    (headers : HeaderSpace) :
    Unites (g.queryHeaders both headers) (g.queryHeaders first headers)
      (g.queryHeaders second headers) := by
  have hmem := Origins.mem_toList_of_perm hperm
  have hboth : ∀ origin ∈ both.toList, ∃ r, g.places.resolve? origin.1 = some r := by
    intro origin horigin
    rcases (hmem origin).mp horigin with horigin | horigin
    · exact hfirst origin horigin
    · exact hsecond origin horigin
  obtain ⟨roots, hroots⟩ := (Roots.exists_resolve_iff headers).mpr hboth
  obtain ⟨roots₁, hroots₁⟩ := (Roots.exists_resolve_iff headers).mpr hfirst
  obtain ⟨roots₂, hroots₂⟩ := (Roots.exists_resolve_iff headers).mpr hsecond
  refine unites_queryHeaders hroots hroots₁ hroots₂ fun r p => ?_
  simp only [Roots.Starts, Roots.contains_resolve hroots, Roots.contains_resolve hroots₁,
    Roots.contains_resolve hroots₂, hmem, or_and_right, exists_or]

theorem unites_headers (headers₁ headers₂ : HeaderSpace) :
    Unites (g.queryHeaders first (headers₁.union headers₂)) (g.queryHeaders first headers₁)
      (g.queryHeaders first headers₂) := by
  have hsplit (x : HeaderSpace) :
      x.inter (headers₁.union headers₂) = (x.inter headers₁).union (x.inter headers₂) :=
    HeaderSpace.ext_contains fun p => by simp [Bool.and_or_distrib_left]
  obtain ⟨roots, hroots⟩ := (Roots.exists_resolve_iff (headers₁.union headers₂)).mpr hfirst
  obtain ⟨roots₁, hroots₁⟩ := (Roots.exists_resolve_iff headers₁).mpr hfirst
  obtain ⟨roots₂, hroots₂⟩ := (Roots.exists_resolve_iff headers₂).mpr hfirst
  refine unites_queryHeaders hroots hroots₁ hroots₂ fun r p => ?_
  simp only [Roots.Starts, Roots.contains_resolve hroots, Roots.contains_resolve hroots₁,
    Roots.contains_resolve hroots₂, hsplit, Coarsening.apply_union, HeaderSpace.contains_union,
    Bool.or_eq_true, and_or_left, exists_or]

end

/-- Traffic can be asked for in parts. Whether the entries of two assignments or two header spaces
are put together, the outcome is the union of what is found for each. -/
theorem query_additive (g : Graph) {first second : Origins}
    (hfirst : ∀ origin ∈ first.toList, ∃ r, g.places.resolve? origin.1 = some r)
    (hsecond : ∀ origin ∈ second.toList, ∃ r, g.places.resolve? origin.1 = some r) :
    (∀ (both : Origins) (headers : HeaderSpace),
      both.entries.Perm (first.entries ++ second.entries) →
        Unites (g.queryHeaders both headers) (g.queryHeaders first headers)
          (g.queryHeaders second headers)) ∧
    ∀ headers₁ headers₂ : HeaderSpace,
      Unites (g.queryHeaders first (headers₁.union headers₂)) (g.queryHeaders first headers₁)
        (g.queryHeaders first headers₂) :=
  ⟨fun _ headers hperm => unites_entries hfirst hsecond hperm headers, unites_headers hfirst⟩

theorem query_additive_loop : ∃ g, build .loop .loop .precise = .ok g ∧
    Unites (g.queryHeaders ⟨Origins.router.entries ++ Origins.loop.entries⟩ (.value .dstIp 1))
      (g.queryHeaders .loop (.value .dstIp 1)) (g.queryHeaders .router (.value .dstIp 1)) ∧
    Unites (g.queryHeaders .loop ((HeaderSpace.value .ipProtocol 6).union (.value .dstIp 1)))
      (g.queryHeaders .loop (.value .ipProtocol 6)) (g.queryHeaders .loop (.value .dstIp 1)) := by
  obtain ⟨g, hg⟩ := exists_build_loop .precise
  obtain ⟨hentries, hheaders⟩ :=
    g.query_additive (Origins.loop_resolves hg) (Origins.router_resolves hg)
  exact ⟨g, hg, hentries _ _ List.perm_append_comm, hheaders _ _⟩

end Graph
end Dataplane
