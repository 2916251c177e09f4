import Dataplane.Proofs.Distinct
import Dataplane.Proofs.Filling
import Dataplane.Proofs.Refinement

/-! Where the traffic of a query starts, and with which packets. -/
namespace Dataplane

/-- Interfaces of a node that share a name are the same. -/
def Network.UniqueNames (network : Network) : Prop :=
  ∀ node i j, network.HasInterface node i → network.HasInterface node j → i.name = j.name → i = j

namespace Places

variable {network : Network}

theorem hasVrf_ofNetwork {node vrf : String} :
    (ofNetwork network).hasVrf node vrf = true ↔ ∃ v, network.vrf? node vrf = some v := by
  simp only [hasVrf, ofNetwork, Network.vrf?, Std.ExtTreeMap.getD_eq_getD_getElem?,
    Std.ExtTreeMap.getElem?_map]
  cases network[node]? with
  | none => simp
  | some config => simp [← mem_iff_exists]

theorem vrfOf?_ofNetwork (hunique : network.UniqueNames) {node name vrf : String} :
    (ofNetwork network).vrfOf? ⟨node, name⟩ = some vrf ↔
      ∃ i, network.HasInterface node i ∧ i.name = name ∧ i.vrf = vrf := by
  have hunique := hunique node
  simp only [vrfOf?, ofNetwork, Network.HasInterface, Network.interface?,
    Std.ExtTreeMap.getElem?_map] at hunique ⊢
  generalize network[node]? = config? at hunique ⊢
  cases config? with
  | none => simp
  | some config =>
    simp only [Option.bind_some, ← mem_values] at hunique ⊢
    simp only [Option.map_some, Option.bind_eq_bind, Option.bind_some]
    rw [getElem?_foldl_insert]
    constructor
    · intro h
      obtain ⟨i, hi, hname, hvrf⟩ := h
      exact ⟨i, hi.mem, hname, hvrf⟩
    · intro h
      obtain ⟨i, hi, rfl, rfl⟩ := h
      obtain ⟨j, hj, hname⟩ := exists_lastWith Interface.name hi
      exact ⟨j, hj, hname, by rw [hunique j i hj.mem hi hname]⟩

/-- Every location resolves to the stage at which its traffic starts. -/
theorem resolve?_ofNetwork (hunique : network.UniqueNames) {l : Location} {r : Stage} :
    (ofNetwork network).resolve? l = some r ↔ network.Enters l r := by
  constructor
  · intro h
    cases l with
    | link e =>
      obtain ⟨vrf, hvrf, rfl⟩ := Option.map_eq_some_iff.mp h
      obtain ⟨i, hi, hname, _⟩ := (vrfOf?_ofNetwork hunique).mp hvrf
      cases e
      subst hname
      exact .link hi
    | interface e =>
      obtain ⟨vrf, hvrf, hr⟩ := Option.bind_eq_some_iff.mp h
      split at hr
      · obtain ⟨i, hi, hname, rfl⟩ := (vrfOf?_ofNetwork hunique).mp hvrf
        rename_i hhas
        obtain ⟨v, hv⟩ := hasVrf_ofNetwork.mp hhas
        cases e
        cases hr
        subst hname
        exact .interface hi hv
      · contradiction
    | vrf node vrf =>
      simp only [resolve?] at h
      split at h
      · rename_i hhas
        obtain ⟨v, hv⟩ := hasVrf_ofNetwork.mp hhas
        cases h
        exact .vrf hv
      · contradiction
  · intro h
    cases h with
    | link hi =>
      rw [resolve?, (vrfOf?_ofNetwork hunique).mpr ⟨_, hi, rfl, rfl⟩]
      rfl
    | interface hi hv =>
      rw [resolve?, (vrfOf?_ofNetwork hunique).mpr ⟨_, hi, rfl, rfl⟩]
      exact if_pos (hasVrf_ofNetwork.mpr ⟨_, hv⟩)
    | vrf hv => rw [resolve?, if_pos (hasVrf_ofNetwork.mpr ⟨_, hv⟩)]

end Places

theorem TransitionTable.openEnds_sublist {l l' : List Transition} (h : l.Sublist l') :
    (openEnds l).Sublist (openEnds l') := (h.filter _).map _

theorem Snapshot.openEnds_originateLinks {s : Snapshot} {l : List Transition}
    (h : originateLinks s = .ok l) : TransitionTable.openEnds l = s.interfaces.map fun entry =>
      (.originateLink ⟨entry.1, entry.2.name⟩, .preIn ⟨entry.1, entry.2.name⟩) := by
  have hopen : ∀ t ∈ l, decide t.Open = true := by
    cases h
    intro t ht
    obtain ⟨_, _, rfl⟩ := List.mem_map.mp ht
    rfl
  rw [TransitionTable.openEnds, List.filter_eq_self.mpr hopen]
  cases h
  exact List.map_map

/-- Two interfaces of a node with the same name would have the same first transition. -/
theorem Snapshot.nodup_namedEndpoints {s : Snapshot} {transitions : List Transition}
    (h : s.transitions = .ok transitions) (hends : (TransitionTable.openEnds transitions).Nodup) :
    s.network.namedEndpoints.Nodup := by
  obtain ⟨l, hl, hsub⟩ := exists_family_sublist h List.mem_cons_self
  have hlinks := hends.sublist (TransitionTable.openEnds_sublist hsub)
  rw [openEnds_originateLinks hl] at hlinks
  rw [← map_interfaces]
  exact nodup_map_of_key hlinks fun x _ y _ heq =>
    congrArg (fun e => (Stage.originateLink e, Stage.preIn e)) heq

theorem Graph.uniqueNames_of_build {network : Network} {facts : Facts} {c : Coarsening} {g : Graph}
    (h : build network facts c = .ok g) : network.UniqueNames := by
  obtain ⟨s, transitions, rfl, _, _, htransitions, htable, _⟩ := build_eq_ok h
  have hends := (TransitionTable.ofList_ok_iff transitions).mp ⟨_, htable⟩
  have hnodup := Snapshot.nodup_namedEndpoints htransitions hends
  have hnames := Network.nodup_namedEndpoints_iff.mp hnodup
  intro node i j hi hj hname
  obtain ⟨key, hi⟩ := hi
  obtain ⟨key', hj⟩ := hj
  obtain rfl := hnames node key key' i j hi hj hname
  exact Option.some.inj (hi.symm.trans hj)

namespace Roots

theorem contains_add (roots : Roots) (s : Stage) (headers : HeaderSpace) (r : Stage) (q : Packet) :
    (∃ x, (roots.add s headers)[r]? = some x ∧ x.contains q = true) ↔
      (∃ x, roots[r]? = some x ∧ x.contains q = true) ∨ s = r ∧ headers.contains q = true := by
  rw [add, Std.ExtTreeMap.getElem?_insert]
  simp only [Std.compare_eq_iff_eq]
  by_cases hs : s = r
  · subst r
    cases roots[s]? <;> simp
  · simp [hs]

section

variable {g : Graph} {origins : Origins} {destination : HeaderSpace} {roots : Roots}

/-- If adding packets at a stage brings something, resolving brings what each origin does at the
stage that it resolves to. -/
theorem resolve_iff {P : Roots → Prop} {Q : Stage → HeaderSpace → Prop}
    (hadd : ∀ roots s headers, P (add roots s headers) ↔ P roots ∨ Q s headers)
    (h : resolve g origins destination = .ok roots) :
    P roots ↔ P ∅ ∨ ∃ origin ∈ origins.toList, ∃ s, g.places.resolve? origin.1 = some s ∧
      Q s (g.coarsening.apply (origin.2.inter destination)) := by
  refine foldlM_iff (fun roots origin next hnext => ?_) h
  obtain ⟨location, headers⟩ := origin
  dsimp only at hnext ⊢
  split at hnext
  · rename_i s hs
    cases hnext
    rw [hadd]
    simp only [hs, Option.some.injEq, exists_eq_left']
  · contradiction

/-- The packets that start at a stage are those of the origins that resolve to it. -/
theorem contains_resolve (h : resolve g origins destination = .ok roots) (r : Stage) (q : Packet) :
    (∃ x, roots[r]? = some x ∧ x.contains q = true) ↔
      ∃ origin ∈ origins.toList, g.places.resolve? origin.1 = some r ∧
        (g.coarsening.apply (origin.2.inter destination)).contains q = true := by
  rw [resolve_iff (P := fun roots => ∃ x, roots[r]? = some x ∧ x.contains q = true)
    (fun roots s headers => roots.contains_add s headers r q) h]
  simp

/-- The first location that does not exist is reported. -/
theorem failure?_resolve (g : Graph) (origins : Origins) (destination : HeaderSpace) :
    failure? (resolve g origins destination) = origins.toList.findSome? fun origin =>
      if (g.places.resolve? origin.1).isSome then none else some (.unknownLocation origin.1) := by
  refine failure?_foldlM (fun roots origin => ?_) _ _
  dsimp only
  split
  · rename_i s hs
    simp [hs, failure?]
  · rename_i hs
    simp [hs, failure?]

/-- Origins can be resolved if and only if all of their locations exist. -/
theorem exists_resolve_iff (destination : HeaderSpace) :
    (∃ roots, resolve g origins destination = .ok roots) ↔
      ∀ origin ∈ origins.toList, ∃ r, g.places.resolve? origin.1 = some r := by
  rw [← failure?_eq_none, failure?_resolve, List.findSome?_eq_none_iff]
  simp [Option.isSome_iff_exists]

end

end Roots

namespace Graph

variable {g : Graph} {origins : Origins} {limits : Limits} {o : Outcome}

theorem queryHeaders_eq_ok {headers : HeaderSpace}
    (h : g.queryHeaders origins headers limits = .ok o) :
    ∃ roots, Roots.resolve g origins headers = .ok roots ∧ g.solve roots limits = .ok o := by
  obtain ⟨roots, hroots, h⟩ := bind_eq_ok.mp h
  split at h
  · rename_i outcome hsolve
    cases h
    exact ⟨roots, hroots, hsolve⟩
  · contradiction

theorem query_eq_ok {destination : IpSpace} (h : g.query origins destination limits = .ok o) :
    ∃ headers, destination.headers .dstIp = .ok headers ∧
      g.queryHeaders origins headers limits = .ok o := by
  unfold query at h
  split at h
  · rename_i headers hheaders
    exact ⟨headers, hheaders, h⟩
  · contradiction

/-- With origins at locations that exist, enough iterations and no signal, a query has an
outcome. -/
theorem exists_queryHeaders_ok
    (h : ∀ origin ∈ origins.toList, ∃ r, g.places.resolve? origin.1 = some r)
    (headers : HeaderSpace) : ∃ limits o, g.queryHeaders origins headers limits = .ok o := by
  obtain ⟨roots, hroots⟩ := (Roots.exists_resolve_iff headers).mpr h
  obtain ⟨n, hn⟩ := g.exists_solve_ok roots
  obtain ⟨o, ho⟩ := hn { maxIterations := n } rfl (Nat.le_refl n)
  refine ⟨{ maxIterations := n }, o, ?_⟩
  simp only [queryHeaders, hroots, ok_bind, ho]

end Graph

/-- All packets may enter the loop from its link. -/
def Origins.loop : Origins := ⟨[([.link ⟨"r", "a"⟩], .full)]⟩

theorem Origins.loop_resolves {c : Coarsening} {g : Graph} (h : Graph.build .loop .loop c = .ok g) :
    ∀ origin ∈ loop.toList, ∃ r, g.places.resolve? origin.1 = some r := by
  obtain ⟨_, _, _, _, _, _, _, _, hplaces⟩ := Graph.build_eq_ok h
  rw [hplaces]
  intro origin horigin
  cases List.mem_singleton.mp horigin
  exact ⟨_, rfl⟩

end Dataplane
