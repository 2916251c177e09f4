import Dataplane.Proofs.Additivity
import Dataplane.Proofs.Conservation

/-! Locations are resolved to stages that the graph has, and the traffic of a stage is put together
from all origins that resolve to it. -/
namespace Dataplane

namespace Network

variable {network : Network} {l : Location}

/-- The network has the interface or the routing domain that the location names. -/
def HasLocation (network : Network) : Location → Prop
  | .link e => ∃ i, network.HasInterface e.node i ∧ i.name = e.interface
  | .interface e => ∃ i v, network.HasInterface e.node i ∧ i.name = e.interface ∧
      network.vrf? e.node i.vrf = some v
  | .vrf node vrf => ∃ v, network.vrf? node vrf = some v

theorem hasLocation_iff : network.HasLocation l ↔ ∃ r, network.Enters l r := by
  constructor
  · intro h
    cases l with
    | link e =>
      obtain ⟨i, hi, hname⟩ := h
      cases e
      subst hname
      exact ⟨_, .link hi⟩
    | interface e =>
      obtain ⟨i, v, hi, hname, hv⟩ := h
      cases e
      subst hname
      exact ⟨_, .interface hi hv⟩
    | vrf node vrf =>
      obtain ⟨v, hv⟩ := h
      exact ⟨_, .vrf hv⟩
  · intro h
    obtain ⟨r, h⟩ := h
    cases h with
    | link hi => exact ⟨_, hi, rfl⟩
    | interface hi hv => exact ⟨_, _, hi, rfl, hv⟩
    | vrf hv => exact ⟨_, hv⟩

end Network

namespace Coarsening

theorem apply_empty (c : Coarsening) : c.apply .empty = .empty := by
  cases c with
  | precise => rfl
  | dstIpOnly =>
    refine HeaderSpace.eq_of_contains_iff fun p => ?_
    simp [apply, HeaderSpace.contains_projectDstIp]

/-- What is kept of many spaces together is what is kept of each. -/
theorem apply_foldl_union {α : Type} (c : Coarsening) (space : α → HeaderSpace) (l : List α)
    (s : HeaderSpace) : c.apply (l.foldl (fun found a => found.union (space a)) s) =
      l.foldl (fun found a => found.union (c.apply (space a))) (c.apply s) := by
  induction l generalizing s with
  | nil => rfl
  | cons a rest ih => rw [List.foldl_cons, List.foldl_cons, ih, apply_union]

end Coarsening

/-- The packets of all origins that resolve to the stage, limited to the destination. -/
def Origins.joint (origins : Origins) (places : Places) (destination : HeaderSpace) (r : Stage) :
    HeaderSpace :=
  (origins.toList.filter (places.resolve? ·.1 = some r)).foldl
    (fun found origin => found.union (origin.2.inter destination)) .empty

theorem Origins.contains_joint (origins : Origins) (places : Places) (destination : HeaderSpace)
    (r : Stage) (p : Packet) : (origins.joint places destination r).contains p = true ↔
      ∃ origin ∈ origins.toList, places.resolve? origin.1 = some r ∧ origin.2.contains p = true ∧
        destination.contains p = true := by
  rw [joint, HeaderSpace.contains_foldl_union]
  simp

namespace Roots

variable {g : Graph} {origins : Origins} {destination : HeaderSpace} {roots : Roots}

theorem mem_add (roots : Roots) (s : Stage) (headers : HeaderSpace) (r : Stage) :
    r ∈ roots.add s headers ↔ r ∈ roots ∨ s = r := by
  rw [add, Std.ExtTreeMap.mem_insert, Std.compare_eq_iff_eq, or_comm]

theorem mem_resolve (h : resolve g origins destination = .ok roots) (r : Stage) :
    r ∈ roots ↔ ∃ origin ∈ origins.toList, g.places.resolve? origin.1 = some r := by
  rw [resolve_iff (P := (r ∈ ·)) (fun roots s headers => roots.mem_add s headers r) h]
  simp

/-- The traffic of a stage is as coarse as the graph, but no coarser. -/
theorem eq_apply_joint (h : resolve g origins destination = .ok roots) {r : Stage} {x : HeaderSpace}
    (hx : roots[r]? = some x) :
    x = g.coarsening.apply (origins.joint g.places destination r) := by
  refine HeaderSpace.eq_of_contains_iff fun p => ?_
  have hp := contains_resolve h r p
  simp only [hx, Option.some.injEq, exists_eq_left'] at hp
  rw [hp, Origins.joint, Coarsening.apply_foldl_union, Coarsening.apply_empty,
    HeaderSpace.contains_foldl_union]
  simp

theorem resolve_eq_error {e : QueryError} :
    resolve g origins destination = .error e ↔
      ∃ before origin after, origins.toList = before ++ origin :: after ∧
        (∀ earlier ∈ before, ∃ r, g.places.resolve? earlier.1 = some r) ∧
        g.places.resolve? origin.1 = none ∧ e = .unknownLocation origin.1 := by
  have hfault (origin : Location × HeaderSpace) :
      (if (g.places.resolve? origin.1).isSome then none
        else some (QueryError.unknownLocation origin.1)) = some e ↔
      g.places.resolve? origin.1 = none ∧ e = .unknownLocation origin.1 := by
    cases g.places.resolve? origin.1 <;> simp [eq_comm]
  rw [← failure?_eq_some, failure?_resolve, List.findSome?_eq_some_iff]
  refine exists₃_congr fun before origin after => and_congr_right fun _ => ?_
  rw [hfault, and_comm]
  simp [Option.isSome_iff_exists]

/-- The stages with traffic and the packets that start there determine the roots. -/
theorem ext_starts {other : Roots} (hmem : ∀ r, r ∈ roots ↔ r ∈ other)
    (hstarts : ∀ r p, roots.Starts r p ↔ other.Starts r p) : roots = other := by
  apply Std.ExtTreeMap.ext_getElem?
  intro r
  have hr := hmem r
  have hp := hstarts r
  simp only [Starts, mem_iff_exists] at hr hp
  cases hx : roots[r]? with
  | none =>
    cases hy : other[r]? with
    | none => rfl
    | some y => simp [hx, hy] at hr
  | some x =>
    cases hy : other[r]? with
    | none => simp [hx, hy] at hr
    | some y =>
      simp only [hx, hy, Option.some.injEq, exists_eq_left'] at hp
      rw [HeaderSpace.eq_of_contains_iff hp]

theorem resolve_perm {other : Origins} (hperm : other.toList.Perm origins.toList)
    (h : resolve g origins destination = .ok roots) : resolve g other destination = .ok roots := by
  have hresolves := (exists_resolve_iff _).mp ⟨roots, h⟩
  obtain ⟨roots', h'⟩ := (exists_resolve_iff destination).mpr fun origin horigin =>
    hresolves origin (hperm.mem_iff.mp horigin)
  have heq : roots' = roots := by
    refine ext_starts (fun r => ?_) fun r p => ?_
    · simp only [mem_resolve h', mem_resolve h, hperm.mem_iff]
    · simp only [Starts, contains_resolve h', contains_resolve h, hperm.mem_iff]
  rw [h', heq]

end Roots

namespace Graph

variable {network : Network} {facts : Facts} {c : Coarsening} {g : Graph}

/-- Where there is one way on, there is one transition, and it is open to all packets. -/
theorem successors_eq_singleton (h : build network facts c = .ok g) {r d : Stage}
    (hd : r.next? = some d) {t : Transition} (ht : t ∈ g.successors r) :
    g.successors r = [t] ∧ t.guard = .full := by
  obtain ⟨s, _, _, _, hsuccessors⟩ := exists_snapshot h
  have hnext {u : Transition} (hu : u ∈ g.successors r) : u.target = d ∧ u.guard = .full := by
    obtain ⟨hemits, _, rfl⟩ := (hsuccessors r u).mp hu
    exact hemits.of_next hd
  refine ⟨?_, (hnext ht).2⟩
  have hpairwise := pairwise_successors h r
  generalize g.successors r = l at ht hnext hpairwise
  cases l with
  | nil => simp at ht
  | cons u rest =>
    cases rest with
    | nil => rw [List.mem_singleton.mp ht]
    | cons v rest =>
      -- A second transition would have the same target.
      have hne := (List.pairwise_cons.mp hpairwise).1 v List.mem_cons_self
      have hu := (hnext List.mem_cons_self).1
      have hv := (hnext (List.mem_cons_of_mem _ List.mem_cons_self)).1
      exact absurd (hu.trans hv.symm) hne

/-- All traffic that enters at a stage takes its only transition. -/
theorem exists_successor_of_enters (h : build network facts c = .ok g) {l : Location} {r : Stage}
    (hr : network.Enters l r) : ∃ t, g.successors r = [t] ∧ t.guard = .full := by
  obtain ⟨s, rfl, _, _, hsuccessors⟩ := exists_snapshot h
  have hfirst {t : Transition} {d : Stage} (ht : s.Emits t) (hopen : t.Open)
      (hd : t.source.next? = some d) : ∃ u, g.successors t.source = [u] ∧ u.guard = .full :=
    ⟨t, successors_eq_singleton h hd ((hsuccessors _ t).mpr ⟨ht, hopen, rfl⟩)⟩
  cases hr with
  | link hi => exact hfirst (.originateLink hi) rfl rfl
  | interface _ hv => exact hfirst (.originateVrf hv) rfl rfl
  | vrf hv => exact hfirst (.originateVrf hv) rfl rfl

/-- Origins are resolved if all of their locations exist, and otherwise the first one that does not
is reported. The roots are the stages of the locations, each with all that enters there, and from
each of them one transition leads on that is open to all packets. The order of the origins does not
matter. -/
theorem roots_exact (h : build network facts c = .ok g) (origins : Origins)
    (destination : HeaderSpace) :
    ((∃ roots, Roots.resolve g origins destination = .ok roots) ↔
      ∀ origin ∈ origins.toList, network.HasLocation origin.1) ∧
    (∀ e, Roots.resolve g origins destination = .error e ↔
      ∃ before origin after, origins.toList = before ++ origin :: after ∧
        (∀ earlier ∈ before, network.HasLocation earlier.1) ∧ ¬network.HasLocation origin.1 ∧
        e = .unknownLocation origin.1) ∧
    ∀ roots, Roots.resolve g origins destination = .ok roots →
      (∀ r, r ∈ roots ↔ ∃ origin ∈ origins.toList, network.Enters origin.1 r) ∧
      (∀ (r : Stage) (x : HeaderSpace), roots[r]? = some x → ∃ joint : HeaderSpace,
        (∀ p, joint.contains p = true ↔ ∃ origin ∈ origins.toList, network.Enters origin.1 r ∧
          origin.2.contains p = true ∧ destination.contains p = true) ∧
        x.equivalent (g.coarsening.apply joint) = true) ∧
      (∀ r ∈ roots, ∃ t, g.successors r = [t] ∧ ∀ p, t.guard.contains p = true) ∧
      ∀ other : Origins, other.toList.Perm origins.toList →
        Roots.resolve g other destination = .ok roots := by
  have hplaces (l : Location) (r : Stage) : g.places.resolve? l = some r ↔ network.Enters l r := by
    obtain ⟨_, _, _, _, _, _, _, _, hplaces⟩ := build_eq_ok h
    rw [hplaces, Places.resolve?_ofNetwork (uniqueNames_of_build h)]
  have hlocation (l : Location) :
      network.HasLocation l ↔ ∃ r, g.places.resolve? l = some r := by
    simp only [hplaces, Network.hasLocation_iff]
  refine ⟨?_, fun e => ?_, fun roots hroots => ⟨fun r => ?_, fun r x hx => ?_, fun r hr => ?_,
    fun other hperm => Roots.resolve_perm hperm hroots⟩⟩
  · simp only [hlocation, Roots.exists_resolve_iff]
  · rw [Roots.resolve_eq_error]
    simp only [hlocation, not_exists, Option.eq_none_iff_forall_ne_some, ne_eq]
  · simp only [Roots.mem_resolve hroots, hplaces]
  · refine ⟨origins.joint g.places destination r, fun p => ?_, ?_⟩
    · simp only [Origins.contains_joint, hplaces]
    · rw [HeaderSpace.equivalent_iff]
      exact Roots.eq_apply_joint hroots hx
  · obtain ⟨origin, _, henters⟩ := (Roots.mem_resolve hroots r).mp hr
    obtain ⟨t, ht, hguard⟩ := exists_successor_of_enters h ((hplaces _ _).mp henters)
    exact ⟨t, ht, fun p => by rw [hguard, HeaderSpace.contains_full]⟩

theorem roots_exact_loop : ∃ g roots, build .loop .loop .dstIpOnly = .ok g ∧
    Roots.resolve g ⟨[([.interface ⟨"r", "a"⟩], .value .ipProtocol 17),
      ([.vrf "r" "v"], .value .srcIp 9)]⟩ (.value .dstIp 1) = .ok roots ∧
    .originateVrf "r" "v" ∈ roots ∧
    (∃ t, g.successors (.originateVrf "r" "v") = [t] ∧ ∀ p, t.guard.contains p = true) ∧
    Roots.resolve g ⟨[([.vrf "r" "v", .vrf "r" "w", .link ⟨"s", "a"⟩], .full)]⟩ .full =
      .error (.unknownLocation (.vrf "r" "w")) := by
  obtain ⟨g, hg⟩ := exists_build_loop .dstIpOnly
  have hinterface : Network.loop.HasLocation (.interface ⟨"r", "a"⟩) :=
    ⟨_, _, ⟨"a", rfl⟩, rfl, rfl⟩
  have hvrf : Network.loop.HasLocation (.vrf "r" "v") := ⟨_, rfl⟩
  have hnone : ¬Network.loop.HasLocation (.vrf "r" "w") := by
    have hw : Network.loop.vrf? "r" "w" = none := rfl
    simp [Network.HasLocation, hw]
  obtain ⟨hok, _, hroots⟩ := roots_exact hg ⟨[([.interface ⟨"r", "a"⟩], .value .ipProtocol 17),
    ([.vrf "r" "v"], .value .srcIp 9)]⟩ (.value .dstIp 1)
  obtain ⟨roots, h⟩ := hok.mpr (by simp [Origins.toList, hinterface, hvrf])
  obtain ⟨hmem, _, hsuccessors, _⟩ := hroots roots h
  have hroot : .originateVrf "r" "v" ∈ roots :=
    (hmem _).mpr ⟨(.vrf "r" "v", .value .srcIp 9), by simp [Origins.toList], .vrf rfl⟩
  have herror := ((roots_exact hg ⟨[([.vrf "r" "v", .vrf "r" "w", .link ⟨"s", "a"⟩], .full)]⟩
    .full).2.1 (.unknownLocation (.vrf "r" "w"))).mpr ⟨[_], _, [_], rfl, by simp [hvrf], hnone, rfl⟩
  exact ⟨g, roots, hg, h, hroot, hsuccessors _ hroot, herror⟩

end Graph
end Dataplane
