import Dataplane.Proofs.Compilation

/-! The transitions of each family, described by what they are made from. -/
namespace Dataplane.Snapshot

variable {s : Snapshot}

theorem mem_vrfs {node vrf : String} :
    (node, vrf) ∈ s.vrfs ↔ ∃ v, s.network.vrf? node vrf = some v := by
  simp only [vrfs, List.mem_flatMap, List.mem_map, Prod.exists, Prod.mk.injEq,
    Std.ExtTreeMap.mem_toList_iff_getElem?_eq_some, Std.ExtTreeMap.mem_keys, Network.vrf?,
    Option.bind_eq_some_iff, mem_iff_exists]
  constructor
  · intro h
    obtain ⟨_, config, hconfig, _, ⟨v, hv⟩, rfl, rfl⟩ := h
    exact ⟨v, config, hconfig, hv⟩
  · intro h
    obtain ⟨v, config, hconfig, hv⟩ := h
    exact ⟨node, config, hconfig, vrf, ⟨v, hv⟩, rfl, rfl⟩

theorem mem_interfaces {node : String} {i : Interface} :
    (node, i) ∈ s.interfaces ↔ s.network.HasInterface node i := by
  simp only [interfaces, List.mem_flatMap, List.mem_map, Prod.exists, Prod.mk.injEq,
    Std.ExtTreeMap.mem_toList_iff_getElem?_eq_some, mem_values, Network.HasInterface,
    Network.interface?, Option.bind_eq_some_iff]
  constructor
  · intro h
    obtain ⟨_, config, hconfig, _, ⟨name, hi⟩, rfl, rfl⟩ := h
    exact ⟨name, config, hconfig, hi⟩
  · intro h
    obtain ⟨name, config, hconfig, hi⟩ := h
    exact ⟨node, config, hconfig, i, ⟨name, hi⟩, rfl, rfl⟩

theorem mem_listedEndpoints {network : Network} {node name : String} :
    ⟨node, name⟩ ∈ network.listedEndpoints ↔
      ∃ vrf v, network.vrf? node vrf = some v ∧ name ∈ v.interfaces := by
  simp only [Network.listedEndpoints, List.mem_flatMap, List.mem_map, Prod.exists, Endpoint.mk.injEq,
    Std.ExtTreeMap.mem_toList_iff_getElem?_eq_some, mem_values, Std.ExtTreeSet.mem_toList,
    Network.vrf?, Option.bind_eq_some_iff]
  constructor
  · intro h
    obtain ⟨_, config, hconfig, v, ⟨vrf, hv⟩, _, hname, rfl, rfl⟩ := h
    exact ⟨vrf, v, ⟨config, hconfig, hv⟩, hname⟩
  · intro h
    obtain ⟨vrf, v, ⟨config, hconfig, hv⟩, hname⟩ := h
    exact ⟨node, config, hconfig, v, ⟨vrf, hv⟩, name, hname, rfl, rfl⟩

theorem mem_listedInterfaces {listed : List (String × Interface)}
    (h : s.listedInterfaces = .ok listed) {node : String} {i : Interface} :
    (node, i) ∈ listed ↔ s.network.ListsInterface node i := by
  constructor
  · intro hmem
    obtain ⟨e, he, hresult⟩ := (mem_of_mapM h _).mp hmem
    simp only [bind_eq_ok, pure_eq_ok, Network.findInterface_eq_ok] at hresult
    obtain ⟨i', hi', _, _, heq⟩ := hresult
    obtain ⟨rfl, rfl⟩ := Prod.mk.inj heq
    obtain ⟨vrf, v, hv, hname⟩ := mem_listedEndpoints.mp he
    exact ⟨vrf, v, e.interface, hv, hname, hi'⟩
  · intro h
    obtain ⟨vrf, v, name, hv, hname, hi⟩ := h
    obtain ⟨b, hb, hresult⟩ := exists_of_mapM h (mem_listedEndpoints.mpr ⟨vrf, v, hv, hname⟩)
    simp only [bind_eq_ok, pure_eq_ok, Network.findInterface_eq_ok, hi,
      Option.some.injEq] at hresult
    obtain ⟨_, rfl, _, _, rfl⟩ := hresult
    exact hb

theorem mem_links {links : List (Link × HeaderSpace × Interface)} (h : s.links = .ok links)
    {link : Link} {space : HeaderSpace} {i : Interface} :
    (link, space, i) ∈ links ↔ s.forwarding.arpTrue[link]? = some space ∧
      s.network.interface? link.source = some i := by
  rw [mem_of_mapM h]
  simp only [Prod.exists, Std.ExtTreeMap.mem_toList_iff_getElem?_eq_some, bind_eq_ok, pure_eq_ok,
    Network.findInterface_eq_ok, Prod.mk.injEq]
  constructor
  · intro h
    obtain ⟨_, _, hspace, _, hi, rfl, rfl, rfl⟩ := h
    exact ⟨hspace, hi⟩
  · intro h
    obtain ⟨hspace, hi⟩ := h
    exact ⟨link, space, hspace, i, hi, rfl, rfl, rfl⟩

section

variable {family : List Transition} {t : Transition}

theorem mem_deniedIn (h : deniedIn s = .ok family) : t ∈ family ↔
    ∃ node i name acl, s.network.ListsInterface node i ∧ i.incomingFilter = some name ∧
      s.acl node name = .ok acl ∧
      t = { source := .preIn ⟨node, i.name⟩, target := .dropped .aclIn node,
            guard := acl.deny } := by
  simp only [deniedIn, bind_eq_ok] at h
  obtain ⟨listed, hlisted, h⟩ := h
  simp only [mem_of_mapM h, List.mem_filterMap, Option.map_eq_some_iff, Prod.exists, bind_eq_ok,
    pure_eq_ok, mem_listedInterfaces hlisted, Prod.mk.injEq]
  constructor
  · intro h
    obtain ⟨_, _, name, ⟨node, i, hi, _, hname, rfl, rfl, rfl⟩, acl, hacl, rfl⟩ := h
    exact ⟨node, i, _, acl, hi, hname, hacl, rfl⟩
  · intro h
    obtain ⟨node, i, name, acl, hi, hname, hacl, rfl⟩ := h
    exact ⟨node, i, name, ⟨node, i, hi, name, hname, rfl, rfl, rfl⟩, acl, hacl, rfl⟩

theorem mem_permittedIn (h : permittedIn s = .ok family) : t ∈ family ↔
    ∃ node i space, s.network.ListsInterface node i ∧
      s.permitted node i.incomingFilter = .ok space ∧
      t = { source := .preIn ⟨node, i.name⟩, target := .postIn node i.vrf, guard := space } := by
  simp only [permittedIn, bind_eq_ok] at h
  obtain ⟨listed, hlisted, h⟩ := h
  simp only [mem_of_mapM h, Prod.exists, bind_eq_ok, pure_eq_ok, mem_listedInterfaces hlisted]
  constructor
  · intro h
    obtain ⟨node, i, hi, space, hspace, rfl⟩ := h
    exact ⟨node, i, space, hi, hspace, rfl⟩
  · intro h
    obtain ⟨node, i, space, hi, hspace, rfl⟩ := h
    exact ⟨node, i, hi, space, hspace, rfl⟩

theorem mem_nullRouted (h : nullRouted s = .ok family) : t ∈ family ↔
    ∃ node vrf space, Forwarding.vrfSpace? s.forwarding.nullRouted node vrf = some space ∧
      t = { source := .preOut node vrf, target := .dropped .nullRoute node, guard := space } := by
  cases h
  simp only [List.mem_map, Prod.exists, Forwarding.mem_entries, eq_comm]
  rfl

theorem mem_unanswered (h : unanswered s = .ok family) : t ∈ family ↔
    ∃ node vrf name fact i space,
      (s.forwarding.neighborUnreachable[node]?.bind (·[vrf]?)).bind (·[name]?) = some fact ∧
      s.network.interface? ⟨node, name⟩ = some i ∧ s.permitted node i.outgoingFilter = .ok space ∧
      t = { source := .preOut node vrf, target := .nodeUnreachable ⟨node, name⟩,
            guard := fact.inter space } := by
  simp only [mem_of_mapM h, Prod.exists, bind_eq_ok, pure_eq_ok, Forwarding.mem_unreachableEntries,
    Network.findInterface_eq_ok]
  constructor
  · intro h
    obtain ⟨node, vrf, name, fact, hfact, i, hi, space, hspace, rfl⟩ := h
    exact ⟨node, vrf, name, fact, i, space, hfact, hi, hspace, rfl⟩
  · intro h
    obtain ⟨node, vrf, name, fact, i, space, hfact, hi, hspace, rfl⟩ := h
    exact ⟨node, vrf, name, fact, hfact, i, hi, space, hspace, rfl⟩

theorem mem_sent (h : sent s = .ok family) : t ∈ family ↔
    ∃ link fact i, s.forwarding.arpTrue[link]? = some fact ∧
      s.network.interface? link.source = some i ∧
      t = { source := .preOut link.source.node i.vrf, target := .preNat link, guard := fact } := by
  constructor
  · simp only [mem_of_mapM h, Prod.exists, bind_eq_ok, pure_eq_ok, Network.findInterface_eq_ok,
      Std.ExtTreeMap.mem_toList_iff_getElem?_eq_some]
    intro h
    obtain ⟨link, fact, hfact, i, hi, _, _, rfl⟩ := h
    exact ⟨link, fact, i, hfact, hi, rfl⟩
  · intro h
    obtain ⟨link, fact, i, hfact, hi, rfl⟩ := h
    obtain ⟨t, ht, hresult⟩ :=
      exists_of_mapM h (Std.ExtTreeMap.mem_toList_iff_getElem?_eq_some.mpr hfact)
    simp only [bind_eq_ok, pure_eq_ok, Network.findInterface_eq_ok, hi,
      Option.some.injEq] at hresult
    obtain ⟨_, rfl, _, _, rfl⟩ := hresult
    exact ht

theorem mem_sourceNat (h : sourceNat s = .ok family) : t ∈ family ↔
    ∃ link i rules, link ∈ s.forwarding.arpTrue ∧ s.network.interface? link.source = some i ∧
      s.natRules link.source.node i = .ok rules ∧
      t = { source := .preNat link, target := .postNat link, guard := .full, nat := rules } := by
  simp only [mem_of_mapM h, Prod.exists, bind_eq_ok, pure_eq_ok, Network.findInterface_eq_ok,
    Std.ExtTreeMap.mem_toList_iff_getElem?_eq_some, mem_iff_exists]
  constructor
  · intro h
    obtain ⟨link, fact, hfact, i, hi, rules, hrules, rfl⟩ := h
    exact ⟨link, i, rules, ⟨fact, hfact⟩, hi, hrules, rfl⟩
  · intro h
    obtain ⟨link, i, rules, ⟨fact, hfact⟩, hi, hrules, rfl⟩ := h
    exact ⟨link, fact, hfact, i, hi, rules, hrules, rfl⟩

/-- The rules of an interface that a link leaves from are well formed. -/
theorem exists_natRules (h : sourceNat s = .ok family) {link : Link} {i : Interface}
    (hlink : link ∈ s.forwarding.arpTrue) (hi : s.network.interface? link.source = some i) :
    ∃ rules, s.natRules link.source.node i = .ok rules := by
  obtain ⟨fact, hfact⟩ := mem_iff_exists.mp hlink
  obtain ⟨_, _, hresult⟩ :=
    exists_of_mapM h (Std.ExtTreeMap.mem_toList_iff_getElem?_eq_some.mpr hfact)
  simp only [bind_eq_ok, Network.findInterface_eq_ok, hi, Option.some.injEq] at hresult
  obtain ⟨_, rfl, rules, hrules, _⟩ := hresult
  exact ⟨rules, hrules⟩

theorem mem_deniedOut (h : deniedOut s = .ok family) : t ∈ family ↔
    ∃ link i name acl, link ∈ s.forwarding.arpTrue ∧ s.network.interface? link.source = some i ∧
      i.outgoingFilter = some name ∧ s.acl link.source.node name = .ok acl ∧
      t = { source := .postNat link, target := .dropped .aclOut link.source.node,
            guard := acl.deny } := by
  simp only [deniedOut, bind_eq_ok] at h
  obtain ⟨links, hlinks, h⟩ := h
  simp only [mem_of_mapM h, List.mem_filterMap, Option.map_eq_some_iff, Prod.exists, bind_eq_ok,
    pure_eq_ok, mem_links hlinks, Prod.mk.injEq, mem_iff_exists]
  constructor
  · intro h
    obtain ⟨_, _, ⟨link, fact, i, ⟨hfact, hi⟩, name, hname, rfl, rfl⟩, acl, hacl, rfl⟩ := h
    exact ⟨link, i, name, acl, ⟨fact, hfact⟩, hi, hname, hacl, rfl⟩
  · intro h
    obtain ⟨link, i, name, acl, ⟨fact, hfact⟩, hi, hname, hacl, rfl⟩ := h
    exact ⟨link, name, ⟨link, fact, i, ⟨hfact, hi⟩, name, hname, rfl, rfl⟩, acl, hacl, rfl⟩

theorem mem_permittedOut (h : permittedOut s = .ok family) : t ∈ family ↔
    ∃ link i space, link ∈ s.forwarding.arpTrue ∧ s.network.interface? link.source = some i ∧
      s.permitted link.source.node i.outgoingFilter = .ok space ∧
      t = { source := .postNat link, target := .preIn link.target, guard := space } := by
  simp only [permittedOut, bind_eq_ok] at h
  obtain ⟨links, hlinks, h⟩ := h
  simp only [mem_of_mapM h, Prod.exists, bind_eq_ok, pure_eq_ok, mem_links hlinks,
    mem_iff_exists]
  constructor
  · intro h
    obtain ⟨link, fact, i, ⟨hfact, hi⟩, space, hspace, rfl⟩ := h
    exact ⟨link, i, space, ⟨fact, hfact⟩, hi, hspace, rfl⟩
  · intro h
    obtain ⟨link, i, space, ⟨fact, hfact⟩, hi, hspace, rfl⟩ := h
    exact ⟨link, fact, i, ⟨hfact, hi⟩, space, hspace, rfl⟩

end

/-- To show something of every family it is shown of each by name, with its position. -/
@[elab_as_elim]
theorem families_cases
    {motive : (k : Nat) → (family : Family) → families[k]? = some family → Prop}
    (originateLinks : motive 0 originateLinks rfl)
    (originateVrfs : motive 1 originateVrfs rfl)
    (deniedIn : motive 2 deniedIn rfl)
    (permittedIn : motive 3 permittedIn rfl)
    (accepted : motive 4 accepted rfl)
    (unrouted : motive 5 unrouted rfl)
    (routed : motive 6 routed rfl)
    (nullRouted : motive 7 nullRouted rfl)
    (unanswered : motive 8 unanswered rfl)
    (sent : motive 9 sent rfl)
    (sourceNat : motive 10 sourceNat rfl)
    (deniedOut : motive 11 deniedOut rfl)
    (permittedOut : motive 12 permittedOut rfl)
    (nodeAccepted : motive 13 nodeAccepted rfl)
    (dropCauses : motive 14 dropCauses rfl)
    (nodeDropped : motive 15 nodeDropped rfl)
    (nodeUnreachable : motive 16 nodeUnreachable rfl)
    {k : Nat} {family : Family} (h : families[k]? = some family) : motive k family h := by
  have hmem : (family, k) ∈ families.zipIdx := List.mk_mem_zipIdx_iff_getElem?.mpr h
  simp only [families, List.zipIdx_cons, List.zipIdx_nil, List.mem_cons, List.not_mem_nil, or_false,
    Prod.mk.injEq, Nat.zero_add] at hmem
  rcases hmem with ⟨rfl, rfl⟩ | ⟨rfl, rfl⟩ | ⟨rfl, rfl⟩ | ⟨rfl, rfl⟩ | ⟨rfl, rfl⟩ | ⟨rfl, rfl⟩ |
    ⟨rfl, rfl⟩ | ⟨rfl, rfl⟩ | ⟨rfl, rfl⟩ | ⟨rfl, rfl⟩ | ⟨rfl, rfl⟩ | ⟨rfl, rfl⟩ | ⟨rfl, rfl⟩ |
    ⟨rfl, rfl⟩ | ⟨rfl, rfl⟩ | ⟨rfl, rfl⟩ | ⟨rfl, rfl⟩
  exacts [originateLinks, originateVrfs, deniedIn, permittedIn, accepted, unrouted, routed,
    nullRouted, unanswered, sent, sourceNat, deniedOut, permittedOut, nodeAccepted, dropCauses,
    nodeDropped, nodeUnreachable]

theorem mem_transitions {transitions : List Transition} (h : s.transitions = .ok transitions)
    {t : Transition} : t ∈ transitions ↔ ∃ family ∈ families, ∃ l, family s = .ok l ∧ t ∈ l := by
  simp only [Snapshot.transitions, bind_eq_ok, pure_eq_ok] at h
  obtain ⟨lists, hlists, rfl⟩ := h
  simp only [List.mem_flatten, mem_of_mapM hlists]
  constructor
  · intro h
    obtain ⟨l, ⟨family, hfamily, hl⟩, ht⟩ := h
    exact ⟨family, hfamily, l, hl, ht⟩
  · intro h
    obtain ⟨family, hfamily, l, hl, ht⟩ := h
    exact ⟨l, ⟨family, hfamily, hl⟩, ht⟩

/-- Every family succeeds, and its transitions are among those of the snapshot. -/
theorem exists_family_sublist {transitions : List Transition} (h : s.transitions = .ok transitions)
    {family : Family} (hfamily : family ∈ families) :
    ∃ l, family s = .ok l ∧ l.Sublist transitions := by
  simp only [Snapshot.transitions, bind_eq_ok, pure_eq_ok] at h
  obtain ⟨lists, hlists, rfl⟩ := h
  obtain ⟨l, hl, hok⟩ := exists_of_mapM hlists hfamily
  exact ⟨l, hok, List.sublist_flatten_of_mem hl⟩

theorem exists_family {transitions : List Transition} (h : s.transitions = .ok transitions)
    {family : Family} (hfamily : family ∈ families) :
    ∃ l, family s = .ok l ∧ ∀ t ∈ l, t ∈ transitions := by
  obtain ⟨l, hl, hsub⟩ := exists_family_sublist h hfamily
  exact ⟨l, hl, fun t ht => hsub.subset ht⟩

end Dataplane.Snapshot
