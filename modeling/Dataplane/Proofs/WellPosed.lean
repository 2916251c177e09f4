import Dataplane.Proofs.Families

/-! When a network and facts fit together, said without predicates, and what the checks of a build
find out about it. -/
namespace Dataplane

namespace IpSpace

mutual

/-- No block is longer than an address, and no range is inverted. -/
def wellFormed : IpSpace → Bool
  | .any | .empty | .single _ => true
  | .block _ length => length ≤ 32
  | .range first last => first.value ≤ last.value
  | .union spaces => allWellFormed spaces
  | .difference kept removed => kept.wellFormed && removed.wellFormed

def allWellFormed : List IpSpace → Bool
  | [] => true
  | space :: rest => space.wellFormed && allWellFormed rest

end

mutual

theorem exists_headers_iff (f : Field) :
    (space : IpSpace) → ((∃ s, space.headers f = .ok s) ↔ space.wellFormed = true)
  | .any => by simp [headers, wellFormed]
  | .empty => by simp [headers, wellFormed]
  | .single _ => by simp [headers, wellFormed]
  | .block _ length => by
    rw [headers, wellFormed, decide_eq_true_iff, ← UInt8.not_lt]
    split <;> simp [*]
  | .range first last => by
    rw [headers, wellFormed, decide_eq_true_iff, ← UInt32.not_lt]
    split <;> simp [*]
  | .union spaces => by
    rw [headers, wellFormed]
    exact exists_unionHeaders_iff f spaces .empty
  | .difference kept removed => by
    have hkept := exists_headers_iff f kept
    have hremoved := exists_headers_iff f removed
    rw [wellFormed, Bool.and_eq_true, ← hkept, ← hremoved, headers]
    simp only [exists_bind_ok, exists_pure_ok, and_true, exists_and_right]

theorem exists_unionHeaders_iff (f : Field) :
    (spaces : List IpSpace) → (found : HeaderSpace) →
      ((∃ s, unionHeaders f found spaces = .ok s) ↔ allWellFormed spaces = true)
  | [], _ => by simp [unionHeaders, allWellFormed]
  | space :: rest, found => by
    have hspace := exists_headers_iff f space
    rw [allWellFormed, Bool.and_eq_true, ← hspace, unionHeaders, exists_bind_ok]
    simp only [exists_unionHeaders_iff f rest, exists_and_right]

end

end IpSpace

/-- The ends are in order. -/
def PortRange.wellFormed (r : PortRange) : Bool := r.first ≤ r.last

/-- The address sets and the port ranges are well formed. -/
def HeaderMatch.wellFormed (m : HeaderMatch) : Bool :=
  m.srcIps.all (·.wellFormed) && m.dstIps.all (·.wellFormed) &&
    m.srcPorts.all (·.wellFormed) && m.dstPorts.all (·.wellFormed)

/-- All conditions are well formed, also those of lines that decide nothing. -/
def Acl.wellFormed (a : Acl) : Bool := a.lines.all (·.condition.wellFormed)

/-- A range with its ends in the wrong order is a fault. -/
def ModelError.ofRange? (f : Field) (first last : Nat) : Option ModelError :=
  if last < first then some (.invalidRange f first last) else none

theorem ModelError.ofRange?_eq_none {f : Field} {first last : Nat} :
    ofRange? f first last = none ↔ first ≤ last := by
  simp [ofRange?]

def PortRange.fault? (f : Field) (r : PortRange) : Option ModelError :=
  ModelError.ofRange? f r.first.toNat r.last.toNat

theorem PortRange.failure?_headers (f : Field) (ranges : List PortRange) :
    failure? (headers f ranges) = ranges.findSome? (fault? f) := by
  have hstep (found : HeaderSpace) (r : PortRange) :
      failure? (if r.last < r.first then .error (.invalidRange f r.first.toNat r.last.toNat)
        else .ok (found.union (.range f r.first.toNat r.last.toNat))) = r.fault? f := by
    rw [fault?, ModelError.ofRange?]
    simp only [UInt16.lt_iff_toNat_lt]
    split <;> rfl
  unfold headers
  split
  · rename_i hempty
    rw [List.isEmpty_iff.mp hempty]
    rfl
  · exact failure?_foldlM hstep ranges .empty

theorem PortRange.exists_headers_iff (f : Field) (ranges : List PortRange) :
    (∃ s, headers f ranges = .ok s) ↔ ranges.all (·.wellFormed) = true := by
  rw [← failure?_eq_none, failure?_headers, List.findSome?_eq_none_iff, List.all_eq_true]
  refine forall₂_congr fun r _ => ?_
  rw [fault?, ModelError.ofRange?_eq_none, wellFormed, decide_eq_true_iff, UInt16.le_iff_toNat_le]

theorem HeaderMatch.exists_headers_iff (m : HeaderMatch) :
    (∃ s, m.headers = .ok s) ↔ m.wellFormed = true := by
  have haddresses (f : Field) (space? : Option IpSpace) :
      (∃ s, (space?.getD .any).headers f = .ok s) ↔ space?.all (·.wellFormed) = true := by
    rw [IpSpace.exists_headers_iff]
    cases space? <;> simp [IpSpace.wellFormed]
  simp only [headers, exists_bind_ok, exists_pure_ok, and_true, exists_and_right, haddresses,
    PortRange.exists_headers_iff, wellFormed, Bool.and_eq_true, and_assoc]

theorem Acl.exists_compile_iff (a : Acl) : (∃ c, a.compile = .ok c) ↔ a.wellFormed = true := by
  simp only [compile, exists_bind_ok, exists_pure_ok, and_true, exists_mapM_iff,
    HeaderMatch.exists_headers_iff, wellFormed, List.all_eq_true]

namespace Network

variable {network : Network}

theorem checkVrf_eq_ok {node vrf : String} {u : Unit} :
    network.checkVrf node vrf = .ok u ↔ ∃ v, network.vrf? node vrf = some v := by
  unfold checkVrf findNode vrf?
  cases network[node]? with
  | none => simp [bind, Except.bind]
  | some config =>
    rw [ok_bind, Option.bind_some, ← mem_iff_exists, Std.ExtTreeMap.mem_iff_contains]
    split <;> simp [*]

/-- Every fact is about a routing domain that exists, and is well formed. -/
def Knows (network : Network) (facts : Table (Table IpSpace)) : Prop :=
  ∀ node vrf space, facts[node]?.bind (·[vrf]?) = some space →
    (∃ v, network.vrf? node vrf = some v) ∧ space.wellFormed = true

end Network

/-- The network is sound in itself, and the facts are about it. -/
structure WellPosed (network : Network) (facts : Facts) : Prop where
  acls : ∀ node name a, network.acl? node name = some a → a.wellFormed = true
  /-- Filters and source NAT name access lists of their node. -/
  references : ∀ node i, network.HasInterface node i →
    ∀ name ∈ i.referencedAcls, ∃ a, network.acl? node name = some a
  routable : network.Knows facts.routable
  nullRouted : network.Knows facts.nullRouted
  links : ∀ (link : Link) space, facts.arpTrue[link]? = some space →
    (∃ i, network.interface? link.source = some i) ∧
      (∃ i, network.interface? link.target = some i) ∧ space.wellFormed = true
  unreachable : ∀ node vrf interfaces,
    facts.neighborUnreachable[node]?.bind (·[vrf]?) = some interfaces →
      (∃ v, network.vrf? node vrf = some v) ∧
        ∀ (name : String) space, interfaces[name]? = some space →
          (∃ i, network.interface? ⟨node, name⟩ = some i) ∧ space.wellFormed = true
  /-- What a routing domain lists exists, and so does the domain that it names itself. -/
  listed : ∀ node vrf v, network.vrf? node vrf = some v → ∀ name ∈ v.interfaces,
    ∃ i, network.interface? ⟨node, name⟩ = some i ∧ ∃ w, network.vrf? node i.vrf = some w
  /-- A link leaves from an interface whose routing domain exists and whose pools are in order. -/
  senders : ∀ link ∈ facts.arpTrue, ∀ i, network.interface? link.source = some i →
    (∃ v, network.vrf? link.source.node i.vrf = some v) ∧
      ∀ nat ∈ i.sourceNats, nat.poolFirst.value ≤ nat.poolLast.value
  /-- Interfaces of a node have different names. -/
  names : ∀ node key key' i j, network.interface? ⟨node, key⟩ = some i →
    network.interface? ⟨node, key'⟩ = some j → i.name = j.name → key = key'
  /-- No interface is listed by two routing domains of its node. -/
  listedOnce : ∀ node vrf vrf' v v' name, network.vrf? node vrf = some v →
    network.vrf? node vrf' = some v' → name ∈ v.interfaces → name ∈ v'.interfaces → vrf = vrf'

theorem Configuration.exists_compileAcls_iff (c : Coarsening) (node : String)
    (config : Configuration) : (∃ acls, config.compileAcls c node = .ok acls) ↔
      (∀ (name : String) a, config.acls[name]? = some a → a.wellFormed = true) ∧
        ∀ i ∈ config.interfaces.values, ∀ name ∈ i.referencedAcls, name ∈ config.acls := by
  have hcompile : (∃ acls, traverse (fun _ acl => return (← acl.compile).coarsen c) config.acls =
      (.ok acls : Except ModelError _)) ↔
        ∀ (name : String) a, config.acls[name]? = some a → a.wellFormed = true := by
    simp only [exists_traverse_iff, exists_bind_ok, exists_pure_ok, and_true,
      Acl.exists_compile_iff]
  rw [← hcompile, compileAcls, exists_bind_ok, ← exists_and_right]
  refine exists_congr fun acls => and_congr_right fun hacls => ?_
  simp only [← mem_traverse hacls]
  split
  · rename_i name hname
    obtain ⟨i, hi, hreferenced⟩ := List.mem_flatMap.mp (List.mem_of_find?_eq_some hname)
    have hmissing := List.find?_some hname
    refine iff_of_false (by simp) fun h => ?_
    have hcontains := Std.ExtTreeMap.mem_iff_contains.mp (h i hi name hreferenced)
    rw [hcontains] at hmissing
    contradiction
  · rename_i hnone
    refine iff_of_true exists_pure_ok fun i hi name hname => ?_
    have := List.find?_eq_none.mp hnone name (List.mem_flatMap.mpr ⟨i, hi, hname⟩)
    simpa using this

namespace Network

theorem exists_compileAcls_iff (c : Coarsening) (network : Network) :
    (∃ acls, network.compileAcls c = .ok acls) ↔
      (∀ node name a, network.acl? node name = some a → a.wellFormed = true) ∧
        ∀ node i, network.HasInterface node i → ∀ name ∈ i.referencedAcls,
          ∃ a, network.acl? node name = some a := by
  simp only [compileAcls, exists_traverse_iff, Configuration.exists_compileAcls_iff, acl?,
    HasInterface, interface?, Option.bind_eq_some_iff, mem_values, mem_iff_exists]
  constructor
  · intro h
    refine ⟨?_, ?_⟩
    · rintro node name a ⟨config, hconfig, ha⟩
      exact (h node config hconfig).1 name a ha
    · rintro node i ⟨key, config, hconfig, hi⟩ name hname
      obtain ⟨a, ha⟩ := (h node config hconfig).2 i ⟨key, hi⟩ name hname
      exact ⟨a, config, hconfig, ha⟩
  · rintro ⟨hacls, hreferences⟩ node config hconfig
    refine ⟨fun name a ha => hacls node name a ⟨config, hconfig, ha⟩, ?_⟩
    rintro i ⟨key, hi⟩ name hname
    obtain ⟨a, config', hconfig', ha⟩ := hreferences node i ⟨key, config, hconfig, hi⟩ name hname
    rw [hconfig] at hconfig'
    cases hconfig'
    exact ⟨a, ha⟩

theorem exists_vrfFacts_iff (network : Network) (facts : Table (Table IpSpace)) :
    (∃ spaces, network.vrfFacts facts = .ok spaces) ↔ network.Knows facts := by
  simp only [vrfFacts, exists_traverse_iff, exists_bind_ok, checkVrf_eq_ok,
    IpSpace.exists_headers_iff, Knows, Option.bind_eq_some_iff]
  constructor
  · rintro h node vrf space ⟨vrfs, hvrfs, hspace⟩
    obtain ⟨_, hv, hwell⟩ := h node vrfs hvrfs vrf space hspace
    exact ⟨hv, hwell⟩
  · intro h node vrfs hvrfs vrf space hspace
    obtain ⟨hv, hwell⟩ := h node vrf space ⟨vrfs, hvrfs, hspace⟩
    exact ⟨(), hv, hwell⟩

end Network

theorem Configuration.exists_vrfAddresses_iff (config : Configuration) (node : String) (v : Vrf) :
    (∃ addresses, config.vrfAddresses node v = .ok addresses) ↔
      ∀ name ∈ v.interfaces, ∃ i, config.interfaces[name]? = some i := by
  simp only [← Std.ExtTreeSet.mem_toList]
  unfold vrfAddresses
  refine exists_foldlM_iff (fun found name => ?_) _ _
  cases config.interfaces[name]? <;> simp

namespace Network

theorem exists_linkFacts_iff (network : Network) (facts : Std.ExtTreeMap Link IpSpace) :
    (∃ spaces, network.linkFacts facts = .ok spaces) ↔
      ∀ (link : Link) (space : IpSpace), facts[link]? = some space →
        (∃ i, network.interface? link.source = some i) ∧
          (∃ i, network.interface? link.target = some i) ∧ space.wellFormed = true := by
  simp only [linkFacts, exists_traverse_iff, exists_bind_ok, findInterface_eq_ok,
    IpSpace.exists_headers_iff, exists_and_right]

theorem exists_neighborFacts_iff (network : Network) (facts : Table (Table (Table IpSpace))) :
    (∃ spaces, network.neighborFacts facts = .ok spaces) ↔
      ∀ node vrf interfaces, facts[node]?.bind (·[vrf]?) = some interfaces →
        (∃ v, network.vrf? node vrf = some v) ∧
          ∀ (name : String) space, interfaces[name]? = some space →
            (∃ i, network.interface? ⟨node, name⟩ = some i) ∧ space.wellFormed = true := by
  simp only [neighborFacts, exists_traverse_iff, exists_bind_ok, checkVrf_eq_ok,
    findInterface_eq_ok, IpSpace.exists_headers_iff, exists_and_right, exists_const,
    Option.bind_eq_some_iff]
  constructor
  · rintro h node vrf interfaces ⟨vrfs, hvrfs, hinterfaces⟩
    exact h node vrfs hvrfs vrf interfaces hinterfaces
  · intro h node vrfs hvrfs vrf interfaces hinterfaces
    exact h node vrf interfaces ⟨vrfs, hvrfs, hinterfaces⟩

theorem exists_acceptedSpaces_iff (network : Network) :
    (∃ spaces, network.acceptedSpaces = .ok spaces) ↔
      ∀ node vrf v, network.vrf? node vrf = some v →
        ∀ name ∈ v.interfaces, ∃ i, network.interface? ⟨node, name⟩ = some i := by
  simp only [acceptedSpaces, exists_traverse_iff, exists_bind_ok, exists_pure_ok, and_true,
    Configuration.exists_vrfAddresses_iff, vrf?, interface?, Option.bind_eq_some_iff]
  constructor
  · rintro h node vrf v ⟨config, hconfig, hv⟩ name hname
    obtain ⟨i, hi⟩ := h node config hconfig vrf v hv name hname
    exact ⟨i, config, hconfig, hi⟩
  · intro h node config hconfig vrf v hv name hname
    obtain ⟨i, config', hconfig', hi⟩ := h node vrf v ⟨config, hconfig, hv⟩ name hname
    rw [hconfig] at hconfig'
    cases hconfig'
    exact ⟨i, hi⟩

end Network

/-- The checks of the facts, in their order. -/
theorem Forwarding.exists_ofFacts_iff (network : Network) (facts : Facts) :
    (∃ f, ofFacts network facts = .ok f) ↔
      network.Knows facts.routable ∧ network.Knows facts.nullRouted ∧
      (∀ (link : Link) space, facts.arpTrue[link]? = some space →
        (∃ i, network.interface? link.source = some i) ∧
          (∃ i, network.interface? link.target = some i) ∧ space.wellFormed = true) ∧
      (∀ node vrf interfaces, facts.neighborUnreachable[node]?.bind (·[vrf]?) = some interfaces →
        (∃ v, network.vrf? node vrf = some v) ∧
          ∀ (name : String) space, interfaces[name]? = some space →
            (∃ i, network.interface? ⟨node, name⟩ = some i) ∧ space.wellFormed = true) ∧
      ∀ node vrf v, network.vrf? node vrf = some v →
        ∀ name ∈ v.interfaces, ∃ i, network.interface? ⟨node, name⟩ = some i := by
  simp only [ofFacts, exists_bind_ok, exists_pure_ok, and_true, exists_and_right,
    Network.exists_vrfFacts_iff, Network.exists_linkFacts_iff, Network.exists_neighborFacts_iff,
    Network.exists_acceptedSpaces_iff]

theorem Interface.mem_referencedAcls_of_nat {i : Interface} {nat : SourceNat}
    (h : nat ∈ i.sourceNats) : nat.acl ∈ i.referencedAcls := by
  unfold referencedAcls
  exact List.mem_append_right _ (List.mem_map_of_mem h)

namespace Snapshot

variable {s : Snapshot}

theorem exists_listedInterfaces_iff : (∃ listed, s.listedInterfaces = .ok listed) ↔
    ∀ node vrf v, s.network.vrf? node vrf = some v → ∀ name ∈ v.interfaces,
      ∃ i, s.network.interface? ⟨node, name⟩ = some i ∧
        ∃ w, s.network.vrf? node i.vrf = some w := by
  simp only [listedInterfaces, exists_mapM_iff, exists_bind_ok, exists_pure_ok, and_true,
    Network.findInterface_eq_ok, Network.checkVrf_eq_ok, exists_const]
  constructor
  · intro h node vrf v hv name hname
    exact h ⟨node, name⟩ (mem_listedEndpoints.mpr ⟨vrf, v, hv, hname⟩)
  · intro h e he
    obtain ⟨vrf, v, hv, hname⟩ := mem_listedEndpoints.mp he
    exact h e.node vrf v hv e.interface hname

section

variable {facts : Facts} (hs : s.Compiled facts)

include hs

theorem Compiled.exists_sender {link : Link} (h : link ∈ s.forwarding.arpTrue) :
    ∃ i, s.network.interface? link.source = some i := by
  have hfacts := (Forwarding.exists_ofFacts_iff _ _).mp ⟨_, hs.forwarding⟩
  have hlink := (Forwarding.agrees_ofFacts hs.forwarding).mem_arpTrue.mp h
  obtain ⟨space, hspace⟩ := mem_iff_exists.mp hlink
  exact (hfacts.2.2.1 link space hspace).1

theorem Compiled.exists_unanswered {node vrf name : String} {space : HeaderSpace}
    (h : (s.forwarding.neighborUnreachable[node]?.bind (·[vrf]?)).bind (·[name]?) = some space) :
    ∃ i, s.network.interface? ⟨node, name⟩ = some i := by
  have hfacts := (Forwarding.exists_ofFacts_iff _ _).mp ⟨_, hs.forwarding⟩
  have hrel := (Forwarding.agrees_ofFacts hs.forwarding).unreachable node vrf name
  obtain ⟨fact, hfact, _⟩ := (some_of_rel hrel).2 space h
  obtain ⟨interfaces, hinterfaces, hfact⟩ := Option.bind_eq_some_iff.mp hfact
  exact ((hfacts.2.2.2.1 node vrf interfaces hinterfaces).2 name fact hfact).1

theorem Compiled.exists_natRules_iff {node : String} {i : Interface}
    (hi : s.network.HasInterface node i) : (∃ rules, s.natRules node i = .ok rules) ↔
      ∀ nat ∈ i.sourceNats, nat.poolFirst.value ≤ nat.poolLast.value := by
  rw [natRules, exists_mapM_iff]
  refine forall₂_congr fun nat hnat => ?_
  obtain ⟨acl, hacl⟩ := hs.exists_acl hi (Interface.mem_referencedAcls_of_nat hnat)
  rw [hacl, ok_bind, UInt32.le_iff_toNat_le, ← Nat.not_lt]
  dsimp only
  split
  · rename_i hpool
    exact iff_of_false nofun (not_not_intro hpool)
  · rename_i hpool
    exact iff_of_true exists_pure_ok hpool

/-- A link with a predicate has a fact, and leaves from an interface. -/
theorem Compiled.exists_link {link : Link} {space : HeaderSpace}
    (h : (link, space) ∈ s.forwarding.arpTrue.toList) :
    link ∈ facts.arpTrue ∧ ∃ i, s.network.interface? link.source = some i := by
  have hspace := Std.ExtTreeMap.mem_toList_iff_getElem?_eq_some.mp h
  have hmem : link ∈ s.forwarding.arpTrue := mem_iff_exists.mpr ⟨space, hspace⟩
  exact ⟨(Forwarding.agrees_ofFacts hs.forwarding).mem_arpTrue.mp hmem, hs.exists_sender hmem⟩

theorem Compiled.exists_links : ∃ links, s.links = .ok links := by
  simp only [Snapshot.links, exists_mapM_iff, exists_bind_ok, exists_pure_ok, and_true, Prod.forall,
    Network.findInterface_eq_ok]
  intro link space h
  exact (hs.exists_link h).2

theorem Compiled.exists_family_ok
    (hlisted : ∃ listed, s.listedInterfaces = .ok listed)
    (hsenders : ∀ link ∈ facts.arpTrue, ∀ i, s.network.interface? link.source = some i →
      (∃ v, s.network.vrf? link.source.node i.vrf = some v) ∧
        ∀ nat ∈ i.sourceNats, nat.poolFirst.value ≤ nat.poolLast.value)
    {family : Family} (hfamily : family ∈ families) : ∃ l, family s = .ok l := by
  obtain ⟨listed, hlisted⟩ := hlisted
  obtain ⟨links, hlinks⟩ := hs.exists_links
  have hhas {node : String} {i : Interface} (h : (node, i) ∈ listed) :
      s.network.HasInterface node i := ((mem_listedInterfaces hlisted).mp h).hasInterface
  have hsends {link : Link} {space : HeaderSpace} {i : Interface} (h : (link, space, i) ∈ links) :
      s.network.HasInterface link.source.node i := ⟨_, ((mem_links hlinks).mp h).2⟩
  obtain ⟨_, hposition⟩ := List.mem_iff_getElem?.mp hfamily
  -- Families that look nothing up cannot fail.
  cases hposition using families_cases with
  | originateLinks => exact ⟨_, rfl⟩
  | originateVrfs => exact ⟨_, rfl⟩
  | deniedIn =>
    simp only [deniedIn, hlisted, ok_bind, exists_mapM_iff, exists_bind_ok, exists_pure_ok,
      and_true, Prod.forall, List.mem_filterMap, Option.map_eq_some_iff, Prod.exists,
      Prod.mk.injEq]
    rintro _ _ _ ⟨node, i, hi, name, hname, rfl, rfl, rfl⟩
    exact hs.exists_acl (hhas hi) (Interface.mem_referencedAcls_of_incoming hname)
  | permittedIn =>
    simp only [permittedIn, hlisted, ok_bind, exists_mapM_iff, exists_bind_ok, exists_pure_ok,
      and_true, Prod.forall]
    intro node i hi
    exact hs.exists_permitted (hhas hi) Interface.mem_referencedAcls_of_incoming
  | accepted => exact ⟨_, rfl⟩
  | unrouted => exact ⟨_, rfl⟩
  | routed => exact ⟨_, rfl⟩
  | nullRouted => exact ⟨_, rfl⟩
  | unanswered =>
    simp only [unanswered, exists_mapM_iff, exists_bind_ok, exists_pure_ok, and_true, Prod.forall,
      Forwarding.mem_unreachableEntries, Network.findInterface_eq_ok]
    intro node vrf name space hspace
    obtain ⟨i, hi⟩ := hs.exists_unanswered hspace
    exact ⟨i, hi, hs.exists_permitted ⟨name, hi⟩ Interface.mem_referencedAcls_of_outgoing⟩
  | sent =>
    simp only [sent, exists_mapM_iff, exists_bind_ok, exists_pure_ok, and_true, Prod.forall,
      Network.findInterface_eq_ok, Network.checkVrf_eq_ok, exists_const]
    intro link space h
    obtain ⟨hlink, i, hi⟩ := hs.exists_link h
    exact ⟨i, hi, (hsenders link hlink i hi).1⟩
  | sourceNat =>
    simp only [sourceNat, exists_mapM_iff, exists_bind_ok, exists_pure_ok, and_true, Prod.forall,
      Network.findInterface_eq_ok]
    intro link space h
    obtain ⟨hlink, i, hi⟩ := hs.exists_link h
    exact ⟨i, hi, (hs.exists_natRules_iff ⟨_, hi⟩).mpr (hsenders link hlink i hi).2⟩
  | deniedOut =>
    simp only [deniedOut, hlinks, ok_bind, exists_mapM_iff, exists_bind_ok, exists_pure_ok,
      and_true, Prod.forall, List.mem_filterMap, Option.map_eq_some_iff, Prod.exists,
      Prod.mk.injEq]
    rintro _ _ ⟨link, space, i, hi, name, hname, rfl, rfl⟩
    exact hs.exists_acl (hsends hi) (Interface.mem_referencedAcls_of_outgoing hname)
  | permittedOut =>
    simp only [permittedOut, hlinks, ok_bind, exists_mapM_iff, exists_bind_ok, exists_pure_ok,
      and_true, Prod.forall]
    intro link space i hi
    exact hs.exists_permitted (hsends hi) Interface.mem_referencedAcls_of_outgoing
  | nodeAccepted => exact ⟨_, rfl⟩
  | dropCauses => exact ⟨_, rfl⟩
  | nodeDropped => exact ⟨_, rfl⟩
  | nodeUnreachable => exact ⟨_, rfl⟩

/-- The checks that are left to the rules. -/
theorem Compiled.exists_transitions_iff : (∃ transitions, s.transitions = .ok transitions) ↔
    (∃ listed, s.listedInterfaces = .ok listed) ∧
      ∀ link ∈ facts.arpTrue, ∀ i, s.network.interface? link.source = some i →
        (∃ v, s.network.vrf? link.source.node i.vrf = some v) ∧
          ∀ nat ∈ i.sourceNats, nat.poolFirst.value ≤ nat.poolLast.value := by
  constructor
  · rintro ⟨transitions, htransitions⟩
    have hfamily (family : Family) (hmem : family ∈ families) := exists_family htransitions hmem
    obtain ⟨_, hdenied, _⟩ := hfamily deniedIn (by simp [families])
    obtain ⟨_, hsent, _⟩ := hfamily sent (by simp [families])
    obtain ⟨_, hnat, _⟩ := hfamily sourceNat (by simp [families])
    obtain ⟨listed, hlisted, _⟩ := bind_eq_ok.mp hdenied
    refine ⟨⟨listed, hlisted⟩, fun link hlink i hi => ?_⟩
    have hmem := (Forwarding.agrees_ofFacts hs.forwarding).mem_arpTrue.mpr hlink
    obtain ⟨space, hspace⟩ := mem_iff_exists.mp hmem
    obtain ⟨_, _, hchecked⟩ :=
      exists_of_mapM hsent (Std.ExtTreeMap.mem_toList_iff_getElem?_eq_some.mpr hspace)
    simp only [bind_eq_ok, Network.findInterface_eq_ok, Network.checkVrf_eq_ok, hi,
      Option.some.injEq] at hchecked
    obtain ⟨_, rfl, _, hv, _⟩ := hchecked
    exact ⟨hv, (hs.exists_natRules_iff ⟨_, hi⟩).mp (exists_natRules hnat hmem hi)⟩
  · rintro ⟨hlisted, hsenders⟩
    simp only [transitions, exists_bind_ok, exists_pure_ok, and_true, exists_mapM_iff]
    exact fun family hfamily => hs.exists_family_ok hlisted hsenders hfamily

end

end Snapshot
end Dataplane
