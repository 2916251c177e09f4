import Dataplane.Pipeline.Rules
import Dataplane.Proofs.Crossing
import Dataplane.Proofs.Simulation

/-! The predicates of a snapshot say what its configurations and facts say. -/
namespace Dataplane

namespace Network

variable {network : Network}

theorem findInterface_eq_ok {e : Endpoint} {i : Interface} :
    network.findInterface e = .ok i ↔ network.interface? e = some i := by
  unfold findInterface findNode interface?
  cases network[e.node]? with
  | none => simp [bind, Except.bind]
  | some config =>
    rw [ok_bind, Option.bind_some]
    cases config.interfaces[e.interface]? <;> simp

end Network

theorem Configuration.compileAcls_eq_ok {c : Coarsening} {node : String} {config : Configuration}
    {acls : Table CompiledAcl} (h : config.compileAcls c node = .ok acls) :
    traverse (fun _ acl => return (← acl.compile).coarsen c) config.acls = .ok acls ∧
      ∀ i ∈ config.interfaces.values, ∀ name ∈ i.referencedAcls, name ∈ acls := by
  simp only [compileAcls, bind_eq_ok] at h
  obtain ⟨found, hfound, h⟩ := h
  split at h
  · contradiction
  rename_i hnone
  rw [pure_eq_ok] at h
  subst found
  refine ⟨hfound, fun i hi name hname => ?_⟩
  have := List.find?_eq_none.mp hnone name (List.mem_flatMap.mpr ⟨i, hi, hname⟩)
  simpa using this

namespace Network

variable {network : Network} {c : Coarsening} {acls : Table (Table CompiledAcl)}

theorem rel_compileAcls (h : network.compileAcls c = .ok acls) (node name : String) :
    Option.Rel (fun a x => ∃ y, a.compile = .ok y ∧ y.coarsen c = x) (network.acl? node name)
      (acls[node]?.bind (·[name]?)) := by
  refine rel_bind (rel_traverse h node) fun config found hconfig => ?_
  have hacls := rel_traverse (config.compileAcls_eq_ok hconfig).1 name
  simpa only [bind_eq_ok, pure_eq_ok] using hacls

/-- Every access list that an interface refers to is compiled. -/
theorem exists_compiled (h : network.compileAcls c = .ok acls) {node name : String} {i : Interface}
    (hi : network.HasInterface node i) (hname : name ∈ i.referencedAcls) :
    ∃ x, acls[node]?.bind (·[name]?) = some x := by
  obtain ⟨key, hi⟩ := hi
  obtain ⟨config, hconfig, hi⟩ := Option.bind_eq_some_iff.mp hi
  obtain ⟨found, hfound, hcompile⟩ := (some_of_rel (rel_traverse h node)).1 config hconfig
  have hmem := (config.compileAcls_eq_ok hcompile).2 i (mem_values.mpr ⟨key, hi⟩) name hname
  obtain ⟨x, hx⟩ := mem_iff_exists.mp hmem
  exact ⟨x, by rw [hfound, Option.bind_some, hx]⟩

end Network

/-- The packets to an address of the set. -/
def IpSpace.Describes (space : IpSpace) (s : HeaderSpace) : Prop := space.headers .dstIp = .ok s

theorem IpSpace.contains_getD {x : Option IpSpace} {y : Option HeaderSpace}
    (h : Option.Rel IpSpace.Describes x y) (p : Packet) :
    (y.getD .empty).contains p = x.any (·.includes p.dstAddress) := by
  cases h with
  | none => exact HeaderSpace.contains_empty p
  | some h => exact contains_dstHeaders h p

theorem HeaderSpace.contains_sentTo (addresses : List Address) (p : Packet) :
    (sentTo addresses).contains p = true ↔ p.dstAddress ∈ addresses := by
  have hvalue (a : Address) : (value .dstIp a.value.toNat).contains p = true ↔
      p.dstAddress = a := by
    rw [contains_value_of_lt (f := .dstIp) nofun a.value.toNat_lt, Address.eq_iff]
    rfl
  simp [sentTo, contains_foldl_union, hvalue]

/-- A packet with a new source from a pool is one that agrees off the source and is in the pool. -/
theorem HeaderSpace.contains_pool {first last : Address} (h : first.value.toNat ≤ last.value.toNat)
    (p q : Packet) :
    Packet.AgreeOff .srcIp p q ∧
        (range .srcIp first.value.toNat last.value.toNat).contains q = true ↔
      ∃ a : Address, first.value ≤ a.value ∧ a.value ≤ last.value ∧
        q = { p with srcIp := a.value } := by
  rw [Packet.agreeOff_srcIp_iff,
    contains_range_of_lt (f := .srcIp) nofun h last.value.toNat_lt]
  constructor
  · intro h
    obtain ⟨hq, hfirst, hlast⟩ := h
    exact ⟨q.srcAddress, hfirst, hlast, hq⟩
  · intro h
    obtain ⟨a, hfirst, hlast, rfl⟩ := h
    exact ⟨rfl, hfirst, hlast⟩

theorem Configuration.mem_vrfAddresses {config : Configuration} {node : String} {v : Vrf}
    {addresses : List Address} (h : config.vrfAddresses node v = .ok addresses) (a : Address) :
    a ∈ addresses ↔
      ∃ name ∈ v.interfaces, ∃ i, config.interfaces[name]? = some i ∧ a ∈ i.addresses := by
  have hmem := foldlM_iff (P := (a ∈ ·))
    (Q := fun name => ∃ i, config.interfaces[name]? = some i ∧ a ∈ i.addresses) ?_ h
  · simpa using hmem
  · intro found name next hnext
    split at hnext
    · cases hnext
      simp [*]
    · contradiction

theorem IpSpace.any_includes_iff {x : Option IpSpace} {y : Option HeaderSpace}
    (h : Option.Rel IpSpace.Describes x y) (p : Packet) :
    x.any (·.includes p.dstAddress) = true ↔ ∃ s, y = some s ∧ s.contains p = true := by
  rw [← IpSpace.contains_getD h]
  cases y <;> simp

theorem IpSpace.Describes.dstOnly {space : IpSpace} {s : HeaderSpace} (h : space.Describes s) :
    s.DstOnly := by
  intro p q hpq
  rw [contains_dstHeaders h, contains_dstHeaders h, Packet.dstAddress, Packet.dstAddress, hpq]

theorem IpSpace.dstOnly_of_rel {x : Option IpSpace} {y : Option HeaderSpace}
    (h : Option.Rel IpSpace.Describes x y) {s : HeaderSpace} (hs : y = some s) : s.DstOnly := by
  obtain ⟨_, _, hdescribes⟩ := (some_of_rel h).2 s hs
  exact hdescribes.dstOnly

namespace Forwarding

theorem mem_entries {α : Type} {table : Table (Table α)} {node vrf : String} {a : α} :
    (node, vrf, a) ∈ entries table ↔ table[node]?.bind (·[vrf]?) = some a := by
  simp [entries, Option.bind_eq_some_iff, Std.ExtTreeMap.mem_toList_iff_getElem?_eq_some]

theorem mem_unreachableEntries {f : Forwarding} {node vrf name : String} {space : HeaderSpace} :
    (node, vrf, name, space) ∈ f.unreachableEntries ↔
      (f.neighborUnreachable[node]?.bind (·[vrf]?)).bind (·[name]?) = some space := by
  simp [unreachableEntries, mem_entries, Option.bind_eq_some_iff,
    Std.ExtTreeMap.mem_toList_iff_getElem?_eq_some]

/-- Every space is that of a fact, and a routing domain accepts packets to its own addresses. -/
structure Agrees (network : Network) (facts : Facts) (f : Forwarding) : Prop where
  routable : ∀ node vrf : String, Option.Rel IpSpace.Describes
    (facts.routable[node]?.bind (·[vrf]?)) (vrfSpace? f.routable node vrf)
  nullRouted : ∀ node vrf : String, Option.Rel IpSpace.Describes
    (facts.nullRouted[node]?.bind (·[vrf]?)) (vrfSpace? f.nullRouted node vrf)
  arpTrue : ∀ link : Link, Option.Rel IpSpace.Describes facts.arpTrue[link]? f.arpTrue[link]?
  unreachable : ∀ node vrf name : String, Option.Rel IpSpace.Describes
    ((facts.neighborUnreachable[node]?.bind (·[vrf]?)).bind (·[name]?))
    ((f.neighborUnreachable[node]?.bind (·[vrf]?)).bind (·[name]?))
  accepted : ∀ node vrf p, (f.acceptedAt node vrf).contains p = true ↔
    network.OwnsAddress node vrf p.dstAddress

section

variable {network : Network} {facts : Facts} {f : Forwarding} (h : f.Agrees network facts)

include h

theorem Agrees.contains_routableAt (node vrf : String) (p : Packet) :
    (f.routableAt node vrf).contains p = facts.routes node vrf p.dstAddress :=
  IpSpace.contains_getD (h.routable node vrf) p

theorem Agrees.contains_notAcceptedAt (node vrf : String) (p : Packet) :
    (f.notAcceptedAt node vrf).contains p = true ↔ ¬network.OwnsAddress node vrf p.dstAddress := by
  rw [notAcceptedAt, HeaderSpace.contains_compl, Bool.not_eq_true', ← Bool.not_eq_true,
    h.accepted]

theorem Agrees.contains_unrouted (node vrf : String) (p : Packet) :
    ((f.notAcceptedAt node vrf).diff (f.routableAt node vrf)).contains p = true ↔
      ¬network.OwnsAddress node vrf p.dstAddress ∧ facts.routes node vrf p.dstAddress = false := by
  rw [HeaderSpace.contains_diff, Bool.and_eq_true, h.contains_notAcceptedAt,
    h.contains_routableAt, Bool.not_eq_true']

theorem Agrees.contains_routed (node vrf : String) (p : Packet) :
    ((f.notAcceptedAt node vrf).inter (f.routableAt node vrf)).contains p = true ↔
      ¬network.OwnsAddress node vrf p.dstAddress ∧ facts.routes node vrf p.dstAddress = true := by
  rw [HeaderSpace.contains_inter, Bool.and_eq_true, h.contains_notAcceptedAt,
    h.contains_routableAt]

theorem Agrees.dstOnly_routableAt (node vrf : String) : (f.routableAt node vrf).DstOnly := by
  intro p q hpq
  rw [h.contains_routableAt, h.contains_routableAt, Packet.dstAddress, Packet.dstAddress, hpq]

theorem Agrees.dstOnly_acceptedAt (node vrf : String) : (f.acceptedAt node vrf).DstOnly := by
  intro p q hpq
  rw [Bool.eq_iff_iff, h.accepted, h.accepted, Packet.dstAddress, Packet.dstAddress, hpq]

theorem Agrees.mem_arpTrue {link : Link} : link ∈ f.arpTrue ↔ link ∈ facts.arpTrue := by
  rw [Std.ExtTreeMap.mem_iff_isSome_getElem?, Std.ExtTreeMap.mem_iff_isSome_getElem?]
  have hlink := h.arpTrue link
  generalize facts.arpTrue[link]? = fact, f.arpTrue[link]? = space at hlink ⊢
  cases hlink <;> rfl

end

theorem rel_vrfFacts {network : Network} {facts : Table (Table IpSpace)}
    {spaces : Table (Table HeaderSpace)} (h : network.vrfFacts facts = .ok spaces)
    (node vrf : String) : Option.Rel IpSpace.Describes (facts[node]?.bind (·[vrf]?))
      (vrfSpace? spaces node vrf) := by
  refine rel_bind (rel_traverse h node) fun a b hab => ?_
  have hvrf := rel_traverse hab vrf
  simp only [bind_eq_ok] at hvrf
  refine rel_imp hvrf fun _ _ h => ?_
  obtain ⟨_, _, h⟩ := h
  exact h

theorem rel_linkFacts {network : Network} {facts : Std.ExtTreeMap Link IpSpace}
    {spaces : Std.ExtTreeMap Link HeaderSpace} (h : network.linkFacts facts = .ok spaces)
    (link : Link) : Option.Rel IpSpace.Describes facts[link]? spaces[link]? := by
  have hlink := rel_traverse h link
  simp only [bind_eq_ok] at hlink
  refine rel_imp hlink fun _ _ h => ?_
  obtain ⟨_, _, _, _, h⟩ := h
  exact h

theorem rel_neighborFacts {network : Network} {facts : Table (Table (Table IpSpace))}
    {spaces : Table (Table (Table HeaderSpace))} (h : network.neighborFacts facts = .ok spaces)
    (node vrf name : String) :
    Option.Rel IpSpace.Describes ((facts[node]?.bind (·[vrf]?)).bind (·[name]?))
      ((spaces[node]?.bind (·[vrf]?)).bind (·[name]?)) := by
  refine rel_bind (rel_bind (rel_traverse h node)
    fun _ _ hvrfs => rel_traverse hvrfs vrf) fun _ _ hnames => ?_
  obtain ⟨_, _, hnames⟩ := bind_eq_ok.mp hnames
  have hname := rel_traverse hnames name
  simp only [bind_eq_ok] at hname
  refine rel_imp hname fun _ _ h => ?_
  obtain ⟨_, _, h⟩ := h
  exact h

theorem contains_acceptedSpaces {network : Network} {spaces : Table (Table HeaderSpace)}
    (h : network.acceptedSpaces = .ok spaces) (node vrf : String) (p : Packet) :
    ((vrfSpace? spaces node vrf).getD .empty).contains p = true ↔
      network.OwnsAddress node vrf p.dstAddress := by
  unfold vrfSpace? Network.OwnsAddress Network.vrf? Network.interface?
  dsimp only
  have hnode := rel_traverse h node
  generalize network[node]? = config?, spaces[node]? = vrfs? at hnode ⊢
  cases hnode with
  | none => simp
  | @some config vrfs hvrfs =>
    have hvrf := rel_traverse hvrfs vrf
    simp only [Option.bind_eq_bind, Option.bind_some]
    generalize config.vrfs[vrf]? = v?, vrfs[vrf]? = space? at hvrf ⊢
    cases hvrf with
    | none => simp
    | some hspace =>
      simp only [bind_eq_ok, pure_eq_ok] at hspace
      obtain ⟨addresses, haddresses, rfl⟩ := hspace
      simp [HeaderSpace.contains_sentTo, Configuration.mem_vrfAddresses haddresses]

theorem agrees_ofFacts {network : Network} {facts : Facts} {f : Forwarding}
    (h : ofFacts network facts = .ok f) : f.Agrees network facts := by
  simp only [ofFacts, bind_eq_ok, pure_eq_ok] at h
  obtain ⟨routable, hroutable, nullRouted, hnullRouted, arpTrue, harp, unreachable, hunreachable,
    accepted, haccepted, rfl⟩ := h
  exact ⟨rel_vrfFacts hroutable, rel_vrfFacts hnullRouted, rel_linkFacts harp,
    rel_neighborFacts hunreachable, contains_acceptedSpaces haccepted⟩

end Forwarding

namespace Interface

theorem mem_referencedAcls_of_incoming {i : Interface} {name : String}
    (h : i.incomingFilter = some name) : name ∈ i.referencedAcls := by
  simp [referencedAcls, h]

theorem mem_referencedAcls_of_outgoing {i : Interface} {name : String}
    (h : i.outgoingFilter = some name) : name ∈ i.referencedAcls := by
  simp [referencedAcls, h]

end Interface

/-- A coarsening loses no packets. -/
theorem Coarsening.contains_apply (c : Coarsening) {x : HeaderSpace} {p : Packet}
    (h : x.contains p = true) : (c.apply x).contains p = true := by
  cases c with
  | precise => exact h
  | dstIpOnly => exact HeaderSpace.contains_projectDstIp_of_contains h

namespace Snapshot

/-- The predicates are those of the network and the facts. -/
structure Compiled (facts : Facts) (s : Snapshot) : Prop where
  acls : s.network.compileAcls s.coarsening = .ok s.acls
  forwarding : Forwarding.ofFacts s.network facts = .ok s.forwarding

variable {s : Snapshot}

theorem acl_eq_ok {node name : String} {x : CompiledAcl} :
    s.acl node name = .ok x ↔ s.acls[node]?.bind (·[name]?) = some x := by
  unfold acl
  cases s.acls[node]?.bind (·[name]?) <;> simp

variable {facts : Facts} (hs : s.Compiled facts)

include hs

theorem Compiled.exists_acl {node name : String} {i : Interface}
    (hi : s.network.HasInterface node i) (hname : name ∈ i.referencedAcls) :
    ∃ x, s.acl node name = .ok x := by
  obtain ⟨x, hx⟩ := Network.exists_compiled hs.acls hi hname
  exact ⟨x, acl_eq_ok.mpr hx⟩

theorem Compiled.exists_permitted {node : String} {i : Interface}
    (hi : s.network.HasInterface node i) {filter : Option String}
    (hfilter : ∀ {name}, filter = some name → name ∈ i.referencedAcls) :
    ∃ space, s.permitted node filter = .ok space := by
  cases filter with
  | none => exact ⟨.full, rfl⟩
  | some name =>
    obtain ⟨acl, hacl⟩ := hs.exists_acl hi (hfilter rfl)
    exact ⟨acl.permit, by rw [permitted, hacl]; rfl⟩

/-- The halves of an access list cover all packets, also where they are coarse and overlap. -/
theorem Compiled.permit_or_deny {node name : String} {x : CompiledAcl}
    (hx : s.acl node name = .ok x) (p : Packet) : x.permit.contains p = true ∨ x.deny.contains p = true := by
  have hrel := Network.rel_compileAcls hs.acls node name
  obtain ⟨a, _, y, hy, rfl⟩ := (some_of_rel hrel).2 x (acl_eq_ok.mp hx)
  obtain ⟨hpermit, hdeny⟩ := Acl.contains_compile hy p
  cases hp : a.permits p with
  | true => exact Or.inl (s.coarsening.contains_apply (hpermit.trans hp))
  | false => exact Or.inr (s.coarsening.contains_apply (by rw [hdeny, hp]; rfl))

variable (hprecise : s.coarsening = .precise)

include hprecise

theorem Compiled.contains_acl {node name : String} {x : CompiledAcl} (hx : s.acl node name = .ok x)
    (p : Packet) : x.permit.contains p = s.network.permits node name p ∧
      x.deny.contains p = !s.network.permits node name p := by
  have hlookup := acl_eq_ok.mp hx
  have hrel := Network.rel_compileAcls hs.acls node name
  obtain ⟨a, ha, y, hy, hyx⟩ := (some_of_rel hrel).2 x hlookup
  rw [hprecise] at hyx
  subst hyx
  rw [Network.permits, ha]
  exact Acl.contains_compile hy p

theorem Compiled.contains_deny {node name : String} {x : CompiledAcl} {filter : Option String}
    (hx : s.acl node name = .ok x) (hfilter : filter = some name) (p : Packet) :
    x.deny.contains p = true ↔ s.network.admits node filter p = false := by
  rw [(hs.contains_acl hprecise hx p).2, hfilter, Bool.not_eq_true']
  rfl

theorem Compiled.contains_permitted {node : String} {filter : Option String} {x : HeaderSpace}
    (hx : s.permitted node filter = .ok x) (p : Packet) :
    x.contains p = s.network.admits node filter p := by
  cases filter with
  | none =>
    cases hx
    exact HeaderSpace.contains_full p
  | some name =>
    simp only [permitted, bind_eq_ok, pure_eq_ok] at hx
    obtain ⟨acl, hacl, rfl⟩ := hx
    exact (hs.contains_acl hprecise hacl p).1

theorem Compiled.rewrites_iff {node : String} {i : Interface} {rules : List NatRule}
    (hrules : s.natRules node i = .ok rules) (p q : Packet) :
    NatRule.Rewrites rules p q ↔ s.network.Translates node i p q := by
  unfold natRules at hrules
  unfold Network.Translates
  generalize i.sourceNats = nats at hrules ⊢
  induction nats generalizing rules with
  | nil =>
    cases hrules
    rfl
  | cons nat rest ih =>
    simp only [List.mapM_cons, bind_eq_ok, pure_eq_ok] at hrules
    obtain ⟨rule, ⟨acl, hacl, hrule⟩, others, hothers, rfl⟩ := hrules
    split at hrule
    · contradiction
    rename_i hpool
    rw [pure_eq_ok, hprecise] at hrule
    subst rule
    rw [List.find?_cons, ← (hs.contains_acl hprecise hacl p).1]
    cases hp : acl.permit.contains p with
    | false => rw [NatRule.rewrites_cons_of_neg (by simp [hp]), ih hothers]
    | true =>
      rw [NatRule.rewrites_cons_of_pos hp]
      exact HeaderSpace.contains_pool (Nat.not_lt.mp hpool) p q

end Snapshot
end Dataplane
