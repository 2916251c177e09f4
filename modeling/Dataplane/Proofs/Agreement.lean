import Dataplane.Proofs.Origins

/-! What the rules make at a node depends on the configuration of the node and on what is known
about it. -/
namespace Dataplane

/-- Two networks have the same nodes of the set, and the same is known about them. A link is known
to the node that sends over it. -/
structure AgreeOn (nodes : Set String) (network network' : Network) (facts facts' : Facts) :
    Prop where
  configurations : ∀ node ∈ nodes, network[node]? = network'[node]?
  routable : ∀ node ∈ nodes, ∀ vrf : String,
    facts.routable[node]?.bind (·[vrf]?) = facts'.routable[node]?.bind (·[vrf]?)
  nullRouted : ∀ node ∈ nodes, ∀ vrf : String,
    facts.nullRouted[node]?.bind (·[vrf]?) = facts'.nullRouted[node]?.bind (·[vrf]?)
  links : ∀ link : Link, link.source.node ∈ nodes → facts.arpTrue[link]? = facts'.arpTrue[link]?
  unreachable : ∀ node ∈ nodes, ∀ vrf name : String,
    (facts.neighborUnreachable[node]?.bind (·[vrf]?)).bind (·[name]?) =
      (facts'.neighborUnreachable[node]?.bind (·[vrf]?)).bind (·[name]?)

/-- Links from nodes of the set lead to nodes of the set. -/
def Facts.Closed (facts : Facts) (nodes : Set String) : Prop :=
  ∀ link ∈ facts.arpTrue, link.source.node ∈ nodes → link.target.node ∈ nodes

/-- The stage belongs to a node of the set, or to the network as a whole. -/
def Stage.On (nodes : Set String) (r : Stage) : Prop := ∀ node, r.node? = some node → node ∈ nodes

section

variable {network network' : Network} {node : String} (h : network[node]? = network'[node]?)

include h

namespace Network

theorem vrf?_congr (vrf : String) : network.vrf? node vrf = network'.vrf? node vrf := by
  rw [vrf?, vrf?, h]

theorem interface?_congr (name : String) :
    network.interface? ⟨node, name⟩ = network'.interface? ⟨node, name⟩ := by
  rw [interface?, interface?, h]

theorem acl?_congr (name : String) : network.acl? node name = network'.acl? node name := by
  rw [acl?, acl?, h]

theorem mem_congr : node ∈ network ↔ node ∈ network' := by
  rw [mem_iff_exists, mem_iff_exists, h]

theorem hasInterface_congr (i : Interface) :
    network.HasInterface node i ↔ network'.HasInterface node i := by
  simp only [HasInterface, interface?_congr h]

theorem listsInterface_congr (i : Interface) :
    network.ListsInterface node i ↔ network'.ListsInterface node i := by
  simp only [ListsInterface, vrf?_congr h, interface?_congr h]

theorem ownsAddress_congr (vrf : String) (a : Address) :
    network.OwnsAddress node vrf a ↔ network'.OwnsAddress node vrf a := by
  simp only [OwnsAddress, vrf?_congr h, interface?_congr h]

end Network

theorem Places.hasVrf_congr (vrf : String) :
    (ofNetwork network).hasVrf node vrf = (ofNetwork network').hasVrf node vrf := by
  simp only [hasVrf, ofNetwork, Std.ExtTreeMap.getD_eq_getD_getElem?, Std.ExtTreeMap.getElem?_map,
    h]

theorem Places.vrfOf?_congr (name : String) :
    (ofNetwork network).vrfOf? ⟨node, name⟩ = (ofNetwork network').vrfOf? ⟨node, name⟩ := by
  simp only [vrfOf?, ofNetwork, Std.ExtTreeMap.getElem?_map, h]

end

namespace Places

/-- Where a location resolves to depends on its node. -/
theorem resolve?_congr {network network' : Network} {l : Location}
    (h : network[l.node]? = network'[l.node]?) :
    (ofNetwork network).resolve? l = (ofNetwork network').resolve? l := by
  cases l with
  | link e =>
    obtain ⟨node, name⟩ := e
    change network[node]? = network'[node]? at h
    rw [resolve?, resolve?, vrfOf?_congr h]
  | interface e =>
    obtain ⟨node, name⟩ := e
    change network[node]? = network'[node]? at h
    simp only [resolve?, vrfOf?_congr h, hasVrf_congr h]
  | vrf node vrf =>
    change network[node]? = network'[node]? at h
    rw [resolve?, resolve?, hasVrf_congr h]

/-- A location resolves to a stage of its node. -/
theorem node?_of_resolve? {p : Places} {l : Location} {r : Stage} (h : p.resolve? l = some r) :
    r.node? = some l.node := by
  cases l with
  | link e =>
    obtain ⟨_, _, rfl⟩ := Option.map_eq_some_iff.mp h
    rfl
  | interface e =>
    obtain ⟨vrf, _, h⟩ := Option.bind_eq_some_iff.mp h
    split at h
    · cases h
      rfl
    · contradiction
  | vrf node vrf =>
    rw [resolve?] at h
    split at h
    · cases h
      rfl
    · contradiction

end Places

theorem IpSpace.eq_of_describes {x x' : Option IpSpace} {y y' : Option HeaderSpace} (hx : x = x')
    (h : Option.Rel IpSpace.Describes x y) (h' : Option.Rel IpSpace.Describes x' y') : y = y' := by
  subst hx
  exact eq_of_rel (fun _ _ _ hb hb' => Except.ok.inj (hb.symm.trans hb')) h h'

namespace Snapshot

/-- The rules of the pipeline find the same at the nodes in both snapshots. -/
structure SameAt (nodes : Set String) (s s' : Snapshot) : Prop where
  coarsening : s.coarsening = s'.coarsening
  configurations : ∀ node ∈ nodes, s.network[node]? = s'.network[node]?
  acls : ∀ node ∈ nodes, ∀ name, s.acl node name = s'.acl node name
  accepted : ∀ node ∈ nodes, ∀ vrf,
    s.forwarding.acceptedAt node vrf = s'.forwarding.acceptedAt node vrf
  routable : ∀ node ∈ nodes, ∀ vrf,
    s.forwarding.routableAt node vrf = s'.forwarding.routableAt node vrf
  nullRouted : ∀ node ∈ nodes, ∀ vrf,
    Forwarding.vrfSpace? s.forwarding.nullRouted node vrf =
      Forwarding.vrfSpace? s'.forwarding.nullRouted node vrf
  links : ∀ link : Link, link.source.node ∈ nodes →
    s.forwarding.arpTrue[link]? = s'.forwarding.arpTrue[link]?
  unreachable : ∀ node ∈ nodes, ∀ vrf name : String,
    (s.forwarding.neighborUnreachable[node]?.bind (·[vrf]?)).bind (·[name]?) =
      (s'.forwarding.neighborUnreachable[node]?.bind (·[vrf]?)).bind (·[name]?)

variable {nodes : Set String} {s s' : Snapshot} {facts facts' : Facts}

/-- The predicates of a node are made from what is configured and known there. -/
theorem Compiled.sameAt (hs : s.Compiled facts) (hs' : s'.Compiled facts')
    (hc : s.coarsening = s'.coarsening) (h : AgreeOn nodes s.network s'.network facts facts') :
    SameAt nodes s s' := by
  have hagrees := Forwarding.agrees_ofFacts hs.forwarding
  have hagrees' := Forwarding.agrees_ofFacts hs'.forwarding
  refine ⟨hc, h.configurations, fun node hnode name => ?_, fun node hnode vrf => ?_,
    fun node hnode vrf => ?_, fun node hnode vrf => ?_, fun link hlink => ?_,
    fun node hnode vrf name => ?_⟩
  · have hrel := Network.rel_compileAcls hs.acls node name
    have hrel' := Network.rel_compileAcls hs'.acls node name
    rw [Network.acl?_congr (h.configurations node hnode), hc] at hrel
    have hfound := eq_of_rel (fun a x x' hx hx' => by
      obtain ⟨y, hy, rfl⟩ := hx
      obtain ⟨y', hy', rfl⟩ := hx'
      rw [Except.ok.inj (hy.symm.trans hy')]) hrel hrel'
    rw [acl, acl, hfound]
  · refine HeaderSpace.eq_of_contains_iff fun p => ?_
    rw [hagrees.accepted, hagrees'.accepted]
    exact Network.ownsAddress_congr (h.configurations node hnode) vrf p.dstAddress
  · refine HeaderSpace.ext_contains fun p => ?_
    rw [hagrees.contains_routableAt, hagrees'.contains_routableAt, Facts.routes, Facts.routes,
      h.routable node hnode]
  · exact IpSpace.eq_of_describes (h.nullRouted node hnode vrf) (hagrees.nullRouted node vrf)
      (hagrees'.nullRouted node vrf)
  · exact IpSpace.eq_of_describes (h.links link hlink) (hagrees.arpTrue link)
      (hagrees'.arpTrue link)
  · exact IpSpace.eq_of_describes (h.unreachable node hnode vrf name)
      (hagrees.unreachable node vrf name) (hagrees'.unreachable node vrf name)

namespace SameAt

theorem symm (h : SameAt nodes s s') : SameAt nodes s' s where
  coarsening := h.coarsening.symm
  configurations node hnode := (h.configurations node hnode).symm
  acls node hnode name := (h.acls node hnode name).symm
  accepted node hnode vrf := (h.accepted node hnode vrf).symm
  routable node hnode vrf := (h.routable node hnode vrf).symm
  nullRouted node hnode vrf := (h.nullRouted node hnode vrf).symm
  links link hlink := (h.links link hlink).symm
  unreachable node hnode vrf name := (h.unreachable node hnode vrf name).symm

variable (h : SameAt nodes s s')

include h

theorem permitted {node : String} (hnode : node ∈ nodes) (filter : Option String) :
    s.permitted node filter = s'.permitted node filter := by
  cases filter with
  | none => rfl
  | some name => rw [Snapshot.permitted, Snapshot.permitted, h.acls node hnode]

theorem natRules {node : String} (hnode : node ∈ nodes) (i : Interface) :
    s.natRules node i = s'.natRules node i := by
  unfold Snapshot.natRules
  simp only [h.acls node hnode, h.coarsening]

theorem mem_arpTrue {link : Link} (hlink : link.source.node ∈ nodes) :
    link ∈ s.forwarding.arpTrue ↔ link ∈ s'.forwarding.arpTrue := by
  rw [mem_iff_exists, mem_iff_exists, h.links link hlink]

/-- A rule that starts at one of the nodes makes the same transition from both snapshots. -/
theorem emits {t : Transition} (ht : s.Emits t) (hsource : t.source.On nodes) : s'.Emits t := by
  have hinterface {e : Endpoint} (he : e.node ∈ nodes) :
      s.network.interface? e = s'.network.interface? e :=
    Network.interface?_congr (h.configurations e.node he) e.interface
  cases ht with
  | originateLink hi =>
    rw [Network.hasInterface_congr (h.configurations _ (hsource _ rfl))] at hi
    exact .originateLink hi
  | originateVrf hv =>
    rw [Network.vrf?_congr (h.configurations _ (hsource _ rfl))] at hv
    exact .originateVrf hv
  | deniedIn hi hname hacl =>
    rw [Network.listsInterface_congr (h.configurations _ (hsource _ rfl))] at hi
    rw [h.acls _ (hsource _ rfl)] at hacl
    exact .deniedIn hi hname hacl
  | permittedIn hi hspace =>
    rw [Network.listsInterface_congr (h.configurations _ (hsource _ rfl))] at hi
    rw [h.permitted (hsource _ rfl)] at hspace
    exact .permittedIn hi hspace
  | accepted hv =>
    rw [Network.vrf?_congr (h.configurations _ (hsource _ rfl))] at hv
    rw [h.accepted _ (hsource _ rfl)]
    exact .accepted hv
  | unrouted hv =>
    rw [Network.vrf?_congr (h.configurations _ (hsource _ rfl))] at hv
    rw [Forwarding.notAcceptedAt, h.accepted _ (hsource _ rfl), h.routable _ (hsource _ rfl)]
    exact .unrouted hv
  | routed hv =>
    rw [Network.vrf?_congr (h.configurations _ (hsource _ rfl))] at hv
    rw [Forwarding.notAcceptedAt, h.accepted _ (hsource _ rfl), h.routable _ (hsource _ rfl)]
    exact .routed hv
  | nullRouted hspace =>
    rw [h.nullRouted _ (hsource _ rfl)] at hspace
    exact .nullRouted hspace
  | unanswered hfact hi hspace =>
    rw [h.unreachable _ (hsource _ rfl)] at hfact
    rw [hinterface (hsource _ rfl)] at hi
    rw [h.permitted (hsource _ rfl)] at hspace
    exact .unanswered hfact hi hspace
  | sent hfact hi =>
    rw [h.links _ (hsource _ rfl)] at hfact
    rw [hinterface (hsource _ rfl)] at hi
    exact .sent hfact hi
  | sourceNat hlink hi hrules =>
    rw [h.mem_arpTrue (hsource _ rfl)] at hlink
    rw [hinterface (hsource _ rfl)] at hi
    rw [h.natRules (hsource _ rfl)] at hrules
    exact .sourceNat hlink hi hrules
  | deniedOut hlink hi hname hacl =>
    rw [h.mem_arpTrue (hsource _ rfl)] at hlink
    rw [hinterface (hsource _ rfl)] at hi
    rw [h.acls _ (hsource _ rfl)] at hacl
    exact .deniedOut hlink hi hname hacl
  | permittedOut hlink hi hspace =>
    rw [h.mem_arpTrue (hsource _ rfl)] at hlink
    rw [hinterface (hsource _ rfl)] at hi
    rw [h.permitted (hsource _ rfl)] at hspace
    exact .permittedOut hlink hi hspace
  | nodeAccepted hnode =>
    rw [Network.mem_congr (h.configurations _ (hsource _ rfl))] at hnode
    exact .nodeAccepted hnode
  | dropCause cause hnode =>
    rw [Network.mem_congr (h.configurations _ (hsource _ rfl))] at hnode
    exact .dropCause cause hnode
  | nodeDropped hnode =>
    rw [Network.mem_congr (h.configurations _ (hsource _ rfl))] at hnode
    exact .nodeDropped hnode
  | nodeUnreachable hi =>
    rw [Network.hasInterface_congr (h.configurations _ (hsource _ rfl))] at hi
    exact .nodeUnreachable hi

end SameAt

/-- Only a link leads from one node to another. -/
theorem Emits.target_on (hs : s.Compiled facts) (hclosed : facts.Closed nodes) {t : Transition}
    (ht : s.Emits t) (hsource : t.source.On nodes) : t.target.On nodes := by
  intro node hnode
  cases ht with
  -- The snapshot has a link only where the facts have one.
  | @permittedOut link _ _ hlink _ _ =>
    have hmem := (Forwarding.agrees_ofFacts hs.forwarding).mem_arpTrue.mp hlink
    cases hnode
    exact hclosed link hmem (hsource _ rfl)
  | nodeAccepted => contradiction
  | nodeDropped => contradiction
  | nodeUnreachable => contradiction
  | _ => exact hsource node hnode

end Snapshot
end Dataplane
