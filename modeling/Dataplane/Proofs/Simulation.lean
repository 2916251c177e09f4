import Dataplane.Network.Configuration
import Dataplane.Pipeline.Stage
import Dataplane.Proofs.Evaluation

/-! How a single packet moves through a network, read off the configurations and the facts. -/
namespace Dataplane

namespace Network

variable (network : Network)

def vrf? (node vrf : String) : Option Vrf := network[node]?.bind (·.vrfs[vrf]?)

/-- The interface that is stored under the name of the endpoint. -/
def interface? (e : Endpoint) : Option Interface :=
  network[e.node]?.bind (·.interfaces[e.interface]?)

def acl? (node name : String) : Option Acl := network[node]?.bind (·.acls[name]?)

/-- The interface is stored at the node, under whatever name. -/
def HasInterface (node : String) (i : Interface) : Prop :=
  ∃ name, network.interface? ⟨node, name⟩ = some i

/-- Some routing domain of the node lists the name that the interface is stored under. -/
def ListsInterface (node : String) (i : Interface) : Prop :=
  ∃ vrf v name, network.vrf? node vrf = some v ∧ name ∈ v.interfaces ∧
    network.interface? ⟨node, name⟩ = some i

theorem ListsInterface.hasInterface {network : Network} {node : String} {i : Interface}
    (h : network.ListsInterface node i) : network.HasInterface node i := by
  obtain ⟨_, _, name, _, _, hi⟩ := h
  exact ⟨name, hi⟩

/-- An interface that the routing domain lists has the address. -/
def OwnsAddress (node vrf : String) (a : Address) : Prop :=
  ∃ v name i, network.vrf? node vrf = some v ∧ name ∈ v.interfaces ∧
    network.interface? ⟨node, name⟩ = some i ∧ a ∈ i.addresses

/-- Whether an access list of the node permits the packet. -/
def permits (node name : String) (p : Packet) : Bool := (network.acl? node name).any (·.permits p)

/-- Whether the packet passes a filter. All packets pass if there is none. -/
def admits (node : String) (filter : Option String) (p : Packet) : Bool :=
  filter.all (network.permits node · p)

theorem exists_filter {network : Network} {node : String} {filter : Option String} {p : Packet}
    (h : network.admits node filter p = false) : ∃ name, filter = some name := by
  cases filter with
  | none => contradiction
  | some name => exact ⟨name, rfl⟩

/-- The first rule whose access list permits the packet replaces its source by an address of the
pool. Without one the packet stays as it is. -/
def Translates (node : String) (i : Interface) (p q : Packet) : Prop :=
  match i.sourceNats.find? (network.permits node ·.acl p) with
  | some nat => ∃ a : Address,
      nat.poolFirst.value ≤ a.value ∧ a.value ≤ nat.poolLast.value ∧ q = { p with srcIp := a.value }
  | none => q = p

/-- Traffic of a location starts at a stage. -/
inductive Enters : Location → Stage → Prop where
  | link {node i} (hi : network.HasInterface node i) :
    Enters (.link ⟨node, i.name⟩) (.originateLink ⟨node, i.name⟩)
  | interface {node i v} (hi : network.HasInterface node i)
      (hv : network.vrf? node i.vrf = some v) :
    Enters (.interface ⟨node, i.name⟩) (.originateVrf node i.vrf)
  | vrf {node vrf v} (hv : network.vrf? node vrf = some v) :
    Enters (.vrf node vrf) (.originateVrf node vrf)

end Network

namespace Facts

variable (facts : Facts)

def routes (node vrf : String) (a : Address) : Bool :=
  (facts.routable[node]?.bind (·[vrf]?)).any (·.includes a)

def nullRoutes (node vrf : String) (a : Address) : Bool :=
  (facts.nullRouted[node]?.bind (·[vrf]?)).any (·.includes a)

/-- Whether the next hop of the destination answers on the link. -/
def answers (link : Link) (a : Address) : Bool := facts.arpTrue[link]?.any (·.includes a)

def unanswered (node vrf interface : String) (a : Address) : Bool :=
  ((facts.neighborUnreachable[node]?.bind (·[vrf]?)).bind (·[interface]?)).any (·.includes a)

end Facts

/-- One step of a packet. Where a packet leaves a node, several steps may be possible. -/
inductive Forwards (network : Network) (facts : Facts) :
    Stage × Packet → Stage × Packet → Prop where
  | originateLink {node i p} (hi : network.HasInterface node i) :
    Forwards network facts (.originateLink ⟨node, i.name⟩, p) (.preIn ⟨node, i.name⟩, p)
  | originateVrf {node vrf v p} (hv : network.vrf? node vrf = some v) :
    Forwards network facts (.originateVrf node vrf, p) (.postIn node vrf, p)
  | deniedIn {node i p} (hi : network.ListsInterface node i)
    (hfilter : network.admits node i.incomingFilter p = false) :
    Forwards network facts (.preIn ⟨node, i.name⟩, p) (.dropped .aclIn node, p)
  | permittedIn {node i p} (hi : network.ListsInterface node i)
    (hfilter : network.admits node i.incomingFilter p = true) :
    Forwards network facts (.preIn ⟨node, i.name⟩, p) (.postIn node i.vrf, p)
  | accepted {node vrf p} (howns : network.OwnsAddress node vrf p.dstAddress) :
    Forwards network facts (.postIn node vrf, p) (.nodeAccept node, p)
  | unrouted {node vrf v p} (hv : network.vrf? node vrf = some v)
    (howns : ¬network.OwnsAddress node vrf p.dstAddress)
    (hroute : facts.routes node vrf p.dstAddress = false) :
    Forwards network facts (.postIn node vrf, p) (.dropped .noRoute node, p)
  | routed {node vrf v p} (hv : network.vrf? node vrf = some v)
    (howns : ¬network.OwnsAddress node vrf p.dstAddress)
    (hroute : facts.routes node vrf p.dstAddress = true) :
    Forwards network facts (.postIn node vrf, p) (.preOut node vrf, p)
  | nullRouted {node vrf p} (hnull : facts.nullRoutes node vrf p.dstAddress = true) :
    Forwards network facts (.preOut node vrf, p) (.dropped .nullRoute node, p)
  | unanswered {node vrf name i p} (hfact : facts.unanswered node vrf name p.dstAddress = true)
    (hi : network.interface? ⟨node, name⟩ = some i)
    (hfilter : network.admits node i.outgoingFilter p = true) :
    Forwards network facts (.preOut node vrf, p) (.nodeUnreachable ⟨node, name⟩, p)
  | sent {link i p} (hfact : facts.answers link p.dstAddress = true)
    (hi : network.interface? link.source = some i) :
    Forwards network facts (.preOut link.source.node i.vrf, p) (.preNat link, p)
  | translated {link i p q} (hlink : link ∈ facts.arpTrue)
    (hi : network.interface? link.source = some i)
    (hnat : network.Translates link.source.node i p q) :
    Forwards network facts (.preNat link, p) (.postNat link, q)
  | deniedOut {link i p} (hlink : link ∈ facts.arpTrue)
    (hi : network.interface? link.source = some i)
    (hfilter : network.admits link.source.node i.outgoingFilter p = false) :
    Forwards network facts (.postNat link, p) (.dropped .aclOut link.source.node, p)
  | permittedOut {link i p} (hlink : link ∈ facts.arpTrue)
    (hi : network.interface? link.source = some i)
    (hfilter : network.admits link.source.node i.outgoingFilter p = true) :
    Forwards network facts (.postNat link, p) (.preIn link.target, p)
  | nodeAccepted {node p} (hnode : node ∈ network) :
    Forwards network facts (.nodeAccept node, p) (.accept, p)
  | dropCause {node p} (cause : DropCause) (hnode : node ∈ network) :
    Forwards network facts (.dropped cause node, p) (.nodeDrop node, p)
  | nodeDropped {node p} (hnode : node ∈ network) :
    Forwards network facts (.nodeDrop node, p) (.drop, p)
  | nodeUnreachable {node i p} (hi : network.HasInterface node i) :
    Forwards network facts (.nodeUnreachable ⟨node, i.name⟩, p) (.unreachable, p)

end Dataplane
