import Dataplane.Network.Acl
import Dataplane.Network.Location
import Dataplane.Table

/-! Device configurations, and what is known about the forwarding of a network. -/
namespace Dataplane

/-- Packets that the list permits get a source address of the pool. -/
structure SourceNat where
  acl : String
  poolFirst : Address
  poolLast : Address
deriving DecidableEq

/-- Filters are names of access lists. The first rule that permits a packet replaces its source. -/
structure Interface where
  name : String
  vrf : String
  addresses : List Address := []
  incomingFilter : Option String := none
  outgoingFilter : Option String := none
  sourceNats : List SourceNat := []
deriving DecidableEq

/-- A routing domain of a device with the names of its interfaces. -/
structure Vrf where
  name : String
  interfaces : Std.ExtTreeSet String := ∅

/-- A device. The name of an entry and the key it is stored under may differ. -/
structure Configuration where
  hostname : String
  interfaces : Table Interface := ∅
  vrfs : Table Vrf := ∅
  acls : Table Acl := ∅

/-- The devices of a network by node name. -/
abbrev Network := Table Configuration

namespace Interface

def withAddress (i : Interface) (a : Address) : Interface :=
  { i with addresses := i.addresses ++ [a] }

def withIncomingFilter (i : Interface) (acl : String) : Interface :=
  { i with incomingFilter := some acl }

def withOutgoingFilter (i : Interface) (acl : String) : Interface :=
  { i with outgoingFilter := some acl }

def withSourceNat (i : Interface) (nat : SourceNat) : Interface :=
  { i with sourceNats := i.sourceNats ++ [nat] }

/-- Names of the access lists that the interface refers to, filters first. -/
def referencedAcls (i : Interface) : List String :=
  i.incomingFilter.toList ++ i.outgoingFilter.toList ++ i.sourceNats.map SourceNat.acl

end Interface

namespace Configuration

/-- Store an interface under its name and list it in its domain, which is created if need be. An
interface that is replaced stays listed where it was. -/
def addInterface (c : Configuration) (i : Interface) : Configuration :=
  let vrf := c.vrfs.getD i.vrf { name := i.vrf }
  { c with
    vrfs := c.vrfs.insert i.vrf { vrf with interfaces := vrf.interfaces.insert i.name }
    interfaces := c.interfaces.insert i.name i }

def addVrf (c : Configuration) (v : Vrf) : Configuration := { c with vrfs := c.vrfs.insert v.name v }

def addAcl (c : Configuration) (a : Acl) : Configuration := { c with acls := c.acls.insert a.name a }

end Configuration

/-- What is known about forwarding. Every space is a set of destinations. -/
structure Facts where
  /-- Destinations with a usable route, by node and routing domain. -/
  routable : Table (Table IpSpace) := ∅
  /-- Destinations that are routed to nowhere, by node and routing domain. -/
  nullRouted : Table (Table IpSpace) := ∅
  /-- Destinations whose next hop answers on a link. -/
  arpTrue : Std.ExtTreeMap Link IpSpace := ∅
  /-- Destinations that leave an interface where no neighbor answers, by node, routing domain
  and interface. -/
  neighborUnreachable : Table (Table (Table IpSpace)) := ∅

namespace Facts

def setRoutable (f : Facts) (node vrf : String) (space : IpSpace) : Facts :=
  { f with routable := f.routable.insert node ((f.routable.getD node ∅).insert vrf space) }

def setNullRouted (f : Facts) (node vrf : String) (space : IpSpace) : Facts :=
  { f with nullRouted := f.nullRouted.insert node ((f.nullRouted.getD node ∅).insert vrf space) }

def setArpTrue (f : Facts) (link : Link) (space : IpSpace) : Facts :=
  { f with arpTrue := f.arpTrue.insert link space }

def setNeighborUnreachable (f : Facts) (node vrf interface : String) (space : IpSpace) : Facts :=
  let vrfs := f.neighborUnreachable.getD node ∅
  let interfaces := (vrfs.getD vrf ∅).insert interface space
  { f with neighborUnreachable := f.neighborUnreachable.insert node (vrfs.insert vrf interfaces) }

end Facts
end Dataplane
