import Dataplane.Predicate.Acl

/-! Header spaces of the forwarding facts. -/
namespace Dataplane

namespace Network

def findNode (network : Network) (node : String) : Except ModelError Configuration :=
  match network[node]? with
  | some config => .ok config
  | none => .error (.unknownNode node)

def checkVrf (network : Network) (node vrf : String) : Except ModelError Unit := do
  if (← network.findNode node).vrfs.contains vrf then .ok ()
  else .error (.unknownVrf node vrf)

/-- The interface that is stored under a name. -/
def findInterface (network : Network) (endpoint : Endpoint) : Except ModelError Interface := do
  match (← network.findNode endpoint.node).interfaces[endpoint.interface]? with
  | some interface => .ok interface
  | none => .error (.unknownInterface endpoint)

end Network

/-- The facts as header spaces, and the packets that each routing domain accepts. What a table
does not mention is empty. -/
structure Forwarding where
  routable : Table (Table HeaderSpace)
  nullRouted : Table (Table HeaderSpace)
  arpTrue : Std.ExtTreeMap Link HeaderSpace
  neighborUnreachable : Table (Table (Table HeaderSpace))
  accepted : Table (Table HeaderSpace)

/-- Packets that are sent to one of the addresses. -/
def HeaderSpace.sentTo (addresses : List Address) : HeaderSpace :=
  addresses.foldl (fun found a => found.union (.value .dstIp a.value.toNat)) .empty

/-- Addresses of all interfaces that a routing domain lists. -/
def Configuration.vrfAddresses (config : Configuration) (node : String) (vrf : Vrf) :
    Except ModelError (List Address) :=
  vrf.interfaces.toList.foldlM (fun found name =>
    match config.interfaces[name]? with
    | some interface => .ok (found ++ interface.addresses)
    | none => .error (.unknownInterface ⟨node, name⟩)) []

namespace Network

/-- Facts about routing domains, which must exist. -/
def vrfFacts (network : Network) (facts : Table (Table IpSpace)) :
    Except ModelError (Table (Table HeaderSpace)) :=
  traverse (fun node => traverse fun vrf space => do
    network.checkVrf node vrf
    space.headers .dstIp) facts

/-- Facts about links, whose two interfaces must exist. -/
def linkFacts (network : Network) (facts : Std.ExtTreeMap Link IpSpace) :
    Except ModelError (Std.ExtTreeMap Link HeaderSpace) :=
  traverse (fun link space => do
    let _ ← network.findInterface link.source
    let _ ← network.findInterface link.target
    space.headers .dstIp) facts

/-- Facts about the neighbors of interfaces in a routing domain, where both must exist. -/
def neighborFacts (network : Network) (facts : Table (Table (Table IpSpace))) :
    Except ModelError (Table (Table (Table HeaderSpace))) :=
  traverse (fun node => traverse fun vrf interfaces => do
    network.checkVrf node vrf
    traverse (fun interface space => do
      let _ ← network.findInterface ⟨node, interface⟩
      space.headers .dstIp) interfaces) facts

/-- The packets to an address of each routing domain. What a domain lists must exist. -/
def acceptedSpaces (network : Network) : Except ModelError (Table (Table HeaderSpace)) :=
  traverse (fun node config =>
    traverse (fun _ vrf => return .sentTo (← config.vrfAddresses node vrf)) config.vrfs) network

end Network

namespace Forwarding

/-- Every node, routing domain and interface that a fact names must exist. -/
def ofFacts (network : Network) (facts : Facts) : Except ModelError Forwarding := do
  let routable ← network.vrfFacts facts.routable
  let nullRouted ← network.vrfFacts facts.nullRouted
  let arpTrue ← network.linkFacts facts.arpTrue
  let neighborUnreachable ← network.neighborFacts facts.neighborUnreachable
  let accepted ← network.acceptedSpaces
  return { routable, nullRouted, arpTrue, neighborUnreachable, accepted }

/-- The entry of a node and a routing domain. -/
def vrfSpace? (table : Table (Table HeaderSpace)) (node vrf : String) : Option HeaderSpace := do
  (← table[node]?)[vrf]?

def routableAt (f : Forwarding) (node vrf : String) : HeaderSpace :=
  (vrfSpace? f.routable node vrf).getD .empty

def nullRoutedAt (f : Forwarding) (node vrf : String) : HeaderSpace :=
  (vrfSpace? f.nullRouted node vrf).getD .empty

/-- Packets to an address of the routing domain. -/
def acceptedAt (f : Forwarding) (node vrf : String) : HeaderSpace :=
  (vrfSpace? f.accepted node vrf).getD .empty

def notAcceptedAt (f : Forwarding) (node vrf : String) : HeaderSpace :=
  (f.acceptedAt node vrf).compl

/-- All entries of a table of routing domains in order. -/
def entries {α : Type} (table : Table (Table α)) : List (String × String × α) :=
  table.toList.flatMap fun (node, vrfs) => vrfs.toList.map fun (vrf, a) => (node, vrf, a)

/-- All facts on unreachable neighbors in order. -/
def unreachableEntries (f : Forwarding) : List (String × String × String × HeaderSpace) :=
  (entries f.neighborUnreachable).flatMap fun (node, vrf, interfaces) =>
    interfaces.toList.map fun (interface, space) => (node, vrf, interface, space)

end Forwarding
end Dataplane
