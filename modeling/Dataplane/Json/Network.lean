import Dataplane.Json.Header
import Dataplane.Network.Configuration

/-! Configurations and facts as JSON values. -/
namespace Dataplane

namespace IpSpace

/-- A constant is written as a string, anything else as an object with one member. -/
def ofJson? (j : Json) : Option IpSpace :=
  match j with
  | .str "Universe" => some .any
  | .str "Empty" => some .empty
  | .obj [("Ip", payload)] => return .single (← Address.ofJson? payload)
  | .obj [("Prefix", payload)] =>
    return .block (← payload.field? Address.ofJson? "ip") (← payload.field? Json.uint8? "length")
  | .obj [("Range", payload)] =>
    return .range (← payload.field? Address.ofJson? "first") (← payload.field? Address.ofJson? "last")
  | .obj [("Union", .arr items)] => return .union (← items.attach.mapM fun ⟨item, _⟩ => ofJson? item)
  | .obj [("Difference", payload)] =>
    match _hk : payload.get? "include", _hr : payload.get? "exclude" with
    | some kept, some removed => return .difference (← ofJson? kept) (← ofJson? removed)
    | _, _ => none
  | _ => none
termination_by sizeOf j
decreasing_by
  · rename_i hi
    have := List.sizeOf_lt_of_mem hi
    simp only [Json.obj.sizeOf_spec, Json.arr.sizeOf_spec, List.cons.sizeOf_spec,
      Prod.mk.sizeOf_spec]
    omega
  · have := Json.sizeOf_lt_of_get? _hk
    simp only [Json.obj.sizeOf_spec, List.cons.sizeOf_spec, Prod.mk.sizeOf_spec]
    omega
  · have := Json.sizeOf_lt_of_get? _hr
    simp only [Json.obj.sizeOf_spec, List.cons.sizeOf_spec, Prod.mk.sizeOf_spec]
    omega

mutual

def toJson : IpSpace → Json
  | .any => .str "Universe"
  | .empty => .str "Empty"
  | .single ip => .obj [("Ip", ip.toJson)]
  | .block ip length =>
    .obj [("Prefix", .obj [("ip", ip.toJson), ("length", .ofNat length.toNat)])]
  | .range first last => .obj [("Range", .obj [("first", first.toJson), ("last", last.toJson)])]
  | .union spaces => .obj [("Union", .arr (listToJson spaces))]
  | .difference kept removed =>
    .obj [("Difference", .obj [("include", kept.toJson), ("exclude", removed.toJson)])]

def listToJson : List IpSpace → List Json
  | [] => []
  | space :: rest => space.toJson :: listToJson rest

end

end IpSpace

namespace PortRange

def ofJson? (j : Json) : Option PortRange := do
  return ⟨← j.field? Json.uint16? "first", ← j.field? Json.uint16? "last"⟩

def toJson (r : PortRange) : Json :=
  .obj [("first", .ofNat r.first.toNat), ("last", .ofNat r.last.toNat)]

end PortRange

namespace HeaderMatch

def ofJson? (j : Json) : Option HeaderMatch := do
  return {
    srcIps := ← j.optional? IpSpace.ofJson? "src_ips"
    dstIps := ← j.optional? IpSpace.ofJson? "dst_ips"
    srcPorts := ← j.field? (Json.list? PortRange.ofJson?) "src_ports"
    dstPorts := ← j.field? (Json.list? PortRange.ofJson?) "dst_ports"
    ipProtocols := ← j.field? (Json.list? Json.uint8?) "ip_protocols"
    icmpTypes := ← j.field? (Json.list? Json.uint8?) "icmp_types"
    icmpCodes := ← j.field? (Json.list? Json.uint8?) "icmp_codes"
    tcpFlags := ← j.field? (Json.list? (Json.pair? TcpFlag.ofJson? Json.bool?)) "tcp_flags" }

def toJson (m : HeaderMatch) : Json := .obj [
  ("src_ips", .ofOption IpSpace.toJson m.srcIps),
  ("dst_ips", .ofOption IpSpace.toJson m.dstIps),
  ("src_ports", .ofList PortRange.toJson m.srcPorts),
  ("dst_ports", .ofList PortRange.toJson m.dstPorts),
  ("ip_protocols", .ofList (fun n => .ofNat n.toNat) m.ipProtocols),
  ("icmp_types", .ofList (fun n => .ofNat n.toNat) m.icmpTypes),
  ("icmp_codes", .ofList (fun n => .ofNat n.toNat) m.icmpCodes),
  ("tcp_flags", .ofList (fun (flag, set) => .arr [flag.toJson, .bool set]) m.tcpFlags)]

end HeaderMatch

namespace Action

def jsonName : Action → String
  | .permit => "Permit"
  | .deny => "Deny"

def ofJson? : Json → Option Action := Json.oneOf? jsonName [.permit, .deny]

def toJson (a : Action) : Json := .str a.jsonName

end Action

namespace AclLine

def ofJson? (j : Json) : Option AclLine := do
  return ⟨← j.field? Action.ofJson? "action", ← j.field? HeaderMatch.ofJson? "matches"⟩

def toJson (l : AclLine) : Json :=
  .obj [("action", l.action.toJson), ("matches", l.condition.toJson)]

end AclLine

namespace Acl

def ofJson? (j : Json) : Option Acl := do
  return ⟨← j.field? Json.string? "name", ← j.field? (Json.list? AclLine.ofJson?) "lines"⟩

def toJson (a : Acl) : Json := .obj [("name", .str a.name), ("lines", .ofList AclLine.toJson a.lines)]

end Acl

namespace SourceNat

def ofJson? (j : Json) : Option SourceNat := do
  return {
    acl := ← j.field? Json.string? "acl"
    poolFirst := ← j.field? Address.ofJson? "pool_first"
    poolLast := ← j.field? Address.ofJson? "pool_last" }

def toJson (n : SourceNat) : Json := .obj [
  ("acl", .str n.acl),
  ("pool_first", n.poolFirst.toJson),
  ("pool_last", n.poolLast.toJson)]

end SourceNat

namespace Interface

def ofJson? (j : Json) : Option Interface := do
  return {
    name := ← j.field? Json.string? "name"
    vrf := ← j.field? Json.string? "vrf"
    addresses := ← j.field? (Json.list? Address.ofJson?) "addresses"
    incomingFilter := ← j.optional? Json.string? "incoming_filter"
    outgoingFilter := ← j.optional? Json.string? "outgoing_filter"
    sourceNats := ← j.field? (Json.list? SourceNat.ofJson?) "source_nats" }

def toJson (i : Interface) : Json := .obj [
  ("name", .str i.name),
  ("vrf", .str i.vrf),
  ("addresses", .ofList Address.toJson i.addresses),
  ("incoming_filter", .ofOption .str i.incomingFilter),
  ("outgoing_filter", .ofOption .str i.outgoingFilter),
  ("source_nats", .ofList SourceNat.toJson i.sourceNats)]

end Interface

namespace Vrf

def ofJson? (j : Json) : Option Vrf := do
  let interfaces ← j.field? (Json.list? Json.string?) "interfaces"
  return { name := ← j.field? Json.string? "name", interfaces := .ofList interfaces }

def toJson (v : Vrf) : Json :=
  .obj [("name", .str v.name), ("interfaces", .ofList .str v.interfaces.toList)]

end Vrf

namespace Configuration

def ofJson? (j : Json) : Option Configuration := do
  return {
    hostname := ← j.field? Json.string? "hostname"
    interfaces := ← j.field? (Json.table? Interface.ofJson?) "interfaces"
    vrfs := ← j.field? (Json.table? Vrf.ofJson?) "vrfs"
    acls := ← j.field? (Json.table? Acl.ofJson?) "acls" }

def toJson (c : Configuration) : Json := .obj [
  ("hostname", .str c.hostname),
  ("interfaces", .ofTable Interface.toJson c.interfaces),
  ("vrfs", .ofTable Vrf.toJson c.vrfs),
  ("acls", .ofTable Acl.toJson c.acls)]

end Configuration

namespace Network

def ofJson? : Json → Option Network := Json.table? Configuration.ofJson?

def toJson (n : Network) : Json := .ofTable Configuration.toJson n

end Network

namespace Link

def ofJson? (j : Json) : Option Link := do
  return {
    source := ⟨← j.field? Json.string? "node1", ← j.field? Json.string? "interface1"⟩
    target := ⟨← j.field? Json.string? "node2", ← j.field? Json.string? "interface2"⟩ }

def toJson (l : Link) : Json := .obj [
  ("node1", .str l.source.node),
  ("interface1", .str l.source.interface),
  ("node2", .str l.target.node),
  ("interface2", .str l.target.interface)]

/-- A list of pairs, in which the last pair of a link counts. -/
def spacesOfJson? (j : Json) : Option (Std.ExtTreeMap Link IpSpace) := do
  let pairs ← Json.list? (Json.pair? ofJson? IpSpace.ofJson?) j
  return pairs.foldl (fun t (link, space) => t.insert link space) ∅

/-- The pairs are in the order of the links. -/
def spacesToJson (t : Std.ExtTreeMap Link IpSpace) : Json :=
  .ofList (fun (link, space) => .arr [link.toJson, space.toJson]) t.toList

end Link

namespace Facts

def ofJson? (j : Json) : Option Facts := do
  let vrfSpaces? := Json.table? (Json.table? IpSpace.ofJson?)
  return {
    routable := ← j.field? vrfSpaces? "routable"
    nullRouted := ← j.field? vrfSpaces? "null_routed"
    arpTrue := ← j.field? Link.spacesOfJson? "arp_true"
    neighborUnreachable := ←
      j.field? (Json.table? (Json.table? (Json.table? IpSpace.ofJson?))) "neighbor_unreachable" }

def toJson (f : Facts) : Json := .obj [
  ("routable", .ofTable (.ofTable IpSpace.toJson) f.routable),
  ("null_routed", .ofTable (.ofTable IpSpace.toJson) f.nullRouted),
  ("arp_true", Link.spacesToJson f.arpTrue),
  ("neighbor_unreachable", .ofTable (.ofTable (.ofTable IpSpace.toJson)) f.neighborUnreachable)]

end Facts
end Dataplane
