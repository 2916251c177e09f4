import Dataplane.Json.Network
import Dataplane.Pipeline.Stage

/-! Stages and locations as JSON values. -/
namespace Dataplane

namespace Endpoint

def ofJson? (j : Json) : Option Endpoint := do
  return ⟨← j.field? Json.string? "node", ← j.field? Json.string? "interface"⟩

def toJson (p : Endpoint) : Json := .obj [("node", .str p.node), ("interface", .str p.interface)]

end Endpoint

namespace Location

def ofJson? : Json → Option Location
  | .obj [("InterfaceLink", payload)] => return .link (← Endpoint.ofJson? payload)
  | .obj [("Interface", payload)] => return .interface (← Endpoint.ofJson? payload)
  | .obj [("Vrf", payload)] =>
    return .vrf (← payload.field? Json.string? "node") (← payload.field? Json.string? "vrf")
  | _ => none

def toJson : Location → Json
  | .link endpoint => .obj [("InterfaceLink", endpoint.toJson)]
  | .interface endpoint => .obj [("Interface", endpoint.toJson)]
  | .vrf node domain => .obj [("Vrf", .obj [("node", .str node), ("vrf", .str domain)])]

end Location

namespace Stage

def ofJson? : Json → Option Stage
  | .str "Accept" => some .accept
  | .str "Drop" => some .drop
  | .str "NeighborUnreachable" => some .unreachable
  | .obj [(kind, payload)] =>
    let node? := payload.field? Json.string? "node"
    let vrf? := payload.field? Json.string? "vrf"
    match kind with
    | "OriginateInterfaceLink" => return .originateLink (← Endpoint.ofJson? payload)
    | "OriginateVrf" => return .originateVrf (← node?) (← vrf?)
    | "PreInInterface" => return .preIn (← Endpoint.ofJson? payload)
    | "PostInVrf" => return .postIn (← node?) (← vrf?)
    | "PreOutVrf" => return .preOut (← node?) (← vrf?)
    | "PreOutEdge" => return .preNat (← Link.ofJson? payload)
    | "PreOutEdgePostNat" => return .postNat (← Link.ofJson? payload)
    | "NodeDropAclIn" => return .dropped .aclIn (← node?)
    | "NodeDropAclOut" => return .dropped .aclOut (← node?)
    | "NodeDropNoRoute" => return .dropped .noRoute (← node?)
    | "NodeDropNullRoute" => return .dropped .nullRoute (← node?)
    | "NodeDrop" => return .nodeDrop (← node?)
    | "NodeInterfaceNeighborUnreachable" => return .nodeUnreachable (← Endpoint.ofJson? payload)
    | "NodeAccept" => return .nodeAccept (← node?)
    | _ => none
  | _ => none

end Stage
end Dataplane
