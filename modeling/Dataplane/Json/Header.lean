import Dataplane.Header.Constraint
import Dataplane.Json.Value

/-! Header data as JSON values. -/
namespace Dataplane

namespace Field

def jsonName : Field → String
  | .dstIp => "DstIp"
  | .srcIp => "SrcIp"
  | .dstPort => "DstPort"
  | .srcPort => "SrcPort"
  | .ipProtocol => "IpProtocol"
  | .icmpType => "IcmpType"
  | .icmpCode => "IcmpCode"
  | .tcpFlags => "TcpFlags"

def ofJson? : Json → Option Field := Json.oneOf? jsonName all

end Field

namespace TcpFlag

def all : List TcpFlag := [.ack, .fin, .psh, .rst, .syn, .urg]

def jsonName : TcpFlag → String
  | .ack => "Ack"
  | .fin => "Fin"
  | .psh => "Psh"
  | .rst => "Rst"
  | .syn => "Syn"
  | .urg => "Urg"

def ofJson? : Json → Option TcpFlag := Json.oneOf? jsonName all

def toJson (t : TcpFlag) : Json := .str t.jsonName

end TcpFlag

namespace Coarsening

def jsonName : Coarsening → String
  | .precise => "Precise"
  | .dstIpOnly => "DstIpOnly"

def ofJson? : Json → Option Coarsening := Json.oneOf? jsonName [.precise, .dstIpOnly]

def toJson (c : Coarsening) : Json := .str c.jsonName

end Coarsening

namespace Address

def ofJson? (j : Json) : Option Address := j.string?.bind ofText?

def toJson (a : Address) : Json := .str a.text

end Address

namespace Packet

def ofJson? (j : Json) : Option Packet := do
  return {
    dstIp := ← j.field? Json.uint32? "dst_ip"
    srcIp := ← j.field? Json.uint32? "src_ip"
    dstPort := ← j.field? Json.uint16? "dst_port"
    srcPort := ← j.field? Json.uint16? "src_port"
    ipProtocol := ← j.field? Json.uint8? "ip_protocol"
    icmpType := ← j.field? Json.uint8? "icmp_type"
    icmpCode := ← j.field? Json.uint8? "icmp_code"
    tcpFlags := ← j.field? Json.uint8? "tcp_flags" }

def toJson (p : Packet) : Json := .obj [
  ("dst_ip", .ofNat p.dstIp.toNat),
  ("src_ip", .ofNat p.srcIp.toNat),
  ("dst_port", .ofNat p.dstPort.toNat),
  ("src_port", .ofNat p.srcPort.toNat),
  ("ip_protocol", .ofNat p.ipProtocol.toNat),
  ("icmp_type", .ofNat p.icmpType.toNat),
  ("icmp_code", .ofNat p.icmpCode.toNat),
  ("tcp_flags", .ofNat p.tcpFlags.toNat)]

end Packet
end Dataplane
