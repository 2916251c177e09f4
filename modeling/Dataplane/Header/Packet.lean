import Dataplane.Diagram.Basic
import Dataplane.Header.Field

/-! Concrete packet headers. -/
namespace Dataplane

/-- A header. Of `tcpFlags` the six low bits are meant, the first flag being the highest. -/
structure Packet where
  dstIp : UInt32
  srcIp : UInt32
  dstPort : UInt16
  srcPort : UInt16
  ipProtocol : UInt8
  icmpType : UInt8
  icmpCode : UInt8
  tcpFlags : UInt8
deriving DecidableEq

namespace Packet

def field (p : Packet) : Field → Nat
  | .dstIp => p.dstIp.toNat
  | .srcIp => p.srcIp.toNat
  | .dstPort => p.dstPort.toNat
  | .srcPort => p.srcPort.toNat
  | .ipProtocol => p.ipProtocol.toNat
  | .icmpType => p.icmpType.toNat
  | .icmpCode => p.icmpCode.toNat
  | .tcpFlags => p.tcpFlags.toNat

/-- The packet with the given field values. -/
def ofFields (value : Field → Nat) : Packet where
  dstIp := .ofNat (value .dstIp)
  srcIp := .ofNat (value .srcIp)
  dstPort := .ofNat (value .dstPort)
  srcPort := .ofNat (value .srcPort)
  ipProtocol := .ofNat (value .ipProtocol)
  icmpType := .ofNat (value .icmpType)
  icmpCode := .ofNat (value .icmpCode)
  tcpFlags := .ofNat (value .tcpFlags)

def dstAddress (p : Packet) : Address := ⟨p.dstIp⟩

def srcAddress (p : Packet) : Address := ⟨p.srcIp⟩

/-- The packet that a valuation describes, each field read from its most significant bit. -/
def decode (σ : Valuation) : Packet :=
  ofFields fun f => f.bits.foldl (fun n b => 2 * n + (σ b).toNat) 0

/-- Flags are written in binary with at least six digits. -/
def flagText (p : Packet) : String :=
  let digits := Nat.toDigits 2 p.tcpFlags.toNat
  String.ofList (List.replicate (6 - digits.length) '0' ++ digits)

def text (p : Packet) : String :=
  p.srcAddress.text ++ ":" ++ toString p.srcPort.toNat ++ " -> " ++
    p.dstAddress.text ++ ":" ++ toString p.dstPort.toNat ++
    " proto=" ++ toString p.ipProtocol.toNat ++
    " icmp=" ++ toString p.icmpType.toNat ++ "/" ++ toString p.icmpCode.toNat ++
    " flags=" ++ p.flagText

end Packet
end Dataplane
