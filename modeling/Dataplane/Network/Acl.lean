import Dataplane.Header.Field

/-! Sets of addresses and access control lists as they are configured. -/
namespace Dataplane

/-- A set of addresses. The description may be malformed. -/
inductive IpSpace where
  | any
  | empty
  | single (ip : Address)
  /-- The addresses that share the first `length` bits with `ip`. -/
  | block (ip : Address) (length : UInt8)
  /-- The addresses from `first` to `last`, both included. -/
  | range (first last : Address)
  | union (spaces : List IpSpace)
  /-- The addresses of `kept` that are not in `removed`. -/
  | difference (kept removed : IpSpace)

/-- The ports from `first` to `last`, both included. -/
structure PortRange where
  first : UInt16
  last : UInt16
deriving DecidableEq

def PortRange.single (number : UInt16) : PortRange := ⟨number, number⟩

/-- Conditions on different fields must all hold. Of the alternatives for one field one must
hold, and a field without any is free. Every listed flag must have its value. -/
structure HeaderMatch where
  srcIps : Option IpSpace := none
  dstIps : Option IpSpace := none
  srcPorts : List PortRange := []
  dstPorts : List PortRange := []
  ipProtocols : List UInt8 := []
  icmpTypes : List UInt8 := []
  icmpCodes : List UInt8 := []
  tcpFlags : List (TcpFlag × Bool) := []

inductive Action where
  | permit
  | deny
deriving DecidableEq

structure AclLine where
  action : Action
  condition : HeaderMatch

/-- The first line whose condition holds decides, and a packet that no line decides is denied. -/
structure Acl where
  name : String
  lines : List AclLine

namespace HeaderMatch

/-- Holds of every packet. -/
def any : HeaderMatch := {}

def ofProtocols (protocols : List UInt8) : HeaderMatch := { ipProtocols := protocols }

def withSrcIps (m : HeaderMatch) (space : IpSpace) : HeaderMatch := { m with srcIps := some space }

def withDstIps (m : HeaderMatch) (space : IpSpace) : HeaderMatch := { m with dstIps := some space }

def withSrcPorts (m : HeaderMatch) (ranges : List PortRange) : HeaderMatch :=
  { m with srcPorts := ranges }

def withDstPorts (m : HeaderMatch) (ranges : List PortRange) : HeaderMatch :=
  { m with dstPorts := ranges }

/-- Require a flag in addition to those required already. -/
def withFlag (m : HeaderMatch) (flag : TcpFlag) (set : Bool) : HeaderMatch :=
  { m with tcpFlags := m.tcpFlags ++ [(flag, set)] }

end HeaderMatch
end Dataplane
