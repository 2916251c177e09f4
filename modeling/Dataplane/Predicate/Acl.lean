import Dataplane.Error
import Dataplane.Header.Constraint
import Dataplane.Network.Configuration

/-! Header spaces of address sets, and of what access lists permit and deny. -/
namespace Dataplane

namespace IpSpace

mutual

/-- The packets whose address in `field` is in the set. -/
def headers (field : Field) : IpSpace → Except ModelError HeaderSpace
  | .any => .ok .full
  | .empty => .ok .empty
  | .single ip => .ok (.value field ip.value.toNat)
  | .block ip length =>
    if 32 < length then .error (.invalidBlockLength length)
    else .ok (.leading field ip.value.toNat length.toNat)
  | .range first last =>
    if last.value < first.value then
      .error (.invalidRange field first.value.toNat last.value.toNat)
    else .ok (.range field first.value.toNat last.value.toNat)
  | .union spaces => unionHeaders field .empty spaces
  | .difference kept removed => do
    let kept ← kept.headers field
    let removed ← removed.headers field
    return kept.diff removed

/-- Add the packets of further sets to those found so far. -/
def unionHeaders (field : Field) (found : HeaderSpace) :
    List IpSpace → Except ModelError HeaderSpace
  | [] => .ok found
  | space :: rest => do unionHeaders field (found.union (← space.headers field)) rest

end

end IpSpace

/-- Packets whose field is in one of the ranges, or all packets if none is given. -/
def PortRange.headers (field : Field) (ranges : List PortRange) : Except ModelError HeaderSpace :=
  if ranges.isEmpty then .ok .full
  else ranges.foldlM (fun found r =>
    if r.last < r.first then .error (.invalidRange field r.first.toNat r.last.toNat)
    else .ok (found.union (.range field r.first.toNat r.last.toNat))) .empty

/-- Packets whose field has one of the values, or all packets if none is given. -/
def HeaderSpace.oneOf (field : Field) (values : List UInt8) : HeaderSpace :=
  if values.isEmpty then .full
  else values.foldl (fun found v => found.union (.value field v.toNat)) .empty

/-- Packets of which the condition holds. -/
def HeaderMatch.headers (m : HeaderMatch) : Except ModelError HeaderSpace := do
  let srcIps ← (m.srcIps.getD .any).headers .srcIp
  let dstIps ← (m.dstIps.getD .any).headers .dstIp
  let srcPorts ← PortRange.headers .srcPort m.srcPorts
  let dstPorts ← PortRange.headers .dstPort m.dstPorts
  let fields := [srcIps, dstIps, srcPorts, dstPorts, .oneOf .ipProtocol m.ipProtocols,
    .oneOf .icmpType m.icmpTypes, .oneOf .icmpCode m.icmpCodes]
  let flags := m.tcpFlags.map fun (flag, set) => HeaderSpace.flag flag set
  return (fields ++ flags).foldl .inter .full

/-- The two halves into which an access list divides the headers. -/
structure CompiledAcl where
  permit : HeaderSpace
  deny : HeaderSpace

namespace CompiledAcl

/-- Packets that are permitted already, or that are left over and permitted by a line. -/
def permitted (found left : HeaderSpace) : List (Action × HeaderSpace) → HeaderSpace
  | [] => found
  | (action, condition) :: rest =>
    let found := if action = .permit then found.union (condition.inter left) else found
    let left := left.diff condition
    if left.isEmpty then found else permitted found left rest

/-- The first line that holds decides, and what no line decides is denied. -/
def ofLines (lines : List (Action × HeaderSpace)) : CompiledAcl :=
  let permit := permitted .empty .full lines
  ⟨permit, permit.compl⟩

/-- Both halves are coarsened on their own, and may overlap then. -/
def coarsen (c : Coarsening) (a : CompiledAcl) : CompiledAcl := ⟨c.apply a.permit, c.apply a.deny⟩

end CompiledAcl

/-- All conditions must be well formed, also those of lines that decide nothing. -/
def Acl.compile (a : Acl) : Except ModelError CompiledAcl := do
  let lines ← a.lines.mapM fun line => return (line.action, ← line.condition.headers)
  return .ofLines lines

/-- The access lists of a node, which must include all that its interfaces refer to. -/
def Configuration.compileAcls (c : Coarsening) (node : String) (config : Configuration) :
    Except ModelError (Table CompiledAcl) := do
  let acls ← traverse (fun _ acl => return (← acl.compile).coarsen c) config.acls
  match (config.interfaces.values.flatMap Interface.referencedAcls).find? (!acls.contains ·) with
  | some acl => .error (.unknownAcl node acl)
  | none => return acls

/-- The access lists of all nodes. -/
def Network.compileAcls (c : Coarsening) (network : Network) :
    Except ModelError (Table (Table CompiledAcl)) :=
  traverse (Configuration.compileAcls c) network

end Dataplane
