import Dataplane.Header.Packet
import Dataplane.Header.Space

/-! Header spaces given by conditions on fields. -/
namespace Dataplane

/-- The bits of a field, each with its place in the binary number, most significant first. -/
def Field.places (f : Field) : List (Bit × Nat) :=
  List.ofFn fun i => (f.bit i, f.width - 1 - i.val)

namespace HeaderSpace

/-- The field agrees with `v` on its `length` most significant bits. Bits of `v` above the width
play no part, and neither does a length beyond it. -/
def leading (f : Field) (v length : Nat) : HeaderSpace :=
  (f.places.take length).foldr (fun (b, k) rest => (literal b (v.testBit k)).inter rest) full

/-- The field is `v`. -/
def value (f : Field) (v : Nat) : HeaderSpace := leading f v f.width

/-- The field is at most `v`. Each step has the lower bits decided, given equal higher ones. -/
def atMost (f : Field) (v : Nat) : HeaderSpace :=
  f.places.foldr (fun (b, k) rest =>
    if v.testBit k then (literal b false).union rest else (literal b false).inter rest) full

/-- The field is at least `v`. -/
def atLeast (f : Field) (v : Nat) : HeaderSpace :=
  f.places.foldr (fun (b, k) rest =>
    if v.testBit k then (literal b true).inter rest else (literal b true).union rest) full

/-- The field is between two values, ends included. -/
def range (f : Field) (first last : Nat) : HeaderSpace :=
  if last < first then empty else (atLeast f first).inter (atMost f last)

/-- The flag has the given value. -/
def flag (t : TcpFlag) (set : Bool) : HeaderSpace := literal (Field.tcpFlags.bit t.index) set

/-- The space of one packet. -/
def ofPacket (p : Packet) : HeaderSpace :=
  Field.all.foldl (fun s f => s.inter (value f (p.field f))) full

def contains (s : HeaderSpace) (p : Packet) : Bool := !(s.inter (ofPacket p)).isEmpty

/-- Keep what a space says about the destination address only. -/
def projectDstIp (s : HeaderSpace) : HeaderSpace := s.forget fun b => !Field.dstIp.owns b

/-- Drop what a space says about a field. -/
def forgetField (s : HeaderSpace) (f : Field) : HeaderSpace := s.forget f.owns

/-- Some packet of the space, if there is one. -/
def example? (s : HeaderSpace) : Option Packet := s.diagram.witness?.map Packet.decode

end HeaderSpace

/-- How much of a header is kept by the predicates of a network. -/
inductive Coarsening where
  | precise
  | dstIpOnly
deriving DecidableEq

/-- A coarse space holds a packet if some packet with its destination is in the space. -/
def Coarsening.apply : Coarsening → HeaderSpace → HeaderSpace
  | .precise, s => s
  | .dstIpOnly, s => s.projectDstIp

end Dataplane
