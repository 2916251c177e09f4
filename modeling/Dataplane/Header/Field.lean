/-! The modelled header fields, the layout of their bits, and IPv4 addresses. -/
namespace Dataplane

/-- Fields in the order in which their bits are laid out. -/
inductive Field where
  | dstIp
  | srcIp
  | dstPort
  | srcPort
  | ipProtocol
  | icmpType
  | icmpCode
  | tcpFlags
deriving DecidableEq

/-- A position in the header, counted from the most significant bit of the first field. -/
abbrev Bit := Fin 126

namespace Field

def all : List Field :=
  [.dstIp, .srcIp, .dstPort, .srcPort, .ipProtocol, .icmpType, .icmpCode, .tcpFlags]

/-- Number of bits that encode the field. -/
def width : Field → Nat
  | .dstIp | .srcIp => 32
  | .dstPort | .srcPort => 16
  | .ipProtocol | .icmpType | .icmpCode => 8
  | .tcpFlags => 6

/-- Position of the most significant bit of the field. -/
def offset : Field → Nat
  | .dstIp => 0
  | .srcIp => 32
  | .dstPort => 64
  | .srcPort => 80
  | .ipProtocol => 96
  | .icmpType => 104
  | .icmpCode => 112
  | .tcpFlags => 120

/-- A single flag bit is what the last field is named for. -/
def name : Field → String
  | .dstIp => "dst_ip"
  | .srcIp => "src_ip"
  | .dstPort => "dst_port"
  | .srcPort => "src_port"
  | .ipProtocol => "ip_protocol"
  | .icmpType => "icmp_type"
  | .icmpCode => "icmp_code"
  | .tcpFlags => "tcp_flag"

theorem offset_add_width_le (f : Field) : f.offset + f.width ≤ 126 := by
  cases f <;> decide

/-- The `i`-th bit of the field, most significant first. -/
def bit (f : Field) (i : Fin f.width) : Bit :=
  ⟨f.offset + i, Nat.lt_of_lt_of_le (Nat.add_lt_add_left i.isLt _) f.offset_add_width_le⟩

/-- All bits of the field, most significant first. -/
def bits (f : Field) : List Bit := List.ofFn f.bit

/-- Whether a header position belongs to the field. -/
def owns (f : Field) (b : Bit) : Bool := f.offset ≤ b.val && b.val < f.offset + f.width

def bitNames (f : Field) : List String :=
  (List.range f.width).map fun i => f.name ++ "_" ++ toString i

end Field

/-- TCP flags in the order of their bits, most significant first. -/
inductive TcpFlag where
  | ack
  | fin
  | psh
  | rst
  | syn
  | urg
deriving DecidableEq

/-- Index of the flag within the six flag bits. -/
def TcpFlag.index : TcpFlag → Fin Field.tcpFlags.width
  | .ack => ⟨0, by decide⟩
  | .fin => ⟨1, by decide⟩
  | .psh => ⟨2, by decide⟩
  | .rst => ⟨3, by decide⟩
  | .syn => ⟨4, by decide⟩
  | .urg => ⟨5, by decide⟩

/-- An IPv4 address, which is written in dotted form. -/
structure Address where
  value : UInt32
deriving DecidableEq

namespace Address

def octets (a : Address) : List Nat :=
  let n := a.value.toNat
  [n / 16777216, n / 65536 % 256, n / 256 % 256, n % 256]

def text (a : Address) : String := ".".intercalate (a.octets.map toString)

/-- The parts of a text between the dots. -/
def parts : List Char → List (List Char)
  | [] => [[]]
  | '.' :: rest => [] :: parts rest
  | c :: rest =>
    match parts rest with
    | [] => [[c]]
    | part :: others => (c :: part) :: others

/-- A decimal number up to 255, without leading zeros. -/
def octet? (digits : List Char) : Option Nat :=
  if digits.isEmpty || digits.length > 3 || !digits.all Char.isDigit then none
  else if digits.length > 1 && digits.head? = some '0' then none
  else
    let n := digits.foldl (fun n c => 10 * n + (c.toNat - '0'.toNat)) 0
    if n < 256 then some n else none

/-- Four decimal numbers up to 255, divided by dots. -/
def ofText? (text : String) : Option Address := do
  match ← (parts text.toList).mapM octet? with
  | [a, b, c, d] => some ⟨.ofNat (((a * 256 + b) * 256 + c) * 256 + d)⟩
  | _ => none

end Address
end Dataplane
