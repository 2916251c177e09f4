import Dataplane.Proofs.WellPosed
import Mathlib.Data.Set.Basic

/-! Address sets and conditions: what they stand for, which faults they can have, and which of the
faults is reported. -/
namespace Dataplane

/-- The `k`-th bit, most significant first. -/
def Address.bit (a : Address) (k : Nat) : Bool := a.value.toNat.testBit (31 - k)

/-- The address that a field holds. -/
def Packet.address (p : Packet) (f : Field) : Address := ⟨.ofNat (p.field f)⟩

theorem Packet.field_eq_address (p : Packet) {f : Field} (hf : f.width = 32) :
    p.field f = (p.address f).value.toNat := by
  have hlt := p.field_lt (Field.ne_tcpFlags (f := f) (by omega))
  rw [hf] at hlt
  rw [address, UInt32.toNat_ofNat_of_lt' hlt]

/-- Addresses share their leading bits if they are the same with the other bits shifted out. -/
theorem Address.shiftRight_eq_iff (a b : Address) (length : Nat) :
    a.value.toNat >>> (32 - length) = b.value.toNat >>> (32 - length) ↔
      ∀ k < length, a.bit k = b.bit k := by
  -- What the shift has moved in from above is zero, so only the bits of the address count.
  have hhigh (x : UInt32) (k : Nat) (hk : 32 ≤ k) : x.toNat.testBit k = false :=
    Nat.testBit_lt_two_pow (Nat.lt_of_lt_of_le x.toNat_lt (Nat.pow_le_pow_right (by omega) hk))
  constructor
  · intro h k hk
    have hbit := congrArg (Nat.testBit · (31 - k - (32 - length))) h
    have hplace : 32 - length + (31 - k - (32 - length)) = 31 - k := by omega
    simp only [Nat.testBit_shiftRight, hplace] at hbit
    exact hbit
  · intro h
    apply Nat.eq_of_testBit_eq
    intro k
    rw [Nat.testBit_shiftRight, Nat.testBit_shiftRight]
    by_cases hk : 32 - length + k < 32
    · have hplace : 31 - (31 - (32 - length + k)) = 32 - length + k := by omega
      have hbit := h (31 - (32 - length + k)) (by omega)
      simpa only [bit, hplace] using hbit
    · rw [hhigh _ _ (by omega), hhigh _ _ (by omega)]

namespace IpSpace

mutual

/-- The set that a description stands for. -/
def addresses : IpSpace → Set Address
  | .any => Set.univ
  | .empty => ∅
  | .single ip => {ip}
  | .block ip length => {a | ∀ k < length.toNat, a.bit k = ip.bit k}
  | .range first last => {a | first.value ≤ a.value ∧ a.value ≤ last.value}
  | .union spaces => jointAddresses spaces
  | .difference kept removed => kept.addresses \ removed.addresses

def jointAddresses : List IpSpace → Set Address
  | [] => ∅
  | space :: rest => space.addresses ∪ jointAddresses rest

end

mutual

theorem includes_iff_mem (a : Address) :
    (space : IpSpace) → (space.includes a = true ↔ a ∈ space.addresses)
  | .any => by simp [includes, addresses]
  | .empty => by simp [includes, addresses]
  | .single ip => by simp [includes, addresses]
  | .block ip length => by
    rw [includes, addresses, decide_eq_true_iff, Set.mem_ofPred_eq, Address.shiftRight_eq_iff]
  | .range first last => by simp [includes, addresses]
  | .union spaces => by
    rw [includes, addresses]
    exact someIncludes_iff_mem a spaces
  | .difference kept removed => by
    rw [includes, addresses, Bool.and_eq_true, Bool.not_eq_true', Set.mem_sdiff,
      includes_iff_mem a kept, ← includes_iff_mem a removed, Bool.not_eq_true]

theorem someIncludes_iff_mem (a : Address) :
    (spaces : List IpSpace) → (someIncludes a spaces = true ↔ a ∈ jointAddresses spaces)
  | [] => by simp [someIncludes, jointAddresses]
  | space :: rest => by
    rw [someIncludes, jointAddresses, Bool.or_eq_true, Set.mem_union, includes_iff_mem a space,
      someIncludes_iff_mem a rest]

end

mutual

/-- The description and all that it is made of, in the order in which they are read. -/
def parts : IpSpace → List IpSpace
  | .any => [.any]
  | .empty => [.empty]
  | .single ip => [.single ip]
  | .block ip length => [.block ip length]
  | .range first last => [.range first last]
  | .union spaces => .union spaces :: allParts spaces
  | .difference kept removed => .difference kept removed :: (kept.parts ++ removed.parts)

def allParts : List IpSpace → List IpSpace
  | [] => []
  | space :: rest => space.parts ++ allParts rest

end

/-- What is wrong with the description, its parts apart. -/
def ownFault? (f : Field) : IpSpace → Option ModelError
  | .block _ length => if 32 < length then some (.invalidBlockLength length) else none
  | .range first last => ModelError.ofRange? f first.value.toNat last.value.toNat
  | _ => none

/-- The first thing that is wrong. -/
def fault? (f : Field) (space : IpSpace) : Option ModelError := space.parts.findSome? (ownFault? f)

theorem fault?_difference (f : Field) (kept removed : IpSpace) :
    (difference kept removed).fault? f = (kept.fault? f).or (removed.fault? f) := by
  rw [fault?, parts, List.findSome?_cons_of_isNone rfl, List.findSome?_append]
  rfl

mutual

theorem failure?_headers (f : Field) :
    (space : IpSpace) → failure? (space.headers f) = space.fault? f
  | .any => rfl
  | .empty => rfl
  | .single _ => rfl
  | .block ip length => by
    rw [headers, fault?, parts, List.findSome?_singleton, ownFault?]
    split <;> rfl
  | .range first last => by
    rw [headers, fault?, parts, List.findSome?_singleton, ownFault?, ModelError.ofRange?]
    simp only [UInt32.lt_iff_toNat_lt]
    split <;> rfl
  | .union spaces => failure?_unionHeaders f spaces .empty
  | .difference kept removed => by
    rw [headers, failure?_bind fun keep => failure?_bind_pure _, failure?_headers f kept,
      failure?_headers f removed, fault?_difference]

theorem failure?_unionHeaders (f : Field) : (spaces : List IpSpace) → (found : HeaderSpace) →
    failure? (unionHeaders f found spaces) = (allParts spaces).findSome? (ownFault? f)
  | [], _ => rfl
  | space :: rest, found => by
    rw [unionHeaders, failure?_bind fun s => failure?_unionHeaders f rest _,
      failure?_headers f space, allParts, List.findSome?_append, fault?]

end

/-- Nothing is wrong if no block is longer than an address and no range is inverted. -/
theorem fault?_eq_none_iff (f : Field) (space : IpSpace) : space.fault? f = none ↔
    (∀ ip length, .block ip length ∈ space.parts → length ≤ 32) ∧
      ∀ first last, .range first last ∈ space.parts → first.value ≤ last.value := by
  rw [fault?, List.findSome?_eq_none_iff]
  constructor
  · intro h
    constructor
    · intro ip length hblock
      have hfault := h _ hblock
      rw [ownFault?] at hfault
      split at hfault
      · contradiction
      · rename_i hlength
        exact UInt8.not_lt.mp hlength
    · intro first last hrange
      exact ModelError.ofRange?_eq_none.mp (h _ hrange)
  · rintro ⟨hblock, hrange⟩ part hpart
    cases part with
    | block ip length => exact if_neg (UInt8.not_lt.mpr (hblock ip length hpart))
    | range first last => exact ModelError.ofRange?_eq_none.mpr (hrange first last hpart)
    | _ => rfl

/-- A description is converted unless one of its parts is malformed, and then the first such part is
reported. The result holds the packets with an address of the set that the description stands for.
-/
theorem conversion_exact (space : IpSpace) {f : Field} (hf : f = .dstIp ∨ f = .srcIp) :
    ((∃ s, space.headers f = .ok s) ↔
      (∀ ip length, .block ip length ∈ space.parts → length ≤ 32) ∧
        ∀ first last, .range first last ∈ space.parts → first.value ≤ last.value) ∧
    (∀ e, space.headers f = .error e ↔ space.parts.findSome? (ownFault? f) = some e) ∧
    ∀ s, space.headers f = .ok s →
      ∀ p, s.contains p = true ↔ p.address f ∈ space.addresses := by
  refine ⟨?_, fun e => ?_, fun s hs p => ?_⟩
  · rw [← failure?_eq_none, failure?_headers, fault?_eq_none_iff]
  · rw [← failure?_eq_some, failure?_headers, fault?]
  · have hwidth : f.width = 32 := by rcases hf with rfl | rfl <;> rfl
    rw [contains_headers hwidth (p.field_eq_address hwidth) space hs, includes_iff_mem]

/-- A fault is reported also where it could not matter for the set. -/
theorem conversion_exact_nested :
    headers .srcIp (.difference .empty (.union [.block ⟨0⟩ 8, .range ⟨9⟩ ⟨5⟩, .block ⟨0⟩ 40])) =
      .error (.invalidRange .srcIp 9 5) ∧
    ∃ s, headers .dstIp (.difference (.block ⟨167772160⟩ 8) (.single ⟨167772161⟩)) = .ok s ∧
      ∀ p, s.contains p = true ↔
        p.address .dstIp ∈ addresses (.difference (.block ⟨167772160⟩ 8) (.single ⟨167772161⟩)) := by
  obtain ⟨hok, _, hcontains⟩ := conversion_exact
    (.difference (.block ⟨167772160⟩ 8) (.single ⟨167772161⟩)) (Or.inl rfl)
  obtain ⟨s, hs⟩ := hok.mpr (by simp [parts])
  exact ⟨((conversion_exact _ (Or.inr rfl)).2.1 _).mpr (by decide), s, hs, hcontains s hs⟩

end IpSpace

namespace HeaderMatch

/-- The first thing that is wrong, of sources, destinations, source and destination ports. -/
def fault? (m : HeaderMatch) : Option ModelError :=
  (m.srcIps.bind (·.fault? .srcIp)).or <| (m.dstIps.bind (·.fault? .dstIp)).or <|
    (m.srcPorts.findSome? (·.fault? .srcPort)).or (m.dstPorts.findSome? (·.fault? .dstPort))

/-- What a packet must be like for the condition to hold. -/
@[mk_iff] structure Accepts (m : HeaderMatch) (p : Packet) : Prop where
  srcIps : ∀ space, m.srcIps = some space → p.srcAddress ∈ space.addresses
  dstIps : ∀ space, m.dstIps = some space → p.dstAddress ∈ space.addresses
  srcPorts : m.srcPorts = [] ∨ ∃ r ∈ m.srcPorts, r.first ≤ p.srcPort ∧ p.srcPort ≤ r.last
  dstPorts : m.dstPorts = [] ∨ ∃ r ∈ m.dstPorts, r.first ≤ p.dstPort ∧ p.dstPort ≤ r.last
  ipProtocols : m.ipProtocols = [] ∨ p.ipProtocol ∈ m.ipProtocols
  icmpTypes : m.icmpTypes = [] ∨ p.icmpType ∈ m.icmpTypes
  icmpCodes : m.icmpCodes = [] ∨ p.icmpCode ∈ m.icmpCodes
  tcpFlags : ∀ flag set, (flag, set) ∈ m.tcpFlags →
    p.tcpFlags.toNat.testBit (5 - flag.index.val) = set

theorem holds_iff_accepts (m : HeaderMatch) (p : Packet) : m.holds p = true ↔ m.Accepts p := by
  have haddresses (space? : Option IpSpace) (a : Address) :
      space?.all (·.includes a) = true ↔ ∀ space, space? = some space → a ∈ space.addresses := by
    cases space? <;> simp [IpSpace.includes_iff_mem]
  have hports (ranges : List PortRange) (port : UInt16) :
      anyOf ranges (·.includes port) = true ↔
        ranges = [] ∨ ∃ r ∈ ranges, r.first ≤ port ∧ port ≤ r.last := by
    simp [anyOf, PortRange.includes]
  have hvalues (values : List UInt8) (x : UInt8) :
      anyOf values (· = x) = true ↔ values = [] ∨ x ∈ values := by
    simp [anyOf]
  simp only [holds, accepts_iff, Bool.and_eq_true, haddresses, hports, hvalues, List.all_eq_true,
    Prod.forall, Packet.flag, beq_iff_eq, and_assoc]

theorem failure?_headers (m : HeaderMatch) : failure? m.headers = m.fault? := by
  have haddresses (f : Field) (space? : Option IpSpace) :
      failure? ((space?.getD .any).headers f) = space?.bind (·.fault? f) := by
    rw [IpSpace.failure?_headers]
    cases space? <;> rfl
  rw [fault?, ← haddresses, ← haddresses, ← PortRange.failure?_headers,
    ← PortRange.failure?_headers]
  exact failure?_bind fun _ => failure?_bind fun _ => failure?_bind fun _ => failure?_bind_pure _

/-- A condition is compiled unless one of its address sets or port ranges is malformed, and then the
first such fault is reported. The result holds the packets that the condition accepts. -/
theorem compilation_exact (m : HeaderMatch) :
    ((∃ s, m.headers = .ok s) ↔ m.wellFormed = true) ∧
    (∀ e, m.headers = .error e ↔ m.fault? = some e) ∧
    ∀ s, m.headers = .ok s → ∀ p, s.contains p = true ↔ m.Accepts p := by
  refine ⟨m.exists_headers_iff, fun e => ?_, fun s hs p => ?_⟩
  · rw [← failure?_eq_some, failure?_headers]
  · rw [contains_headers hs, holds_iff_accepts]

end HeaderMatch
end Dataplane
