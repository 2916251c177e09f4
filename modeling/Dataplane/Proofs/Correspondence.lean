import Dataplane.Proofs.Contents
import Mathlib.Data.Set.Function

/-! Valuations of the header bits and packets without spare flags correspond one to one. -/
namespace Dataplane

namespace Packet

/-- The packet with the six flags that a header has. -/
def trimmed (p : Packet) : Packet := { p with tcpFlags := p.tcpFlags % 64 }

theorem field_trimmed (p : Packet) (f : Field) : p.trimmed.field f = p.field f % 2 ^ f.width := by
  by_cases hf : f = .tcpFlags
  · subst f
    exact UInt8.toNat_mod _ _
  · rw [p.field_mod hf]
    cases f with
    | tcpFlags => contradiction
    | _ => rfl

theorem trimmed_of_lt {p : Packet} (h : p.tcpFlags < 64) : p.trimmed = p := by
  have hflags : p.tcpFlags % 64 = p.tcpFlags := UInt8.mod_eq_of_lt h
  rw [trimmed, hflags]

theorem decode_encode (p : Packet) : decode p.encode = p.trimmed := by
  refine ext_field fun f => ?_
  rw [field_decode, field_encode, field_trimmed]

/-- Spare flags are not encoded. -/
theorem encode_trimmed (p : Packet) : p.trimmed.encode = p.encode := by
  rw [← decode_encode, encode_decode]

theorem decode_eq_trimmed_iff (p : Packet) (σ : Valuation) :
    decode σ = p.trimmed ↔ σ = p.encode := by
  constructor
  · intro h
    rw [← encode_decode σ, h, encode_trimmed]
  · rintro rfl
    exact p.decode_encode

theorem encode_bit (p : Packet) (f : Field) (i : Fin f.width) :
    p.encode (f.bit i) = (p.field f).testBit (f.width - 1 - i.val) := by
  rw [encode, Field.owner_bit, Field.place_bit]

theorem bijOn_decode : Set.BijOn decode Set.univ {p | p.tcpFlags < 64} := by
  have hinverse : Set.InvOn encode decode Set.univ {p | p.tcpFlags < 64} := by
    refine ⟨fun σ _ => encode_decode σ, fun p hp => ?_⟩
    rw [decode_encode, trimmed_of_lt hp]
  exact hinverse.bijOn (fun σ _ => tcpFlags_decode_lt σ) fun _ _ => Set.mem_univ _

/-- A valuation is in the space of the packet that it decodes to, and in that of no other packet
but for spare flags. So every valuation stands for one packet and every packet for one valuation,
which has the bits of its fields, and a space contains a packet if it is true there. -/
theorem valuations_correspond (p : Packet) (σ : Valuation) (s : HeaderSpace) :
    ((HeaderSpace.ofPacket p).eval σ = true ↔ decode σ = p.trimmed) ∧
    Set.BijOn decode Set.univ {q | q.tcpFlags < 64} ∧
    (∀ τ, (HeaderSpace.ofPacket (decode σ)).eval τ = true ↔ τ = σ) ∧
    (∀ (f : Field) (i : Fin f.width),
      p.encode (f.bit i) = (p.field f).testBit (f.width - 1 - i.val)) ∧
    s.contains p = s.eval p.encode := by
  refine ⟨?_, bijOn_decode, fun τ => ?_, p.encode_bit, s.contains_eq_eval p⟩
  · rw [HeaderSpace.eval_ofPacket, decode_eq_trimmed_iff]
  · rw [HeaderSpace.eval_ofPacket, encode_decode]

end Packet
end Dataplane
