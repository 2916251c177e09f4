import Dataplane.Proofs.Encoding

/-! What header spaces contain. Spaces with the same packets are equal, so every law of spaces can
be shown packet by packet. -/
namespace Dataplane

namespace Packet

/-- The packets differ in one field at most. -/
def AgreeOff (f : Field) (p q : Packet) : Prop := ∀ g, g ≠ f → q.field g = p.field g

theorem AgreeOff.refl (f : Field) (p : Packet) : AgreeOff f p p := fun _ _ => rfl

theorem AgreeOff.symm {f : Field} {p q : Packet} (h : AgreeOff f p q) : AgreeOff f q p :=
  fun g hg => (h g hg).symm

theorem dstIp_eq_of_field {p q : Packet} (h : p.field .dstIp = q.field .dstIp) :
    p.dstIp = q.dstIp := UInt32.toNat.inj h

theorem AgreeOff.dstIp_eq {p q : Packet} (h : AgreeOff .srcIp p q) : q.dstIp = p.dstIp :=
  dstIp_eq_of_field (h .dstIp nofun)

theorem agreeOff_srcIp_iff (p q : Packet) :
    AgreeOff .srcIp p q ↔ q = { p with srcIp := q.srcIp } := by
  constructor
  · intro h
    refine Packet.ext_field fun f => ?_
    by_cases hf : f = .srcIp
    · subst f
      rfl
    · rw [h f hf]
      cases f with
      | srcIp => contradiction
      | _ => rfl
  · intro h f hf
    rw [h]
    cases f with
    | srcIp => contradiction
    | _ => rfl

/-- Only the flags leave bits of their field unused. -/
theorem field_lt (p : Packet) {f : Field} (hf : f ≠ .tcpFlags) : p.field f < 2 ^ f.width := by
  cases f with
  | tcpFlags => contradiction
  | dstIp => exact p.dstIp.toNat_lt
  | srcIp => exact p.srcIp.toNat_lt
  | dstPort => exact p.dstPort.toNat_lt
  | srcPort => exact p.srcPort.toNat_lt
  | ipProtocol => exact p.ipProtocol.toNat_lt
  | icmpType => exact p.icmpType.toNat_lt
  | icmpCode => exact p.icmpCode.toNat_lt

theorem field_mod (p : Packet) {f : Field} (hf : f ≠ .tcpFlags) :
    p.field f % 2 ^ f.width = p.field f := Nat.mod_eq_of_lt (p.field_lt hf)

end Packet

namespace HeaderSpace

@[simp] theorem contains_full (p : Packet) : full.contains p = true := by
  rw [contains_eq_eval, eval_full]

@[simp] theorem contains_empty (p : Packet) : empty.contains p = false := by
  rw [contains_eq_eval, eval_empty]

theorem contains_combine (op : Bool → Bool → Bool) (s t : HeaderSpace) (p : Packet) :
    (combine op s t).contains p = op (s.contains p) (t.contains p) := by
  simp only [contains_eq_eval, eval_combine]

@[simp] theorem contains_inter (s t : HeaderSpace) (p : Packet) :
    (s.inter t).contains p = (s.contains p && t.contains p) := contains_combine and s t p

@[simp] theorem contains_union (s t : HeaderSpace) (p : Packet) :
    (s.union t).contains p = (s.contains p || t.contains p) := contains_combine or s t p

@[simp] theorem contains_diff (s t : HeaderSpace) (p : Packet) :
    (s.diff t).contains p = (s.contains p && !t.contains p) := contains_combine _ s t p

@[simp] theorem contains_compl (s : HeaderSpace) (p : Packet) :
    s.compl.contains p = !s.contains p := contains_combine _ s empty p

theorem contains_foldl_inter (spaces : List HeaderSpace) (s : HeaderSpace) (p : Packet) :
    (spaces.foldl inter s).contains p = (s.contains p && spaces.all (·.contains p)) := by
  simp only [contains_eq_eval, eval_foldl_inter]

theorem contains_foldl_union {α : Type} (space : α → HeaderSpace) (l : List α) (s : HeaderSpace)
    (p : Packet) :
    (l.foldl (fun found a => found.union (space a)) s).contains p =
      (s.contains p || l.any fun a => (space a).contains p) := by
  induction l generalizing s with
  | nil => simp
  | cons a rest ih => simp [ih, Bool.or_assoc]

/-- Spaces with the same packets are the same. -/
theorem ext_contains {s t : HeaderSpace} (h : ∀ p, s.contains p = t.contains p) : s = t := by
  ext σ
  have hσ := h (.decode σ)
  rwa [contains_eq_eval, contains_eq_eval, Packet.encode_decode] at hσ

theorem eq_of_contains_iff {s t : HeaderSpace}
    (h : ∀ p, s.contains p = true ↔ t.contains p = true) : s = t :=
  ext_contains fun p => Bool.eq_iff_iff.mpr (h p)

theorem union_empty (s : HeaderSpace) : s.union .empty = s :=
  ext_contains fun p => by simp

theorem inter_comm (s t : HeaderSpace) : s.inter t = t.inter s :=
  ext_contains fun p => by simp [Bool.and_comm]

theorem inter_full (s : HeaderSpace) : s.inter .full = s :=
  ext_contains fun p => by simp

theorem empty_inter (s : HeaderSpace) : inter .empty s = .empty :=
  ext_contains fun p => by simp

theorem inter_empty (s : HeaderSpace) : s.inter .empty = .empty :=
  ext_contains fun p => by simp

theorem empty_diff (s : HeaderSpace) : diff .empty s = .empty :=
  ext_contains fun p => by simp

theorem inter_compl (s : HeaderSpace) : s.inter s.compl = .empty :=
  ext_contains fun p => by simp

theorem union_compl (s : HeaderSpace) : s.union s.compl = .full :=
  ext_contains fun p => by simp

theorem isEmpty_iff_contains (s : HeaderSpace) :
    s.isEmpty = true ↔ ∀ p, s.contains p = false := by
  rw [isEmpty_iff]
  constructor
  · intro h p
    rw [contains_eq_eval, h]
  · intro h σ
    have hσ := h (.decode σ)
    rwa [contains_eq_eval, Packet.encode_decode] at hσ

theorem isEmpty_eq_false_iff (s : HeaderSpace) :
    s.isEmpty = false ↔ ∃ p, s.contains p = true := by
  rw [← Bool.not_eq_true, isEmpty_iff_contains]
  simp

theorem isEmpty_eq_false_of_contains {s : HeaderSpace} {p : Packet} (h : s.contains p = true) :
    s.isEmpty = false := s.isEmpty_eq_false_iff.mpr ⟨p, h⟩

theorem eq_empty_of_isEmpty {s : HeaderSpace} (h : s.isEmpty = true) : s = empty :=
  ext_contains fun p => by rw [s.isEmpty_iff_contains.mp h, contains_empty]

theorem isEmpty_combine_iff (op : Bool → Bool → Bool) (s t : HeaderSpace) :
    (combine op s t).isEmpty = true ↔ ∀ p, op (s.contains p) (t.contains p) = false := by
  simp only [isEmpty_iff_contains, contains_combine]

theorem equivalent_iff_contains (s t : HeaderSpace) :
    s.equivalent t = true ↔ ∀ p, s.contains p = t.contains p := by
  rw [equivalent, symmDiff, isEmpty_combine_iff]
  refine forall_congr' fun p => ?_
  cases s.contains p <;> cases t.contains p <;> simp

theorem subset_iff_contains (s t : HeaderSpace) :
    s.subset t = true ↔ ∀ p, s.contains p = true → t.contains p = true := by
  rw [subset, diff, isEmpty_combine_iff]
  refine forall_congr' fun p => ?_
  cases s.contains p <;> cases t.contains p <;> simp

/-- Comparing spaces compares sets of packets: equivalent spaces have the same packets, and a
subset has no packet that the other space lacks. -/
theorem compares_packet_sets (s t : HeaderSpace) :
    (s.equivalent t = true ↔ ∀ p, s.contains p = t.contains p) ∧
    (s.subset t = true ↔ ∀ p, s.contains p = true → t.contains p = true) :=
  ⟨s.equivalent_iff_contains t, s.subset_iff_contains t⟩

theorem subset_refl (s : HeaderSpace) : s.subset s = true :=
  (s.subset_iff_contains s).mpr fun _ h => h

theorem subset_trans {s t u : HeaderSpace} (hst : s.subset t = true) (htu : t.subset u = true) :
    s.subset u = true := by
  rw [subset_iff_contains] at *
  exact fun p hp => htu p (hst p hp)

theorem subset_union_left (s t : HeaderSpace) : s.subset (s.union t) = true := by
  rw [subset_iff_contains]
  intro p hp
  simp [hp]

theorem contains_value (f : Field) (v : Nat) (p : Packet) :
    (value f v).contains p = true ↔ p.field f % 2 ^ f.width = v % 2 ^ f.width := by
  rw [contains_eq_eval, eval_value, p.field_encode]

theorem contains_value_of_lt {f : Field} {v : Nat} (hf : f ≠ .tcpFlags) (hv : v < 2 ^ f.width)
    (p : Packet) : (value f v).contains p = true ↔ p.field f = v := by
  rw [contains_value, p.field_mod hf, Nat.mod_eq_of_lt hv]

/-- Agreement on the leading bits is agreement after the other bits are shifted out. -/
theorem contains_leading (f : Field) (v length : Nat) (p : Packet) :
    (leading f v length).contains p = true ↔
      (p.field f % 2 ^ f.width) >>> (f.width - length) =
        (v % 2 ^ f.width) >>> (f.width - length) := by
  rw [contains_eq_eval, eval_leading, ← p.field_encode]
  constructor
  · intro h
    apply Nat.eq_of_testBit_eq
    intro k
    rw [Nat.testBit_shiftRight, Nat.testBit_shiftRight, Nat.testBit_mod_two_pow]
    by_cases hk : f.width - length + k < f.width
    · have hi := h ⟨f.width - 1 - (f.width - length + k), by omega⟩ (by simp; omega)
      rw [← p.encode.testBit_field] at hi
      have hplace :
          f.width - 1 - (f.width - 1 - (f.width - length + k)) = f.width - length + k := by
        omega
      simpa [hplace, hk] using hi
    · have hlt : p.encode.field f < 2 ^ (f.width - length + k) :=
        Nat.lt_of_lt_of_le (p.encode.field_lt f) (Nat.pow_le_pow_right (by omega) (by omega))
      rw [Nat.testBit_lt_two_pow hlt]
      simp [hk]
  · intro h i hi
    have hbit := congrArg (Nat.testBit · (length - 1 - i.val)) h
    simp only [Nat.testBit_shiftRight, Nat.testBit_mod_two_pow] at hbit
    by_cases hl : length ≤ f.width
    · have hplace : f.width - length + (length - 1 - i.val) = f.width - 1 - i.val := by omega
      have hlt : f.width - 1 - i.val < f.width := by omega
      rw [hplace, Valuation.testBit_field] at hbit
      simpa [hlt] using hbit
    · have hz : f.width - length = 0 := by omega
      rw [hz, Nat.shiftRight_zero, Nat.shiftRight_zero] at h
      exact (Valuation.field_eq_iff _ f v).mp h i

theorem contains_flag (t : TcpFlag) (set : Bool) (p : Packet) :
    (flag t set).contains p = (p.tcpFlags.toNat.testBit (5 - t.index.val) == set) := by
  rw [contains_eq_eval, flag, eval_literal, Packet.encode, Field.owner_bit, Field.place_bit]
  rfl

end HeaderSpace
end Dataplane
