import Dataplane.Proofs.Contents

/-! Forgetting fields of a header space, packet by packet, and spaces that depend on the
destination only or do not depend on a field. -/
namespace Dataplane

theorem Valuation.field_congr {σ τ : Valuation} {f : Field}
    (h : ∀ i : Fin f.width, σ (f.bit i) = τ (f.bit i)) : σ.field f = τ.field f := by
  rw [← Nat.mod_eq_of_lt (τ.field_lt f), Valuation.field_eq_iff]
  intro i
  rw [h, τ.testBit_field]

/-- Field values that a packet has are kept. -/
theorem Packet.field_ofFields_of_eq {value : Field → Nat} {p : Packet} {f : Field}
    (h : value f = p.field f) : (ofFields value).field f = p.field f := by
  cases f <;> simp_all [ofFields, field]

theorem Packet.agree_dstIp_iff (p q : Packet) :
    (∀ f, f = .dstIp → q.field f = p.field f) ↔ q.dstIp = p.dstIp := by
  rw [forall_eq]
  exact UInt32.toNat_inj

namespace Field

/-- Hiding the bits leaves the fields that are kept, whole, and nothing of the others. -/
def Leaves (hidden : Bit → Bool) (kept : Field → Prop) : Prop :=
  ∀ b, hidden b = false ↔ kept (owner b)

theorem leaves_others (f : Field) : Leaves f.owns (· ≠ f) := by
  intro b
  rw [← Bool.not_eq_true, owns_iff]

theorem leaves_only (f : Field) : Leaves (fun b => !f.owns b) (· = f) := by
  intro b
  rw [Bool.not_eq_false', owns_iff]

end Field

namespace HeaderSpace

section

variable {hidden : Bit → Bool} {kept : Field → Prop}

/-- The packets may have any values in the fields that are not kept. -/
theorem contains_forget (hkept : Field.Leaves hidden kept) (s : HeaderSpace) (p : Packet) :
    (s.forget hidden).contains p = true ↔
      ∃ q, (∀ f, kept f → q.field f = p.field f) ∧ s.contains q = true := by
  classical
  rw [contains_eq_eval, eval_forget]
  constructor
  · intro h
    obtain ⟨τ, hτ, hs⟩ := h
    -- Spare flags of `p` are not in `τ`, so kept fields are taken from `p` itself.
    let q := Packet.ofFields fun g => if kept g then p.field g else τ.field g
    have hagree (g : Field) (hg : kept g) : q.field g = p.field g :=
      Packet.field_ofFields_of_eq (if_pos hg)
    have hfield (g : Field) : q.encode.field g = τ.field g := by
      rw [q.field_encode]
      by_cases hg : kept g
      · rw [hagree g hg, ← p.field_encode]
        refine Valuation.field_congr fun i => (hτ _ ?_).symm
        rw [hkept _, Field.owner_bit]
        exact hg
      · have hq : q.field g = τ.field g := by
          rw [Packet.field_ofFields _ _ (by simp [hg, τ.field_lt g])]
          exact if_neg hg
        rw [hq, Nat.mod_eq_of_lt (τ.field_lt g)]
    exact ⟨q, hagree, by rw [contains_eq_eval, Valuation.ext_field hfield, hs]⟩
  · intro h
    obtain ⟨q, hagree, hs⟩ := h
    refine ⟨q.encode, fun b hb => ?_, by rwa [contains_eq_eval] at hs⟩
    rw [Packet.encode, Packet.encode, hagree _ ((hkept b).mp hb)]

/-- A space can be intersected before or after the bits are hidden exactly if it depends on the
kept fields only. -/
theorem forget_inter_iff (hkept : Field.Leaves hidden kept) (t : HeaderSpace) :
    (∀ s : HeaderSpace, (s.inter t).forget hidden = (s.forget hidden).inter t) ↔
      ∀ p q : Packet, (∀ f, kept f → q.field f = p.field f) → t.contains p = t.contains q := by
  constructor
  · intro h
    -- For the full space the law says that hiding changes nothing in `t`.
    have hstep {p q : Packet} (hpq : ∀ f, kept f → q.field f = p.field f)
        (hq : t.contains q = true) : t.contains p = true := by
      have hp : ((full.inter t).forget hidden).contains p = true :=
        (contains_forget hkept _ p).mpr ⟨q, hpq, by simp [hq]⟩
      rw [h, contains_inter, Bool.and_eq_true] at hp
      exact hp.2
    intro p q hpq
    exact Bool.eq_iff_iff.mpr ⟨hstep fun f hf => (hpq f hf).symm, hstep hpq⟩
  · intro h s
    refine eq_of_contains_iff fun p => ?_
    rw [contains_inter, Bool.and_eq_true, contains_forget hkept, contains_forget hkept]
    constructor
    · intro hst
      obtain ⟨q, hq, hst⟩ := hst
      rw [contains_inter, Bool.and_eq_true] at hst
      exact ⟨⟨q, hq, hst.1⟩, by rw [h p q hq, hst.2]⟩
    · intro hst
      obtain ⟨⟨q, hq, hs⟩, ht⟩ := hst
      exact ⟨q, hq, by rw [contains_inter, hs, ← h p q hq, ht]; rfl⟩

end

theorem contains_forgetField (s : HeaderSpace) (f : Field) (p : Packet) :
    (s.forgetField f).contains p = true ↔ ∃ q, Packet.AgreeOff f p q ∧ s.contains q = true :=
  contains_forget f.leaves_others s p

theorem contains_projectDstIp (s : HeaderSpace) (p : Packet) :
    s.projectDstIp.contains p = true ↔ ∃ q, q.dstIp = p.dstIp ∧ s.contains q = true := by
  rw [projectDstIp, contains_forget (Field.leaves_only .dstIp)]
  simp only [Packet.agree_dstIp_iff]

/-- Packets with the same destination are in the space together. -/
def DstOnly (s : HeaderSpace) : Prop :=
  ∀ p q : Packet, p.dstIp = q.dstIp → s.contains p = s.contains q

/-- Whether a packet is in the space does not depend on the field. -/
def Ignores (s : HeaderSpace) (f : Field) : Prop :=
  ∀ p q : Packet, Packet.AgreeOff f p q → s.contains p = s.contains q

theorem DstOnly.ignores_srcIp {s : HeaderSpace} (h : s.DstOnly) : s.Ignores .srcIp :=
  fun p q hpq => h p q hpq.dstIp_eq.symm

theorem ignores_iff_forgetField_inter {t : HeaderSpace} {f : Field} :
    t.Ignores f ↔ ∀ s : HeaderSpace, (s.inter t).forgetField f = (s.forgetField f).inter t :=
  (forget_inter_iff f.leaves_others t).symm

theorem dstOnly_iff_projectDstIp_inter {t : HeaderSpace} :
    t.DstOnly ↔ ∀ s : HeaderSpace, (s.inter t).projectDstIp = s.projectDstIp.inter t := by
  refine Iff.trans ?_ (forget_inter_iff (Field.leaves_only .dstIp) t).symm
  simp only [Packet.agree_dstIp_iff, DstOnly, eq_comm]

theorem contains_projectDstIp_of_contains {s : HeaderSpace} {p : Packet} (h : s.contains p = true) :
    s.projectDstIp.contains p = true := (s.contains_projectDstIp p).mpr ⟨p, rfl, h⟩

theorem dstOnly_projectDstIp (s : HeaderSpace) : s.projectDstIp.DstOnly := by
  intro p q hpq
  rw [Bool.eq_iff_iff, contains_projectDstIp, contains_projectDstIp, hpq]

theorem DstOnly.projectDstIp_eq {s : HeaderSpace} (h : s.DstOnly) : s.projectDstIp = s := by
  refine eq_of_contains_iff fun p => ⟨?_, contains_projectDstIp_of_contains⟩
  intro hp
  obtain ⟨q, hq, hs⟩ := (s.contains_projectDstIp p).mp hp
  rw [← h q p hq, hs]

theorem dstOnly_full : full.DstOnly := fun p q _ => by simp

theorem DstOnly.inter {s t : HeaderSpace} (hs : s.DstOnly) (ht : t.DstOnly) :
    (s.inter t).DstOnly := fun p q h => by simp [hs p q h, ht p q h]

theorem DstOnly.diff {s t : HeaderSpace} (hs : s.DstOnly) (ht : t.DstOnly) :
    (s.diff t).DstOnly := fun p q h => by simp [hs p q h, ht p q h]

theorem DstOnly.compl {s : HeaderSpace} (hs : s.DstOnly) : s.compl.DstOnly :=
  fun p q h => by simp [hs p q h]

/-- Projection passes a space that depends on the destination only. -/
theorem DstOnly.projectDstIp_inter {s : HeaderSpace} (hs : s.DstOnly) (t : HeaderSpace) :
    (s.inter t).projectDstIp = s.inter t.projectDstIp := by
  rw [inter_comm, dstOnly_iff_projectDstIp_inter.mp hs, inter_comm]

/-- Projection neither empties a space nor fills an empty one. -/
@[simp] theorem isEmpty_projectDstIp (s : HeaderSpace) : s.projectDstIp.isEmpty = s.isEmpty := by
  rw [Bool.eq_iff_iff, isEmpty_iff_contains, isEmpty_iff_contains]
  constructor
  · intro h p
    by_contra hp
    rw [Bool.not_eq_false] at hp
    have hproj := h p
    rw [contains_projectDstIp_of_contains hp] at hproj
    contradiction
  · intro h p
    rw [← Bool.not_eq_true, contains_projectDstIp]
    intro h
    obtain ⟨q, _, hq⟩ := h
    rw [h] at hq
    contradiction

theorem dstOnly_value (v : Nat) : (value .dstIp v).DstOnly := by
  intro p q hpq
  rw [Bool.eq_iff_iff, contains_value, contains_value, Packet.field, hpq, Packet.field]

theorem ignores_value {f g : Field} (h : g ≠ f) (v : Nat) : (value g v).Ignores f := by
  intro p q hpq
  rw [Bool.eq_iff_iff, contains_value, contains_value, hpq g h]

/-- Projection looks for a packet with the same destination, forgetting a field for one that
differs there at most. The first can be taken before or after the intersection with a space exactly
if that space depends on the destination only, the second exactly if it ignores the field. -/
theorem quantifiers_exact (f : Field) :
    (∀ (s : HeaderSpace) (p : Packet),
      s.projectDstIp.contains p = true ↔ ∃ q, q.dstIp = p.dstIp ∧ s.contains q = true) ∧
    (∀ (s : HeaderSpace) (p : Packet), (s.forgetField f).contains p = true ↔
      ∃ q, (∀ g, g ≠ f → q.field g = p.field g) ∧ s.contains q = true) ∧
    (∀ d : HeaderSpace, d.DstOnly ↔ ∀ s : HeaderSpace,
      (s.inter d).projectDstIp.equivalent (s.projectDstIp.inter d) = true) ∧
    ∀ e : HeaderSpace, e.Ignores f ↔ ∀ s : HeaderSpace,
      ((s.inter e).forgetField f).equivalent ((s.forgetField f).inter e) = true := by
  simp only [equivalent_iff]
  exact ⟨contains_projectDstIp, fun s p => s.contains_forgetField f p,
    fun _ => dstOnly_iff_projectDstIp_inter, fun _ => ignores_iff_forgetField_inter⟩

/-- A service at an address projects to the address, and forgetting the sources of a protocol
leaves the protocol. -/
theorem quantifiers_exact_service :
    (((value .ipProtocol 6).inter (value .dstPort 22)).inter
      (value .dstIp 0x0a000002)).projectDstIp.equivalent (value .dstIp 0x0a000002) = true ∧
    (((value .srcIp 1).inter (value .ipProtocol 17)).forgetField .srcIp).equivalent
      (value .ipProtocol 17) = true := by
  obtain ⟨hproject, hforget, hdst, hignores⟩ := quantifiers_exact .srcIp
  constructor
  · have hservice : ((value .ipProtocol 6).inter (value .dstPort 22)).projectDstIp = full := by
      refine ext_contains fun p => ?_
      rw [contains_full, hproject]
      refine ⟨{ p with ipProtocol := 6, dstPort := 22 }, rfl, ?_⟩
      rw [contains_inter, Bool.and_eq_true]
      exact ⟨(contains_value _ _ _).mpr rfl, (contains_value _ _ _).mpr rfl⟩
    have hpass := (hdst _).mp (dstOnly_value 0x0a000002)
      ((value .ipProtocol 6).inter (value .dstPort 22))
    rwa [hservice, inter_comm full, inter_full] at hpass
  · have hsource : (value .srcIp 1).forgetField .srcIp = full := by
      refine ext_contains fun p => ?_
      rw [contains_full, hforget]
      refine ⟨{ p with srcIp := 1 }, fun g hg => ?_, (contains_value _ _ _).mpr rfl⟩
      exact ((Packet.agreeOff_srcIp_iff p _).mpr rfl) g hg
    have hprotocol : (value .ipProtocol 17).Ignores .srcIp := ignores_value (by decide) 17
    have hpass := (hignores _).mp hprotocol (value .srcIp 1)
    rwa [hsource, inter_comm full, inter_full] at hpass

end HeaderSpace
end Dataplane
