import Dataplane.Pipeline.Transition
import Dataplane.Proofs.Quantifiers

/-! What a transition does to a single packet. Passing a set of packets on is passing each of them
on. -/
namespace Dataplane

/-- The first rule that applies to `p` replaces its source by one of the pool. A packet that no
rule applies to stays as it is. -/
def NatRule.Rewrites (rules : List NatRule) (p q : Packet) : Prop :=
  match rules.find? (·.condition.contains p) with
  | some rule => Packet.AgreeOff .srcIp p q ∧ rule.pool.contains q = true
  | none => q = p

/-- The packet `p` may take the transition and arrives as `q`. -/
def Transition.Crosses (t : Transition) (p q : Packet) : Prop :=
  t.guard.contains p = true ∧ NatRule.Rewrites t.nat p q

namespace NatRule

theorem rewrites_nil (p q : Packet) : Rewrites [] p q ↔ q = p := Iff.rfl

theorem rewrites_cons_of_pos {rule : NatRule} {p : Packet} (h : rule.condition.contains p = true)
    (rest : List NatRule) (q : Packet) :
    Rewrites (rule :: rest) p q ↔ Packet.AgreeOff .srcIp p q ∧ rule.pool.contains q = true := by
  simp only [Rewrites, List.find?_cons, h]

theorem rewrites_cons_of_neg {rule : NatRule} {p : Packet} (h : ¬rule.condition.contains p = true)
    (rest : List NatRule) (q : Packet) : Rewrites (rule :: rest) p q ↔ Rewrites rest p q := by
  rw [Bool.not_eq_true] at h
  simp only [Rewrites, List.find?_cons, h]

/-- Rules touch the source only. -/
theorem Rewrites.agreeOff {rules : List NatRule} {p q : Packet} (h : Rewrites rules p q) :
    Packet.AgreeOff .srcIp p q := by
  unfold Rewrites at h
  split at h
  · exact h.1
  · rw [h]
    exact .refl _ p

/-- What the first rule adds: its packets with any source of the pool. -/
private theorem contains_replaced (found left : HeaderSpace) (rule : NatRule) (q : Packet) :
    (if (left.inter rule.condition).isEmpty then found
      else found.union
        (((left.inter rule.condition).forgetField .srcIp).inter rule.pool)).contains q = true ↔
      found.contains q = true ∨ ∃ p, left.contains p = true ∧ rule.condition.contains p = true ∧
        Packet.AgreeOff .srcIp p q ∧ rule.pool.contains q = true := by
  split
  · rename_i hempty
    have hnone := (HeaderSpace.isEmpty_iff_contains _).mp hempty
    constructor
    · exact Or.inl
    · intro h
      rcases h with h | ⟨p, hl, hc, _⟩
      · exact h
      · have := hnone p
        simp [hl, hc] at this
  · rw [HeaderSpace.contains_union, Bool.or_eq_true, HeaderSpace.contains_inter, Bool.and_eq_true,
      HeaderSpace.contains_forgetField]
    constructor
    · intro h
      rcases h with h | ⟨⟨p, hoff, hp⟩, hpool⟩
      · exact Or.inl h
      · rw [HeaderSpace.contains_inter, Bool.and_eq_true] at hp
        exact Or.inr ⟨p, hp.1, hp.2, hoff.symm, hpool⟩
    · intro h
      rcases h with h | ⟨p, hl, hc, hoff, hpool⟩
      · exact Or.inl h
      · exact Or.inr ⟨⟨p, hoff.symm, by simp [hl, hc]⟩, hpool⟩

/-- The packets found so far, and those that the rules make of the packets left. -/
theorem contains_replaceInto (found left : HeaderSpace) (rules : List NatRule) (q : Packet) :
    (replaceInto found left rules).contains q = true ↔
      found.contains q = true ∨ ∃ p, left.contains p = true ∧ Rewrites rules p q := by
  induction rules generalizing found left with
  | nil => simp [replaceInto, rewrites_nil]
  | cons rule rest ih =>
    have hsplit : (∃ p, left.contains p = true ∧ Rewrites (rule :: rest) p q) ↔
        (∃ p, left.contains p = true ∧ rule.condition.contains p = true ∧
          Packet.AgreeOff .srcIp p q ∧ rule.pool.contains q = true) ∨
        ∃ p, (left.diff rule.condition).contains p = true ∧ Rewrites rest p q := by
      constructor
      · intro h
        obtain ⟨p, hl, hr⟩ := h
        by_cases hc : rule.condition.contains p = true
        · exact Or.inl ⟨p, hl, hc, (rewrites_cons_of_pos hc rest q).mp hr⟩
        · exact Or.inr ⟨p, by simp [hl, hc], (rewrites_cons_of_neg hc rest q).mp hr⟩
      · intro h
        rcases h with ⟨p, hl, hc, hr⟩ | ⟨p, hd, hr⟩
        · exact ⟨p, hl, (rewrites_cons_of_pos hc rest q).mpr hr⟩
        · simp only [HeaderSpace.contains_diff, Bool.and_eq_true, Bool.not_eq_true'] at hd
          exact ⟨p, hd.1, (rewrites_cons_of_neg (by simp [hd.2]) rest q).mpr hr⟩
    rw [replaceInto, hsplit, ← or_assoc, ← contains_replaced]
    split
    · rename_i hempty
      have hnone := (HeaderSpace.isEmpty_iff_contains _).mp hempty
      simp [hnone]
    · exact ih _ _

theorem contains_apply (rules : List NatRule) (packets : HeaderSpace) (q : Packet) :
    (apply rules packets).contains q = true ↔
      ∃ p, packets.contains p = true ∧ Rewrites rules p q := by
  rw [apply, contains_replaceInto]
  simp

end NatRule

namespace Transition

theorem contains_traverse (t : Transition) (packets : HeaderSpace) (q : Packet) :
    (t.traverse packets).contains q = true ↔ ∃ p, packets.contains p = true ∧ t.Crosses p q := by
  have hadmitted : (∃ p, packets.contains p = true ∧ t.Crosses p q) ↔
      ∃ p, (packets.inter t.guard).contains p = true ∧ NatRule.Rewrites t.nat p q := by
    simp only [Crosses, HeaderSpace.contains_inter, Bool.and_eq_true, and_assoc]
  rw [hadmitted, traverse]
  split
  · rename_i h
    rcases Bool.or_eq_true _ _ |>.mp h with hempty | hnat
    · have hnone := (HeaderSpace.isEmpty_iff_contains _).mp hempty
      simp [hnone]
    · rw [List.isEmpty_iff.mp hnat]
      simp [NatRule.rewrites_nil]
  · exact NatRule.contains_apply _ _ _

/-- A packet keeps its destination on every transition. -/
theorem Crosses.dstIp_eq {t : Transition} {p q : Packet} (h : t.Crosses p q) : q.dstIp = p.dstIp :=
  h.2.agreeOff.dstIp_eq

end Transition
end Dataplane
