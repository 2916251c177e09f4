import Dataplane.Proofs.Contents

/-! Comparisons of a field with a number, and intervals. -/
namespace Dataplane

/-- The value that a header gives a field: of the flags the six low bits. -/
def Packet.significant (p : Packet) (f : Field) : Nat :=
  if f = .tcpFlags then p.tcpFlags.toNat % 64 else p.field f

theorem Packet.significant_eq (p : Packet) (f : Field) :
    p.significant f = p.field f % 2 ^ f.width := by
  by_cases hf : f = .tcpFlags
  · subst f
    rfl
  · rw [significant, if_neg hf, p.field_mod hf]

namespace HeaderSpace

/-- Bits are compared from the most significant one on. Where the bound has the better value, true
for a lower bound and false for an upper one, the field must have it too. Where it has not, a field
that has the better value is past the bound whatever follows. -/
theorem eval_comparison (v : Nat) (better : Bool) (σ : Valuation) {l : List (Bit × Nat)}
    (h : Positional l) :
    (l.foldr (fun place rest => if v.testBit place.2 = better
      then (literal place.1 better).inter rest
      else (literal place.1 better).union rest) full).eval σ = true ↔
      if better then v % 2 ^ l.length ≤ σ.number l else σ.number l ≤ v % 2 ^ l.length := by
  induction l with
  | nil => simp [Valuation.number, Nat.mod_one]
  | cons place rest ih =>
    obtain ⟨b, k⟩ := place
    obtain ⟨rfl, hrest⟩ := h
    have hlow := σ.number_lt hrest
    have hv := Nat.mod_lt v (Nat.two_pow_pos rest.length)
    have hstep := ih hrest
    rw [List.foldr_cons, List.length_cons, Nat.mod_pow_succ, ← Nat.toNat_testBit,
      Valuation.number]
    generalize List.foldr _ full rest = lower at hstep ⊢
    cases better <;> cases v.testBit rest.length <;> cases hb : σ b <;> simp [hb, hstep] <;> omega

theorem eval_atLeast (f : Field) (v : Nat) (σ : Valuation) :
    (atLeast f v).eval σ = true ↔ v % 2 ^ f.width ≤ σ.field f := by
  have h := eval_comparison v true σ f.positional_places
  rwa [f.length_places] at h

theorem eval_atMost (f : Field) (v : Nat) (σ : Valuation) :
    (atMost f v).eval σ = true ↔ σ.field f ≤ v % 2 ^ f.width := by
  have h := eval_comparison v false σ f.positional_places
  simp only [f.length_places, ← Bool.not_eq_true, ite_not] at h
  exact h

theorem contains_range (f : Field) (first last : Nat) (p : Packet) :
    (range f first last).contains p = true ↔
      first ≤ last ∧ first % 2 ^ f.width ≤ p.field f % 2 ^ f.width ∧
        p.field f % 2 ^ f.width ≤ last % 2 ^ f.width := by
  unfold range
  split
  · rename_i h
    simp [Nat.not_le.mpr h]
  · rename_i h
    rw [contains_inter, Bool.and_eq_true, contains_eq_eval, contains_eq_eval, eval_atLeast,
      eval_atMost, p.field_encode]
    simp [Nat.not_lt.mp h]

theorem contains_range_of_lt {f : Field} {first last : Nat} (hf : f ≠ .tcpFlags)
    (hle : first ≤ last) (hlast : last < 2 ^ f.width) (p : Packet) :
    (range f first last).contains p = true ↔ first ≤ p.field f ∧ p.field f ≤ last := by
  rw [contains_range, p.field_mod hf, Nat.mod_eq_of_lt hlast,
    Nat.mod_eq_of_lt (Nat.lt_of_le_of_lt hle hlast)]
  exact and_iff_right hle

/-- Every number can be a bound. It counts modulo the size of the field, except that the ends of an
interval are in order before they are reduced. -/
theorem comparisons_exact (f : Field) (first last : Nat) (p : Packet) :
    ((atLeast f first).contains p = true ↔ first % 2 ^ f.width ≤ p.significant f) ∧
    ((atMost f last).contains p = true ↔ p.significant f ≤ last % 2 ^ f.width) ∧
    ((range f first last).contains p = true ↔ first ≤ last ∧
      first % 2 ^ f.width ≤ p.significant f ∧ p.significant f ≤ last % 2 ^ f.width) := by
  rw [p.significant_eq]
  refine ⟨?_, ?_, contains_range f first last p⟩
  · rw [contains_eq_eval, eval_atLeast, p.field_encode]
  · rw [contains_eq_eval, eval_atMost, p.field_encode]

end HeaderSpace
end Dataplane
