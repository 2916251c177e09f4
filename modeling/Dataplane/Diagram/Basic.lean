import Dataplane.Header.Field

/-! Binary decision diagrams over the header bits.

A reduced diagram tests bits in increasing order and never tests one in vain. -/
namespace Dataplane

/-- One value for every header bit. -/
abbrev Valuation := Bit → Bool

/-- The valuation with one bit replaced. -/
def Valuation.set (σ : Valuation) (bit : Bit) (value : Bool) : Valuation :=
  fun b => if b = bit then value else σ b

/-- A node continues in `low` if its bit is false. Every node carries its digest, so unequal
diagrams are told apart without walking them. -/
inductive Diagram where
  | leaf (value : Bool)
  | node (bit : Bit) (low high : Diagram)
with
  @[computed_field] digest : Diagram → UInt64
    | .leaf value => if value then 0x9e3779b97f4a7c15 else 0x7f4a7c159e3779b9
    | .node bit low high => mixHash (mixHash (hash bit.val) low.digest) high.digest

namespace Diagram

/-- Equality looks at addresses first, then at digests, and only then at the diagrams. -/
protected def decEq (a b : Diagram) : Decidable (a = b) :=
  withPtrEqDecEq a b fun _ =>
    if hd : a.digest = b.digest then
      match a, b with
      | .leaf x, .leaf y => decidable_of_iff (x = y) (by simp)
      | .node v l h, .node w l' h' =>
        if hv : v = w then
          match l.decEq l', h.decEq h' with
          | .isTrue hl, .isTrue hh => .isTrue (by rw [hv, hl, hh])
          | .isFalse hl, _ => .isFalse fun he => hl (by injection he)
          | _, .isFalse hh => .isFalse fun he => hh (by injection he)
        else .isFalse fun he => hv (by injection he)
      | .leaf _, .node .. => .isFalse nofun
      | .node .., .leaf _ => .isFalse nofun
    else .isFalse fun he => hd (by rw [he])

instance : DecidableEq Diagram := Diagram.decEq

instance : Hashable Diagram := ⟨digest⟩

/-- The value at the leaf that the valuation leads to. -/
def eval : Diagram → Valuation → Bool
  | .leaf value, _ => value
  | .node bit low high, σ => if σ bit then high.eval σ else low.eval σ

/-- Test `bit`, unless the answer does not matter. -/
def branch (bit : Bit) (low high : Diagram) : Diagram :=
  if low = high then low else .node bit low high

/-- Bits are tested from `k` on, in strictly increasing order, and no test is redundant. -/
def Reduced : Nat → Diagram → Prop
  | _, .leaf _ => True
  | k, .node bit low high =>
    k ≤ bit.val ∧ low ≠ high ∧ Reduced (bit.val + 1) low ∧ Reduced (bit.val + 1) high

theorem Reduced.mono {j k : Nat} (hjk : j ≤ k) {d : Diagram} (h : Reduced k d) : Reduced j d := by
  cases d with
  | leaf => trivial
  | node bit low high => exact ⟨Nat.le_trans hjk h.1, h.2⟩

theorem eval_branch (bit : Bit) (low high : Diagram) (σ : Valuation) :
    (branch bit low high).eval σ = if σ bit then high.eval σ else low.eval σ := by
  unfold branch
  split
  · rename_i h
    simp [h]
  · rfl

theorem reduced_branch {k : Nat} {bit : Bit} (hk : k ≤ bit.val) {low high : Diagram}
    (hl : Reduced (bit.val + 1) low) (hh : Reduced (bit.val + 1) high) :
    Reduced k (branch bit low high) := by
  unfold branch
  split
  · exact hl.mono (by omega)
  · rename_i hne
    exact ⟨hk, hne, hl, hh⟩


end Diagram
end Dataplane
