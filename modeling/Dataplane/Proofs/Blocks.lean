import Dataplane.Proofs.Intervals

/-! Blocks: the values of a field that begin with given bits. A block is an interval, and every bit
more divides it into two halves. -/
namespace Dataplane

/-- The number with its `count` low bits cleared or set. -/
def fillLow (count : Nat) (bit : Bool) (n : Nat) : Nat :=
  if bit then n ||| (2 ^ count - 1) else n >>> count <<< count

theorem testBit_fillLow (count : Nat) (bit : Bool) (n k : Nat) :
    (fillLow count bit n).testBit k = if k < count then bit else n.testBit k := by
  unfold fillLow
  by_cases hk : k < count
  · have hle : ¬count ≤ k := Nat.not_le.mpr hk
    cases bit <;> simp [Nat.testBit_shiftLeft, hk, hle]
  · have hplace : count + (k - count) = k := by omega
    cases bit <;> simp [Nat.testBit_shiftLeft, hk, Nat.not_lt.mp hk, hplace]

theorem fillLow_false (count n : Nat) : fillLow count false n = n / 2 ^ count * 2 ^ count := by
  rw [fillLow, if_neg Bool.false_ne_true, Nat.shiftLeft_eq, Nat.shiftRight_eq_div_pow]

theorem fillLow_true (count n : Nat) :
    fillLow count true n = n / 2 ^ count * 2 ^ count + (2 ^ count - 1) := by
  have hlow : 2 ^ count - 1 < 2 ^ count := Nat.sub_lt (Nat.two_pow_pos count) Nat.one_pos
  apply Nat.eq_of_testBit_eq
  intro k
  rw [testBit_fillLow, Nat.mul_comm, Nat.testBit_two_pow_mul_add _ hlow,
    Nat.testBit_two_pow_sub_one]
  by_cases hk : k < count
  · simp [hk]
  · have hplace : count + (k - count) = k := by omega
    simp [hk, ← Nat.shiftRight_eq_div_pow, hplace]

/-- The numbers that agree with `n` above the low bits are those between its two fillings. -/
theorem shiftRight_eq_iff_between (count m n : Nat) :
    m >>> count = n >>> count ↔ fillLow count false n ≤ m ∧ m ≤ fillLow count true n := by
  have hpos := Nat.two_pow_pos count
  rw [Nat.shiftRight_eq_div_pow, Nat.shiftRight_eq_div_pow, Nat.div_eq_iff hpos, fillLow_false,
    fillLow_true, Nat.add_sub_assoc hpos]

theorem fillLow_zero (bit : Bool) (n : Nat) : fillLow 0 bit n = n := by
  cases bit <;> simp [fillLow]

/-- What is filled below the width of a number stays within it. -/
theorem fillLow_lt {count width n : Nat} (hcount : count ≤ width) (hn : n < 2 ^ width) (bit : Bool) :
    fillLow count bit n < 2 ^ width := by
  apply Nat.lt_pow_two_of_testBit
  intro k hk
  rw [testBit_fillLow, if_neg (by omega)]
  exact Nat.testBit_lt_two_pow (Nat.lt_of_lt_of_le hn (Nat.pow_le_pow_right (by omega) hk))

namespace Field

/-- Number of bits of the field behind the leading ones. -/
def behind (f : Field) (length : Nat) : Nat := f.width - min length f.width

/-- The first value of a block, whose bits behind the leading ones are cleared, or the last value,
whose bits there are set. -/
def blockEnd (f : Field) (v length : Nat) (last : Bool) : Nat :=
  fillLow (f.behind length) last (v % 2 ^ f.width)

theorem blockEnd_lt (f : Field) (v length : Nat) (last : Bool) :
    f.blockEnd v length last < 2 ^ f.width :=
  fillLow_lt (Nat.sub_le _ _) (Nat.mod_lt v (Nat.two_pow_pos _)) last

/-- The ends of a block have its leading bits. -/
theorem testBit_blockEnd (f : Field) (v length : Nat) (last : Bool) (i : Fin f.width) :
    (f.blockEnd v length last).testBit (f.width - 1 - i.val) =
      if i.val < length then v.testBit (f.width - 1 - i.val) else last := by
  have hplace : f.width - 1 - i.val < f.width := by omega
  rw [blockEnd, testBit_fillLow, Nat.testBit_mod_two_pow, behind]
  by_cases hi : i.val < length
  · rw [if_pos hi, if_neg (by omega)]
    simp [hplace]
  · rw [if_neg hi, if_pos (by omega)]

end Field

namespace HeaderSpace

variable {f : Field} {u v length : Nat}

theorem leading_eq_range (f : Field) (v length : Nat) :
    leading f v length = range f (f.blockEnd v length false) (f.blockEnd v length true) := by
  have hcount : f.width - length = f.behind length := by
    unfold Field.behind
    omega
  refine eq_of_contains_iff fun p => ?_
  rw [contains_leading, contains_range, hcount, Nat.mod_eq_of_lt (f.blockEnd_lt v length false),
    Nat.mod_eq_of_lt (f.blockEnd_lt v length true), shiftRight_eq_iff_between]
  have hself := (shiftRight_eq_iff_between (f.behind length) _ (v % 2 ^ f.width)).mp rfl
  exact (and_iff_right (hself.1.trans hself.2)).symm

theorem value_eq_range (f : Field) (v : Nat) :
    value f v = range f (v % 2 ^ f.width) (v % 2 ^ f.width) := by
  have hends (last : Bool) : f.blockEnd v f.width last = v % 2 ^ f.width := by
    rw [Field.blockEnd, Field.behind, Nat.min_self, Nat.sub_self, fillLow_zero]
  rw [value, leading_eq_range, hends, hends]

/-- Blocks are the same if the leading bits are. -/
theorem leading_eq_iff : leading f u length = leading f v length ↔
    ∀ i : Fin f.width, i.val < length →
      u.testBit (f.width - 1 - i.val) = v.testBit (f.width - 1 - i.val) := by
  constructor
  · intro h i hi
    let σ : Valuation := fun b => u.testBit (Field.place b)
    have hu : (leading f u length).eval σ = true :=
      (eval_leading f u length σ).mpr fun j _ => by simp only [σ, Field.place_bit]
    rw [h, eval_leading] at hu
    rw [← hu i hi]
    simp only [σ, Field.place_bit]
  · intro h
    ext σ
    rw [Bool.eq_iff_iff, eval_leading, eval_leading]
    exact forall_congr' fun i => imp_congr_right fun hi => by rw [h i hi]

/-- One bit more is one test more. -/
theorem eval_leading_succ (h : length < f.width) (v : Nat) (σ : Valuation) :
    (leading f v (length + 1)).eval σ = ((leading f v length).eval σ &&
      (σ (f.bit ⟨length, h⟩) == v.testBit (f.width - 1 - length))) := by
  rw [Bool.eq_iff_iff, Bool.and_eq_true, eval_leading, eval_leading, beq_iff_eq]
  constructor
  · intro hall
    exact ⟨fun i hi => hall i (by omega), hall ⟨length, h⟩ (Nat.lt_succ_self _)⟩
  · rintro ⟨hall, hnext⟩ i hi
    rcases Nat.lt_succ_iff_lt_or_eq.mp hi with hi | hi
    · exact hall i hi
    · obtain rfl : i = ⟨length, h⟩ := Fin.ext hi
      exact hnext

/-- The half of a block in which the next bit has the value that it has at the given end. -/
def half (f : Field) (v length : Nat) (upper : Bool) : HeaderSpace :=
  leading f (f.blockEnd v length upper) (length + 1)

theorem eval_half (h : length < f.width) (v : Nat) (upper : Bool) (σ : Valuation) :
    (half f v length upper).eval σ =
      ((leading f v length).eval σ && (σ (f.bit ⟨length, h⟩) == upper)) := by
  have hleading : leading f (f.blockEnd v length upper) length = leading f v length :=
    leading_eq_iff.mpr fun i hi => by rw [f.testBit_blockEnd, if_pos hi]
  have hnext := f.testBit_blockEnd v length upper ⟨length, h⟩
  rw [if_neg (Nat.lt_irrefl length)] at hnext
  rw [half, eval_leading_succ h, hleading, hnext]

theorem leading_eq_union_half (h : length < f.width) (v : Nat) :
    leading f v length = (half f v length false).union (half f v length true) := by
  ext σ
  rw [eval_union, eval_half h, eval_half h]
  cases (leading f v length).eval σ <;> cases σ (f.bit ⟨length, h⟩) <;> rfl

theorem isEmpty_inter_half (h : length < f.width) (v : Nat) :
    ((half f v length false).inter (half f v length true)).isEmpty = true := by
  rw [isEmpty_iff]
  intro σ
  rw [eval_inter, eval_half h, eval_half h]
  cases (leading f v length).eval σ <;> cases σ (f.bit ⟨length, h⟩) <;> rfl

/-- The blocks of that length with the same leading bits are the two halves. -/
theorem exists_half_iff (f : Field) (u v length : Nat) :
    (∃ upper, leading f u (length + 1) = half f v length upper) ↔
      leading f u length = leading f v length := by
  simp only [half, leading_eq_iff, f.testBit_blockEnd]
  constructor
  · rintro ⟨upper, hu⟩ i hi
    rw [hu i (by omega), if_pos hi]
  · intro hu
    refine ⟨u.testBit (f.width - 1 - length), fun i hi => ?_⟩
    rcases Nat.lt_succ_iff_lt_or_eq.mp hi with hi | hi
    · rw [if_pos hi, hu i hi]
    · rw [if_neg (by omega), hi]

/-- A block is the interval between its ends, and the block of one value is that value alone. One
bit more divides it: the two blocks that continue it have nothing in common, make it up together,
and are the only ones with its leading bits. -/
theorem block_is_interval (f : Field) (v length : Nat) :
    (leading f v length).equivalent
      (range f (f.blockEnd v length false) (f.blockEnd v length true)) = true ∧
    (value f v).equivalent (range f (v % 2 ^ f.width) (v % 2 ^ f.width)) = true ∧
    (length < f.width →
      (leading f v length).equivalent
        ((half f v length false).union (half f v length true)) = true ∧
      ((half f v length false).inter (half f v length true)).isEmpty = true ∧
      ∀ u, (∃ upper, (leading f u (length + 1)).equivalent (half f v length upper) = true) ↔
        (leading f u length).equivalent (leading f v length) = true) := by
  simp only [equivalent_iff]
  refine ⟨leading_eq_range f v length, value_eq_range f v, fun h => ?_⟩
  exact ⟨leading_eq_union_half h v, isEmpty_inter_half h v, fun u => exists_half_iff f u v length⟩

/-- The halves of 10.0.0.0/8 are 10.0.0.0/9 and 10.128.0.0/9. -/
theorem block_is_interval_ten : 8 < Field.dstIp.width ∧
    half .dstIp 0x0a000000 8 false = leading .dstIp 0x0a000000 9 ∧
    half .dstIp 0x0a000000 8 true = leading .dstIp 0x0a800000 9 ∧
    (leading .dstIp 0x0a000000 8).equivalent
      ((half .dstIp 0x0a000000 8 false).union (half .dstIp 0x0a000000 8 true)) = true :=
  ⟨by decide, rfl, leading_eq_iff.mpr (by decide),
    ((block_is_interval .dstIp 0x0a000000 8).2.2 (by decide)).1⟩

end HeaderSpace
end Dataplane
