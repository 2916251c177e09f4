import Dataplane.Diagram.Forget

/-! Reduced diagrams are canonical: the values of a reduced diagram determine it. In particular
only one reduced diagram is never true. -/
namespace Dataplane.Diagram

/-- A diagram that is reduced from `k` on does not look at lower bits. -/
theorem Reduced.eval_congr {k : Nat} {d : Diagram} (h : Reduced k d) {σ τ : Valuation}
    (heq : ∀ b : Bit, k ≤ b.val → σ b = τ b) : d.eval σ = d.eval τ := by
  induction d generalizing k with
  | leaf => rfl
  | node bit low high hl hh =>
    obtain ⟨hk, _, hdl, hdh⟩ := h
    have hle : ∀ b : Bit, bit.val + 1 ≤ b.val → σ b = τ b := fun b hb => heq b (by omega)
    simp only [eval, heq bit hk, hl hdl hle, hh hdh hle]

theorem Reduced.eval_set {k : Nat} {d : Diagram} (h : Reduced k d) {bit : Bit} (hk : bit.val < k)
    (σ : Valuation) (value : Bool) : d.eval (σ.set bit value) = d.eval σ := by
  apply h.eval_congr
  intro b hb
  have hne : b ≠ bit := by
    intro he
    rw [he] at hb
    omega
  simp [Valuation.set, hne]

/-- Below a node, the side is the diagram's value with the bit set accordingly. -/
theorem eval_side {k : Nat} {bit : Bit} {low high : Diagram}
    (h : Reduced k (.node bit low high)) (σ : Valuation) (value : Bool) :
    (Diagram.node bit low high).eval (σ.set bit value) =
      if value then high.eval σ else low.eval σ := by
  obtain ⟨_, _, hl, hh⟩ := h
  have hl' := hl.eval_set (Nat.lt_succ_self _) σ value
  have hh' := hh.eval_set (Nat.lt_succ_self _) σ value
  simp only [eval, hl', hh']
  simp [Valuation.set]

theorem Reduced.eq_leaf {k : Nat} {d : Diagram} (h : Reduced k d) {value : Bool}
    (heq : ∀ σ, d.eval σ = value) : d = .leaf value := by
  induction d generalizing k with
  | leaf x =>
    have hx : x = value := heq fun _ => false
    rw [hx]
  | node bit low high hl hh =>
    have hlow : low = .leaf value := hl h.2.2.1 fun σ => by
      rw [← heq (σ.set bit false), eval_side h]
      rfl
    have hhigh : high = .leaf value := hh h.2.2.2 fun σ => by
      rw [← heq (σ.set bit true), eval_side h]
      rfl
    exact absurd (hlow.trans hhigh.symm) h.2.1

/-- If a node has the values of a diagram that does not test its bit, so have both sides. -/
private theorem sides_eq {k : Nat} {bit : Bit} {low high d : Diagram}
    (h : Reduced k (.node bit low high)) (hd : Reduced (bit.val + 1) d)
    (heq : ∀ σ, (Diagram.node bit low high).eval σ = d.eval σ) (σ : Valuation) :
    low.eval σ = d.eval σ ∧ high.eval σ = d.eval σ := by
  have hl := heq (σ.set bit false)
  have hh := heq (σ.set bit true)
  rw [eval_side h, hd.eval_set (Nat.lt_succ_self _)] at hl hh
  exact ⟨hl, hh⟩

/-- Reduced diagrams with the same values are the same. -/
theorem Reduced.ext {k : Nat} {a b : Diagram} (ha : Reduced k a) (hb : Reduced k b)
    (heq : ∀ σ, a.eval σ = b.eval σ) : a = b := by
  induction a generalizing k b with
  | leaf value => exact (hb.eq_leaf fun σ => (heq σ).symm).symm
  | node bit low high hl hh =>
    induction b generalizing k with
    | leaf value => exact ha.eq_leaf heq
    | node other low' high' hl' hh' =>
      rcases Nat.lt_trichotomy bit.val other.val with hlt | he | hgt
      · have hd : Reduced (bit.val + 1) (.node other low' high') := ⟨hlt, hb.2⟩
        have hsides := sides_eq ha hd heq
        have hlow := hl ha.2.2.1 hd fun σ => (hsides σ).1
        have hhigh := hh ha.2.2.2 hd fun σ => (hsides σ).2
        exact absurd (hlow.trans hhigh.symm) ha.2.1
      · have he' : bit = other := Fin.ext he
        subst he'
        have hside (value : Bool) (σ : Valuation) := heq (σ.set bit value)
        simp only [eval_side ha, eval_side hb] at hside
        rw [hl ha.2.2.1 hb.2.2.1 (hside false), hh ha.2.2.2 hb.2.2.2 (hside true)]
      · have hd : Reduced (other.val + 1) (.node bit low high) := ⟨hgt, ha.2⟩
        have hsides := sides_eq hb hd fun σ => (heq σ).symm
        have hlow := hl' hd hb.2.2.1 fun σ => ((hsides σ).1).symm
        have hhigh := hh' hd hb.2.2.2 fun σ => ((hsides σ).2).symm
        exact absurd (hlow.symm.trans hhigh) hb.2.1

/-- Quantification looks for values of the hidden bits. -/
theorem Reduced.eval_forget (hidden : Bit → Bool) {k : Nat} {d : Diagram} (h : Reduced k d)
    (σ : Valuation) :
    (d.forget hidden).eval σ = true ↔
      ∃ τ : Valuation, (∀ b, hidden b = false → τ b = σ b) ∧ d.eval τ = true := by
  induction d generalizing k σ with
  | leaf value =>
    constructor
    · intro hv
      exact ⟨σ, fun _ _ => rfl, hv⟩
    · rintro ⟨τ, _, hv⟩
      exact hv
  | node bit low high hl hh =>
    obtain ⟨hk, hne, hdl, hdh⟩ := h
    have hr : Reduced bit.val (.node bit low high) := ⟨Nat.le_refl _, hne, hdl, hdh⟩
    simp only [forget]
    split
    · rename_i hb
      rw [eval_combine, Bool.or_eq_true, hl hdl, hh hdh]
      constructor
      · have extend (value : Bool) (τ : Valuation) (hτ : ∀ b, hidden b = false → τ b = σ b) :
            ∀ b, hidden b = false → τ.set bit value b = σ b := by
          intro b hf
          have hbne : b ≠ bit := by
            intro he
            rw [he, hb] at hf
            contradiction
          simp [Valuation.set, hbne, hτ b hf]
        rintro (⟨τ, hτ, hv⟩ | ⟨τ, hτ, hv⟩)
        · exact ⟨τ.set bit false, extend false τ hτ, by rw [eval_side hr]; exact hv⟩
        · exact ⟨τ.set bit true, extend true τ hτ, by rw [eval_side hr]; exact hv⟩
      · rintro ⟨τ, hτ, hv⟩
        simp only [eval] at hv
        split at hv
        · exact Or.inr ⟨τ, hτ, hv⟩
        · exact Or.inl ⟨τ, hτ, hv⟩
    · rename_i hb
      have hb : hidden bit = false := by simpa using hb
      rw [eval_branch]
      constructor
      · intro hv
        split at hv
        · rename_i hs
          obtain ⟨τ, hτ, hv⟩ := (hh hdh σ).mp hv
          exact ⟨τ, hτ, by simp only [eval, hτ bit hb, hs, if_true, hv]⟩
        · rename_i hs
          obtain ⟨τ, hτ, hv⟩ := (hl hdl σ).mp hv
          exact ⟨τ, hτ, by simp only [eval, hτ bit hb, hs]; exact hv⟩
      · rintro ⟨τ, hτ, hv⟩
        simp only [eval, hτ bit hb] at hv
        split at hv
        · rename_i hs
          rw [if_pos hs]
          exact (hh hdh σ).mpr ⟨τ, hτ, hv⟩
        · rename_i hs
          rw [if_neg hs]
          exact (hl hdl σ).mpr ⟨τ, hτ, hv⟩

end Dataplane.Diagram
