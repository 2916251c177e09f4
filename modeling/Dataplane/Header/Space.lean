import Dataplane.Diagram.Canonical
import Dataplane.Diagram.Reading

/-! Header spaces: sets of headers, kept as reduced diagrams. Two spaces are equal if and only if
they have the same headers. -/
namespace Dataplane

structure HeaderSpace where
  diagram : Diagram
  reduced : diagram.Reduced 0

namespace HeaderSpace

/-- Whether the header that `σ` describes is in the space. -/
def eval (s : HeaderSpace) (σ : Valuation) : Bool := s.diagram.eval σ

def full : HeaderSpace := ⟨.leaf true, trivial⟩

def empty : HeaderSpace := ⟨.leaf false, trivial⟩

/-- The headers in which one bit has the given value. -/
def literal (bit : Bit) (value : Bool) : HeaderSpace where
  diagram := .node bit (.leaf !value) (.leaf value)
  reduced := ⟨Nat.zero_le _, by cases value <;> simp, trivial, trivial⟩

/-- The headers on which `op` of the two memberships holds. -/
def combine (op : Bool → Bool → Bool) (s t : HeaderSpace) : HeaderSpace where
  diagram := s.diagram.apply op t.diagram
  reduced := by
    rw [Diagram.apply_eq_combine]
    exact Diagram.reduced_combine op s.reduced t.reduced

def inter (s t : HeaderSpace) : HeaderSpace := combine and s t

def union (s t : HeaderSpace) : HeaderSpace := combine or s t

def diff (s t : HeaderSpace) : HeaderSpace := combine (fun a b => a && !b) s t

def symmDiff (s t : HeaderSpace) : HeaderSpace := combine xor s t

def compl (s : HeaderSpace) : HeaderSpace := combine (fun a _ => !a) s empty

/-- The headers that agree with one of the space outside the hidden bits. -/
def forget (hidden : Bit → Bool) (s : HeaderSpace) : HeaderSpace where
  diagram := s.diagram.hide hidden
  reduced := by
    rw [Diagram.hide_eq_forget]
    exact Diagram.reduced_forget hidden s.reduced

def isEmpty (s : HeaderSpace) : Bool := s.diagram = .leaf false

/-- Both spaces have the same headers. -/
def equivalent (s t : HeaderSpace) : Bool := (s.symmDiff t).isEmpty

/-- Every header of the first space is in the second. -/
def subset (s t : HeaderSpace) : Bool := (s.diff t).isEmpty

/-- Number of valuations in the space. -/
def count (s : HeaderSpace) : Nat := s.diagram.count

def size (s : HeaderSpace) : Nat := s.diagram.size

def text (s : HeaderSpace) : String := s.diagram.text

@[simp] theorem eval_full (σ : Valuation) : full.eval σ = true := rfl

@[simp] theorem eval_empty (σ : Valuation) : empty.eval σ = false := rfl

@[simp] theorem eval_literal (bit : Bit) (value : Bool) (σ : Valuation) :
    (literal bit value).eval σ = (σ bit == value) := by
  cases h : σ bit <;> cases value <;> simp [eval, literal, Diagram.eval, h]

theorem eval_combine (op : Bool → Bool → Bool) (s t : HeaderSpace) (σ : Valuation) :
    (combine op s t).eval σ = op (s.eval σ) (t.eval σ) := by
  have h := Diagram.eval_combine op s.diagram t.diagram σ
  rwa [← Diagram.apply_eq_combine] at h

@[simp] theorem eval_inter (s t : HeaderSpace) (σ : Valuation) :
    (s.inter t).eval σ = (s.eval σ && t.eval σ) := eval_combine and s t σ

@[simp] theorem eval_union (s t : HeaderSpace) (σ : Valuation) :
    (s.union t).eval σ = (s.eval σ || t.eval σ) := eval_combine or s t σ

@[simp] theorem eval_diff (s t : HeaderSpace) (σ : Valuation) :
    (s.diff t).eval σ = (s.eval σ && !t.eval σ) := eval_combine _ s t σ

@[simp] theorem eval_symmDiff (s t : HeaderSpace) (σ : Valuation) :
    (s.symmDiff t).eval σ = xor (s.eval σ) (t.eval σ) := eval_combine xor s t σ

@[simp] theorem eval_compl (s : HeaderSpace) (σ : Valuation) :
    s.compl.eval σ = !s.eval σ := eval_combine _ s empty σ

theorem eval_forget (hidden : Bit → Bool) (s : HeaderSpace) (σ : Valuation) :
    (s.forget hidden).eval σ = true ↔
      ∃ τ : Valuation, (∀ b, hidden b = false → τ b = σ b) ∧ s.eval τ = true := by
  have h := s.reduced.eval_forget hidden σ
  rwa [← Diagram.hide_eq_forget] at h

@[ext] theorem ext {s t : HeaderSpace} (h : ∀ σ, s.eval σ = t.eval σ) : s = t := by
  have hd := s.reduced.ext t.reduced h
  cases s
  cases t
  simp_all

theorem isEmpty_iff (s : HeaderSpace) : s.isEmpty = true ↔ ∀ σ, s.eval σ = false := by
  unfold isEmpty
  rw [decide_eq_true_iff]
  constructor
  · intro h σ
    rw [eval, h]
    rfl
  · exact s.reduced.eq_leaf

theorem subset_iff (s t : HeaderSpace) :
    s.subset t = true ↔ ∀ σ, s.eval σ = true → t.eval σ = true := by
  simp [subset, isEmpty_iff]

theorem equivalent_iff (s t : HeaderSpace) : s.equivalent t = true ↔ s = t := by
  unfold equivalent
  rw [isEmpty_iff]
  constructor
  · intro h
    ext σ
    simpa using h σ
  · intro h σ
    simp [h]

end HeaderSpace
end Dataplane
