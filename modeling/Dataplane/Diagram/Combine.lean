import Dataplane.Diagram.Basic
import Dataplane.Table

/-! Boolean combination of two diagrams.

`combine` is the definition by Shannon expansion. `apply` finds the same diagram with a table of
the pairs already met and one copy of every node. -/
namespace Dataplane.Diagram

/-- Relabel the leaves. -/
def map (f : Bool → Bool) : Diagram → Diagram
  | .leaf value => .leaf (f value)
  | .node bit low high => branch bit (low.map f) (high.map f)

/-- Expand a diagram on `bit` as well as on its own bits; `f` and `g` continue below `bit`. -/
def expand (bit : Bit) (f g : Diagram → Diagram) : Diagram → Diagram
  | .leaf value => branch bit (f (.leaf value)) (g (.leaf value))
  | .node other low high =>
    if bit.val < other.val then branch bit (f (.node other low high)) (g (.node other low high))
    else if other.val < bit.val then branch other (expand bit f g low) (expand bit f g high)
    else branch bit (f low) (g high)

/-- The diagram whose value is `op` of the values of the two diagrams. -/
def combine (op : Bool → Bool → Bool) : Diagram → Diagram → Diagram
  | .leaf value => map (op value)
  | .node bit low high => expand bit (combine op low) (combine op high)

theorem eval_map (f : Bool → Bool) (d : Diagram) (σ : Valuation) :
    (d.map f).eval σ = f (d.eval σ) := by
  induction d with
  | leaf => rfl
  | node bit low high hl hh =>
    simp only [map, eval_branch, hl, hh, eval]
    split <;> rfl

theorem eval_combine (op : Bool → Bool → Bool) (a b : Diagram) (σ : Valuation) :
    (combine op a b).eval σ = op (a.eval σ) (b.eval σ) := by
  induction a generalizing b with
  | leaf value => exact eval_map _ b σ
  | node bit low high hl hh =>
    induction b with
    | leaf value =>
      simp only [combine, expand, eval_branch, hl, hh, eval]
      split <;> rfl
    | node other low' high' hl' hh' =>
      simp only [combine] at hl' hh'
      simp only [combine, expand]
      split
      · simp only [eval_branch, hl, hh, eval]
        split <;> rfl
      · split
        · simp only [eval_branch, hl', hh', eval]
          split <;> rfl
        · have he : bit = other := Fin.ext (by omega)
          subst he
          simp only [eval_branch, hl, hh, eval]
          split <;> rfl

theorem reduced_map (f : Bool → Bool) {k : Nat} {d : Diagram} (h : Reduced k d) :
    Reduced k (d.map f) := by
  induction d generalizing k with
  | leaf => trivial
  | node bit low high hl hh => exact reduced_branch h.1 (hl h.2.2.1) (hh h.2.2.2)

theorem reduced_combine (op : Bool → Bool → Bool) {k : Nat} {a b : Diagram}
    (ha : Reduced k a) (hb : Reduced k b) : Reduced k (combine op a b) := by
  induction a generalizing b k with
  | leaf value => exact reduced_map _ hb
  | node bit low high hl hh =>
    obtain ⟨hk, hne, hal, hah⟩ := ha
    induction b generalizing k with
    | leaf value => exact reduced_branch hk (hl hal trivial) (hh hah trivial)
    | node other low' high' hl' hh' =>
      obtain ⟨hk', hne', hbl, hbh⟩ := hb
      simp only [combine] at hl' hh'
      simp only [combine, expand]
      split
      · rename_i hlt
        have hb : Reduced (bit.val + 1) (.node other low' high') := ⟨by omega, hne', hbl, hbh⟩
        exact reduced_branch hk (hl hal hb) (hh hah hb)
      · split
        · rename_i hlt
          exact reduced_branch hk' (hl' hbl (by omega)) (hh' hbh (by omega))
        · have he : bit = other := Fin.ext (by omega)
          subst he
          exact reduced_branch hk (hl hal hbl) (hh hah hbh)

/-- An operation that ignores its right argument leaves a constant. -/
theorem map_const (f : Bool → Bool) (hf : f false = f true) (d : Diagram) :
    d.map f = .leaf (f false) := by
  induction d with
  | leaf value => cases value <;> simp [map, hf]
  | node bit low high hl hh => simp [map, hl, hh, branch]

/-- An operation that ignores its left argument leaves a constant. -/
theorem combine_const_right (op : Bool → Bool → Bool) (value : Bool)
    (h : op false value = op true value) (d : Diagram) :
    combine op d (.leaf value) = .leaf (op false value) := by
  induction d with
  | leaf x => cases x <;> simp [combine, map, h]
  | node bit low high hl hh => simp [combine, expand, hl, hh, branch]

/-- What is known while two diagrams are combined: results of pairs, and one copy of each node. -/
structure Workspace (op : Bool → Bool → Bool) where
  results : Memo fun pair : Diagram × Diagram => combine op pair.1 pair.2
  nodes : Memo fun d : Diagram => d

namespace Workspace

variable {op : Bool → Bool → Bool}

def empty : Workspace op := ⟨.empty, .empty⟩

/-- The node itself, but as the copy that is already in use. -/
def branch (bit : Bit) (low high : Diagram) :
    StateM (Workspace op) { d : Diagram // d = Diagram.branch bit low high } := do
  if h : low = high then return ⟨low, by simp [Diagram.branch, h]⟩
  else
    let d := Diagram.node bit low high
    have hd : d = Diagram.branch bit low high := by simp [Diagram.branch, h, d]
    match (← get).nodes.find? d with
    | some known => return ⟨known.val, known.property.trans hd⟩
    | none =>
      modify fun s => { s with nodes := s.nodes.insert d d rfl }
      return ⟨d, hd⟩

/-- Look a pair up, or combine it and keep the result. -/
@[inline] def remember (a b : Diagram)
    (compute : StateM (Workspace op) { d : Diagram // d = combine op a b }) :
    StateM (Workspace op) { d : Diagram // d = combine op a b } := do
  match (← get).results.find? (a, b) with
  | some d => return d
  | none =>
    let d ← compute
    modify fun s => { s with results := s.results.insert (a, b) d.val d.property }
    return d

/-- `combine`, without working on a pair twice. -/
def combine (a b : Diagram) : StateM (Workspace op) { d : Diagram // d = Diagram.combine op a b } :=
  match a, b with
  | .leaf x, .leaf y => return ⟨.leaf (op x y), rfl⟩
  | .leaf x, .node bit low high =>
    if h : op x false = op x true then return ⟨.leaf (op x false), (map_const _ h _).symm⟩
    else remember (.leaf x) (.node bit low high) do
      let l ← combine (.leaf x) low
      let r ← combine (.leaf x) high
      let d ← branch bit l.val r.val
      return ⟨d.val, by rw [d.property, l.property, r.property]; rfl⟩
  | .node bit low high, .leaf y =>
    if h : op false y = op true y then
      return ⟨.leaf (op false y), (combine_const_right op y h _).symm⟩
    else remember (.node bit low high) (.leaf y) do
      let l ← combine low (.leaf y)
      let r ← combine high (.leaf y)
      let d ← branch bit l.val r.val
      return ⟨d.val, by rw [d.property, l.property, r.property]; rfl⟩
  | .node bit low high, .node other low' high' =>
    remember (.node bit low high) (.node other low' high') do
      if h : bit.val < other.val then
        let l ← combine low (.node other low' high')
        let r ← combine high (.node other low' high')
        let d ← branch bit l.val r.val
        return ⟨d.val, by rw [d.property, l.property, r.property]; simp [Diagram.combine, expand, h]⟩
      else if h' : other.val < bit.val then
        let l ← combine (.node bit low high) low'
        let r ← combine (.node bit low high) high'
        let d ← branch other l.val r.val
        return ⟨d.val, by
          rw [d.property, l.property, r.property]; simp [Diagram.combine, expand, h, h']⟩
      else
        let l ← combine low low'
        let r ← combine high high'
        let d ← branch bit l.val r.val
        return ⟨d.val, by
          rw [d.property, l.property, r.property]; simp [Diagram.combine, expand, h, h']⟩
termination_by sizeOf a + sizeOf b
decreasing_by
  all_goals
    simp only [Diagram.node.sizeOf_spec]
    omega

end Workspace

/-- The combination of two diagrams, with every node of the result in one copy. -/
def apply (op : Bool → Bool → Bool) (a b : Diagram) : Diagram :=
  ((Workspace.combine a b : StateM (Workspace op) _).run .empty).1.val

theorem apply_eq_combine (op : Bool → Bool → Bool) (a b : Diagram) :
    a.apply op b = combine op a b :=
  ((Workspace.combine a b : StateM (Workspace op) _).run .empty).1.property

end Dataplane.Diagram
