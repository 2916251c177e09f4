import Dataplane.Diagram.Combine

/-! Existential quantification over a set of header bits. -/
namespace Dataplane.Diagram

/-- True where some choice of the bits in `hidden` makes the diagram true. -/
def forget (hidden : Bit → Bool) : Diagram → Diagram
  | .leaf value => .leaf value
  | .node bit low high =>
    if hidden bit then combine or (forget hidden low) (forget hidden high)
    else branch bit (forget hidden low) (forget hidden high)

theorem reduced_forget (hidden : Bit → Bool) {k : Nat} {d : Diagram} (h : Reduced k d) :
    Reduced k (d.forget hidden) := by
  induction d generalizing k with
  | leaf => trivial
  | node bit low high hl hh =>
    obtain ⟨hk, hne, hdl, hdh⟩ := h
    simp only [forget]
    split
    · exact (reduced_combine or (hl hdl) (hh hdh)).mono (by omega)
    · exact reduced_branch hk (hl hdl) (hh hdh)

/-- What is known during a quantification: results for subdiagrams, and the unions taken. -/
structure Quantifying (hidden : Bit → Bool) where
  results : Memo (forget hidden)
  unions : Workspace or

namespace Quantifying

variable {hidden : Bit → Bool}

/-- Work on the unions alone. -/
@[inline] def onUnions {α : Type} (act : StateM (Workspace or) α) : StateM (Quantifying hidden) α := do
  let s ← get
  set (⟨s.results, .empty⟩ : Quantifying hidden)
  let (a, unions) := act.run s.unions
  modify fun s => { s with unions }
  return a

/-- `Diagram.forget`, without working on a subdiagram twice. -/
def forget : (d : Diagram) → StateM (Quantifying hidden) { r : Diagram // r = d.forget hidden }
  | .leaf value => return ⟨.leaf value, rfl⟩
  | .node bit low high => do
    match (← get).results.find? (.node bit low high) with
    | some r => return r
    | none =>
      let l ← forget low
      let h ← forget high
      let r : { r : Diagram // r = (Diagram.node bit low high).forget hidden } ←
        if hb : hidden bit then do
          let r ← onUnions (Workspace.combine l.val h.val)
          pure ⟨r.val, by rw [r.property, l.property, h.property]; simp [Diagram.forget, hb]⟩
        else do
          let r ← onUnions (Workspace.branch bit l.val h.val)
          pure ⟨r.val, by rw [r.property, l.property, h.property]; simp [Diagram.forget, hb]⟩
      modify fun s => { s with results := s.results.insert (.node bit low high) r.val r.property }
      return r

end Quantifying

/-- The quantified diagram, with every node in one copy. -/
def hide (hidden : Bit → Bool) (d : Diagram) : Diagram :=
  ((Quantifying.forget d : StateM (Quantifying hidden) _).run ⟨.empty, .empty⟩).1.val

theorem hide_eq_forget (hidden : Bit → Bool) (d : Diagram) : d.hide hidden = d.forget hidden :=
  ((Quantifying.forget d : StateM (Quantifying hidden) _).run ⟨.empty, .empty⟩).1.property

end Dataplane.Diagram
