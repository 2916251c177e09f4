import Dataplane.Diagram.Basic
import Dataplane.Table

/-! What is read off a diagram: its decision nodes in order, its written form, the number of
valuations that make it true, and one of them. -/
namespace Dataplane.Diagram

/-- The decision nodes met so far, each once, with the place of each. -/
structure Listing where
  nodes : Array (Bit × Diagram × Diagram)
  places : Std.HashMap Diagram Nat

namespace Listing

def empty : Listing := ⟨#[], ∅⟩

/-- Add the nodes of a diagram below their parent: high side, low side, and last the node. -/
def visit : Diagram → Listing → Listing
  | .leaf _, l => l
  | .node bit low high, l =>
    if l.places.contains (.node bit low high) then l
    else
      let ⟨nodes, places⟩ := visit low (visit high l)
      ⟨nodes.push (bit, low, high), places.insert (.node bit low high) nodes.size⟩

/-- The leaves have the numbers 0 and 1, and decision nodes follow in order. -/
def number (l : Listing) : Diagram → Nat
  | .leaf value => value.toNat
  | d => l.places.getD d 0 + 2

end Listing

/-- All decision nodes, children before parents and the high side before the low side. -/
def listing (d : Diagram) : Listing := Listing.visit d .empty

/-- Number of entries of the written form: a diagram that is false has no true leaf. -/
def size (d : Diagram) : Nat :=
  if d = .leaf false then 1 else d.listing.nodes.size + 2

/-- One entry `bit,low,high` per node, where a leaf counts as a node past the last bit. -/
def text (d : Diagram) : String :=
  let entry (text : String) (bit low high : Nat) : String :=
    text ++ toString bit ++ "," ++ toString low ++ "," ++ toString high ++ "|"
  if d = .leaf false then entry "|" 126 0 0
  else
    let l := d.listing
    l.nodes.foldl (fun text (bit, low, high) => entry text bit.val (l.number low) (l.number high))
      (entry (entry "|" 126 0 0) 126 1 1)

/-- A node is true in half of the valuations of each side, since neither side tests its bit. -/
def models : Diagram → Nat
  | .leaf value => if value then 2 ^ 126 else 0
  | .node _ low high => (models low + models high) / 2

/-- `models`, without counting a subdiagram twice. -/
def countShared : (d : Diagram) → StateM (Memo models) { n : Nat // n = d.models }
  | .leaf value => return ⟨_, rfl⟩
  | .node bit low high => Memo.remember (.node bit low high) do
    let l ← countShared low
    let h ← countShared high
    return ⟨(l.val + h.val) / 2, by rw [l.property, h.property]; rfl⟩

def count (d : Diagram) : Nat := ((countShared d).run .empty).1.val

theorem count_eq_models (d : Diagram) : d.count = d.models := ((countShared d).run .empty).1.property

/-- A partial path upwards from the true leaf: its upper end, and the bits decided on it. -/
structure Ascent where
  top : Diagram
  valuation : Valuation

namespace Ascent

def start : Ascent := ⟨.leaf true, fun _ => false⟩

/-- Continue through a node that has the upper end as a child, on the low side if it can. -/
def climb (a : Ascent) (bit : Bit) (low high : Diagram) : Ascent :=
  let through (value : Bool) : Ascent := ⟨.node bit low high, a.valuation.set bit value⟩
  if low = a.top then through false
  else if high = a.top then through true
  else a

end Ascent

/-- The first parent in the order of the listing is taken each time. -/
def witness? (d : Diagram) : Option Valuation :=
  if d = .leaf false then none
  else
    let top := d.listing.nodes.foldl (fun a (bit, low, high) => a.climb bit low high) Ascent.start
    some top.valuation

end Dataplane.Diagram
