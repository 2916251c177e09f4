import Dataplane.Diagram.Reading
import Mathlib.Tactic.Common

/-! The listing of a diagram has its decision nodes in depth-first order, children before their
parents. -/
namespace Dataplane.Diagram

/-- The decision nodes as often as they are met: those of the high side, those of the low side, and
last the node itself. -/
def postorder : Diagram → List Diagram
  | .leaf _ => []
  | .node bit low high => high.postorder ++ low.postorder ++ [.node bit low high]

/-- Whether the other diagram is one of the two sides. -/
def isParentOf : Diagram → Diagram → Bool
  | .leaf _, _ => false
  | .node _ low high, v => low = v || high = v

variable {d v w : Diagram} {bit : Bit} {low high : Diagram}

theorem mem_postorder_node : v ∈ (node bit low high).postorder ↔
    v ∈ high.postorder ∨ v ∈ low.postorder ∨ v = .node bit low high := by
  simp [postorder]

theorem sizeOf_le_of_mem (h : v ∈ d.postorder) : sizeOf v ≤ sizeOf d := by
  induction d with
  | leaf value => simp [postorder] at h
  | node bit low high hl hh =>
    have hsize := node.sizeOf_spec bit low high
    rcases mem_postorder_node.mp h with h | h | rfl
    · have := hh h
      omega
    · have := hl h
      omega
    · exact Nat.le_refl _

/-- A decision node below another one is met before it. -/
theorem mem_of_isParentOf (h : v.isParentOf (.node bit low high) = true) :
    .node bit low high ∈ v.postorder := by
  cases v with
  | leaf value => simp [isParentOf] at h
  | node bit' low' high' =>
    have hself : node bit low high ∈ (node bit low high).postorder := by simp [postorder]
    simp only [isParentOf, Bool.or_eq_true, decide_eq_true_eq] at h
    rcases h with rfl | rfl
    · exact mem_postorder_node.mpr (Or.inr (Or.inl hself))
    · exact mem_postorder_node.mpr (Or.inl hself)

theorem sizeOf_lt_of_isParentOf (h : v.isParentOf w = true) : sizeOf w < sizeOf v := by
  cases v with
  | leaf value => simp [isParentOf] at h
  | node bit low high =>
    have hsize := node.sizeOf_spec bit low high
    simp only [isParentOf, Bool.or_eq_true, decide_eq_true_eq] at h
    rcases h with rfl | rfl <;> omega

/-- Nothing is above the topmost node. -/
theorem isParentOf_of_mem (h : v ∈ d.postorder) : v.isParentOf d = false := by
  rw [← Bool.not_eq_true]
  intro hparent
  have hle := sizeOf_le_of_mem h
  have hlt := sizeOf_lt_of_isParentOf hparent
  omega

/-- Every node but the topmost one is below another one. -/
theorem exists_isParentOf (h : v ∈ d.postorder) :
    v = d ∨ ∃ u ∈ d.postorder, u.isParentOf v = true := by
  induction d with
  | leaf value => simp [postorder] at h
  | node bit low high hl hh =>
    rcases mem_postorder_node.mp h with h | h | rfl
    · refine Or.inr ?_
      rcases hh h with rfl | ⟨u, hu, hparent⟩
      · exact ⟨.node bit low v, by simp [postorder], by simp [isParentOf]⟩
      · exact ⟨u, mem_postorder_node.mpr (Or.inl hu), hparent⟩
    · refine Or.inr ?_
      rcases hl h with rfl | ⟨u, hu, hparent⟩
      · exact ⟨.node bit v high, by simp [postorder], by simp [isParentOf]⟩
      · exact ⟨u, mem_postorder_node.mpr (Or.inr (Or.inl hu)), hparent⟩
    · exact Or.inl rfl

theorem Reduced.of_mem {k : Nat} (h : Reduced k d) (hv : v ∈ d.postorder) : Reduced 0 v := by
  induction d generalizing k with
  | leaf value => simp [postorder] at hv
  | node bit low high hl hh =>
    rcases mem_postorder_node.mp hv with hv | hv | rfl
    · exact hh h.2.2.2 hv
    · exact hl h.2.2.1 hv
    · exact h.mono (Nat.zero_le k)

/-- Two leaves side by side differ, so the true one is below some node. -/
theorem Reduced.exists_isParentOf_true {k : Nat} (h : Reduced k d) :
    (∃ value, d = .leaf value) ∨ ∃ u ∈ d.postorder, u.isParentOf (.leaf true) = true := by
  induction d generalizing k with
  | leaf value => exact Or.inl ⟨value, rfl⟩
  | node bit low high hl hh =>
    obtain ⟨-, hne, hlow, hhigh⟩ := h
    refine Or.inr ?_
    rcases hl hlow with ⟨a, rfl⟩ | ⟨u, hu, hparent⟩
    · rcases hh hhigh with ⟨b, rfl⟩ | ⟨u, hu, hparent⟩
      · refine ⟨.node bit (.leaf a) (.leaf b), by simp [postorder], ?_⟩
        cases a <;> simp_all [isParentOf]
      · exact ⟨u, mem_postorder_node.mpr (Or.inl hu), hparent⟩
    · exact ⟨u, mem_postorder_node.mpr (Or.inr (Or.inl hu)), hparent⟩

namespace Listing

variable {l : Listing}

/-- The listed nodes as diagrams. -/
def entries (l : Listing) : List Diagram := l.nodes.toList.map fun e => .node e.1 e.2.1 e.2.2

/-- The listing with one more node. -/
def add (l : Listing) (bit : Bit) (low high : Diagram) : Listing :=
  ⟨l.nodes.push (bit, low, high), l.places.insert (.node bit low high) l.nodes.size⟩

theorem entries_add (l : Listing) (bit : Bit) (low high : Diagram) :
    (l.add bit low high).entries = l.entries ++ [.node bit low high] := by
  simp [add, entries]

theorem mem_places_add : v ∈ (l.add bit low high).places ↔
    v ∈ l.places ∨ v = .node bit low high := by
  rw [add, Std.HashMap.mem_insert, beq_iff_eq, or_comm, eq_comm]

theorem visit_of_mem (h : .node bit low high ∈ l.places) : visit (.node bit low high) l = l := by
  rw [visit, if_pos (Std.HashMap.mem_iff_contains.mp h)]

theorem visit_of_not_mem (h : .node bit low high ∉ l.places) :
    visit (.node bit low high) l = (visit low (visit high l)).add bit low high := by
  rw [visit, if_neg (by rwa [← Std.HashMap.mem_iff_contains])]
  rfl

/-- Places are known of the listed nodes. With a node all nodes below it are listed, and before
it. -/
structure Ordered (l : Listing) : Prop where
  places : ∀ v, v ∈ l.places ↔ v ∈ l.entries
  closed : ∀ v ∈ l.entries, ∀ w ∈ v.postorder, w ∈ l.entries
  childrenFirst : l.entries.Pairwise fun v w => v.isParentOf w = false

theorem ordered_empty : empty.Ordered := by
  constructor <;> simp [empty, entries]

theorem Ordered.add (h : l.Ordered) (hfresh : .node bit low high ∉ l.entries)
    (hbelow : ∀ v, v ∈ high.postorder ∨ v ∈ low.postorder → v ∈ l.entries) :
    (l.add bit low high).Ordered := by
  refine ⟨fun v => ?_, fun v hv w hw => ?_, ?_⟩
  · rw [mem_places_add, h.places, entries_add, List.mem_append, List.mem_singleton]
  · rw [entries_add, List.mem_append, List.mem_singleton] at hv ⊢
    rcases hv with hv | rfl
    · exact Or.inl (h.closed v hv w hw)
    · rcases mem_postorder_node.mp hw with hw | hw | hw
      · exact Or.inl (hbelow w (Or.inl hw))
      · exact Or.inl (hbelow w (Or.inr hw))
      · exact Or.inr hw
  · rw [entries_add, List.pairwise_append]
    refine ⟨h.childrenFirst, List.pairwise_singleton _ _, fun v hv w hw => ?_⟩
    rw [List.mem_singleton] at hw
    subst w
    -- A parent of the new node would have brought it in before.
    rw [← Bool.not_eq_true]
    exact fun hparent => hfresh (h.closed v hv _ (mem_of_isParentOf hparent))

/-- A visit keeps the order, and adds the nodes of the diagram. -/
theorem Ordered.visit (h : l.Ordered) (d : Diagram) : (visit d l).Ordered ∧
    ∀ v, v ∈ (Listing.visit d l).entries ↔ v ∈ l.entries ∨ v ∈ d.postorder := by
  induction d generalizing l with
  | leaf value => exact ⟨h, fun v => by simp [Listing.visit, postorder]⟩
  | node bit low high hl hh =>
    by_cases hmem : node bit low high ∈ l.places
    · rw [visit_of_mem hmem]
      have hclosed := h.closed _ ((h.places _).mp hmem)
      exact ⟨h, fun v => ⟨Or.inl, fun hv => hv.elim id (hclosed v)⟩⟩
    · rw [visit_of_not_mem hmem]
      obtain ⟨hhigh, hmemHigh⟩ := hh h
      obtain ⟨hlow, hmemLow⟩ := hl hhigh
      simp only [hmemHigh, or_assoc] at hmemLow
      have hfresh : node bit low high ∉ (Listing.visit low (Listing.visit high l)).entries := by
        have hsize := node.sizeOf_spec bit low high
        rw [hmemLow, ← h.places]
        intro hnode
        rcases hnode with hnode | hnode | hnode
        · exact hmem hnode
        · have := sizeOf_le_of_mem hnode
          omega
        · have := sizeOf_le_of_mem hnode
          omega
      refine ⟨hlow.add hfresh fun v hv => (hmemLow v).mpr (Or.inr hv), fun v => ?_⟩
      rw [entries_add, List.mem_append, List.mem_singleton, mem_postorder_node, hmemLow]
      simp only [or_assoc]

/-- The first node with some property is the first one in depth-first order. -/
theorem Ordered.find?_visit (h : l.Ordered) (d : Diagram) (p : Diagram → Bool) :
    (Listing.visit d l).entries.find? p = (l.entries.find? p).or (d.postorder.find? p) := by
  induction d generalizing l with
  | leaf value => simp [Listing.visit, postorder]
  | node bit low high hl hh =>
    by_cases hmem : node bit low high ∈ l.places
    · rw [visit_of_mem hmem]
      have hclosed := h.closed _ ((h.places _).mp hmem)
      cases hfind : l.entries.find? p with
      | some v => rfl
      | none =>
        rw [Option.none_or, eq_comm, List.find?_eq_none]
        exact fun v hv => List.find?_eq_none.mp hfind v (hclosed v hv)
    · rw [visit_of_not_mem hmem, entries_add, List.find?_append, hl (h.visit high).1, hh h, postorder,
        List.find?_append, List.find?_append, Option.or_assoc, Option.or_assoc, Option.or_assoc]

end Listing

theorem ordered_listing (d : Diagram) : d.listing.Ordered := (Listing.ordered_empty.visit d).1

theorem mem_listing : v ∈ d.listing.entries ↔ v ∈ d.postorder := by
  rw [listing, (Listing.ordered_empty.visit d).2]
  simp [Listing.empty, Listing.entries]

theorem find?_listing (d : Diagram) (p : Diagram → Bool) :
    d.listing.entries.find? p = d.postorder.find? p := by
  rw [listing, Listing.ordered_empty.find?_visit]
  simp [Listing.empty, Listing.entries]

end Dataplane.Diagram
