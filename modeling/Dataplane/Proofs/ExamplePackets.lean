import Dataplane.Diagram.Reading
import Dataplane.Proofs.Fixpoint
import Dataplane.Proofs.Numbering
import Mathlib.Logic.Relation

/-! Every space but the empty one has an example packet. It is found by a search from the true leaf
upwards, and is in the space. -/
namespace Dataplane

namespace Diagram

variable {d u v : Diagram} {bit : Bit} {low high : Diagram}

/-- The first node in depth-first order that has the other diagram as a side. -/
def parent? (d v : Diagram) : Option Diagram := d.postorder.find? (·.isParentOf v)

theorem of_parent? (h : d.parent? v = some u) : u ∈ d.postorder ∧ u.isParentOf v = true := by
  rw [parent?] at h
  have habove := List.find?_some h
  exact ⟨List.mem_of_find?_eq_some h, habove⟩

namespace Ascent

variable {a : Ascent}

/-- One step up: to the first parent, from its low side if possible. -/
inductive Step (d : Diagram) : Ascent → Ascent → Prop where
  | climb {a : Ascent} {bit : Bit} {low high : Diagram}
    (hparent : d.parent? a.top = some (.node bit low high)) :
    Step d a ⟨.node bit low high, a.valuation.set bit (low ≠ a.top)⟩

/-- What is found on the way up from the true leaf, where all bits are false at first. -/
def Found (d : Diagram) : Ascent → Prop :=
  Relation.ReflTransGen (Step d) ⟨.leaf true, fun _ => false⟩

theorem step_rightUnique (d : Diagram) : Relator.RightUnique (Step d) := by
  rintro a b c ⟨hb⟩ ⟨hc⟩
  cases hb.symm.trans hc
  rfl

theorem Found.top_mem (h : Found d a) : a.top = .leaf true ∨ a.top ∈ d.postorder := by
  rcases h.cases_tail with rfl | ⟨_, _, ⟨hparent⟩⟩
  · exact Or.inl rfl
  · exact Or.inr (of_parent? hparent).1

/-- The way up ends at the top of the diagram. -/
theorem eq_of_top {σ : Valuation} (h : Relation.ReflTransGen (Step d) ⟨d, σ⟩ a) : a = ⟨d, σ⟩ := by
  rcases h.cases_head with heq | ⟨_, ⟨hparent⟩, _⟩
  · exact heq.symm
  · obtain ⟨hmem, habove⟩ := of_parent? hparent
    simp [isParentOf_of_mem hmem] at habove

/-- There is one way to the top, since every step is determined. -/
theorem Found.unique {σ τ : Valuation} (h : Found d ⟨d, σ⟩) (h' : Found d ⟨d, τ⟩) : σ = τ := by
  rcases Relation.ReflTransGen.total_of_right_unique (step_rightUnique d) h h' with hway | hway
  · exact (Ascent.mk.inj (eq_of_top hway)).2.symm
  · exact (Ascent.mk.inj (eq_of_top hway)).2

/-- Only the top of the diagram has no parent. -/
theorem Found.top_eq {k : Nat} (hd : Reduced k d) (hne : d ≠ .leaf false) (h : Found d a)
    (hlast : ∀ v ∈ d.postorder, v.isParentOf a.top = false) : a.top = d := by
  have hnone : ¬∃ u ∈ d.postorder, u.isParentOf a.top = true := by
    rintro ⟨u, hu, hparent⟩
    simp [hlast u hu] at hparent
  rcases h.top_mem with htop | hmem
  · rw [htop] at hnone ⊢
    obtain ⟨value, rfl⟩ := hd.exists_isParentOf_true.resolve_right hnone
    cases value with
    | false => contradiction
    | true => rfl
  · exact (exists_isParentOf hmem).resolve_right hnone

/-- The bit of a parent is tested nowhere below, so what was found before stays true. -/
theorem Found.eval_top {k : Nat} (hd : Reduced k d) (h : Found d a) :
    a.top.eval a.valuation = true := by
  induction h with
  | refl => rfl
  | @tail a _ _ hstep ih =>
    obtain @⟨bit, low, high, hparent⟩ := hstep
    obtain ⟨hmem, hside⟩ := of_parent? hparent
    simp only [isParentOf, Bool.or_eq_true, decide_eq_true_eq] at hside
    rw [eval_side (hd.of_mem hmem)]
    by_cases hlow : low = a.top
    · simpa [hlow] using ih
    · simpa [hlow, hside.resolve_left hlow] using ih

/-- Continue through the node if it is a parent of the upper end. -/
def pass (a : Ascent) : Diagram → Ascent
  | .leaf _ => a
  | .node bit low high => a.climb bit low high

theorem pass_of_isParentOf (h : (node bit low high).isParentOf a.top = true) :
    a.pass (.node bit low high) = ⟨.node bit low high, a.valuation.set bit (low ≠ a.top)⟩ := by
  simp only [isParentOf, Bool.or_eq_true, decide_eq_true_eq] at h
  by_cases hlow : low = a.top
  · simp [pass, climb, hlow]
  · simp [pass, climb, hlow, h.resolve_left hlow]

theorem pass_of_not_isParentOf (h : v.isParentOf a.top = false) : a.pass v = a := by
  cases v with
  | leaf value => rfl
  | node bit low high =>
    simp only [isParentOf, Bool.or_eq_false_iff, decide_eq_false_iff_not] at h
    simp [pass, climb, h.1, h.2]

/-- Found when the first nodes of the listing are done: none of them leads further up. -/
structure Searched (d : Diagram) (done : List Diagram) (a : Ascent) : Prop where
  found : Found d a
  last : ∀ v ∈ done, v.isParentOf a.top = false

/-- A parent that the pass comes to is the first one. None was missed, since no parent of a node is
listed before the node. -/
theorem Searched.step {done rest : List Diagram} (hnodes : d.listing.entries = done ++ v :: rest)
    (h : Searched d done a) : Searched d (done ++ [v]) (a.pass v) := by
  cases hv : v.isParentOf a.top with
  | false =>
    rw [pass_of_not_isParentOf hv]
    refine ⟨h.found, fun u hu => ?_⟩
    rcases List.mem_append.mp hu with hu | hu
    · exact h.last u hu
    · rw [List.mem_singleton.mp hu, hv]
  | true =>
    cases v with
    | leaf value => simp [isParentOf] at hv
    | node bit low high =>
      have hparent : d.parent? a.top = some (.node bit low high) := by
        rw [parent?, ← find?_listing, List.find?_eq_some_iff_append]
        exact ⟨hv, done, rest, hnodes, by simpa using h.last⟩
      rw [pass_of_isParentOf hv]
      refine ⟨h.found.tail (.climb hparent), fun u hu => ?_⟩
      rcases List.mem_append.mp hu with hu | hu
      · have hordered := d.ordered_listing.childrenFirst
        rw [hnodes, List.pairwise_append] at hordered
        exact hordered.2.2 u hu _ List.mem_cons_self
      · rw [List.mem_singleton.mp hu]
        exact isParentOf_of_mem (mem_postorder_node.mpr (Or.inr (Or.inr rfl)))

theorem Searched.run {done todo : List Diagram} (hnodes : d.listing.entries = done ++ todo)
    (h : Searched d done a) : Searched d d.listing.entries (todo.foldl pass a) := by
  induction todo generalizing done a with
  | nil =>
    rw [hnodes, List.append_nil]
    exact h
  | cons v rest ih =>
    have hnext : d.listing.entries = (done ++ [v]) ++ rest := by simp [hnodes]
    exact ih hnext (h.step hnodes)

end Ascent

/-- The end of the search. -/
def ascent (d : Diagram) : Ascent := d.listing.entries.foldl Ascent.pass .start

theorem witness?_eq (d : Diagram) :
    d.witness? = if d = .leaf false then none else some d.ascent.valuation := by
  rw [witness?, ascent, Listing.entries, List.foldl_map, Array.foldl_toList]
  rfl

theorem Reduced.found_ascent {k : Nat} (hd : Reduced k d) (hne : d ≠ .leaf false) :
    Ascent.Found d ⟨d, d.ascent.valuation⟩ := by
  have hsearched : Ascent.Searched d d.listing.entries d.ascent :=
    .run (List.nil_append _).symm ⟨.refl, by simp⟩
  have htop : d.ascent.top = d :=
    hsearched.found.top_eq hd hne fun v hv => hsearched.last v (mem_listing.mpr hv)
  have hfound : Ascent.Found d ⟨d.ascent.top, d.ascent.valuation⟩ := hsearched.found
  rwa [htop] at hfound

end Diagram

namespace HeaderSpace

variable {s : HeaderSpace} {p : Packet}

theorem example?_eq_none (s : HeaderSpace) : s.example? = none ↔ s.isEmpty = true := by
  rw [example?, Option.map_eq_none_iff, Diagram.witness?_eq, isEmpty, decide_eq_true_iff]
  split
  · rename_i hempty
    exact iff_of_true rfl hempty
  · rename_i hne
    exact iff_of_false (Option.some_ne_none _) hne

/-- The example is the packet that the search finds. -/
theorem example?_eq_some : s.example? = some p ↔
    ∃ σ, Diagram.Ascent.Found s.diagram ⟨s.diagram, σ⟩ ∧ p = .decode σ := by
  rw [example?, Diagram.witness?_eq]
  split
  · rename_i hempty
    refine iff_of_false (by simp) ?_
    rintro ⟨σ, hfound, _⟩
    have htrue := hfound.eval_top s.reduced
    rw [hempty] at htrue
    contradiction
  · rename_i hne
    have hfound := s.reduced.found_ascent hne
    rw [Option.map_some, Option.some_inj]
    constructor
    · rintro rfl
      exact ⟨_, hfound, rfl⟩
    · rintro ⟨σ, hσ, rfl⟩
      rw [hσ.unique hfound]

theorem contains_decode (s : HeaderSpace) (σ : Valuation) :
    s.contains (.decode σ) = s.diagram.eval σ := by
  rw [contains_eq_eval, Packet.encode_decode]
  rfl

theorem contains_example (h : s.example? = some p) : s.contains p = true := by
  obtain ⟨σ, hfound, rfl⟩ := example?_eq_some.mp h
  rw [contains_decode]
  exact hfound.eval_top s.reduced

end HeaderSpace

theorem Outcome.example?_eq (o : Outcome) (s : Stage) : o.example? s = (o.spaceAt s).example? := by
  rw [example?, spaceAt]
  cases o.get? s with
  | none => rfl
  | some space => rfl

/-- Every space but the empty one has an example: the packet found on the way up from the true leaf,
which is in the space and has no flags beyond the six. The stages that a solve reaches are those
that have an example. -/
theorem HeaderSpace.examples_genuine :
    (∀ s : HeaderSpace, (s.example? = none ↔ s.isEmpty = true) ∧
      ∀ p, (s.example? = some p ↔
          ∃ σ, Diagram.Ascent.Found s.diagram ⟨s.diagram, σ⟩ ∧ p = .decode σ) ∧
        (s.example? = some p → s.contains p = true ∧ p.tcpFlags < 64)) ∧
    ∀ (g : Graph) (roots : Roots) (limits : Limits) (o : Outcome),
      g.solve roots limits = .ok o → ∀ stage,
        ((∃ p, o.example? stage = some p) ↔ o.isReached stage = true) ∧
        ∀ p, o.example? stage = some p → (o.spaceAt stage).contains p = true := by
  refine ⟨fun s => ⟨s.example?_eq_none, fun p => ⟨example?_eq_some, fun h => ?_⟩⟩,
    fun g roots limits o ho stage => ?_⟩
  · obtain ⟨σ, _, rfl⟩ := example?_eq_some.mp h
    exact ⟨contains_example h, Packet.tcpFlags_decode_lt σ⟩
  · rw [Outcome.example?_eq]
    refine ⟨?_, fun p => contains_example⟩
    rw [Graph.isReached_solve ho, ← Bool.not_eq_true, ← example?_eq_none,
      ← Option.ne_none_iff_exists']

end Dataplane
