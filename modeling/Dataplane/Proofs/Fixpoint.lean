import Dataplane.Proofs.Termination
import Mathlib.Logic.Relation

/-! The solver finds the packets that reach each stage on some path, and no others. -/
namespace Dataplane

namespace Graph

/-- A packet at a stage takes one transition. -/
def Moves (g : Graph) (a b : Stage × Packet) : Prop :=
  ∃ t ∈ g.successors a.1, t.target = b.1 ∧ t.Crosses a.2 b.2

/-- Some packet of the roots arrives at the stage as `q` on a finite path. -/
def Reaches (g : Graph) (roots : Roots) (s : Stage) (q : Packet) : Prop :=
  ∃ (r : Stage) (x : HeaderSpace) (p : Packet), roots[r]? = some x ∧ x.contains p = true ∧
    Relation.ReflTransGen g.Moves (r, p) (s, q)

variable {g : Graph} {roots : Roots}

theorem Reaches.root {s : Stage} {x : HeaderSpace} {q : Packet} (hs : roots[s]? = some x)
    (hq : x.contains q = true) : g.Reaches roots s q := ⟨s, x, q, hs, hq, .refl⟩

theorem Reaches.move {s s' : Stage} {p q : Packet} (h : g.Reaches roots s p)
    (hm : g.Moves (s, p) (s', q)) : g.Reaches roots s' q := by
  obtain ⟨r, x, p', hr, hp', hpath⟩ := h
  exact ⟨r, x, p', hr, hp', hpath.tail hm⟩

end Graph

namespace Progress

/-- Only packets that reach a stage are known, the roots are known, and stages that are not
pending have passed on what is known. -/
structure Invariant (g : Graph) (roots : Roots) (p : Progress) : Prop extends WellFormed p where
  sound : ∀ s q, (p.spaceAt s).contains q = true → g.Reaches roots s q
  rooted : ∀ (s : Stage) (x : HeaderSpace), roots[s]? = some x → x.subset (p.spaceAt s) = true
  passed : ∀ s, s ∉ p.pending → ∀ t ∈ g.successors s,
    (t.traverse (p.spaceAt s)).subset (p.spaceAt t.target) = true

variable {g : Graph} {roots : Roots}

theorem wellFormed_empty : ({} : Progress).WellFormed :=
  ⟨List.nodup_nil, by simp, by simp, by simp⟩

theorem spaceAt_empty (s : Stage) : ({} : Progress).spaceAt s = .empty := by simp [spaceAt]

theorem contains_ofRoots (roots : Roots) (s : Stage) (q : Packet) :
    ((ofRoots roots).spaceAt s).contains q = true ↔
      ∃ x, roots[s]? = some x ∧ x.contains q = true := by
  rw [ofRoots_eq, contains_extendAll, spaceAt_empty]
  simp [Std.ExtTreeMap.mem_toList_iff_getElem?_eq_some]

theorem Invariant.ofRoots (g : Graph) (roots : Roots) : Invariant g roots (ofRoots roots) := by
  refine ⟨wellFormed_empty.extendAll _, fun s q hq => ?_, fun s x hs => ?_, fun s hs t _ => ?_⟩
  · obtain ⟨x, hs, hx⟩ := (contains_ofRoots roots s q).mp hq
    exact .root hs hx
  · rw [HeaderSpace.subset_iff_contains]
    exact fun q hq => (contains_ofRoots roots s q).mpr ⟨x, hs, hq⟩
  · rw [ofRoots_eq, (grows_extendAll wellFormed_empty _).quiet s hs, spaceAt_empty,
      HeaderSpace.subset_iff_contains]
    intro q hq
    obtain ⟨p, hp, _⟩ := (t.contains_traverse _ q).mp hq
    simp at hp

/-- Passing the packets of one stage on keeps the invariant: a stage that gains packets, be it
the same one, is pending again. -/
theorem Invariant.advance {p : Progress} (h : Invariant g roots p) :
    Invariant g roots (p.advance g) := by
  cases hp : p.pending with
  | nil =>
    rw [advance_nil hp]
    exact h
  | cons s rest =>
    rw [advance_cons hp]
    have hpop := h.toWellFormed.pop hp
    have hgrows : Grows (p.pop s rest) _ :=
      grows_extendAll hpop ((g.successors s).map fun t => (t.target, t.traverse (p.spaceAt s)))
    rw [← propagate_eq] at hgrows
    have hwf : ((p.pop s rest).propagate (g.successors s) (p.spaceAt s)).WellFormed := by
      rw [propagate_eq]
      exact hpop.extendAll _
    refine ⟨hwf, fun r q hr => ?_, fun r x hr => ?_, fun r hr t ht => ?_⟩
    · rcases (contains_propagate _ _ _ r q).mp hr with hq | ⟨t, ht, rfl, hq⟩
      · exact h.sound r q hq
      · obtain ⟨q', hq', hcross⟩ := (t.contains_traverse _ q).mp hq
        exact (h.sound s q' hq').move ⟨t, ht, rfl, hcross⟩
    · exact HeaderSpace.subset_trans (h.rooted r x hr) (hgrows.mono r)
    · rw [hgrows.quiet r hr, spaceAt_pop]
      by_cases hrs : r = s
      · subst r
        rw [HeaderSpace.subset_iff_contains]
        exact fun q hq => (contains_propagate _ _ _ _ q).mpr (Or.inr ⟨t, ht, rfl, hq⟩)
      · have hnot : r ∉ p.pending := by
          rw [hp, List.mem_cons]
          intro h
          rcases h with he | hrest
          · exact hrs he
          · exact hr (hgrows.pending r hrest)
        exact HeaderSpace.subset_trans (h.passed r hnot t ht) (hgrows.mono t.target)

theorem Invariant.drain {p : Progress} (h : Invariant g roots p) :
    Invariant g roots (p.drain g) := drain_of_advance (fun _ hp => hp.advance) h

/-- With nothing pending, the known packets are closed under transitions. -/
theorem Invariant.complete {p : Progress} (h : Invariant g roots p) (hp : p.pending = [])
    {s : Stage} {q : Packet} (hq : g.Reaches roots s q) : (p.spaceAt s).contains q = true := by
  obtain ⟨r, x, p', hr, hp', hpath⟩ := hq
  have hclosed {a b : Stage × Packet} (hmove : g.Moves a b)
      (ha : (p.spaceAt a.1).contains a.2 = true) :
      (p.spaceAt b.1).contains b.2 = true := by
    obtain ⟨t, ht, htarget, hcross⟩ := hmove
    have hsub := h.passed a.1 (by simp [hp]) t ht
    rw [HeaderSpace.subset_iff_contains] at hsub
    rw [← htarget]
    exact hsub _ ((t.contains_traverse _ _).mpr ⟨a.2, ha, hcross⟩)
  have hroot : (p.spaceAt r).contains p' = true :=
    (HeaderSpace.subset_iff_contains _ _).mp (h.rooted r x hr) p' hp'
  generalize hend : (s, q) = last at hpath
  have hlast : (p.spaceAt last.1).contains last.2 = true := by
    clear hend
    induction hpath with
    | refl => exact hroot
    | tail _ hmove ih => exact hclosed hmove ih
  rwa [← hend] at hlast

end Progress

namespace Graph

/-- The known packets of a finished solve. -/
theorem solve_spec {g : Graph} {roots : Roots} {limits : Limits} {o : Outcome}
    (h : g.solve roots limits = .ok o) :
    ∃ last : Progress, last.Invariant g roots ∧ last.pending = [] ∧ o = ⟨last.reached⟩ :=
  ⟨_, (Progress.Invariant.ofRoots g roots).drain, Progress.pending_drain g _, solve_eq_ok h⟩

theorem contains_solve {g : Graph} {roots : Roots} {limits : Limits} {o : Outcome}
    (h : g.solve roots limits = .ok o) (s : Stage) (q : Packet) :
    (o.spaceAt s).contains q = true ↔ g.Reaches roots s q := by
  obtain ⟨last, hinv, hpending, rfl⟩ := solve_spec h
  exact ⟨hinv.sound s q, hinv.complete hpending⟩

theorem isReached_solve {g : Graph} {roots : Roots} {limits : Limits} {o : Outcome}
    (h : g.solve roots limits = .ok o) (s : Stage) :
    o.isReached s = true ↔ (o.spaceAt s).isEmpty = false := by
  obtain ⟨last, hinv, _, rfl⟩ := solve_spec h
  exact (Std.ExtTreeMap.mem_iff_contains.symm.trans (hinv.isEmpty_spaceAt s).symm)

/-- The outcome of a solve is the least fixpoint: it has exactly the packets that arrive on some
path, and an entry exactly where one arrives. -/
theorem reached_iff_path (g : Graph) (roots : Roots) {limits : Limits} {o : Outcome}
    (h : g.solve roots limits = .ok o) (s : Stage) :
    (∀ q, (o.spaceAt s).contains q = true ↔ g.Reaches roots s q) ∧
      (o.isReached s = true ↔ ∃ q, g.Reaches roots s q) := by
  refine ⟨contains_solve h s, ?_⟩
  rw [isReached_solve h, HeaderSpace.isEmpty_eq_false_iff]
  exact exists_congr (contains_solve h s)

end Graph

/-- A packet to address 1, with nothing but a source and a protocol. -/
def Packet.probe (source : UInt32) (protocol : UInt8) : Packet where
  dstIp := 1
  srcIp := source
  dstPort := 0
  srcPort := 0
  ipProtocol := protocol
  icmpType := 0
  icmpCode := 0
  tcpFlags := 0

namespace Graph

/-- A link that leads back to where it leaves from. -/
def wire : Link := ⟨⟨"r", "a"⟩, ⟨"r", "a"⟩⟩

/-- Two stages that pass everything to each other. One way, TCP packets lose their source. -/
def natLoop : Graph where
  coarsening := .precise
  places := .ofNetwork ∅
  table := {
    (.preNat wire, {(.postNat wire, {
      source := .preNat wire, target := .postNat wire, guard := .full,
      nat := [⟨.value .ipProtocol 6, .range .srcIp 1 2⟩] })}),
    (.postNat wire, {(.preNat wire, {
      source := .postNat wire, target := .preNat wire, guard := .full })})}

theorem natLoop_reached_iff_path : ∃ limits o,
    natLoop.solve {(.preNat wire, .value .srcIp 9)} limits = .ok o ∧
    (∀ q, (o.spaceAt (.preNat wire)).contains q = true ↔
      natLoop.Reaches {(.preNat wire, .value .srcIp 9)} (.preNat wire) q) ∧
    (o.isReached (.preNat wire) = true ↔
      ∃ q, natLoop.Reaches {(.preNat wire, .value .srcIp 9)} (.preNat wire) q) := by
  obtain ⟨n, hn⟩ := natLoop.exists_solve_ok {(.preNat wire, .value .srcIp 9)}
  obtain ⟨o, ho⟩ := hn { maxIterations := n } rfl (Nat.le_refl n)
  exact ⟨_, o, ho, reached_iff_path natLoop _ ho (.preNat wire)⟩

end Graph
end Dataplane
