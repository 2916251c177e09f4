import Dataplane.Proofs.Conservation
import Dataplane.Proofs.Overapproximation

/-! Replacing sources: the first rule that applies to a packet decides, and on the transitions of a
graph no packet gets lost and none appears. -/
namespace Dataplane

theorem Packet.AgreeOff.trans {f : Field} {p q r : Packet} (hpq : AgreeOff f p q)
    (hqr : AgreeOff f q r) : AgreeOff f p r := fun g hg => (hqr g hg).trans (hpq g hg)

namespace HeaderSpace

theorem forgetField_empty (f : Field) : empty.forgetField f = .empty := by
  refine ext_contains fun p => ?_
  rw [contains_empty, ← Bool.not_eq_true, contains_forgetField]
  simp

end HeaderSpace

namespace NatRule

/-- The rule applies to the packet, and none before it does. -/
def Decides (rules : List NatRule) (rule : NatRule) (p : Packet) : Prop :=
  ∃ before after, rules = before ++ rule :: after ∧
    (∀ other ∈ before, other.condition.contains p = false) ∧ rule.condition.contains p = true

theorem find?_eq_some_iff_decides {rules : List NatRule} {rule : NatRule} {p : Packet} :
    rules.find? (·.condition.contains p) = some rule ↔ Decides rules rule p := by
  rw [List.find?_eq_some_iff_append]
  simp only [Bool.not_eq_true']
  constructor
  · intro h
    obtain ⟨hrule, before, after, hsplit, hbefore⟩ := h
    exact ⟨before, after, hsplit, hbefore, hrule⟩
  · intro h
    obtain ⟨before, after, hsplit, hbefore, hrule⟩ := h
    exact ⟨hrule, before, after, hsplit, hbefore⟩

theorem rewrites_iff_decides (rules : List NatRule) (p q : Packet) :
    Rewrites rules p q ↔
      (∃ rule, Decides rules rule p ∧ Packet.AgreeOff .srcIp p q ∧ rule.pool.contains q = true) ∨
      (∀ rule ∈ rules, rule.condition.contains p = false) ∧ q = p := by
  have hnone : rules.find? (·.condition.contains p) = none ↔
      ∀ rule ∈ rules, rule.condition.contains p = false := by
    simp only [List.find?_eq_none, Bool.not_eq_true]
  simp only [← find?_eq_some_iff_decides, ← hnone]
  unfold Rewrites
  cases rules.find? (·.condition.contains p) with
  | none => simp
  | some rule => simp

/-- Add to `found` what the rules make of the packets `left`, with no rule passed over. -/
def replaceThrough (found left : HeaderSpace) : List NatRule → HeaderSpace
  | [] => found.union left
  | rule :: rest =>
    replaceThrough (found.union (((left.inter rule.condition).forgetField .srcIp).inter rule.pool))
      (left.diff rule.condition) rest

/-- Of no packets the rules make none. -/
theorem replaceThrough_empty (found : HeaderSpace) (rules : List NatRule) :
    replaceThrough found .empty rules = found := by
  induction rules generalizing found with
  | nil => exact found.union_empty
  | cons rule rest ih =>
    rw [replaceThrough, HeaderSpace.empty_inter, HeaderSpace.forgetField_empty,
      HeaderSpace.empty_inter, HeaderSpace.empty_diff, found.union_empty, ih]

theorem replaceInto_eq_replaceThrough (found left : HeaderSpace) (rules : List NatRule) :
    replaceInto found left rules = replaceThrough found left rules := by
  induction rules generalizing found left with
  | nil => rfl
  | cons rule rest ih =>
    have hskip : (if (left.inter rule.condition).isEmpty then found
        else found.union (((left.inter rule.condition).forgetField .srcIp).inter rule.pool)) =
        found.union (((left.inter rule.condition).forgetField .srcIp).inter rule.pool) := by
      split
      · rename_i hempty
        rw [HeaderSpace.eq_empty_of_isEmpty hempty, HeaderSpace.forgetField_empty,
          HeaderSpace.empty_inter, found.union_empty]
      · rfl
    rw [replaceInto, replaceThrough, hskip]
    split
    · rename_i hempty
      rw [HeaderSpace.eq_empty_of_isEmpty hempty, replaceThrough_empty, HeaderSpace.union_empty]
    · exact ih _ _

/-- Of a set of packets, the rules make what the first rule that applies makes of each packet. Rules
without a hit can be passed over, and those behind the last packet left out. -/
theorem apply_first_match (rules : List NatRule) (packets : HeaderSpace) :
    (∀ q, (apply rules packets).contains q = true ↔
      ∃ p, packets.contains p = true ∧
        ((∃ rule, Decides rules rule p ∧ Packet.AgreeOff .srcIp p q ∧
            rule.pool.contains q = true) ∨
          (∀ rule ∈ rules, rule.condition.contains p = false) ∧ q = p)) ∧
    apply rules packets = replaceThrough .empty packets rules := by
  refine ⟨fun q => ?_, replaceInto_eq_replaceThrough .empty packets rules⟩
  simp only [contains_apply, rewrites_iff_decides]

end NatRule

namespace Transition

variable {t : Transition}

/-- If every packet that may pass gets across, the packets are the same up to their sources. -/
theorem forgetField_traverse
    (hcross : ∀ p, t.guard.contains p = true → ∃ q, t.Crosses p q) (x : HeaderSpace) :
    (t.traverse x).forgetField .srcIp = (x.inter t.guard).forgetField .srcIp := by
  refine HeaderSpace.eq_of_contains_iff fun r => ?_
  rw [HeaderSpace.contains_forgetField, HeaderSpace.contains_forgetField]
  simp only [t.contains_traverse, HeaderSpace.contains_inter, Bool.and_eq_true]
  constructor
  · intro h
    obtain ⟨q, hrq, p, hp, hpq⟩ := h
    exact ⟨p, hrq.trans hpq.2.agreeOff.symm, hp, hpq.1⟩
  · intro h
    obtain ⟨p, hrp, hp, hguard⟩ := h
    obtain ⟨q, hpq⟩ := hcross p hguard
    exact ⟨q, hrp.trans hpq.2.agreeOff, p, hp, hpq⟩

/-- A coarse transition only filters packets that destinations alone tell apart. -/
theorem traverse_coarse (t : Transition) {x : HeaderSpace} (hx : x.DstOnly) :
    t.coarse.traverse x = x.inter t.coarse.guard := by
  have hadmitted : (x.inter t.coarse.guard).DstOnly := hx.inter t.guard.dstOnly_projectDstIp
  refine HeaderSpace.eq_of_contains_iff fun q => ?_
  rw [t.coarse.contains_traverse]
  constructor
  · intro h
    obtain ⟨p, hp, hpq⟩ := h
    rw [hadmitted q p hpq.dstIp_eq, HeaderSpace.contains_inter, hp]
    exact hpq.1
  · intro h
    rw [HeaderSpace.contains_inter, Bool.and_eq_true] at h
    exact ⟨q, h.1, h.2, NatRule.rewrites_coarse_self t.nat q⟩

end Transition

namespace Graph

variable {network : Network} {facts : Facts} {c : Coarsening} {g : Graph} {t : Transition}

theorem exists_crosses (h : build network facts c = .ok g) (ht : t ∈ g.transitions) {p : Packet}
    (hp : t.guard.contains p = true) : ∃ q, t.Crosses p q := by
  obtain ⟨r, ht⟩ := exists_mem_successors ht
  obtain ⟨s, _, _, _, hsuccessors⟩ := exists_snapshot h
  exact ((hsuccessors r t).mp ht).1.exists_crosses hp

theorem exists_coarse (h : build network facts .dstIpOnly = .ok g) (ht : t ∈ g.transitions) :
    ∃ t' : Transition, t'.coarse = t := by
  obtain ⟨r, ht⟩ := exists_mem_successors ht
  rw [build_dstIpOnly] at h
  cases hprecise : build network facts .precise with
  | error e =>
    rw [hprecise] at h
    contradiction
  | ok precise =>
    rw [hprecise] at h
    cases h
    obtain ⟨t', _, htt'⟩ := mem_successors_coarse.mp ht
    exact ⟨t', htt'⟩

/-- The link of the loop has a rule that replaces sources. -/
theorem exists_natRule_loop (h : build .loop .loop c = .ok g) :
    ∃ t ∈ g.transitions, t.nat ≠ [] := by
  obtain ⟨s, hnetwork, _, hs, hsuccessors⟩ := exists_snapshot h
  have hwell := wellPosed_of_build h
  rw [← hnetwork] at hwell
  obtain ⟨p, _⟩ := (HeaderSpace.isEmpty_eq_false_iff .full).mp rfl
  have hlink : wire ∈ Facts.loop.arpTrue := by decide
  obtain ⟨t, ht, hsource, hp⟩ := hs.exists_exit hwell (r := .preNat wire) hlink trivial p
  have hmem := (hsuccessors _ t).mpr ⟨ht, HeaderSpace.isEmpty_eq_false_of_contains hp, hsource⟩
  refine ⟨t, mem_transitions hmem, ?_⟩
  cases ht with
  | sourceNat _ hi hrules =>
    cases hsource
    rw [hnetwork] at hi
    cases hi
    obtain ⟨rule, hrule, _⟩ := exists_of_mapM hrules List.mem_cons_self
    exact List.ne_nil_of_mem hrule
  | _ => cases hsource

/-- On the transitions of a graph, packets may change their sources, but none is lost and none
appears. In a coarse graph they do not even change. -/
theorem traverse_keeps_traffic (h : build network facts c = .ok g) (ht : t ∈ g.transitions) :
    (∀ x, (t.traverse x).forgetField .srcIp = (x.inter t.guard).forgetField .srcIp) ∧
      (c = .dstIpOnly → ∀ x : HeaderSpace, x.DstOnly → t.traverse x = x.inter t.guard) := by
  refine ⟨Transition.forgetField_traverse fun p => exists_crosses h ht, fun hc x hx => ?_⟩
  subst hc
  obtain ⟨t', rfl⟩ := exists_coarse h ht
  exact t'.traverse_coarse hx

theorem traverse_keeps_traffic_loop : ∃ g t coarse t',
    build .loop .loop .precise = .ok g ∧ t ∈ g.transitions ∧ t.nat ≠ [] ∧
    (t.traverse (.value .srcIp 9)).forgetField .srcIp =
      ((HeaderSpace.value .srcIp 9).inter t.guard).forgetField .srcIp ∧
    build .loop .loop .dstIpOnly = .ok coarse ∧ t' ∈ coarse.transitions ∧ t'.nat ≠ [] ∧
    t'.traverse (.value .dstIp 1) = (HeaderSpace.value .dstIp 1).inter t'.guard := by
  obtain ⟨g, hg⟩ := exists_build_loop .precise
  obtain ⟨t, ht, hnat⟩ := exists_natRule_loop hg
  obtain ⟨coarse, hcoarse⟩ := exists_build_loop .dstIpOnly
  obtain ⟨t', ht', hnat'⟩ := exists_natRule_loop hcoarse
  have hdescribes : (IpSpace.single ⟨1⟩).Describes (.value .dstIp 1) := rfl
  exact ⟨g, t, coarse, t', hg, ht, hnat, (traverse_keeps_traffic hg ht).1 _, hcoarse, ht', hnat',
    (traverse_keeps_traffic hcoarse ht').2 rfl _ hdescribes.dstOnly⟩

end Graph
end Dataplane
