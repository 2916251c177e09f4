import Dataplane.Proofs.Assembly
import Dataplane.Proofs.Families

/-! The rules that transitions come from, one for each family. -/
namespace Dataplane

/-- Where all packets of the stage go, if there is only one way. -/
def Stage.next? : Stage → Option Stage
  | .originateLink endpoint => some (.preIn endpoint)
  | .originateVrf node vrf => some (.postIn node vrf)
  | .preNat link => some (.postNat link)
  | .dropped _ node => some (.nodeDrop node)
  | .nodeDrop _ => some .drop
  | .nodeUnreachable _ => some .unreachable
  | .nodeAccept _ => some .accept
  | _ => none

namespace Snapshot

/-- A rule of the pipeline makes the transition, which may be closed. -/
inductive Emits (s : Snapshot) : Transition → Prop where
  | originateLink {node i} (hi : s.network.HasInterface node i) :
    Emits s { source := .originateLink ⟨node, i.name⟩, target := .preIn ⟨node, i.name⟩,
              guard := .full }
  | originateVrf {node vrf v} (hv : s.network.vrf? node vrf = some v) :
    Emits s { source := .originateVrf node vrf, target := .postIn node vrf, guard := .full }
  | deniedIn {node i name acl} (hi : s.network.ListsInterface node i)
    (hname : i.incomingFilter = some name) (hacl : s.acl node name = .ok acl) :
    Emits s { source := .preIn ⟨node, i.name⟩, target := .dropped .aclIn node, guard := acl.deny }
  | permittedIn {node i space} (hi : s.network.ListsInterface node i)
    (hspace : s.permitted node i.incomingFilter = .ok space) :
    Emits s { source := .preIn ⟨node, i.name⟩, target := .postIn node i.vrf, guard := space }
  | accepted {node vrf v} (hv : s.network.vrf? node vrf = some v) :
    Emits s { source := .postIn node vrf, target := .nodeAccept node,
              guard := s.forwarding.acceptedAt node vrf }
  | unrouted {node vrf v} (hv : s.network.vrf? node vrf = some v) :
    Emits s { source := .postIn node vrf, target := .dropped .noRoute node,
              guard := (s.forwarding.notAcceptedAt node vrf).diff
                (s.forwarding.routableAt node vrf) }
  | routed {node vrf v} (hv : s.network.vrf? node vrf = some v) :
    Emits s { source := .postIn node vrf, target := .preOut node vrf,
              guard := (s.forwarding.notAcceptedAt node vrf).inter
                (s.forwarding.routableAt node vrf) }
  | nullRouted {node vrf space}
    (hspace : Forwarding.vrfSpace? s.forwarding.nullRouted node vrf = some space) :
    Emits s { source := .preOut node vrf, target := .dropped .nullRoute node, guard := space }
  | unanswered {node vrf name fact i space}
    (hfact : (s.forwarding.neighborUnreachable[node]?.bind (·[vrf]?)).bind (·[name]?) = some fact)
    (hi : s.network.interface? ⟨node, name⟩ = some i)
    (hspace : s.permitted node i.outgoingFilter = .ok space) :
    Emits s { source := .preOut node vrf, target := .nodeUnreachable ⟨node, name⟩,
              guard := fact.inter space }
  | sent {link : Link} {fact i} (hfact : s.forwarding.arpTrue[link]? = some fact)
    (hi : s.network.interface? link.source = some i) :
    Emits s { source := .preOut link.source.node i.vrf, target := .preNat link, guard := fact }
  | sourceNat {link : Link} {i rules} (hlink : link ∈ s.forwarding.arpTrue)
    (hi : s.network.interface? link.source = some i)
    (hrules : s.natRules link.source.node i = .ok rules) :
    Emits s { source := .preNat link, target := .postNat link, guard := .full, nat := rules }
  | deniedOut {link : Link} {i name acl} (hlink : link ∈ s.forwarding.arpTrue)
    (hi : s.network.interface? link.source = some i) (hname : i.outgoingFilter = some name)
    (hacl : s.acl link.source.node name = .ok acl) :
    Emits s { source := .postNat link, target := .dropped .aclOut link.source.node,
              guard := acl.deny }
  | permittedOut {link : Link} {i space} (hlink : link ∈ s.forwarding.arpTrue)
    (hi : s.network.interface? link.source = some i)
    (hspace : s.permitted link.source.node i.outgoingFilter = .ok space) :
    Emits s { source := .postNat link, target := .preIn link.target, guard := space }
  | nodeAccepted {node} (hnode : node ∈ s.network) :
    Emits s { source := .nodeAccept node, target := .accept, guard := .full }
  | dropCause {node} (cause : DropCause) (hnode : node ∈ s.network) :
    Emits s { source := .dropped cause node, target := .nodeDrop node, guard := .full }
  | nodeDropped {node} (hnode : node ∈ s.network) :
    Emits s { source := .nodeDrop node, target := .drop, guard := .full }
  | nodeUnreachable {node i} (hi : s.network.HasInterface node i) :
    Emits s { source := .nodeUnreachable ⟨node, i.name⟩, target := .unreachable, guard := .full }

/-- The position of the family that a transition between the stages comes from. -/
def familyIndex : Stage × Stage → Nat
  | (.originateLink _, _) => 0
  | (.originateVrf .., _) => 1
  | (.preIn _, .dropped ..) => 2
  | (.preIn _, _) => 3
  | (.postIn .., .nodeAccept _) => 4
  | (.postIn .., .dropped ..) => 5
  | (.postIn .., _) => 6
  | (.preOut .., .dropped ..) => 7
  | (.preOut .., .nodeUnreachable _) => 8
  | (.preOut .., _) => 9
  | (.preNat _, _) => 10
  | (.postNat _, .dropped ..) => 11
  | (.postNat _, _) => 12
  | (.nodeAccept _, _) => 13
  | (.dropped .., _) => 14
  | (.nodeDrop _, _) => 15
  | _ => 16

variable {s : Snapshot} {t : Transition}

/-- A family makes the transitions of one rule, which their ends tell from those of the others. -/
theorem emits_of_family {k : Nat} {family : Family} (hfamily : families[k]? = some family)
    {l : List Transition} (hl : family s = .ok l) (ht : t ∈ l) :
    s.Emits t ∧ familyIndex t.ends = k := by
  cases hfamily using families_cases with
  | originateLinks =>
    cases hl
    obtain ⟨⟨node, i⟩, hi, rfl⟩ := List.mem_map.mp ht
    exact ⟨.originateLink (mem_interfaces.mp hi), rfl⟩
  | originateVrfs =>
    cases hl
    obtain ⟨⟨node, vrf⟩, hvrf, rfl⟩ := List.mem_map.mp ht
    obtain ⟨v, hv⟩ := mem_vrfs.mp hvrf
    exact ⟨.originateVrf hv, rfl⟩
  | deniedIn =>
    obtain ⟨node, i, name, acl, hi, hname, hacl, rfl⟩ := (mem_deniedIn hl).mp ht
    exact ⟨.deniedIn hi hname hacl, rfl⟩
  | permittedIn =>
    obtain ⟨node, i, space, hi, hspace, rfl⟩ := (mem_permittedIn hl).mp ht
    exact ⟨.permittedIn hi hspace, rfl⟩
  | accepted =>
    cases hl
    obtain ⟨⟨node, vrf⟩, hvrf, rfl⟩ := List.mem_map.mp ht
    obtain ⟨v, hv⟩ := mem_vrfs.mp hvrf
    exact ⟨.accepted hv, rfl⟩
  | unrouted =>
    cases hl
    obtain ⟨⟨node, vrf⟩, hvrf, rfl⟩ := List.mem_map.mp ht
    obtain ⟨v, hv⟩ := mem_vrfs.mp hvrf
    exact ⟨.unrouted hv, rfl⟩
  | routed =>
    cases hl
    obtain ⟨⟨node, vrf⟩, hvrf, rfl⟩ := List.mem_map.mp ht
    obtain ⟨v, hv⟩ := mem_vrfs.mp hvrf
    exact ⟨.routed hv, rfl⟩
  | nullRouted =>
    obtain ⟨node, vrf, space, hspace, rfl⟩ := (mem_nullRouted hl).mp ht
    exact ⟨.nullRouted hspace, rfl⟩
  | unanswered =>
    obtain ⟨node, vrf, name, fact, i, space, hfact, hi, hspace, rfl⟩ := (mem_unanswered hl).mp ht
    exact ⟨.unanswered hfact hi hspace, rfl⟩
  | sent =>
    obtain ⟨link, fact, i, hfact, hi, rfl⟩ := (mem_sent hl).mp ht
    exact ⟨.sent hfact hi, rfl⟩
  | sourceNat =>
    obtain ⟨link, i, rules, hlink, hi, hrules, rfl⟩ := (mem_sourceNat hl).mp ht
    exact ⟨.sourceNat hlink hi hrules, rfl⟩
  | deniedOut =>
    obtain ⟨link, i, name, acl, hlink, hi, hname, hacl, rfl⟩ := (mem_deniedOut hl).mp ht
    exact ⟨.deniedOut hlink hi hname hacl, rfl⟩
  | permittedOut =>
    obtain ⟨link, i, space, hlink, hi, hspace, rfl⟩ := (mem_permittedOut hl).mp ht
    exact ⟨.permittedOut hlink hi hspace, rfl⟩
  | nodeAccepted =>
    cases hl
    obtain ⟨node, hnode, rfl⟩ := List.mem_map.mp ht
    exact ⟨.nodeAccepted (Std.ExtTreeMap.mem_keys.mp hnode), rfl⟩
  | dropCauses =>
    cases hl
    obtain ⟨node, hnode, ht⟩ := List.mem_flatMap.mp ht
    obtain ⟨cause, _, rfl⟩ := List.mem_map.mp ht
    exact ⟨.dropCause cause (Std.ExtTreeMap.mem_keys.mp hnode), rfl⟩
  | nodeDropped =>
    cases hl
    obtain ⟨node, hnode, rfl⟩ := List.mem_map.mp ht
    exact ⟨.nodeDropped (Std.ExtTreeMap.mem_keys.mp hnode), rfl⟩
  | nodeUnreachable =>
    cases hl
    obtain ⟨⟨node, i⟩, hi, rfl⟩ := List.mem_map.mp ht
    exact ⟨.nodeUnreachable (mem_interfaces.mp hi), rfl⟩

variable {transitions : List Transition} (htransitions : s.transitions = .ok transitions)

include htransitions

theorem mem_of_emits (h : s.Emits t) : t ∈ transitions := by
  have hfamily (family : Family) (hmem : family ∈ families) := exists_family htransitions hmem
  cases h with
  | originateLink hi =>
    obtain ⟨_, ⟨⟩, hsub⟩ := hfamily originateLinks (by simp [families])
    exact hsub _ (List.mem_map_of_mem (mem_interfaces.mpr hi))
  | originateVrf hv =>
    obtain ⟨_, ⟨⟩, hsub⟩ := hfamily originateVrfs (by simp [families])
    exact hsub _ (List.mem_map_of_mem (mem_vrfs.mpr ⟨_, hv⟩))
  | deniedIn hi hname hacl =>
    obtain ⟨_, hl, hsub⟩ := hfamily deniedIn (by simp [families])
    exact hsub _ ((mem_deniedIn hl).mpr ⟨_, _, _, _, hi, hname, hacl, rfl⟩)
  | permittedIn hi hspace =>
    obtain ⟨_, hl, hsub⟩ := hfamily permittedIn (by simp [families])
    exact hsub _ ((mem_permittedIn hl).mpr ⟨_, _, _, hi, hspace, rfl⟩)
  | accepted hv =>
    obtain ⟨_, ⟨⟩, hsub⟩ := hfamily accepted (by simp [families])
    exact hsub _ (List.mem_map_of_mem (mem_vrfs.mpr ⟨_, hv⟩))
  | unrouted hv =>
    obtain ⟨_, ⟨⟩, hsub⟩ := hfamily unrouted (by simp [families])
    exact hsub _ (List.mem_map_of_mem (mem_vrfs.mpr ⟨_, hv⟩))
  | routed hv =>
    obtain ⟨_, ⟨⟩, hsub⟩ := hfamily routed (by simp [families])
    exact hsub _ (List.mem_map_of_mem (mem_vrfs.mpr ⟨_, hv⟩))
  | nullRouted hspace =>
    obtain ⟨_, hl, hsub⟩ := hfamily nullRouted (by simp [families])
    exact hsub _ ((mem_nullRouted hl).mpr ⟨_, _, _, hspace, rfl⟩)
  | unanswered hfact hi hspace =>
    obtain ⟨_, hl, hsub⟩ := hfamily unanswered (by simp [families])
    exact hsub _ ((mem_unanswered hl).mpr ⟨_, _, _, _, _, _, hfact, hi, hspace, rfl⟩)
  | sent hfact hi =>
    obtain ⟨_, hl, hsub⟩ := hfamily sent (by simp [families])
    exact hsub _ ((mem_sent hl).mpr ⟨_, _, _, hfact, hi, rfl⟩)
  | sourceNat hlink hi hrules =>
    obtain ⟨_, hl, hsub⟩ := hfamily sourceNat (by simp [families])
    exact hsub _ ((mem_sourceNat hl).mpr ⟨_, _, _, hlink, hi, hrules, rfl⟩)
  | deniedOut hlink hi hname hacl =>
    obtain ⟨_, hl, hsub⟩ := hfamily deniedOut (by simp [families])
    exact hsub _ ((mem_deniedOut hl).mpr ⟨_, _, _, _, hlink, hi, hname, hacl, rfl⟩)
  | permittedOut hlink hi hspace =>
    obtain ⟨_, hl, hsub⟩ := hfamily permittedOut (by simp [families])
    exact hsub _ ((mem_permittedOut hl).mpr ⟨_, _, _, hlink, hi, hspace, rfl⟩)
  | nodeAccepted hnode =>
    obtain ⟨_, ⟨⟩, hsub⟩ := hfamily nodeAccepted (by simp [families])
    exact hsub _ (List.mem_map_of_mem (Std.ExtTreeMap.mem_keys.mpr hnode))
  | dropCause cause hnode =>
    obtain ⟨_, ⟨⟩, hsub⟩ := hfamily dropCauses (by simp [families])
    have hcause : cause ∈ DropCause.all := by cases cause <;> decide
    exact hsub _ (List.mem_flatMap.mpr
      ⟨_, Std.ExtTreeMap.mem_keys.mpr hnode, List.mem_map_of_mem hcause⟩)
  | nodeDropped hnode =>
    obtain ⟨_, ⟨⟩, hsub⟩ := hfamily nodeDropped (by simp [families])
    exact hsub _ (List.mem_map_of_mem (Std.ExtTreeMap.mem_keys.mpr hnode))
  | nodeUnreachable hi =>
    obtain ⟨_, ⟨⟩, hsub⟩ := hfamily nodeUnreachable (by simp [families])
    exact hsub _ (List.mem_map_of_mem (mem_interfaces.mpr hi))

/-- The rules make all transitions of the snapshot and no others. -/
theorem mem_transitions_iff : t ∈ transitions ↔ s.Emits t := by
  constructor
  · intro ht
    obtain ⟨family, hfamily, l, hl, ht⟩ := (mem_transitions htransitions).mp ht
    obtain ⟨k, hk⟩ := List.mem_iff_getElem?.mp hfamily
    exact (emits_of_family hk hl ht).1
  · exact mem_of_emits htransitions

omit htransitions

theorem Emits.of_next {d : Stage} (h : s.Emits t) (hd : t.source.next? = some d) :
    t.target = d ∧ t.guard = .full := by
  cases h <;> cases hd <;> exact ⟨rfl, rfl⟩

theorem Emits.isTerminal_source (h : s.Emits t) : t.source.isTerminal = false := by
  cases h <;> rfl

/-- Some source is left for every packet, since pools are not inverted. -/
theorem exists_rewrites {node : String} {i : Interface} {rules : List NatRule}
    (hrules : s.natRules node i = .ok rules) (p : Packet) : ∃ q, NatRule.Rewrites rules p q := by
  unfold NatRule.Rewrites
  split
  · rename_i rule hrule
    obtain ⟨nat, _, hnat⟩ := (mem_of_mapM hrules rule).mp (List.mem_of_find?_eq_some hrule)
    obtain ⟨acl, _, hnat⟩ := bind_eq_ok.mp hnat
    dsimp only at hnat
    split at hnat
    · contradiction
    rename_i hpool
    rw [pure_eq_ok] at hnat
    subst rule
    have hfirst := (HeaderSpace.contains_pool (Nat.not_lt.mp hpool) p _).mpr
      ⟨nat.poolFirst, Nat.le_refl _, Nat.not_lt.mp hpool, rfl⟩
    exact ⟨_, hfirst.1, s.coarsening.contains_apply hfirst.2⟩
  · exact ⟨p, rfl⟩

theorem Emits.exists_crosses (h : s.Emits t) {p : Packet} (hp : t.guard.contains p = true) :
    ∃ q, t.Crosses p q := by
  cases h with
  | sourceNat _ _ hrules =>
    obtain ⟨q, hq⟩ := exists_rewrites hrules p
    exact ⟨q, hp, hq⟩
  | _ => exact ⟨p, hp, rfl⟩

end Snapshot
end Dataplane
