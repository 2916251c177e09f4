import Dataplane.Proofs.Refinement

/-! The coarse graph of a network is the projection of its precise graph. -/
namespace Dataplane

theorem HeaderSpace.projectDstIp_full : full.projectDstIp = full := dstOnly_full.projectDstIp_eq

/-- A pool says nothing about the destination. -/
theorem HeaderSpace.projectDstIp_pool {first last : Address}
    (h : first.value.toNat ≤ last.value.toNat) :
    (range .srcIp first.value.toNat last.value.toNat).projectDstIp = full := by
  refine ext_contains fun p => ?_
  rw [contains_full, contains_projectDstIp]
  have hpool := (contains_pool h p { p with srcIp := first.value }).mpr
    ⟨first, UInt32.le_refl _, h, rfl⟩
  exact ⟨{ p with srcIp := first.value }, rfl, hpool.2⟩

/-- The rule as far as destinations tell. Any source may come of it. -/
def NatRule.coarse (rule : NatRule) : NatRule := ⟨rule.condition.projectDstIp, .full⟩

/-- The transition as far as destinations tell. -/
def Transition.coarse (t : Transition) : Transition :=
  { t with guard := t.guard.projectDstIp, nat := t.nat.map NatRule.coarse }

theorem Transition.source_coarse (t : Transition) : t.coarse.source = t.source := rfl

theorem Transition.target_coarse (t : Transition) : t.coarse.target = t.target := rfl

theorem Transition.coarse_eq {t : Transition} (hguard : t.guard.DstOnly) (hnat : t.nat = []) :
    t.coarse = t := by
  cases t
  cases hnat
  simp [coarse, hguard.projectDstIp_eq]

/-- The two halves of an access list, projected on their own. -/
abbrev CompiledAcl.coarse (a : CompiledAcl) : CompiledAcl := a.coarsen .dstIpOnly

namespace Snapshot

/-- The snapshot with coarse access lists. -/
def coarse (s : Snapshot) : Snapshot :=
  { s with acls := s.acls.map fun _ => (·.map fun _ => CompiledAcl.coarse),
           coarsening := .dstIpOnly }

variable {s : Snapshot}

theorem network_coarse : s.coarse.network = s.network := rfl

theorem acl_coarse (node name : String) :
    s.coarse.acl node name = (s.acl node name).map CompiledAcl.coarse := by
  have hlookup : s.coarse.acls[node]?.bind (·[name]?) =
      (s.acls[node]?.bind (·[name]?)).map CompiledAcl.coarse := by
    rw [coarse, Std.ExtTreeMap.getElem?_map]
    cases s.acls[node]? <;> simp
  unfold acl
  rw [hlookup]
  cases s.acls[node]?.bind (·[name]?) <;> rfl

theorem permitted_coarse (node : String) (filter : Option String) :
    s.coarse.permitted node filter = (s.permitted node filter).map HeaderSpace.projectDstIp := by
  cases filter with
  | none => exact congrArg Except.ok HeaderSpace.projectDstIp_full.symm
  | some name =>
    simp only [permitted, acl_coarse]
    cases s.acl node name <;> rfl

theorem natRules_coarse (node : String) (i : Interface) :
    s.coarse.natRules node i = (s.natRules node i).map (List.map NatRule.coarse) := by
  refine mapM_map _ fun nat _ => ?_
  simp only [acl_coarse]
  cases s.acl node nat.acl with
  | error e => rfl
  | ok acl =>
    simp only [Except.map, ok_bind]
    split
    · rfl
    · rename_i hpool
      have hrange := HeaderSpace.projectDstIp_pool (Nat.not_lt.mp hpool)
      simp only [coarse, Coarsening.apply, hrange]
      rfl

/-- A family that does not depend on access lists is its own projection. -/
theorem map_coarse_eq {family : Except ModelError (List Transition)}
    (h : ∀ l, family = .ok l → ∀ t ∈ l, t.guard.DstOnly ∧ t.nat = []) :
    family = family.map (List.map Transition.coarse) := by
  cases family with
  | error e => rfl
  | ok l =>
    have hmap : l.map Transition.coarse = l.map id := List.map_congr_left fun t ht => by
      obtain ⟨hguard, hnat⟩ := h l rfl t ht
      exact t.coarse_eq hguard hnat
    rw [Except.map, hmap, List.map_id]

theorem ok_map_coarse {α : Type} {l : List α} {f : α → Transition}
    (h : ∀ a, (f a).guard.DstOnly ∧ (f a).nat = []) :
    (.ok (l.map f) : Except ModelError _) =
      Except.map (List.map Transition.coarse) (.ok (l.map f)) := by
  refine map_coarse_eq fun _ hl t ht => ?_
  cases hl
  obtain ⟨a, _, rfl⟩ := List.mem_map.mp ht
  exact h a

variable {facts : Facts} (hs : s.Compiled facts)

include hs

theorem family_coarse {family : Family} (hfamily : family ∈ families) :
    family s.coarse = (family s).map (List.map Transition.coarse) := by
  have hagrees := Forwarding.agrees_ofFacts hs.forwarding
  obtain ⟨_, hposition⟩ := List.mem_iff_getElem?.mp hfamily
  cases hposition using families_cases with
  | originateLinks => exact ok_map_coarse fun _ => ⟨HeaderSpace.dstOnly_full, rfl⟩
  | originateVrfs => exact ok_map_coarse fun _ => ⟨HeaderSpace.dstOnly_full, rfl⟩
  | deniedIn =>
    refine bind_mapM_map fun entry => ?_
    simp only [acl_coarse]
    cases s.acl entry.1 entry.2.2 <;> rfl
  | permittedIn =>
    refine bind_mapM_map fun entry => ?_
    simp only [permitted_coarse]
    cases s.permitted entry.1 entry.2.incomingFilter <;> rfl
  | accepted => exact ok_map_coarse fun entry => ⟨hagrees.dstOnly_acceptedAt entry.1 entry.2, rfl⟩
  | unrouted =>
    refine ok_map_coarse fun entry => ⟨?_, rfl⟩
    exact (hagrees.dstOnly_acceptedAt entry.1 entry.2).compl.diff (hagrees.dstOnly_routableAt _ _)
  | routed =>
    refine ok_map_coarse fun entry => ⟨?_, rfl⟩
    exact (hagrees.dstOnly_acceptedAt entry.1 entry.2).compl.inter (hagrees.dstOnly_routableAt _ _)
  | nullRouted =>
    refine map_coarse_eq fun l hl t ht => ?_
    obtain ⟨node, vrf, space, hspace, rfl⟩ := (mem_nullRouted hl).mp ht
    exact ⟨IpSpace.dstOnly_of_rel (hagrees.nullRouted node vrf) hspace, rfl⟩
  | unanswered =>
    refine mapM_map _ fun entry hentry => ?_
    have hfact := IpSpace.dstOnly_of_rel (hagrees.unreachable _ _ _)
      (Forwarding.mem_unreachableEntries.mp hentry)
    simp only [network_coarse, permitted_coarse]
    cases s.network.findInterface ⟨entry.1, entry.2.2.1⟩ with
    | error e => rfl
    | ok i =>
      simp only [ok_bind]
      cases s.permitted entry.1 i.outgoingFilter with
      | error e => rfl
      | ok space =>
        simp only [Except.map, ok_bind, pure, Except.pure, Transition.coarse,
          hfact.projectDstIp_inter, List.map_nil]
  | sent =>
    refine map_coarse_eq fun l hl t ht => ?_
    obtain ⟨link, fact, i, hfact, hi, rfl⟩ := (mem_sent hl).mp ht
    exact ⟨IpSpace.dstOnly_of_rel (hagrees.arpTrue link) hfact, rfl⟩
  | sourceNat =>
    refine mapM_map _ fun entry _ => ?_
    simp only [network_coarse, natRules_coarse]
    cases s.network.findInterface entry.1.source with
    | error e => rfl
    | ok i =>
      simp only [ok_bind]
      cases s.natRules entry.1.source.node i with
      | error e => rfl
      | ok rules =>
        simp only [Except.map, ok_bind, pure, Except.pure, Transition.coarse,
          HeaderSpace.projectDstIp_full]
  | deniedOut =>
    refine bind_mapM_map fun entry => ?_
    simp only [acl_coarse]
    cases s.acl entry.1.source.node entry.2 <;> rfl
  | permittedOut =>
    refine bind_mapM_map fun entry => ?_
    simp only [permitted_coarse]
    cases s.permitted entry.1.source.node entry.2.2.outgoingFilter <;> rfl
  | nodeAccepted => exact ok_map_coarse fun _ => ⟨HeaderSpace.dstOnly_full, rfl⟩
  | dropCauses =>
    refine map_coarse_eq fun l hl t ht => ?_
    cases hl
    obtain ⟨node, _, ht⟩ := List.mem_flatMap.mp ht
    obtain ⟨cause, _, rfl⟩ := List.mem_map.mp ht
    exact ⟨HeaderSpace.dstOnly_full, rfl⟩
  | nodeDropped => exact ok_map_coarse fun _ => ⟨HeaderSpace.dstOnly_full, rfl⟩
  | nodeUnreachable => exact ok_map_coarse fun _ => ⟨HeaderSpace.dstOnly_full, rfl⟩

theorem transitions_coarse :
    s.coarse.transitions = s.transitions.map (List.map Transition.coarse) := by
  have hlists := mapM_map families fun family hfamily => family_coarse hs hfamily
  simp only [Snapshot.transitions, hlists]
  cases families.mapM fun family => family s with
  | error e => rfl
  | ok lists => exact congrArg Except.ok (List.map_flatten).symm

end Snapshot

namespace TransitionTable

def coarse (table : TransitionTable) : TransitionTable :=
  table.map fun _ => (·.map fun _ => Transition.coarse)

theorem insert_coarse (table : TransitionTable) (t : Transition) :
    table.coarse.insert t.coarse = (table.insert t).map coarse := by
  have htargets : Std.ExtTreeMap.getD table.coarse t.source ∅ =
      (Std.ExtTreeMap.getD table t.source ∅).map fun _ => Transition.coarse := by
    rw [coarse, Std.ExtTreeMap.getD_eq_getD_getElem?, Std.ExtTreeMap.getD_eq_getD_getElem?,
      Std.ExtTreeMap.getElem?_map]
    cases table[t.source]? <;> simp
  have hinsert (targets : Std.ExtTreeMap Stage Transition) :
      Std.ExtTreeMap.insert table.coarse t.source
          ((targets.map fun _ => Transition.coarse).insert t.target t.coarse) =
        coarse (Std.ExtTreeMap.insert table t.source (targets.insert t.target t)) := by
    rw [coarse, coarse, map_insert, map_insert]
  have hempty : t.coarse.guard.isEmpty = t.guard.isEmpty := HeaderSpace.isEmpty_projectDstIp _
  simp only [insert, hempty, Transition.source_coarse, Transition.target_coarse, htargets,
    Std.ExtTreeMap.contains_map, hinsert]
  split
  · rfl
  · split <;> rfl

theorem ofList_coarse (transitions : List Transition) :
    ofList (transitions.map Transition.coarse) = (ofList transitions).map coarse := by
  have hempty : coarse ∅ = ∅ := by simp [coarse]
  rw [ofList, ofList, List.foldlM_map, ← hempty]
  exact foldlM_keep insert_coarse transitions ∅

end TransitionTable

theorem Configuration.compileAcls_coarse (node : String) (config : Configuration) :
    config.compileAcls .dstIpOnly node =
      (config.compileAcls .precise node).map (·.map fun _ => CompiledAcl.coarse) := by
  have hacls : traverse (fun _ acl => return (← acl.compile).coarsen .dstIpOnly) config.acls =
      (traverse (fun _ acl => return (← acl.compile).coarsen .precise) config.acls).map
        (·.map fun _ => CompiledAcl.coarse) :=
    traverse_map (fun _ acl => by cases acl.compile <;> rfl) config.acls
  unfold compileAcls
  rw [hacls]
  cases traverse (fun _ acl => return (← acl.compile).coarsen .precise) config.acls with
  | error e => rfl
  | ok acls =>
    simp only [Except.map, ok_bind, Std.ExtTreeMap.contains_map]
    split <;> rfl

theorem Network.compileAcls_coarse (network : Network) : network.compileAcls .dstIpOnly =
    (network.compileAcls .precise).map (·.map fun _ => (·.map fun _ => CompiledAcl.coarse)) :=
  traverse_map Configuration.compileAcls_coarse network

namespace Graph

/-- The graph as far as destinations tell. -/
def coarse (g : Graph) : Graph := { g with coarsening := .dstIpOnly, table := g.table.coarse }

theorem rules_dstIpOnly (network : Network) (facts : Facts) :
    rules network facts .dstIpOnly =
      (rules network facts .precise).map (List.map Transition.coarse) := by
  unfold rules
  rw [Network.compileAcls_coarse]
  cases hacls : network.compileAcls .precise with
  | error e => rfl
  | ok acls =>
    cases hforwarding : Forwarding.ofFacts network facts with
    | error e => rfl
    | ok forwarding =>
      have hs : Snapshot.Compiled facts ⟨network, acls, forwarding, .precise⟩ :=
        ⟨hacls, hforwarding⟩
      have htransitions := Snapshot.transitions_coarse hs
      simp only [Snapshot.coarse] at htransitions
      rw [ok_bind, ok_bind, ← htransitions]
      rfl

theorem build_dstIpOnly (network : Network) (facts : Facts) :
    build network facts .dstIpOnly = (build network facts .precise).map coarse := by
  unfold build
  rw [rules_dstIpOnly]
  cases rules network facts .precise with
  | error e => rfl
  | ok transitions =>
    simp only [Except.map, ok_bind, TransitionTable.ofList_coarse]
    cases TransitionTable.ofList transitions <;> rfl

theorem transition?_coarse (g : Graph) (source target : Stage) :
    g.coarse.transition? source target = (g.transition? source target).map Transition.coarse := by
  unfold transition? coarse TransitionTable.coarse
  rw [Std.ExtTreeMap.getElem?_map]
  cases g.table[source]? <;> simp

/-- Both builds succeed or fail with the same error. The coarse graph has the transitions of the
precise graph, each with the projection of its guard, and with rules that project the conditions
and let any source come of them. -/
theorem coarse_build_projects (network : Network) (facts : Facts) :
    ((∃ c, build network facts .dstIpOnly = .ok c) ↔ ∃ g, build network facts .precise = .ok g) ∧
    (∀ e, build network facts .dstIpOnly = .error e ↔ build network facts .precise = .error e) ∧
    ∀ g c, build network facts .precise = .ok g → build network facts .dstIpOnly = .ok c →
      ∀ source target,
        c.transition? source target = (g.transition? source target).map Transition.coarse := by
  rw [build_dstIpOnly]
  cases build network facts .precise with
  | error e => simp [Except.map]
  | ok g =>
    refine ⟨by simp [Except.map], by simp [Except.map], fun g' c hg hc source target => ?_⟩
    cases hg
    cases hc
    exact g.transition?_coarse source target

/-- The filter of the loop lets TCP packets in and no others. Its projection lets all packets in. -/
theorem coarse_build_projects_fedLoop : ∃ g c t, build .fedLoop .fedLoop .precise = .ok g ∧
    build .fedLoop .fedLoop .dstIpOnly = .ok c ∧
    (∀ source target,
      c.transition? source target = (g.transition? source target).map Transition.coarse) ∧
    g.transition? (.preIn ⟨"r", "a"⟩) (.postIn "r" "v") = some t ∧
    c.transition? (.preIn ⟨"r", "a"⟩) (.postIn "r" "v") = some t.coarse ∧
    t.guard.contains (.probe 9 17) = false ∧ t.coarse.guard.contains (.probe 9 17) = true := by
  obtain ⟨g, hg⟩ := exists_build_fedLoop .precise
  obtain ⟨c, hc⟩ := exists_build_fedLoop .dstIpOnly
  have hcoarse := (coarse_build_projects .fedLoop .fedLoop).2.2 g c hg hc
  have hlisted : Network.ListsInterface .fedLoop "r" _ := ⟨"v", _, "a", rfl, by decide, rfl⟩
  obtain ⟨t, ht, hguard⟩ := exists_permittedIn hg (p := .probe 9 6) hlisted (by decide)
  have hct := (hcoarse _ _).trans (congrArg (Option.map Transition.coarse) ht)
  refine ⟨g, c, t, hg, hc, hcoarse, ht, hct, (hguard _).trans (by decide), ?_⟩
  exact (t.guard.contains_projectDstIp _).mpr ⟨.probe 9 6, rfl, (hguard _).trans (by decide)⟩

end Graph
end Dataplane
