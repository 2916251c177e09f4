import Dataplane.Proofs.Validation

/-! Where a packet can go on from a stage. Only the ways out of a node may overlap or leave some
packets out. -/
namespace Dataplane

namespace Network

variable {network : Network}

theorem mem_of_vrf {node vrf : String} {v : Vrf} (h : network.vrf? node vrf = some v) :
    node ∈ network := by
  obtain ⟨config, hconfig, _⟩ := Option.bind_eq_some_iff.mp h
  exact mem_iff_exists.mpr ⟨config, hconfig⟩

theorem mem_of_interface {e : Endpoint} {i : Interface} (h : network.interface? e = some i) :
    e.node ∈ network := by
  obtain ⟨config, hconfig, _⟩ := Option.bind_eq_some_iff.mp h
  exact mem_iff_exists.mpr ⟨config, hconfig⟩

theorem ListsInterface.mem {node : String} {i : Interface} (h : network.ListsInterface node i) :
    node ∈ network := by
  obtain ⟨name, hi⟩ := h.hasInterface
  exact mem_of_interface hi

/-- What the stage is about exists. An endpoint that a link leads to need not have an interface of
that name, and neither need one whose next hop does not answer. -/
def Declares (network : Network) (facts : Facts) : Stage → Prop
  | .originateLink e => ∃ i, network.HasInterface e.node i ∧ i.name = e.interface
  | .originateVrf node vrf | .postIn node vrf | .preOut node vrf =>
    ∃ v, network.vrf? node vrf = some v
  | .preNat link | .postNat link => link ∈ facts.arpTrue
  | .dropped _ node | .nodeDrop node | .nodeAccept node => node ∈ network
  | .preIn _ | .nodeUnreachable _ | .accept | .drop | .unreachable => True

/-- All stages but the terminal ones, those where packets leave a node, and those at an endpoint
without an interface that takes them on. -/
def Conserves (network : Network) : Stage → Prop
  | .preIn e => ∃ i, network.ListsInterface e.node i ∧ i.name = e.interface
  | .nodeUnreachable e => ∃ i, network.HasInterface e.node i ∧ i.name = e.interface
  | .preOut .. | .accept | .drop | .unreachable => False
  | _ => True

end Network

namespace Snapshot

variable {s : Snapshot} {facts : Facts} {t t' : Transition}

section

variable (hs : s.Compiled facts) (hw : WellPosed s.network facts)

include hs hw

/-- Both ends of a transition are declared. -/
theorem Emits.declares (h : s.Emits t) :
    s.network.Declares facts t.source ∧ s.network.Declares facts t.target := by
  have hagrees := Forwarding.agrees_ofFacts hs.forwarding
  cases h with
  | originateLink hi => exact ⟨⟨_, hi, rfl⟩, trivial⟩
  | originateVrf hv => exact ⟨⟨_, hv⟩, ⟨_, hv⟩⟩
  | deniedIn hi _ _ => exact ⟨trivial, hi.mem⟩
  | permittedIn hi _ =>
    obtain ⟨vrf, v, name, hv, hname, hi⟩ := hi
    obtain ⟨j, hj, hvrf⟩ := hw.listed _ vrf v hv name hname
    obtain rfl := Option.some.inj (hi.symm.trans hj)
    exact ⟨trivial, hvrf⟩
  | accepted hv => exact ⟨⟨_, hv⟩, Network.mem_of_vrf hv⟩
  | unrouted hv => exact ⟨⟨_, hv⟩, Network.mem_of_vrf hv⟩
  | routed hv => exact ⟨⟨_, hv⟩, ⟨_, hv⟩⟩
  | @nullRouted node vrf space hspace =>
    obtain ⟨fact, hfact, _⟩ := (some_of_rel (hagrees.nullRouted node vrf)).2 space hspace
    obtain ⟨⟨v, hv⟩, _⟩ := hw.nullRouted node vrf fact hfact
    exact ⟨⟨v, hv⟩, Network.mem_of_vrf hv⟩
  | @unanswered node vrf name fact _ _ hspace _ _ =>
    obtain ⟨_, hfact, _⟩ := (some_of_rel (hagrees.unreachable node vrf name)).2 fact hspace
    obtain ⟨interfaces, hinterfaces, _⟩ := Option.bind_eq_some_iff.mp hfact
    exact ⟨(hw.unreachable node vrf interfaces hinterfaces).1, trivial⟩
  | sent hfact hi =>
    have hlink := hagrees.mem_arpTrue.mp (mem_iff_exists.mpr ⟨_, hfact⟩)
    exact ⟨(hw.senders _ hlink _ hi).1, hlink⟩
  | sourceNat hlink _ _ => exact ⟨hagrees.mem_arpTrue.mp hlink, hagrees.mem_arpTrue.mp hlink⟩
  | deniedOut hlink hi _ _ => exact ⟨hagrees.mem_arpTrue.mp hlink, Network.mem_of_interface hi⟩
  | permittedOut hlink _ _ => exact ⟨hagrees.mem_arpTrue.mp hlink, trivial⟩
  | nodeAccepted hnode => exact ⟨hnode, trivial⟩
  | dropCause _ hnode => exact ⟨hnode, hnode⟩
  | nodeDropped hnode => exact ⟨hnode, trivial⟩
  | nodeUnreachable _ => exact ⟨trivial, trivial⟩

omit hw in
/-- A filter lets a packet pass or denies it. -/
theorem Compiled.passes_or_denied {node : String} {i : Interface}
    (hi : s.network.HasInterface node i) {filter : Option String}
    (hfilter : ∀ {name}, filter = some name → name ∈ i.referencedAcls) (p : Packet) :
    (∃ space, s.permitted node filter = .ok space ∧ space.contains p = true) ∨
      ∃ name acl, filter = some name ∧ s.acl node name = .ok acl ∧ acl.deny.contains p = true := by
  cases filter with
  | none => exact Or.inl ⟨.full, rfl, HeaderSpace.contains_full p⟩
  | some name =>
    obtain ⟨acl, hacl⟩ := hs.exists_acl hi (hfilter rfl)
    rcases hs.permit_or_deny hacl p with hp | hp
    · exact Or.inl ⟨acl.permit, by rw [permitted, hacl]; rfl, hp⟩
    · exact Or.inr ⟨name, acl, rfl, hacl, hp⟩

theorem Compiled.exists_exit {r : Stage} (hdeclares : s.network.Declares facts r)
    (hconserves : s.network.Conserves r) (p : Packet) :
    ∃ t, s.Emits t ∧ t.source = r ∧ t.guard.contains p = true := by
  have hagrees := Forwarding.agrees_ofFacts hs.forwarding
  have hsender {link : Link} (hlink : link ∈ facts.arpTrue) :
      ∃ i, s.network.interface? link.source = some i := by
    obtain ⟨space, hspace⟩ := mem_iff_exists.mp hlink
    exact (hw.links link space hspace).1
  cases r with
  | originateLink e =>
    obtain ⟨i, hi, hname⟩ := hdeclares
    cases e
    subst hname
    exact ⟨_, .originateLink hi, rfl, HeaderSpace.contains_full p⟩
  | originateVrf node vrf =>
    obtain ⟨v, hv⟩ := hdeclares
    exact ⟨_, .originateVrf hv, rfl, HeaderSpace.contains_full p⟩
  | preIn e =>
    obtain ⟨i, hi, hname⟩ := hconserves
    cases e
    subst hname
    rcases hs.passes_or_denied hi.hasInterface Interface.mem_referencedAcls_of_incoming p with
      ⟨space, hspace, hp⟩ | ⟨name, acl, hname, hacl, hp⟩
    · exact ⟨_, .permittedIn hi hspace, rfl, hp⟩
    · exact ⟨_, .deniedIn hi hname hacl, rfl, hp⟩
  | postIn node vrf =>
    obtain ⟨v, hv⟩ := hdeclares
    by_cases haccepted : (s.forwarding.acceptedAt node vrf).contains p = true
    · exact ⟨_, .accepted hv, rfl, haccepted⟩
    · by_cases hroutable : (s.forwarding.routableAt node vrf).contains p = true
      · exact ⟨_, .routed hv, rfl, by simp [Forwarding.notAcceptedAt, haccepted, hroutable]⟩
      · exact ⟨_, .unrouted hv, rfl, by simp [Forwarding.notAcceptedAt, haccepted, hroutable]⟩
  | preOut => exact hconserves.elim
  | preNat link =>
    obtain ⟨i, hi⟩ := hsender hdeclares
    have hpools := (hw.senders link hdeclares i hi).2
    obtain ⟨rules, hrules⟩ := (hs.exists_natRules_iff ⟨_, hi⟩).mpr hpools
    have hlink := hagrees.mem_arpTrue.mpr hdeclares
    exact ⟨_, .sourceNat hlink hi hrules, rfl, HeaderSpace.contains_full p⟩
  | postNat link =>
    obtain ⟨i, hi⟩ := hsender hdeclares
    have hlink := hagrees.mem_arpTrue.mpr hdeclares
    rcases hs.passes_or_denied ⟨_, hi⟩ Interface.mem_referencedAcls_of_outgoing p with
      ⟨space, hspace, hp⟩ | ⟨name, acl, hname, hacl, hp⟩
    · exact ⟨_, .permittedOut hlink hi hspace, rfl, hp⟩
    · exact ⟨_, .deniedOut hlink hi hname hacl, rfl, hp⟩
  | dropped cause node => exact ⟨_, .dropCause cause hdeclares, rfl, HeaderSpace.contains_full p⟩
  | nodeDrop node => exact ⟨_, .nodeDropped hdeclares, rfl, HeaderSpace.contains_full p⟩
  | nodeUnreachable e =>
    obtain ⟨i, hi, hname⟩ := hconserves
    cases e
    subst hname
    exact ⟨_, .nodeUnreachable hi, rfl, HeaderSpace.contains_full p⟩
  | nodeAccept node => exact ⟨_, .nodeAccepted hdeclares, rfl, HeaderSpace.contains_full p⟩
  | accept => exact hconserves.elim
  | drop => exact hconserves.elim
  | unreachable => exact hconserves.elim

end

/-- What decides the way of a packet in a routing domain. -/
theorem Emits.target_of_postIn (h : s.Emits t) {node vrf : String}
    (hsource : t.source = .postIn node vrf) {p : Packet} (hp : t.guard.contains p = true) :
    t.target = if (s.forwarding.acceptedAt node vrf).contains p then .nodeAccept node
      else if (s.forwarding.routableAt node vrf).contains p then .preOut node vrf
      else .dropped .noRoute node := by
  cases h with
  | accepted hv =>
    cases hsource
    rw [if_pos hp]
  | unrouted hv =>
    cases hsource
    simp only [Forwarding.notAcceptedAt, HeaderSpace.contains_diff, HeaderSpace.contains_compl,
      Bool.and_eq_true, Bool.not_eq_true'] at hp
    simp [hp.1, hp.2]
  | routed hv =>
    cases hsource
    simp only [Forwarding.notAcceptedAt, HeaderSpace.contains_inter, HeaderSpace.contains_compl,
      Bool.and_eq_true, Bool.not_eq_true'] at hp
    simp [hp.1, hp.2]
  | _ => cases hsource

section

variable (hs : s.Compiled facts) (hprecise : s.coarsening = .precise)

include hs hprecise

theorem Compiled.target_of_preIn (h : s.Emits t) {e : Endpoint} (hsource : t.source = .preIn e)
    {p : Packet} (hp : t.guard.contains p = true) :
    ∃ i, s.network.HasInterface e.node i ∧ i.name = e.interface ∧
      t.target = if s.network.admits e.node i.incomingFilter p then .postIn e.node i.vrf
        else .dropped .aclIn e.node := by
  cases h with
  | deniedIn hi hname hacl =>
    cases hsource
    have hfilter := (hs.contains_deny hprecise hacl hname p).mp hp
    exact ⟨_, hi.hasInterface, rfl, by rw [hfilter]; rfl⟩
  | permittedIn hi hspace =>
    cases hsource
    have hfilter := (hs.contains_permitted hprecise hspace p).symm.trans hp
    exact ⟨_, hi.hasInterface, rfl, by rw [hfilter]; rfl⟩
  | _ => cases hsource

theorem Compiled.target_of_postNat (h : s.Emits t) {link : Link}
    (hsource : t.source = .postNat link) {p : Packet} (hp : t.guard.contains p = true) :
    ∃ i, s.network.interface? link.source = some i ∧
      t.target = if s.network.admits link.source.node i.outgoingFilter p then .preIn link.target
        else .dropped .aclOut link.source.node := by
  cases h with
  | deniedOut _ hi hname hacl =>
    cases hsource
    have hfilter := (hs.contains_deny hprecise hacl hname p).mp hp
    exact ⟨_, hi, by rw [hfilter]; rfl⟩
  | permittedOut _ hi hspace =>
    cases hsource
    have hfilter := (hs.contains_permitted hprecise hspace p).symm.trans hp
    exact ⟨_, hi, by rw [hfilter]; rfl⟩
  | _ => cases hsource

end

/-- A packet has at most one way on from a stage that conserves packets, in a routing domain also
if filters are coarse. -/
theorem Compiled.target_unique (hs : s.Compiled facts) (hunique : s.network.UniqueNames) {r : Stage}
    (hconserves : s.network.Conserves r)
    (hfine : s.coarsening = .precise ∨ ∃ node vrf, r = .postIn node vrf) (ht : s.Emits t)
    (ht' : s.Emits t') (hsource : t.source = r) (hsource' : t'.source = r) {p : Packet}
    (hp : t.guard.contains p = true) (hp' : t'.guard.contains p = true) :
    t.target = t'.target := by
  have hnext {d : Stage} (hd : r.next? = some d) : t.target = t'.target := by
    rw [(ht.of_next (hsource ▸ hd)).1, (ht'.of_next (hsource' ▸ hd)).1]
  have hprecise (hr : ∀ node vrf, r ≠ .postIn node vrf) : s.coarsening = .precise := by
    refine hfine.resolve_right fun h => ?_
    obtain ⟨node, vrf, h⟩ := h
    exact hr node vrf h
  cases r with
  | preIn e =>
    have hprecise := hprecise nofun
    obtain ⟨i, hi, hname, htarget⟩ := hs.target_of_preIn hprecise ht hsource hp
    obtain ⟨j, hj, hname', htarget'⟩ := hs.target_of_preIn hprecise ht' hsource' hp'
    obtain rfl := hunique e.node i j hi hj (hname.trans hname'.symm)
    rw [htarget, htarget']
  | postIn node vrf => rw [ht.target_of_postIn hsource hp, ht'.target_of_postIn hsource' hp']
  | postNat link =>
    have hprecise := hprecise nofun
    obtain ⟨i, hi, htarget⟩ := hs.target_of_postNat hprecise ht hsource hp
    obtain ⟨j, hj, htarget'⟩ := hs.target_of_postNat hprecise ht' hsource' hp'
    obtain rfl := Option.some.inj (hi.symm.trans hj)
    rw [htarget, htarget']
  | preOut => exact hconserves.elim
  | accept => exact hconserves.elim
  | drop => exact hconserves.elim
  | unreachable => exact hconserves.elim
  | _ => exact hnext rfl

end Snapshot

namespace Graph

variable {network : Network} {facts : Facts} {c : Coarsening} {g : Graph}

/-- Some transition starts or ends at the stage. -/
def HasStage (g : Graph) (r : Stage) : Prop := ∃ t ∈ g.transitions, t.source = r ∨ t.target = r

/-- The transitions from a stage have different targets. -/
theorem pairwise_successors (h : build network facts c = .ok g) (r : Stage) :
    (g.successors r).Pairwise fun t t' => t.target ≠ t'.target := by
  obtain ⟨_, transitions, _, _, _, _, htable, _⟩ := build_eq_ok h
  unfold successors
  split
  · rename_i targets htargets
    have hkey {d : Stage} {t : Transition} (ht : (d, t) ∈ targets.toList) : t.target = d := by
      have hbetween : g.table.between? (r, d) = some t := by
        rw [TransitionTable.between?, htargets]
        exact Std.ExtTreeMap.mem_toList_iff_getElem?_eq_some.mp ht
      have hends := ((TransitionTable.between?_ofList htable (r, d) t).mp hbetween).2.2
      exact (Prod.mk.inj hends).2
    rw [values_eq, List.pairwise_map]
    refine targets.distinct_keys_toList.imp_of_mem fun ht ht' hne heq => hne ?_
    rw [← hkey ht, ← hkey ht', heq]
    exact Std.ReflCmp.compare_self
  · exact .nil

theorem declares_of_hasStage (h : build network facts c = .ok g) {r : Stage} (hr : g.HasStage r) :
    network.Declares facts r := by
  obtain ⟨t, ht, hends⟩ := hr
  obtain ⟨source, ht⟩ := exists_mem_successors ht
  obtain ⟨s, rfl, _, hs, hsuccessors⟩ := exists_snapshot h
  have hdeclares := ((hsuccessors source t).mp ht).1.declares hs (wellPosed_of_build h)
  rcases hends with rfl | rfl
  · exact hdeclares.1
  · exact hdeclares.2

theorem covers_of_conserves (h : build network facts c = .ok g) {r : Stage} (hr : g.HasStage r)
    (hconserves : network.Conserves r) (p : Packet) :
    ∃ t ∈ g.successors r, t.guard.contains p = true := by
  have hdeclares := declares_of_hasStage h hr
  obtain ⟨s, rfl, _, hs, hsuccessors⟩ := exists_snapshot h
  obtain ⟨t, ht, hsource, hp⟩ := hs.exists_exit (wellPosed_of_build h) hdeclares hconserves p
  have hopen : t.Open := HeaderSpace.isEmpty_eq_false_of_contains hp
  exact ⟨t, (hsuccessors r t).mpr ⟨ht, hopen, hsource⟩, hp⟩

theorem exists_moves_of_conserves (h : build network facts c = .ok g) {r : Stage}
    (hr : g.HasStage r) (hconserves : network.Conserves r) (p : Packet) :
    ∃ b, g.Moves (r, p) b := by
  obtain ⟨t, ht, hp⟩ := covers_of_conserves h hr hconserves p
  obtain ⟨s, _, _, _, hsuccessors⟩ := exists_snapshot h
  obtain ⟨q, hq⟩ := ((hsuccessors r t).mp ht).1.exists_crosses hp
  exact ⟨(t.target, q), t, ht, rfl, hq⟩

/-- The guards that leave a stage share out all packets, so that none gets lost and none goes two
ways. Coarse filters may let a packet pass that they also deny, but in a routing domain the guards
are disjoint all the same. A packet without a way on has a disposition, is about to leave a node, or
is at an interface that no routing domain lists. -/
theorem guards_share_out (h : build network facts c = .ok g) :
    (∀ r, g.HasStage r → network.Conserves r →
      (∀ p, ∃ t ∈ g.successors r, t.guard.contains p = true) ∧
      ((c = .precise ∨ ∃ node vrf, r = .postIn node vrf) →
        (g.successors r).Pairwise fun t t' =>
          ∀ p, ¬(t.guard.contains p = true ∧ t'.guard.contains p = true))) ∧
    (∀ r, r.isTerminal = true → g.successors r = []) ∧
    ∀ r p, g.HasStage r → (∀ b, ¬g.Moves (r, p) b) →
      r.isTerminal = true ∨ r.isNodeDisposition = true ∨ (∃ node vrf, r = .preOut node vrf) ∨
        ∃ e, r = .preIn e ∧ ∀ i, network.ListsInterface e.node i → i.name ≠ e.interface := by
  refine ⟨fun r hr hconserves => ⟨covers_of_conserves h hr hconserves, fun hfine => ?_⟩,
    fun r hr => ?_, fun r p hr hstuck => ?_⟩
  · have hunique := uniqueNames_of_build h
    obtain ⟨s, rfl, rfl, hs, hsuccessors⟩ := exists_snapshot h
    refine (pairwise_successors h r).imp_of_mem fun ht ht' hne p hp => hne ?_
    obtain ⟨ht, _, hsource⟩ := (hsuccessors r _).mp ht
    obtain ⟨ht', _, hsource'⟩ := (hsuccessors r _).mp ht'
    exact hs.target_unique hunique hconserves hfine ht ht' hsource hsource' hp.1 hp.2
  · obtain ⟨s, _, _, _, hsuccessors⟩ := exists_snapshot h
    refine List.eq_nil_iff_forall_not_mem.mpr fun t ht => ?_
    obtain ⟨hemits, _, rfl⟩ := (hsuccessors r t).mp ht
    rw [hemits.isTerminal_source] at hr
    contradiction
  · have hlost : ¬network.Conserves r := fun hconserves => by
      obtain ⟨b, hb⟩ := exists_moves_of_conserves h hr hconserves p
      exact hstuck b hb
    cases r with
    | preIn e => exact Or.inr (Or.inr (Or.inr ⟨e, rfl, fun i hi hname => hlost ⟨i, hi, hname⟩⟩))
    | preOut node vrf => exact Or.inr (Or.inr (Or.inl ⟨node, vrf, rfl⟩))
    | nodeUnreachable => exact Or.inr (Or.inl rfl)
    | accept => exact Or.inl rfl
    | drop => exact Or.inl rfl
    | unreachable => exact Or.inl rfl
    | _ => exact (hlost trivial).elim

theorem guards_share_out_loop : ∃ g, build .loop .loop .precise = .ok g ∧
    (∀ p, ∃ t ∈ g.successors (.preIn ⟨"r", "a"⟩), t.guard.contains p = true) ∧
    (g.successors (.preIn ⟨"r", "a"⟩)).Pairwise fun t t' =>
      ∀ p, ¬(t.guard.contains p = true ∧ t'.guard.contains p = true) := by
  obtain ⟨g, hg⟩ := exists_build_loop .precise
  have hlisted : Network.ListsInterface .loop "r" _ := ⟨"v", _, "a", rfl, by decide, rfl⟩
  obtain ⟨p, _⟩ := (HeaderSpace.isEmpty_eq_false_iff .full).mp rfl
  have hmove := (moves_iff_forwards hg (.originateLink ⟨"r", "a"⟩, p) (.preIn ⟨"r", "a"⟩, p)).mpr
    (.originateLink hlisted.hasInterface)
  obtain ⟨t, ht, htarget, _⟩ := hmove
  have hshare := (guards_share_out hg).1 (.preIn ⟨"r", "a"⟩)
    ⟨t, mem_transitions ht, Or.inr htarget⟩ ⟨_, hlisted, rfl⟩
  exact ⟨g, hg, hshare.1, hshare.2 (Or.inl rfl)⟩

end Graph
end Dataplane
