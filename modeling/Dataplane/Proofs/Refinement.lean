import Dataplane.Proofs.Assembly
import Dataplane.Proofs.Emission
import Dataplane.Proofs.Fixpoint

/-! A packet moves in a precise graph exactly as it is forwarded in the network. -/
namespace Dataplane

theorem Transition.crosses_of_nil {t : Transition} (h : t.nat = []) {p q : Packet} :
    t.Crosses p q ↔ t.guard.contains p = true ∧ q = p := by
  rw [Crosses, h, NatRule.rewrites_nil]

namespace Snapshot

variable {s : Snapshot} {facts : Facts} (hs : s.Compiled facts) (hprecise : s.coarsening = .precise)
  {transitions : List Transition} (htransitions : s.transitions = .ok transitions)

include hs hprecise htransitions

theorem forwards_of_crosses {t : Transition} (ht : t ∈ transitions) {p q : Packet}
    (hcross : t.Crosses p q) : Forwards s.network facts (t.source, p) (t.target, q) := by
  have hagrees := Forwarding.agrees_ofFacts hs.forwarding
  cases (mem_transitions_iff htransitions).mp ht with
  | originateLink hi =>
    obtain ⟨_, rfl⟩ := (Transition.crosses_of_nil rfl).mp hcross
    exact .originateLink hi
  | originateVrf hv =>
    obtain ⟨_, rfl⟩ := (Transition.crosses_of_nil rfl).mp hcross
    exact .originateVrf hv
  | deniedIn hi hname hacl =>
    obtain ⟨hguard, rfl⟩ := (Transition.crosses_of_nil rfl).mp hcross
    exact .deniedIn hi ((hs.contains_deny hprecise hacl hname q).mp hguard)
  | permittedIn hi hspace =>
    obtain ⟨hguard, rfl⟩ := (Transition.crosses_of_nil rfl).mp hcross
    have hfilter := hs.contains_permitted hprecise hspace q
    exact .permittedIn hi (hfilter.symm.trans hguard)
  | @accepted node vrf _ _ =>
    obtain ⟨hguard, rfl⟩ := (Transition.crosses_of_nil rfl).mp hcross
    exact .accepted ((hagrees.accepted node vrf q).mp hguard)
  | @unrouted node vrf _ hv =>
    obtain ⟨hguard, rfl⟩ := (Transition.crosses_of_nil rfl).mp hcross
    have hnone := (hagrees.contains_unrouted node vrf q).mp hguard
    exact .unrouted hv hnone.1 hnone.2
  | @routed node vrf _ hv =>
    obtain ⟨hguard, rfl⟩ := (Transition.crosses_of_nil rfl).mp hcross
    have hroute := (hagrees.contains_routed node vrf q).mp hguard
    exact .routed hv hroute.1 hroute.2
  | @nullRouted node vrf space hspace =>
    obtain ⟨hguard, rfl⟩ := (Transition.crosses_of_nil rfl).mp hcross
    have hfact := IpSpace.any_includes_iff (hagrees.nullRouted node vrf) q
    exact .nullRouted (hfact.mpr ⟨space, hspace, hguard⟩)
  | @unanswered node vrf name fact i _ hspace hi hpermit =>
    obtain ⟨hguard, rfl⟩ := (Transition.crosses_of_nil rfl).mp hcross
    rw [HeaderSpace.contains_inter, Bool.and_eq_true] at hguard
    have hfact := IpSpace.any_includes_iff (hagrees.unreachable node vrf name) q
    have hfilter := hs.contains_permitted hprecise hpermit q
    exact .unanswered (hfact.mpr ⟨fact, hspace, hguard.1⟩) hi (hfilter.symm.trans hguard.2)
  | @sent link fact _ hspace hi =>
    obtain ⟨hguard, rfl⟩ := (Transition.crosses_of_nil rfl).mp hcross
    have hfact := IpSpace.any_includes_iff (hagrees.arpTrue link) q
    exact .sent (hfact.mpr ⟨fact, hspace, hguard⟩) hi
  | sourceNat hlink hi hrules =>
    have hnat := (hs.rewrites_iff hprecise hrules p q).mp hcross.2
    exact .translated (hagrees.mem_arpTrue.mp hlink) hi hnat
  | deniedOut hlink hi hname hacl =>
    obtain ⟨hguard, rfl⟩ := (Transition.crosses_of_nil rfl).mp hcross
    have hfilter := (hs.contains_deny hprecise hacl hname q).mp hguard
    exact .deniedOut (hagrees.mem_arpTrue.mp hlink) hi hfilter
  | permittedOut hlink hi hspace =>
    obtain ⟨hguard, rfl⟩ := (Transition.crosses_of_nil rfl).mp hcross
    have hfilter := hs.contains_permitted hprecise hspace q
    exact .permittedOut (hagrees.mem_arpTrue.mp hlink) hi (hfilter.symm.trans hguard)
  | nodeAccepted hnode =>
    obtain ⟨_, rfl⟩ := (Transition.crosses_of_nil rfl).mp hcross
    exact .nodeAccepted hnode
  | dropCause cause hnode =>
    obtain ⟨_, rfl⟩ := (Transition.crosses_of_nil rfl).mp hcross
    exact .dropCause cause hnode
  | nodeDropped hnode =>
    obtain ⟨_, rfl⟩ := (Transition.crosses_of_nil rfl).mp hcross
    exact .nodeDropped hnode
  | nodeUnreachable hi =>
    obtain ⟨_, rfl⟩ := (Transition.crosses_of_nil rfl).mp hcross
    exact .nodeUnreachable hi

theorem exists_crosses_of_forwards {a b : Stage × Packet} (h : Forwards s.network facts a b) :
    ∃ t ∈ transitions, t.source = a.1 ∧ t.target = b.1 ∧ t.Crosses a.2 b.2 := by
  have hagrees := Forwarding.agrees_ofFacts hs.forwarding
  have hcross {t : Transition} {p : Packet} (ht : s.Emits t) (hnat : t.nat = [])
      (hguard : t.guard.contains p = true) :
      ∃ u ∈ transitions, u.source = t.source ∧ u.target = t.target ∧ u.Crosses p p :=
    ⟨t, mem_of_emits htransitions ht, rfl, rfl,
      (Transition.crosses_of_nil hnat).mpr ⟨hguard, rfl⟩⟩
  cases h with
  | originateLink hi =>
    exact hcross (.originateLink hi) rfl (HeaderSpace.contains_full _)
  | originateVrf hv =>
    exact hcross (.originateVrf hv) rfl (HeaderSpace.contains_full _)
  | @deniedIn node i p hi hfilter =>
    obtain ⟨name, hname⟩ := Network.exists_filter hfilter
    have hreferenced := Interface.mem_referencedAcls_of_incoming hname
    obtain ⟨acl, hacl⟩ := hs.exists_acl hi.hasInterface hreferenced
    have hguard := (hs.contains_deny hprecise hacl hname p).mpr hfilter
    exact hcross (.deniedIn hi hname hacl) rfl hguard
  | @permittedIn node i p hi hfilter =>
    obtain ⟨space, hspace⟩ :=
      hs.exists_permitted hi.hasInterface Interface.mem_referencedAcls_of_incoming
    have hguard := (hs.contains_permitted hprecise hspace p).trans hfilter
    exact hcross (.permittedIn hi hspace) rfl hguard
  | @accepted node vrf p howns =>
    have hguard := (hagrees.accepted node vrf p).mpr howns
    obtain ⟨v, _, _, hv, _⟩ := howns
    exact hcross (.accepted hv) rfl hguard
  | @unrouted node vrf v p hv howns hroute =>
    have hguard := (hagrees.contains_unrouted node vrf p).mpr ⟨howns, hroute⟩
    exact hcross (.unrouted hv) rfl hguard
  | @routed node vrf v p hv howns hroute =>
    have hguard := (hagrees.contains_routed node vrf p).mpr ⟨howns, hroute⟩
    exact hcross (.routed hv) rfl hguard
  | @nullRouted node vrf p hnull =>
    have hfact := IpSpace.any_includes_iff (hagrees.nullRouted node vrf) p
    obtain ⟨space, hspace, hguard⟩ := hfact.mp hnull
    exact hcross (.nullRouted hspace) rfl hguard
  | @unanswered node vrf name i p hunanswered hi hfilter =>
    have hfact := IpSpace.any_includes_iff (hagrees.unreachable node vrf name) p
    obtain ⟨space, hspace, hp⟩ := hfact.mp hunanswered
    obtain ⟨permit, hpermit⟩ :=
      hs.exists_permitted ⟨name, hi⟩ Interface.mem_referencedAcls_of_outgoing
    have hguard : (space.inter permit).contains p = true := by
      rw [HeaderSpace.contains_inter, hp, hs.contains_permitted hprecise hpermit, hfilter]
      rfl
    exact hcross (.unanswered hspace hi hpermit) rfl hguard
  | @sent link i p hanswers hi =>
    have hfact := IpSpace.any_includes_iff (hagrees.arpTrue link) p
    obtain ⟨space, hspace, hguard⟩ := hfact.mp hanswers
    exact hcross (.sent hspace hi) rfl hguard
  | @translated link i p q hlink hi hnat =>
    obtain ⟨l, hl, _⟩ := exists_family htransitions (show sourceNat ∈ _ by simp [families])
    have hlink := hagrees.mem_arpTrue.mpr hlink
    obtain ⟨rules, hrules⟩ := exists_natRules hl hlink hi
    have hmem := mem_of_emits htransitions (.sourceNat hlink hi hrules)
    have hrewrites := (hs.rewrites_iff hprecise hrules p q).mpr hnat
    exact ⟨_, hmem, rfl, rfl, HeaderSpace.contains_full p, hrewrites⟩
  | @deniedOut link i p hlink hi hfilter =>
    obtain ⟨name, hname⟩ := Network.exists_filter hfilter
    have hreferenced := Interface.mem_referencedAcls_of_outgoing hname
    obtain ⟨acl, hacl⟩ := hs.exists_acl ⟨_, hi⟩ hreferenced
    have hguard := (hs.contains_deny hprecise hacl hname p).mpr hfilter
    exact hcross (.deniedOut (hagrees.mem_arpTrue.mpr hlink) hi hname hacl) rfl hguard
  | @permittedOut link i p hlink hi hfilter =>
    obtain ⟨space, hspace⟩ :=
      hs.exists_permitted ⟨_, hi⟩ Interface.mem_referencedAcls_of_outgoing
    have hguard := (hs.contains_permitted hprecise hspace p).trans hfilter
    exact hcross (.permittedOut (hagrees.mem_arpTrue.mpr hlink) hi hspace) rfl hguard
  | nodeAccepted hnode =>
    exact hcross (.nodeAccepted hnode) rfl (HeaderSpace.contains_full _)
  | dropCause cause hnode =>
    exact hcross (.dropCause cause hnode) rfl (HeaderSpace.contains_full _)
  | nodeDropped hnode =>
    exact hcross (.nodeDropped hnode) rfl (HeaderSpace.contains_full _)
  | nodeUnreachable hi =>
    exact hcross (.nodeUnreachable hi) rfl (HeaderSpace.contains_full _)

end Snapshot

namespace Graph

theorem rules_eq_ok {network : Network} {facts : Facts} {c : Coarsening}
    {transitions : List Transition} (h : rules network facts c = .ok transitions) :
    ∃ s : Snapshot, s.network = network ∧ s.coarsening = c ∧ s.Compiled facts ∧
      s.transitions = .ok transitions := by
  simp only [rules, bind_eq_ok] at h
  obtain ⟨acls, hacls, forwarding, hforwarding, htransitions⟩ := h
  exact ⟨⟨network, acls, forwarding, c⟩, rfl, rfl, ⟨hacls, hforwarding⟩, htransitions⟩

/-- The table of a graph has the transitions of a snapshot of the network and the facts. -/
theorem build_eq_ok {network : Network} {facts : Facts} {c : Coarsening} {g : Graph}
    (h : build network facts c = .ok g) :
    ∃ (s : Snapshot) (transitions : List Transition), s.network = network ∧ s.coarsening = c ∧
      s.Compiled facts ∧ s.transitions = .ok transitions ∧
      TransitionTable.ofList transitions = .ok g.table ∧ g.coarsening = c ∧
      g.places = .ofNetwork network := by
  simp only [build, bind_eq_ok, pure_eq_ok] at h
  obtain ⟨transitions, hrules, table, htable, rfl⟩ := h
  obtain ⟨s, hnetwork, hc, hs, htransitions⟩ := rules_eq_ok hrules
  exact ⟨s, transitions, hnetwork, hc, hs, htransitions, htable, rfl, rfl⟩

/-- The transitions from a stage are the open ones that the rules make. -/
theorem exists_snapshot {network : Network} {facts : Facts} {c : Coarsening} {g : Graph}
    (h : build network facts c = .ok g) :
    ∃ s : Snapshot, s.network = network ∧ s.coarsening = c ∧ s.Compiled facts ∧
      ∀ r t, t ∈ g.successors r ↔ s.Emits t ∧ t.Open ∧ t.source = r := by
  obtain ⟨s, transitions, hnetwork, hc, hs, htransitions, htable, _⟩ := build_eq_ok h
  refine ⟨s, hnetwork, hc, hs, fun r t => ?_⟩
  rw [mem_successors]
  simp only [TransitionTable.between?_ofList htable, Snapshot.mem_transitions_iff htransitions]
  constructor
  · intro h
    obtain ⟨d, ht, hopen, hends⟩ := h
    exact ⟨ht, hopen, (Prod.mk.inj hends).1⟩
  · intro h
    obtain ⟨ht, hopen, rfl⟩ := h
    exact ⟨t.target, ht, hopen, rfl⟩

/-- A graph can be built if all transitions have different ends, be they open or not. -/
theorem exists_build {network : Network} {facts : Facts} {c : Coarsening}
    {transitions : List Transition} (h : rules network facts c = .ok transitions)
    (hends : (transitions.map Transition.ends).Nodup) : ∃ g, build network facts c = .ok g := by
  have hopen : (TransitionTable.openEnds transitions).Nodup :=
    hends.sublist (List.filter_sublist.map _)
  obtain ⟨table, htable⟩ := (TransitionTable.ofList_ok_iff transitions).mpr hopen
  refine ⟨⟨c, table, .ofNetwork network⟩, ?_⟩
  simp only [build, h, htable, ok_bind]
  rfl

theorem moves_iff {transitions : List Transition} {g : Graph}
    (h : TransitionTable.ofList transitions = .ok g.table) (a b : Stage × Packet) :
    g.Moves a b ↔
      ∃ t ∈ transitions, t.source = a.1 ∧ t.target = b.1 ∧ t.Crosses a.2 b.2 := by
  simp only [Moves, mem_successors, TransitionTable.between?_ofList h]
  constructor
  · intro h
    obtain ⟨t, ⟨d, ht, _, hends⟩, htarget, hcross⟩ := h
    exact ⟨t, ht, (Prod.mk.inj hends).1, htarget, hcross⟩
  · intro h
    obtain ⟨t, ht, hsource, htarget, hcross⟩ := h
    have hopen : t.Open := HeaderSpace.isEmpty_eq_false_of_contains hcross.1
    exact ⟨t, ⟨t.target, ht, hopen, by rw [Transition.ends, hsource]⟩, htarget, hcross⟩

theorem moves_iff_forwards {network : Network} {facts : Facts} {g : Graph}
    (h : build network facts .precise = .ok g) (a b : Stage × Packet) :
    g.Moves a b ↔ Forwards network facts a b := by
  obtain ⟨s, transitions, rfl, hprecise, hs, htransitions, htable, _⟩ := build_eq_ok h
  rw [moves_iff htable]
  constructor
  · intro h
    obtain ⟨t, ht, hsource, htarget, hcross⟩ := h
    have hforwards := Snapshot.forwards_of_crosses hs hprecise htransitions ht hcross
    rwa [hsource, htarget] at hforwards
  · exact Snapshot.exists_crosses_of_forwards hs hprecise htransitions

/-- The transition from an interface into its routing domain is open for the packets that the filter
admits. -/
theorem exists_permittedIn {network : Network} {facts : Facts} {g : Graph}
    (h : build network facts .precise = .ok g) {node : String} {i : Interface}
    (hi : network.ListsInterface node i) {p : Packet}
    (hp : network.admits node i.incomingFilter p = true) :
    ∃ t, g.transition? (.preIn ⟨node, i.name⟩) (.postIn node i.vrf) = some t ∧
      ∀ q, t.guard.contains q = network.admits node i.incomingFilter q := by
  obtain ⟨s, transitions, rfl, hprecise, hs, htransitions, htable, _⟩ := build_eq_ok h
  obtain ⟨space, hspace⟩ :=
    hs.exists_permitted hi.hasInterface Interface.mem_referencedAcls_of_incoming
  have hguard := hs.contains_permitted hprecise hspace
  have hmem := Snapshot.mem_of_emits htransitions (.permittedIn hi hspace)
  have hopen : space.isEmpty = false :=
    HeaderSpace.isEmpty_eq_false_of_contains ((hguard p).trans hp)
  exact ⟨_, (TransitionTable.between?_ofList htable _ _).mpr ⟨hmem, hopen, rfl⟩, hguard⟩

end Graph

/-- A router whose only interface is linked to itself. It lets TCP packets in, and gives those that
it sends a new source. -/
def Network.loop : Network := {("r", {
  hostname := "r"
  interfaces := {("a", {
    name := "a"
    vrf := "v"
    addresses := [⟨1⟩]
    incomingFilter := some "tcp"
    sourceNats := [⟨"tcp", ⟨5⟩, ⟨7⟩⟩] })}
  vrfs := {("v", { name := "v", interfaces := {"a"} })}
  acls := {("tcp", ⟨"tcp", [⟨.permit, { ipProtocols := [6] }⟩]⟩)} })}

/-- Everything is routed back over the link. -/
def Facts.loop : Facts where
  routable := {("r", {("v", .any)})}
  arpTrue := {(⟨⟨"r", "a"⟩, ⟨"r", "a"⟩⟩, .any)}

theorem Graph.exists_build_loop (c : Coarsening) : ∃ g, build .loop .loop c = .ok g := by
  cases c with
  | precise => exact exists_build rfl (by decide +kernel)
  | dstIpOnly => exact exists_build rfl (by decide +kernel)

/-- The loop, and a router that sends to it. -/
def Network.fedLoop : Network := Network.loop.insert "s" {
  hostname := "s"
  interfaces := {("b", { name := "b", vrf := "w" })}
  vrfs := {("w", { name := "w", interfaces := {"b"} })} }

/-- Both routers send everything to the loop. -/
def Facts.fedLoop : Facts :=
  (Facts.loop.setRoutable "s" "w" .any).setArpTrue ⟨⟨"s", "b"⟩, ⟨"r", "a"⟩⟩ .any

theorem Graph.exists_build_fedLoop (c : Coarsening) : ∃ g, build .fedLoop .fedLoop c = .ok g := by
  cases c with
  | precise => exact exists_build rfl (by decide +kernel)
  | dstIpOnly => exact exists_build rfl (by decide +kernel)

end Dataplane
