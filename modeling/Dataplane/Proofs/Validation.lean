import Dataplane.Proofs.Origins

/-! A graph can be built exactly if the network and the facts fit together. -/
namespace Dataplane

/-- The table has one place for a transition, so one that is listed twice has no packets. -/
theorem TransitionTable.contains_of_twice {transitions : List Transition}
    (h : (openEnds transitions).Nodup) {t : Transition} (htwice : [t, t].Sublist transitions)
    (p : Packet) : t.guard.contains p = false := by
  have hclosed : ¬t.Open := by
    intro hopen
    have hends : openEnds [t, t] = [t.ends, t.ends] := by simp [openEnds, hopen]
    have hnodup := h.sublist (openEnds_sublist htwice)
    rw [hends] at hnodup
    simp at hnodup
  rw [Transition.Open, Bool.not_eq_false] at hclosed
  exact (HeaderSpace.isEmpty_iff_contains _).mp hclosed p

namespace Snapshot

variable {s : Snapshot} {transitions : List Transition}

/-- If a name is listed twice, so are the transitions of its interface into the node. One of them
is open: what a filter does not deny it permits. -/
theorem Compiled.nodup_listedEndpoints {facts : Facts} (hs : s.Compiled facts)
    (h : s.transitions = .ok transitions) (hends : (TransitionTable.openEnds transitions).Nodup) :
    s.network.listedEndpoints.Nodup := by
  obtain ⟨p, _⟩ := (HeaderSpace.isEmpty_eq_false_iff .full).mp rfl
  obtain ⟨denied, hdenied, hdsub⟩ := exists_family_sublist h (show deniedIn ∈ _ by simp [families])
  obtain ⟨permitted, hpermitted, hpsub⟩ :=
    exists_family_sublist h (show permittedIn ∈ _ by simp [families])
  obtain ⟨listed, hlisted, hdenied⟩ := bind_eq_ok.mp hdenied
  obtain ⟨listed', hlisted', hpermitted⟩ := bind_eq_ok.mp hpermitted
  obtain rfl := Except.ok.inj (hlisted.symm.trans hlisted')
  rw [List.nodup_iff_sublist]
  intro e htwice
  obtain ⟨⟨node, i⟩, _, hi⟩ := twice_of_mapM hlisted htwice
  obtain ⟨t, ht, htwice⟩ := twice_of_mapM hpermitted hi
  have hpermit := TransitionTable.contains_of_twice hends (htwice.trans hpsub) p
  simp only [bind_eq_ok, pure_eq_ok] at ht
  obtain ⟨space, hspace, rfl⟩ := ht
  cases hfilter : i.incomingFilter with
  | none =>
    rw [hfilter] at hspace
    cases hspace
    simp at hpermit
  | some name =>
    obtain ⟨t', ht', htwice'⟩ := twice_of_mapM (a := (node, i, name)) hdenied
      (.trans (by simp [hfilter]) (hi.filterMap _))
    have hdeny := TransitionTable.contains_of_twice hends (htwice'.trans hdsub) p
    simp only [bind_eq_ok, pure_eq_ok] at ht'
    obtain ⟨acl, hacl, rfl⟩ := ht'
    simp only [hfilter, Snapshot.permitted, hacl, ok_bind, pure_eq_ok] at hspace
    subst hspace
    rcases hs.permit_or_deny hacl p with hp | hp
    · rw [hp] at hpermit
      contradiction
    · rw [hp] at hdeny
      contradiction

end Snapshot

namespace Graph

variable {network : Network} {facts : Facts}

theorem wellPosed_of_build {c : Coarsening} {g : Graph} (h : build network facts c = .ok g) :
    WellPosed network facts := by
  obtain ⟨s, transitions, rfl, _, hs, htransitions, htable, _⟩ := build_eq_ok h
  have hends := (TransitionTable.ofList_ok_iff transitions).mp ⟨_, htable⟩
  obtain ⟨hacls, hreferences⟩ := (Network.exists_compileAcls_iff _ _).mp ⟨_, hs.acls⟩
  obtain ⟨hroutable, hnullRouted, hlinks, hunreachable, _⟩ :=
    (Forwarding.exists_ofFacts_iff _ _).mp ⟨_, hs.forwarding⟩
  obtain ⟨hlisted, hsenders⟩ := hs.exists_transitions_iff.mp ⟨_, htransitions⟩
  exact {
    acls := hacls
    references := hreferences
    routable := hroutable
    nullRouted := hnullRouted
    links := hlinks
    unreachable := hunreachable
    listed := Snapshot.exists_listedInterfaces_iff.mp hlisted
    senders := hsenders
    names := Network.nodup_namedEndpoints_iff.mp (Snapshot.nodup_namedEndpoints htransitions hends)
    listedOnce :=
      Network.nodup_listedEndpoints_iff.mp (hs.nodup_listedEndpoints htransitions hends) }

theorem exists_build_of_wellPosed (h : WellPosed network facts) (c : Coarsening) :
    ∃ g, build network facts c = .ok g := by
  obtain ⟨acls, hacls⟩ := (network.exists_compileAcls_iff c).mpr ⟨h.acls, h.references⟩
  have hinterfaces : ∀ node vrf v, network.vrf? node vrf = some v →
      ∀ name ∈ v.interfaces, ∃ i, network.interface? ⟨node, name⟩ = some i := by
    intro node vrf v hv name hname
    obtain ⟨i, hi, _⟩ := h.listed node vrf v hv name hname
    exact ⟨i, hi⟩
  obtain ⟨forwarding, hforwarding⟩ := (Forwarding.exists_ofFacts_iff network facts).mpr
    ⟨h.routable, h.nullRouted, h.links, h.unreachable, hinterfaces⟩
  let s : Snapshot := ⟨network, acls, forwarding, c⟩
  have hs : s.Compiled facts := ⟨hacls, hforwarding⟩
  obtain ⟨transitions, htransitions⟩ := hs.exists_transitions_iff.mpr
    ⟨Snapshot.exists_listedInterfaces_iff.mpr h.listed, h.senders⟩
  refine exists_build ?_ (Snapshot.nodup_ends (Network.nodup_namedEndpoints_iff.mpr h.names)
    (Network.nodup_listedEndpoints_iff.mpr h.listedOnce) htransitions)
  rw [rules, hacls, ok_bind, hforwarding, ok_bind]
  exact htransitions

/-- The checks of a build refuse what does not fit together and nothing else, whichever the
coarsening. -/
theorem build_ok_iff_wellPosed (network : Network) (facts : Facts) (c : Coarsening) :
    (∃ g, build network facts c = .ok g) ↔ WellPosed network facts := by
  constructor
  · intro h
    obtain ⟨g, hg⟩ := h
    exact wellPosed_of_build hg
  · intro h
    exact exists_build_of_wellPosed h c

end Graph
end Dataplane
