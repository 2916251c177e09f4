import Dataplane.Proofs.Conservation

/-! What the nodes decide adds up to what the network decides. -/
namespace Dataplane

namespace Outcome

/-- Packets that reach one of the stages. -/
def spaceAtAny (o : Outcome) (stages : List Stage) : HeaderSpace :=
  stages.foldl (fun found r => found.union (o.spaceAt r)) .empty

theorem contains_spaceAtAny (o : Outcome) (stages : List Stage) (q : Packet) :
    (o.spaceAtAny stages).contains q = true ↔ ∃ r ∈ stages, (o.spaceAt r).contains q = true := by
  simp [spaceAtAny, HeaderSpace.contains_foldl_union]

end Outcome

namespace Graph

variable {network : Network} {facts : Facts} {c : Coarsening} {g : Graph} {roots : Roots}

/-- A packet that was not injected at the stage arrived on a transition. -/
theorem Reaches.exists_last {r : Stage} {q : Packet} (h : g.Reaches roots r q) (hr : r ∉ roots) :
    ∃ r' p, g.Reaches roots r' p ∧ g.Moves (r', p) (r, q) := by
  obtain ⟨start, x, p, hstart, hp, hpath⟩ := h
  rcases hpath.cases_tail with heq | ⟨⟨r', p'⟩, hpath, hmove⟩
  · obtain ⟨rfl, rfl⟩ := Prod.mk.inj heq
    exact absurd (mem_iff_exists.mpr ⟨x, hstart⟩) hr
  · exact ⟨r', p', ⟨start, x, p, hstart, hp, hpath⟩, hmove⟩

/-- If the rules that lead to a stage pass all packets on as they are, the packets there are those
of the stages that they start from. -/
theorem spaceAt_eq_spaceAtAny {s : Snapshot}
    (hsuccessors : ∀ r t, t ∈ g.successors r ↔ s.Emits t ∧ t.Open ∧ t.source = r) {limits : Limits}
    {o : Outcome} (hsolve : g.solve roots limits = .ok o) (d : Stage) (sources : List Stage)
    (hd : d ∉ roots) (hin : ∀ t, s.Emits t → t.target = d → t.source ∈ sources ∧ t.nat = [])
    (hout : ∀ r ∈ sources, ∀ q, g.Reaches roots r q →
      s.Emits { source := r, target := d, guard := .full }) :
    o.spaceAt d = o.spaceAtAny sources := by
  refine HeaderSpace.eq_of_contains_iff fun q => ?_
  rw [o.contains_spaceAtAny]
  simp only [contains_solve hsolve]
  constructor
  · intro hreach
    obtain ⟨r, p, hreach, t, ht, htarget, hcross⟩ := hreach.exists_last hd
    obtain ⟨hemits, _, rfl⟩ := (hsuccessors r t).mp ht
    obtain ⟨hr, hnat⟩ := hin t hemits htarget
    have hsame : q = p := ((Transition.crosses_of_nil hnat).mp hcross).2
    subst hsame
    exact ⟨t.source, hr, hreach⟩
  · intro hreach
    obtain ⟨r, hr, hreach⟩ := hreach
    have ht := (hsuccessors r _).mpr ⟨hout r hr q hreach, rfl, rfl⟩
    exact hreach.move ⟨_, ht, rfl, HeaderSpace.contains_full q, rfl⟩

/-- What the network accepts, drops and cannot deliver is what its nodes accept, drop and cannot
deliver, and a node drops packets for one of four causes. -/
theorem dispositions_add_up (h : build network facts c = .ok g)
    (hnames : ∀ e i, network.interface? e = some i → i.name = e.interface) {limits : Limits}
    {o : Outcome} (hroots : ∀ r ∈ roots, r.isOriginate = true)
    (hsolve : g.solve roots limits = .ok o) :
    o.accepted = o.spaceAtAny (network.keys.map .nodeAccept) ∧
    o.dropped = o.spaceAtAny (network.keys.map .nodeDrop) ∧
    (∀ node, o.spaceAt (.nodeDrop node) = o.spaceAtAny (DropCause.all.map (.dropped · node))) ∧
    o.unreachable =
      o.spaceAtAny (network.interfaceEntries.map fun entry => .nodeUnreachable entry.1) := by
  have hroot {r : Stage} (hr : r.isOriginate = false) : r ∉ roots := fun hmem => by
    rw [hroots r hmem] at hr
    contradiction
  obtain ⟨s, rfl, _, _, hsuccessors⟩ := exists_snapshot h
  have hgather (d : Stage) (sources : List Stage) (hd : d.isOriginate = false) :=
    spaceAt_eq_spaceAtAny hsuccessors hsolve d sources (hroot hd)
  refine ⟨hgather _ _ rfl (fun t ht htarget => ?_) fun r hr _ _ => ?_,
    hgather _ _ rfl (fun t ht htarget => ?_) fun r hr _ _ => ?_,
    fun node => hgather _ _ rfl (fun t ht htarget => ?_) fun r hr q hreach => ?_,
    hgather _ _ rfl (fun t ht htarget => ?_) fun r hr _ _ => ?_⟩
  · cases ht with
    | nodeAccepted hnode => exact ⟨List.mem_map_of_mem (Std.ExtTreeMap.mem_keys.mpr hnode), rfl⟩
    | _ => cases htarget
  · obtain ⟨node, hnode, rfl⟩ := List.mem_map.mp hr
    exact .nodeAccepted (Std.ExtTreeMap.mem_keys.mp hnode)
  · cases ht with
    | nodeDropped hnode => exact ⟨List.mem_map_of_mem (Std.ExtTreeMap.mem_keys.mpr hnode), rfl⟩
    | _ => cases htarget
  · obtain ⟨node, hnode, rfl⟩ := List.mem_map.mp hr
    exact .nodeDropped (Std.ExtTreeMap.mem_keys.mp hnode)
  · cases ht with
    | dropCause cause _ =>
      cases htarget
      exact ⟨List.mem_map_of_mem (by cases cause <;> decide), rfl⟩
    | _ => cases htarget
  · -- A packet is dropped at configured nodes only.
    obtain ⟨cause, _, rfl⟩ := List.mem_map.mp hr
    obtain ⟨_, _, _, t, ht, htarget, _⟩ := hreach.exists_last (hroot rfl)
    have hnode := declares_of_hasStage h ⟨t, mem_transitions ht, Or.inr htarget⟩
    exact .dropCause cause hnode
  · cases ht with
    | nodeUnreachable hi =>
      obtain ⟨key, hi⟩ := hi
      rw [hnames _ _ hi]
      exact ⟨List.mem_map.mpr ⟨_, Network.mem_interfaceEntries.mpr hi, rfl⟩, rfl⟩
    | _ => cases htarget
  · obtain ⟨⟨e, i⟩, hi, rfl⟩ := List.mem_map.mp hr
    have hi := Network.mem_interfaceEntries.mp hi
    have hemits : s.Emits _ := .nodeUnreachable ⟨e.interface, hi⟩
    rwa [hnames e i hi] at hemits

end Graph

namespace Network

/-- The router that feeds the loop has no address, no filter and no rule for sources. -/
theorem forwards_fedLoop (p : Packet) : Relation.ReflTransGen (Forwards .fedLoop .fedLoop)
    (.originateVrf "s" "w", p) (.preIn ⟨"r", "a"⟩, p) := by
  have howns : ¬OwnsAddress .fedLoop "s" "w" p.dstAddress := by
    rintro ⟨_, name, i, _, _, hi, ha⟩
    have hentries : ∀ entry ∈ interfaceEntries .fedLoop,
        entry.1.node = "s" → entry.2.addresses = [] := by decide
    rw [hentries (⟨"s", name⟩, i) (mem_interfaceEntries.mpr hi) rfl] at ha
    contradiction
  have hlink : Link.mk ⟨"s", "b"⟩ ⟨"r", "a"⟩ ∈ Facts.fedLoop.arpTrue := by decide
  have hanswers : Facts.fedLoop.answers ⟨⟨"s", "b"⟩, ⟨"r", "a"⟩⟩ p.dstAddress = true := rfl
  have hsender : interface? .fedLoop ⟨"s", "b"⟩ = some { name := "b", vrf := "w" } := rfl
  refine .head (.originateVrf rfl) (.head (.routed rfl howns rfl) (.head (.sent hanswers hsender) ?_))
  exact .head (.translated hlink hsender rfl) (.single (.permittedOut hlink hsender rfl))

/-- The loop accepts TCP packets to its own address. -/
theorem accepts_fedLoop : Relation.ReflTransGen (Forwards .fedLoop .fedLoop)
    (.originateVrf "s" "w", .probe 9 6) (.accept, .probe 9 6) := by
  have hlisted : ListsInterface .fedLoop "r" _ := ⟨"v", _, "a", rfl, by decide, rfl⟩
  have howns : OwnsAddress .fedLoop "r" "v" ⟨1⟩ := ⟨_, "a", _, rfl, by decide, rfl, by decide⟩
  refine (forwards_fedLoop _).trans (.head (.permittedIn hlisted (by decide)) ?_)
  exact .head (.accepted howns) (.single (.nodeAccepted (by decide)))

/-- The filter of the loop drops all other packets. -/
theorem drops_fedLoop : Relation.ReflTransGen (Forwards .fedLoop .fedLoop)
    (.originateVrf "s" "w", .probe 9 17) (.drop, .probe 9 17) := by
  have hlisted : ListsInterface .fedLoop "r" _ := ⟨"v", _, "a", rfl, by decide, rfl⟩
  refine (forwards_fedLoop _).trans (.head (.deniedIn hlisted (by decide)) ?_)
  exact .head (.dropCause .aclIn (by decide)) (.single (.nodeDropped (by decide)))

end Network

namespace Graph

/-- Of the traffic that the second router sends, the loop accepts one part and drops another. -/
theorem dispositions_add_up_fedLoop : ∃ g limits o, build .fedLoop .fedLoop .precise = .ok g ∧
    g.solve {(.originateVrf "s" "w", .full)} limits = .ok o ∧
    o.accepted.contains (.probe 9 6) = true ∧ o.dropped.contains (.probe 9 17) = true ∧
    o.accepted = o.spaceAtAny [.nodeAccept "r", .nodeAccept "s"] ∧
    o.dropped = o.spaceAtAny [.nodeDrop "r", .nodeDrop "s"] ∧
    o.spaceAt (.nodeDrop "r") = o.spaceAtAny (DropCause.all.map (.dropped · "r")) ∧
    o.unreachable = o.spaceAtAny [.nodeUnreachable ⟨"r", "a"⟩, .nodeUnreachable ⟨"s", "b"⟩] := by
  obtain ⟨g, hg⟩ := exists_build_fedLoop .precise
  obtain ⟨n, hn⟩ := g.exists_solve_ok {(.originateVrf "s" "w", .full)}
  obtain ⟨o, ho⟩ := hn { maxIterations := n } rfl (Nat.le_refl n)
  have hnames (e : Endpoint) (i : Interface) (hi : Network.interface? .fedLoop e = some i) :
      i.name = e.interface := by
    have hentries : ∀ entry ∈ Network.interfaceEntries .fedLoop,
        entry.2.name = entry.1.interface := by decide
    exact hentries (e, i) (Network.mem_interfaceEntries.mpr hi)
  have hroots (r : Stage) (hr : r ∈ ({(.originateVrf "s" "w", .full)} : Roots)) :
      r.isOriginate = true := by
    have hkeys : ∀ r ∈ ({(.originateVrf "s" "w", .full)} : Roots).keys, r.isOriginate = true := by
      decide
    exact hkeys r (Std.ExtTreeMap.mem_keys.mpr hr)
  have hreaches {s : Stage} {p : Packet} (hpath : Relation.ReflTransGen
      (Forwards .fedLoop .fedLoop) (.originateVrf "s" "w", p) (s, p)) :
      (o.spaceAt s).contains p = true := by
    have hmoves : Relation.ReflTransGen g.Moves (.originateVrf "s" "w", p) (s, p) :=
      Relation.ReflTransGen.mono (fun a b => (moves_iff_forwards hg a b).mpr) _ _ hpath
    exact (contains_solve ho s p).mpr ⟨_, .full, p, rfl, HeaderSpace.contains_full p, hmoves⟩
  obtain ⟨haccepted, hdropped, hcauses, hunreachable⟩ := dispositions_add_up hg hnames hroots ho
  exact ⟨g, _, o, hg, ho, hreaches Network.accepts_fedLoop, hreaches Network.drops_fedLoop,
    haccepted, hdropped, hcauses "r", hunreachable⟩

end Graph
end Dataplane
