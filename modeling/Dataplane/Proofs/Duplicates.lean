import Dataplane.Proofs.Tabulation
import Dataplane.Proofs.Validation

/-! When a build reports a duplicate transition: all checks before have passed, but a name is taken
or listed twice. -/
namespace Dataplane

/-- The computation succeeds, or fails with such a fault. -/
def FailsOnly {ε α : Type} (P : ε → Prop) (x : Except ε α) : Prop := ∀ e, x = .error e → P e

namespace FailsOnly

variable {ε α β κ : Type} {P : ε → Prop}

theorem ok (a : α) : FailsOnly P (.ok a) := by
  intro e h
  cases h

theorem error {e : ε} (h : P e) : FailsOnly P (.error e : Except ε α) := by
  rintro _ ⟨⟩
  exact h

theorem bind {x : Except ε α} {f : α → Except ε β} (hx : FailsOnly P x)
    (hf : ∀ a, FailsOnly P (f a)) : FailsOnly P (x >>= f) := by
  cases x with
  | error e => exact error (hx e rfl)
  | ok a => exact hf a

theorem map {x : Except ε α} (hx : FailsOnly P x) (f : α → β) :
    FailsOnly P (x >>= fun a => pure (f a)) := hx.bind fun a => ok (f a)

theorem mapM {f : α → Except ε β} {l : List α} (hf : ∀ a ∈ l, FailsOnly P (f a)) :
    FailsOnly P (l.mapM f) := by
  induction l with
  | nil => exact ok []
  | cons a rest ih =>
    have hrest := ih fun b hb => hf b (List.mem_cons_of_mem _ hb)
    rw [List.mapM_cons]
    exact (hf a List.mem_cons_self).bind fun b => hrest.map _

theorem foldlM {f : β → α → Except ε β} (hf : ∀ b a, FailsOnly P (f b a)) (l : List α) (b : β) :
    FailsOnly P (l.foldlM f b) := by
  induction l generalizing b with
  | nil => exact ok b
  | cons a rest ih =>
    rw [List.foldlM_cons]
    exact (hf b a).bind ih

theorem traverse [Ord κ] [Std.TransOrd κ] {f : κ → α → Except ε β}
    (hf : ∀ k a, FailsOnly P (f k a)) (t : Std.ExtTreeMap κ α) :
    FailsOnly P (Dataplane.traverse f t) := by
  refine foldlM (fun _ entry => ?_) t.toList ∅
  exact (hf entry.1 entry.2).map _

end FailsOnly

/-- The fault is not that there are two transitions between two stages. -/
def ModelError.Unduplicated : ModelError → Prop
  | .duplicateTransition .. => False
  | _ => True

open ModelError

namespace IpSpace

mutual

theorem failsOnly_headers (f : Field) :
    (space : IpSpace) → FailsOnly Unduplicated (space.headers f)
  | .any => by
    rw [headers]
    exact .ok _
  | .empty => by
    rw [headers]
    exact .ok _
  | .single _ => by
    rw [headers]
    exact .ok _
  | .block _ length => by
    rw [headers]
    split
    · exact .error trivial
    · exact .ok _
  | .range first last => by
    rw [headers]
    split
    · exact .error trivial
    · exact .ok _
  | .union spaces => by
    rw [headers]
    exact failsOnly_unionHeaders f spaces .empty
  | .difference kept removed => by
    have hkept := failsOnly_headers f kept
    have hremoved := failsOnly_headers f removed
    rw [headers]
    exact hkept.bind fun _ => hremoved.map _

theorem failsOnly_unionHeaders (f : Field) : (spaces : List IpSpace) → (found : HeaderSpace) →
    FailsOnly Unduplicated (unionHeaders f found spaces)
  | [], found => by
    rw [unionHeaders]
    exact .ok found
  | space :: rest, _ => by
    have hspace := failsOnly_headers f space
    rw [unionHeaders]
    exact hspace.bind fun _ => failsOnly_unionHeaders f rest _

end

end IpSpace

theorem PortRange.failsOnly_headers (f : Field) (ranges : List PortRange) :
    FailsOnly Unduplicated (headers f ranges) := by
  unfold headers
  split
  · exact .ok _
  · refine .foldlM (fun found r => ?_) _ _
    split
    · exact .error trivial
    · exact .ok _

theorem HeaderMatch.failsOnly_headers (m : HeaderMatch) : FailsOnly Unduplicated m.headers :=
  (IpSpace.failsOnly_headers _ _).bind fun _ => (IpSpace.failsOnly_headers _ _).bind fun _ =>
    (PortRange.failsOnly_headers _ _).bind fun _ => (PortRange.failsOnly_headers _ _).map _

theorem Acl.failsOnly_compile (a : Acl) : FailsOnly Unduplicated a.compile :=
  FailsOnly.map (.mapM fun line _ => line.condition.failsOnly_headers.map _) _

theorem Network.failsOnly_compileAcls (c : Coarsening) (network : Network) :
    FailsOnly Unduplicated (network.compileAcls c) := by
  refine .traverse (fun node config => ?_) network
  refine FailsOnly.bind (.traverse (fun _ acl => acl.failsOnly_compile.map _) _) fun acls => ?_
  split
  · exact .error trivial
  · exact .ok _

theorem Configuration.failsOnly_vrfAddresses (config : Configuration) (node : String) (v : Vrf) :
    FailsOnly Unduplicated (config.vrfAddresses node v) := by
  refine .foldlM (fun found name => ?_) _ _
  split
  · exact .ok _
  · exact .error trivial

namespace Network

variable (network : Network)

theorem failsOnly_findNode (node : String) : FailsOnly Unduplicated (network.findNode node) := by
  unfold findNode
  split
  · exact .ok _
  · exact .error trivial

theorem failsOnly_checkVrf (node vrf : String) :
    FailsOnly Unduplicated (network.checkVrf node vrf) := by
  refine (network.failsOnly_findNode node).bind fun config => ?_
  split
  · exact .ok _
  · exact .error trivial

theorem failsOnly_findInterface (e : Endpoint) :
    FailsOnly Unduplicated (network.findInterface e) := by
  refine (network.failsOnly_findNode e.node).bind fun config => ?_
  split
  · exact .ok _
  · exact .error trivial

theorem failsOnly_vrfFacts (facts : Table (Table IpSpace)) :
    FailsOnly Unduplicated (network.vrfFacts facts) :=
  .traverse (fun node => .traverse fun vrf space =>
    (network.failsOnly_checkVrf node vrf).bind fun _ => space.failsOnly_headers _) facts

theorem failsOnly_linkFacts (facts : Std.ExtTreeMap Link IpSpace) :
    FailsOnly Unduplicated (network.linkFacts facts) :=
  .traverse (fun _ space => (network.failsOnly_findInterface _).bind fun _ =>
    (network.failsOnly_findInterface _).bind fun _ => space.failsOnly_headers _) facts

theorem failsOnly_neighborFacts (facts : Table (Table (Table IpSpace))) :
    FailsOnly Unduplicated (network.neighborFacts facts) :=
  .traverse (fun node => .traverse fun vrf interfaces =>
    (network.failsOnly_checkVrf node vrf).bind fun _ => .traverse (fun _ space =>
      (network.failsOnly_findInterface _).bind fun _ => space.failsOnly_headers _) interfaces) facts

theorem failsOnly_acceptedSpaces : FailsOnly Unduplicated network.acceptedSpaces :=
  .traverse (fun node config => .traverse
    (fun _ v => (config.failsOnly_vrfAddresses node v).map _) config.vrfs) network

end Network

theorem Forwarding.failsOnly_ofFacts (network : Network) (facts : Facts) :
    FailsOnly Unduplicated (ofFacts network facts) :=
  (network.failsOnly_vrfFacts _).bind fun _ => (network.failsOnly_vrfFacts _).bind fun _ =>
    (network.failsOnly_linkFacts _).bind fun _ => (network.failsOnly_neighborFacts _).bind fun _ =>
      network.failsOnly_acceptedSpaces.map _

namespace Snapshot

variable (s : Snapshot)

theorem failsOnly_acl (node name : String) : FailsOnly Unduplicated (s.acl node name) := by
  unfold acl
  split
  · exact .ok _
  · exact .error trivial

theorem failsOnly_permitted (node : String) (filter : Option String) :
    FailsOnly Unduplicated (s.permitted node filter) := by
  cases filter with
  | none => exact .ok _
  | some name => exact (s.failsOnly_acl node name).map _

theorem failsOnly_listedInterfaces : FailsOnly Unduplicated s.listedInterfaces :=
  .mapM fun _ _ => (s.network.failsOnly_findInterface _).bind fun _ =>
    (s.network.failsOnly_checkVrf _ _).map _

theorem failsOnly_links : FailsOnly Unduplicated s.links :=
  .mapM fun _ _ => (s.network.failsOnly_findInterface _).map _

theorem failsOnly_natRules (node : String) (i : Interface) :
    FailsOnly Unduplicated (s.natRules node i) := by
  refine .mapM fun nat _ => (s.failsOnly_acl _ _).bind fun acl => ?_
  dsimp only
  split
  · exact .error trivial
  · exact .ok _

theorem failsOnly_family {family : Family} (hfamily : family ∈ families) :
    FailsOnly Unduplicated (family s) := by
  obtain ⟨_, hposition⟩ := List.mem_iff_getElem?.mp hfamily
  -- Families that look nothing up cannot fail.
  cases hposition using families_cases with
  | originateLinks => exact .ok _
  | originateVrfs => exact .ok _
  | deniedIn =>
    exact s.failsOnly_listedInterfaces.bind fun _ => .mapM fun _ _ => (s.failsOnly_acl _ _).map _
  | permittedIn =>
    exact s.failsOnly_listedInterfaces.bind fun _ =>
      .mapM fun _ _ => (s.failsOnly_permitted _ _).map _
  | accepted => exact .ok _
  | unrouted => exact .ok _
  | routed => exact .ok _
  | nullRouted => exact .ok _
  | unanswered =>
    exact .mapM fun _ _ => (s.network.failsOnly_findInterface _).bind fun _ =>
      (s.failsOnly_permitted _ _).map _
  | sent =>
    exact .mapM fun _ _ => (s.network.failsOnly_findInterface _).bind fun _ =>
      (s.network.failsOnly_checkVrf _ _).map _
  | sourceNat =>
    exact .mapM fun _ _ => (s.network.failsOnly_findInterface _).bind fun _ =>
      (s.failsOnly_natRules _ _).map _
  | deniedOut => exact s.failsOnly_links.bind fun _ => .mapM fun _ _ => (s.failsOnly_acl _ _).map _
  | permittedOut =>
    exact s.failsOnly_links.bind fun _ => .mapM fun _ _ => (s.failsOnly_permitted _ _).map _
  | nodeAccepted => exact .ok _
  | dropCauses => exact .ok _
  | nodeDropped => exact .ok _
  | nodeUnreachable => exact .ok _

theorem failsOnly_transitions : FailsOnly Unduplicated s.transitions :=
  FailsOnly.map (.mapM fun _ hfamily => s.failsOnly_family hfamily) _

end Snapshot

namespace Graph

variable {network : Network} {facts : Facts} {c : Coarsening}

theorem failsOnly_rules (network : Network) (facts : Facts) (c : Coarsening) :
    FailsOnly Unduplicated (rules network facts c) :=
  (network.failsOnly_compileAcls c).bind fun _ =>
    (Forwarding.failsOnly_ofFacts network facts).bind fun _ => Snapshot.failsOnly_transitions _

/-- The table takes all transitions if the names of interfaces and the listed names are distinct. -/
theorem exists_ofList_iff {transitions : List Transition}
    (h : rules network facts c = .ok transitions) :
    (∃ table, TransitionTable.ofList transitions = .ok table) ↔
      network.namedEndpoints.Nodup ∧ network.listedEndpoints.Nodup := by
  obtain ⟨s, rfl, _, hs, htransitions⟩ := rules_eq_ok h
  rw [TransitionTable.ofList_ok_iff]
  constructor
  · intro hends
    exact ⟨Snapshot.nodup_namedEndpoints htransitions hends,
      hs.nodup_listedEndpoints htransitions hends⟩
  · rintro ⟨hnames, hlisted⟩
    exact (Snapshot.nodup_ends hnames hlisted htransitions).sublist (List.filter_sublist.map _)

theorem exists_duplicate_iff :
    (∃ source target,
      build network facts c = .error (.duplicateTransition source target)) ↔
      (∃ transitions, rules network facts c = .ok transitions) ∧
        ¬(network.namedEndpoints.Nodup ∧ network.listedEndpoints.Nodup) := by
  unfold build
  cases hrules : rules network facts c with
  | error e =>
    refine iff_of_false ?_ (by simp)
    rintro ⟨source, target, hbuild⟩
    obtain rfl : e = .duplicateTransition source target := Except.error.inj hbuild
    exact failsOnly_rules network facts c _ hrules
  | ok transitions =>
    rw [← exists_ofList_iff hrules, ok_bind]
    cases htable : TransitionTable.ofList transitions with
    | ok table => simp [bind, Except.bind, pure, Except.pure]
    | error e =>
      obtain ⟨_, t, _, _, _, _, rfl⟩ := TransitionTable.ofList_eq_error.mp htable
      exact iff_of_true ⟨t.source, t.target, rfl⟩ ⟨⟨_, rfl⟩, by simp⟩

end Graph
end Dataplane
