import Dataplane.Proofs.Duplicates
import Dataplane.Proofs.Filling

/-! Routing domains and the interfaces they list, on devices that are put together interface by
interface. A domain lists all interfaces that were ever added to it. These are the interfaces that
name it unless one was added again with another domain, and such a device has no graph. -/
namespace Dataplane

/-- Interfaces of one name all have one routing domain. -/
def Interface.Unmoved (added : List Interface) : Prop :=
  ∀ i ∈ added, ∀ j ∈ added, i.name = j.name → i.vrf = j.vrf

namespace Configuration

variable {c : Configuration} {vrf name : String}

/-- The device to which the interfaces were added in order, beginning with none. -/
def assemble (hostname : String) (added : List Interface) : Configuration :=
  added.foldl addInterface { hostname }

def Lists (c : Configuration) (vrf name : String) : Prop :=
  ∃ v, c.vrfs[vrf]? = some v ∧ name ∈ v.interfaces

/-- The interface that is stored under the name has the routing domain. -/
def Assigns (c : Configuration) (vrf name : String) : Prop :=
  ∃ i, c.interfaces[name]? = some i ∧ i.vrf = vrf

theorem lists_addInterface {i : Interface} :
    (c.addInterface i).Lists vrf name ↔ c.Lists vrf name ∨ i.vrf = vrf ∧ i.name = name := by
  unfold Lists addInterface
  dsimp only
  rw [Std.ExtTreeMap.getElem?_insert]
  by_cases hvrf : i.vrf = vrf
  · subst vrf
    cases hv : c.vrfs[i.vrf]? with
    | none => simp [Std.ExtTreeMap.getD_eq_getD_getElem?, hv]
    | some v => simp [Std.ExtTreeMap.getD_eq_getD_getElem?, hv, or_comm]
  · simp [hvrf]

/-- No listing is ever taken back. -/
theorem lists_foldl (added : List Interface) : (added.foldl addInterface c).Lists vrf name ↔
    c.Lists vrf name ∨ ∃ i ∈ added, i.vrf = vrf ∧ i.name = name := by
  induction added generalizing c with
  | nil => simp
  | cons i rest ih =>
    rw [List.foldl_cons, ih, lists_addInterface]
    simp [or_assoc]

theorem interfaces_foldl (added : List Interface) : (added.foldl addInterface c).interfaces =
    added.foldl (fun t i => t.insert i.name i) c.interfaces := by
  induction added generalizing c with
  | nil => rfl
  | cons i rest ih => exact ih

section

variable {hostname : String} {added : List Interface}

theorem lists_assemble : (assemble hostname added).Lists vrf name ↔
    ∃ i ∈ added, i.vrf = vrf ∧ i.name = name := by
  rw [assemble, lists_foldl]
  simp [Lists]

/-- An interface is replaced by a later one of its name. -/
theorem interface_assemble {i : Interface} : (assemble hostname added).interfaces[name]? = some i ↔
    LastWith Interface.name added i ∧ i.name = name := by
  rw [assemble, interfaces_foldl, getElem?_foldl_insert]
  simp

theorem assigns_assemble : (assemble hostname added).Assigns vrf name ↔
    ∃ i, LastWith Interface.name added i ∧ i.name = name ∧ i.vrf = vrf := by
  simp only [Assigns, interface_assemble, and_assoc]

/-- The listings agree with the interfaces exactly if none was moved. -/
theorem lists_iff_assigns_iff_unmoved :
    (∀ vrf name, (assemble hostname added).Lists vrf name ↔
      (assemble hostname added).Assigns vrf name) ↔ Interface.Unmoved added := by
  constructor
  · intro h i hi j hj hname
    obtain ⟨k, hk, hvrf⟩ := (h i.vrf i.name).mp (lists_assemble.mpr ⟨i, hi, rfl, rfl⟩)
    obtain ⟨k', hk', hvrf'⟩ := (h j.vrf j.name).mp (lists_assemble.mpr ⟨j, hj, rfl, rfl⟩)
    rw [hname, hk', Option.some_inj] at hk
    rw [← hvrf, ← hvrf', hk]
  · intro h vrf name
    rw [lists_assemble, assigns_assemble]
    constructor
    · rintro ⟨i, hi, rfl, rfl⟩
      obtain ⟨j, hj, hname⟩ := exists_lastWith Interface.name hi
      exact ⟨j, hj, hname, h j hj.mem i hi hname⟩
    · rintro ⟨i, hi, rfl, rfl⟩
      exact ⟨i, hi.mem, rfl, rfl⟩

end

end Configuration

namespace Network

variable {network : Network} {plan : String → List Interface}

/-- Every device was put together from its interfaces. Its access lists may be any. -/
def Assembled (network : Network) (plan : String → List Interface) : Prop :=
  ∀ (node : String) config, network[node]? = some config →
    ∃ hostname acls, config = { Configuration.assemble hostname (plan node) with acls }

theorem Assembled.lists_iff (h : network.Assembled plan) {node vrf name : String} :
    (∃ v, network.vrf? node vrf = some v ∧ name ∈ v.interfaces) ↔
      node ∈ network ∧ ∃ i ∈ plan node, i.vrf = vrf ∧ i.name = name := by
  simp only [vrf?, Option.bind_eq_some_iff, mem_iff_exists]
  constructor
  · rintro ⟨v, ⟨config, hconfig, hv⟩, hname⟩
    obtain ⟨hostname, acls, rfl⟩ := h node config hconfig
    exact ⟨⟨_, hconfig⟩, Configuration.lists_assemble.mp ⟨v, hv, hname⟩⟩
  · rintro ⟨⟨config, hconfig⟩, hlisted⟩
    obtain ⟨hostname, acls, rfl⟩ := h node config hconfig
    obtain ⟨v, hv, hname⟩ := Configuration.lists_assemble.mpr hlisted
    exact ⟨v, ⟨_, hconfig, hv⟩, hname⟩

theorem Assembled.name_eq (h : network.Assembled plan) {node key : String} {i : Interface}
    (hi : network.interface? ⟨node, key⟩ = some i) : i.name = key := by
  obtain ⟨config, hconfig, hi⟩ := Option.bind_eq_some_iff.mp hi
  obtain ⟨hostname, acls, rfl⟩ := h node config hconfig
  exact (Configuration.interface_assemble.mp hi).2

theorem Assembled.nodup_namedEndpoints (h : network.Assembled plan) :
    network.namedEndpoints.Nodup := by
  rw [nodup_namedEndpoints_iff]
  intro node key key' i j hi hj hname
  rw [← h.name_eq hi, ← h.name_eq hj, hname]

theorem Assembled.nodup_listedEndpoints_iff (h : network.Assembled plan) :
    network.listedEndpoints.Nodup ↔ ∀ node ∈ network, Interface.Unmoved (plan node) := by
  rw [Network.nodup_listedEndpoints_iff]
  constructor
  · intro honce node hnode i hi j hj hname
    obtain ⟨v, hv, hlisted⟩ := h.lists_iff.mpr ⟨hnode, i, hi, rfl, rfl⟩
    obtain ⟨v', hv', hlisted'⟩ := h.lists_iff.mpr ⟨hnode, j, hj, rfl, rfl⟩
    exact honce node i.vrf j.vrf v v' i.name hv hv' hlisted (hname ▸ hlisted')
  · intro hunmoved node vrf vrf' v v' name hv hv' hlisted hlisted'
    obtain ⟨hnode, i, hi, rfl, hname⟩ := h.lists_iff.mp ⟨v, hv, hlisted⟩
    obtain ⟨_, j, hj, rfl, hname'⟩ := h.lists_iff.mp ⟨v', hv', hlisted'⟩
    exact hunmoved node hnode i hi j hj (hname.trans hname'.symm)

theorem Assembled.exists_duplicate_iff (h : network.Assembled plan) (facts : Facts)
    (c : Coarsening) :
    (∃ source target,
      Graph.build network facts c = .error (.duplicateTransition source target)) ↔
      (∃ transitions, Graph.rules network facts c = .ok transitions) ∧
        ∃ node ∈ network, ¬Interface.Unmoved (plan node) := by
  rw [Graph.exists_duplicate_iff, and_iff_right h.nodup_namedEndpoints,
    h.nodup_listedEndpoints_iff]
  simp only [not_forall, exists_prop]

end Network

namespace Configuration

/-- Every interface is stored under its name, but a routing domain lists all that was ever added to
it. The listings agree with the interfaces exactly if no interface was added again with another
domain. A network whose rules can all be computed has a duplicate transition exactly if an
interface of some device was. -/
theorem listings_agree_unless_moved (hostname : String) (added : List Interface) :
    (∀ (name : String) i, (assemble hostname added).interfaces[name]? = some i ↔
      LastWith Interface.name added i ∧ i.name = name) ∧
    (∀ vrf name, (assemble hostname added).Lists vrf name ↔
      ∃ i ∈ added, i.vrf = vrf ∧ i.name = name) ∧
    ((∀ vrf name, (assemble hostname added).Lists vrf name ↔
      (assemble hostname added).Assigns vrf name) ↔ Interface.Unmoved added) ∧
    ∀ (network : Network) (plan : String → List Interface), network.Assembled plan →
      ∀ (facts : Facts) (c : Coarsening),
        (∃ source target,
          Graph.build network facts c = .error (.duplicateTransition source target)) ↔
          (∃ transitions, Graph.rules network facts c = .ok transitions) ∧
            ∃ node ∈ network, ¬Interface.Unmoved (plan node) :=
  ⟨fun _ _ => interface_assemble, fun _ _ => lists_assemble, lists_iff_assigns_iff_unmoved,
    fun _ _ h facts c => h.exists_duplicate_iff facts c⟩

/-- An interface that is added again with another routing domain. -/
def moved : List Interface := [{ name := "e", vrf := "a" }, { name := "e", vrf := "b" }]

/-- The first domain still lists it, and there are two transitions from the interface to the
second. -/
theorem moved_stays_listed :
    (assemble "r" moved).Lists "a" "e" ∧ ¬(assemble "r" moved).Assigns "a" "e" ∧
      Graph.build {("r", assemble "r" moved)} {} .precise =
        .error (.duplicateTransition (.preIn ⟨"r", "e"⟩) (.postIn "r" "b")) := by
  refine ⟨lists_assemble.mpr ⟨_, List.mem_cons_self, rfl, rfl⟩, ?_, ?_⟩
  · rintro ⟨i, hi, hvrf⟩
    cases hi
    contradiction
  · rfl

end Configuration
end Dataplane
