import Dataplane.Proofs.Emission
import Dataplane.Proofs.WellPosed
import Mathlib.Data.List.Nodup

/-! Which transitions of a snapshot have the same ends. -/
namespace Dataplane

section Lists

variable {α β κ κ' ε : Type}

theorem nodup_map_of_key {f : α → β} {key : α → κ} {l : List α} (hl : (l.map key).Nodup)
    (hkey : ∀ a ∈ l, ∀ a' ∈ l, f a = f a' → key a = key a') : (l.map f).Nodup := by
  rw [List.Nodup, List.pairwise_map] at hl ⊢
  exact hl.imp_of_mem fun ha ha' hne heq => hne (hkey _ ha _ ha' heq)

/-- Parts with different keys have nothing in common. -/
theorem nodup_flatMap_of_key {f : α → List β} {key : α → κ} (keyOf : β → κ) {l : List α}
    (hl : (l.map key).Nodup) (hparts : ∀ a ∈ l, (f a).Nodup)
    (hkey : ∀ a ∈ l, ∀ b ∈ f a, keyOf b = key a) : (l.flatMap f).Nodup := by
  rw [List.nodup_flatMap]
  rw [List.Nodup, List.pairwise_map] at hl
  refine ⟨hparts, hl.imp_of_mem fun ha ha' hne b hb hb' => ?_⟩
  exact hne ((hkey _ ha b hb).symm.trans (hkey _ ha' b hb'))

theorem nodup_of_mapM {f : α → Except ε β} (key : α → κ) {keyOf : β → κ'} {l : List α} {r : List β}
    (h : l.mapM f = .ok r) (hl : (l.map key).Nodup)
    (hkey : ∀ a ∈ l, ∀ a' ∈ l, ∀ b b', f a = .ok b → f a' = .ok b' → keyOf b = keyOf b' →
      key a = key a') : (r.map keyOf).Nodup := by
  induction l generalizing r with
  | nil =>
    rw [List.mapM_nil, pure_eq_ok] at h
    subst r
    exact List.nodup_nil
  | cons a rest ih =>
    simp only [List.mapM_cons, bind_eq_ok, pure_eq_ok] at h
    obtain ⟨b, hb, bs, hbs, rfl⟩ := h
    rw [List.map_cons, List.nodup_cons] at hl ⊢
    refine ⟨fun hmem => ?_, ih hbs hl.2 fun x hx y hy =>
      hkey x (List.mem_cons_of_mem _ hx) y (List.mem_cons_of_mem _ hy)⟩
    obtain ⟨b', hb', heq⟩ := List.mem_map.mp hmem
    obtain ⟨a', ha', hfa'⟩ := (mem_of_mapM hbs b').mp hb'
    have hsame :=
      hkey a List.mem_cons_self a' (List.mem_cons_of_mem _ ha') b b' hb hfa' heq.symm
    exact hl.1 (hsame ▸ List.mem_map_of_mem ha')

theorem filterMap_map_sublist {f : α → Option β} {key : α → κ} {keyOf : β → κ}
    (hkey : ∀ a b, f a = some b → keyOf b = key a) (l : List α) :
    ((l.filterMap f).map keyOf).Sublist (l.map key) := by
  induction l with
  | nil => exact .refl _
  | cons a rest ih =>
    cases hf : f a with
    | none =>
      rw [List.filterMap_cons_none hf]
      exact ih.cons _
    | some b =>
      rw [List.filterMap_cons_some hf, List.map_cons, hkey a b hf]
      exact ih.cons_cons _

theorem nodup_toList [Ord κ] [Std.TransOrd κ] (t : Std.ExtTreeMap κ α) :
    (t.toList.map Prod.fst).Nodup := by
  rw [Std.ExtTreeMap.map_fst_toList_eq_keys]
  exact Std.ExtTreeMap.nodup_keys

theorem nodup_toSetList [Ord κ] [Std.TransOrd κ] (t : Std.ExtTreeSet κ) : t.toList.Nodup := by
  refine t.distinct_toList.imp fun hne heq => ?_
  rw [heq] at hne
  exact hne Std.ReflCmp.compare_self

end Lists

namespace Network

variable {network : Network}

/-- All interfaces, each with the node and the name that it is stored under. -/
def interfaceEntries (network : Network) : List (Endpoint × Interface) :=
  network.toList.flatMap fun (node, config) =>
    config.interfaces.toList.map fun (key, i) => (⟨node, key⟩, i)

/-- All names that routing domains list, each with the domain. -/
def listings (network : Network) : List (String × Endpoint) :=
  network.toList.flatMap fun (node, config) => config.vrfs.toList.flatMap fun (vrf, v) =>
    v.interfaces.toList.map fun name => (vrf, ⟨node, name⟩)

theorem mem_interfaceEntries {e : Endpoint} {i : Interface} :
    (e, i) ∈ network.interfaceEntries ↔ network.interface? e = some i := by
  obtain ⟨node, key⟩ := e
  simp [interfaceEntries, interface?, Option.bind_eq_some_iff,
    Std.ExtTreeMap.mem_toList_iff_getElem?_eq_some]

theorem mem_listings {vrf : String} {e : Endpoint} : (vrf, e) ∈ network.listings ↔
    ∃ v, network.vrf? e.node vrf = some v ∧ e.interface ∈ v.interfaces := by
  obtain ⟨node, key⟩ := e
  simp only [listings, List.mem_flatMap, List.mem_map, Prod.exists, Prod.mk.injEq,
    Endpoint.mk.injEq, Std.ExtTreeMap.mem_toList_iff_getElem?_eq_some, Std.ExtTreeSet.mem_toList,
    vrf?, Option.bind_eq_some_iff]
  constructor
  · rintro ⟨_, config, hconfig, _, v, hv, _, hkey, rfl, rfl, rfl⟩
    exact ⟨v, ⟨config, hconfig, hv⟩, hkey⟩
  · rintro ⟨v, ⟨config, hconfig, hv⟩, hkey⟩
    exact ⟨node, config, hconfig, vrf, v, hv, key, hkey, rfl, rfl, rfl⟩

theorem nodup_endpoints (network : Network) : (network.interfaceEntries.map Prod.fst).Nodup := by
  rw [interfaceEntries, List.map_flatMap]
  refine nodup_flatMap_of_key Endpoint.node (nodup_toList network) (fun entry _ => ?_)
    fun entry _ e he => ?_
  · rw [List.map_map]
    exact nodup_map_of_key (nodup_toList entry.2.interfaces) fun _ _ _ _ h => (Endpoint.mk.inj h).2
  · rw [List.map_map] at he
    obtain ⟨_, _, rfl⟩ := List.mem_map.mp he
    rfl

theorem nodup_listings (network : Network) : network.listings.Nodup := by
  unfold listings
  refine nodup_flatMap_of_key (·.2.node) (nodup_toList network) (fun entry _ => ?_)
    fun entry _ listing h => ?_
  · refine nodup_flatMap_of_key Prod.fst (nodup_toList entry.2.vrfs) (fun vrf _ => ?_)
      fun vrf _ listing h => ?_
    · refine (nodup_toSetList vrf.2.interfaces).map fun name name' h => ?_
      exact (Endpoint.mk.inj (Prod.mk.inj h).2).2
    · obtain ⟨_, _, rfl⟩ := List.mem_map.mp h
      rfl
  · obtain ⟨_, _, h⟩ := List.mem_flatMap.mp h
    obtain ⟨_, _, rfl⟩ := List.mem_map.mp h
    rfl

theorem listedEndpoints_eq (network : Network) :
    network.listedEndpoints = network.listings.map Prod.snd := by
  simp only [listedEndpoints, listings, values_eq, List.flatMap_map, List.map_flatMap, List.map_map]
  rfl

/-- The names that interfaces have, with their nodes. -/
def namedEndpoints (network : Network) : List Endpoint :=
  network.interfaceEntries.map fun (e, i) => ⟨e.node, i.name⟩

theorem nodup_listedEndpoints_iff : network.listedEndpoints.Nodup ↔
    ∀ node vrf vrf' v v' name, network.vrf? node vrf = some v → network.vrf? node vrf' = some v' →
      name ∈ v.interfaces → name ∈ v'.interfaces → vrf = vrf' := by
  rw [listedEndpoints_eq, List.nodup_map_iff_inj_on network.nodup_listings]
  constructor
  · intro h node vrf vrf' v v' name hv hv' hname hname'
    have heq := h (vrf, ⟨node, name⟩) (mem_listings.mpr ⟨v, hv, hname⟩) (vrf', ⟨node, name⟩)
      (mem_listings.mpr ⟨v', hv', hname'⟩) rfl
    exact (Prod.mk.inj heq).1
  · rintro h ⟨vrf, e⟩ hlisting ⟨vrf', e'⟩ hlisting' (rfl : e = e')
    obtain ⟨v, hv, hname⟩ := mem_listings.mp hlisting
    obtain ⟨v', hv', hname'⟩ := mem_listings.mp hlisting'
    rw [h e.node vrf vrf' v v' e.interface hv hv' hname hname']

theorem nodup_namedEndpoints_iff : network.namedEndpoints.Nodup ↔
    ∀ node key key' i j, network.interface? ⟨node, key⟩ = some i →
      network.interface? ⟨node, key'⟩ = some j → i.name = j.name → key = key' := by
  have hentries := network.nodup_endpoints.of_map
  rw [namedEndpoints, List.nodup_map_iff_inj_on hentries]
  constructor
  · intro h node key key' i j hi hj hname
    have heq := h (⟨node, key⟩, i) (mem_interfaceEntries.mpr hi) (⟨node, key'⟩, j)
      (mem_interfaceEntries.mpr hj) (congrArg (Endpoint.mk node) hname)
    exact (Endpoint.mk.inj (Prod.mk.inj heq).1).2
  · rintro h ⟨⟨node, key⟩, i⟩ hi ⟨⟨node', key'⟩, j⟩ hj heq
    obtain ⟨rfl, hname⟩ := Endpoint.mk.inj heq
    rw [mem_interfaceEntries] at hi hj
    obtain rfl := h node key key' i j hi hj hname
    rw [hi] at hj
    rw [Option.some.inj hj]

end Network

namespace Forwarding

theorem nodup_entries {α : Type} (table : Table (Table α)) :
    ((entries table).map fun entry => (entry.1, entry.2.1)).Nodup := by
  rw [entries, List.map_flatMap]
  refine nodup_flatMap_of_key Prod.fst (nodup_toList table) (fun entry _ => ?_)
    fun entry _ _ h => ?_
  · rw [List.map_map]
    exact nodup_map_of_key (nodup_toList entry.2) fun _ _ _ _ h => (Prod.mk.inj h).2
  · rw [List.map_map] at h
    obtain ⟨_, _, rfl⟩ := List.mem_map.mp h
    rfl

theorem nodup_unreachableEntries (f : Forwarding) :
    (f.unreachableEntries.map fun entry => (entry.1, entry.2.1, entry.2.2.1)).Nodup := by
  rw [unreachableEntries, List.map_flatMap]
  refine nodup_flatMap_of_key (fun key => (key.1, key.2.1)) (nodup_entries _)
    (fun entry _ => ?_) fun entry _ _ h => ?_
  · rw [List.map_map]
    refine nodup_map_of_key (nodup_toList entry.2.2) fun _ _ _ _ h => ?_
    exact (Prod.mk.inj (Prod.mk.inj h).2).2
  · rw [List.map_map] at h
    obtain ⟨_, _, rfl⟩ := List.mem_map.mp h
    rfl

end Forwarding

namespace Snapshot

variable {s : Snapshot}

theorem nodup_vrfs : s.vrfs.Nodup := by
  refine nodup_flatMap_of_key Prod.fst (nodup_toList s.network) (fun entry _ => ?_)
    fun entry _ _ h => ?_
  · exact Std.ExtTreeMap.nodup_keys.map fun _ _ h => (Prod.mk.inj h).2
  · obtain ⟨_, _, rfl⟩ := List.mem_map.mp h
    rfl

theorem map_interfaces : s.interfaces.map (fun (node, i) => Endpoint.mk node i.name) =
    s.network.namedEndpoints := by
  simp only [interfaces, Network.namedEndpoints, Network.interfaceEntries, values_eq,
    List.map_flatMap, List.map_map]
  rfl

theorem nodup_listedInterfaces (hnames : s.network.namedEndpoints.Nodup)
    (hlisted : s.network.listedEndpoints.Nodup) {listed : List (String × Interface)}
    (h : s.listedInterfaces = .ok listed) :
    (listed.map fun (node, i) => Endpoint.mk node i.name).Nodup := by
  refine nodup_of_mapM id h (by rwa [List.map_id]) fun e _ e' _ b b' hb hb' heq => ?_
  simp only [bind_eq_ok, pure_eq_ok, Network.findInterface_eq_ok] at hb hb'
  obtain ⟨i, hi, _, _, rfl⟩ := hb
  obtain ⟨j, hj, _, _, rfl⟩ := hb'
  obtain ⟨hnode, hname⟩ := Endpoint.mk.inj heq
  obtain ⟨node, key⟩ := e
  obtain ⟨node', key'⟩ := e'
  obtain rfl : node = node' := hnode
  obtain rfl := Network.nodup_namedEndpoints_iff.mp hnames node key key' i j hi hj hname
  rfl

theorem nodup_links {links : List (Link × HeaderSpace × Interface)} (h : s.links = .ok links) :
    (links.map Prod.fst).Nodup := by
  refine nodup_of_mapM Prod.fst h (nodup_toList _) fun entry _ entry' _ b b' hb hb' heq => ?_
  simp only [bind_eq_ok, pure_eq_ok] at hb hb'
  obtain ⟨_, _, rfl⟩ := hb
  obtain ⟨_, _, rfl⟩ := hb'
  exact heq

theorem nodup_filteredIn {listed : List (String × Interface)}
    (h : (listed.map fun (node, i) => Endpoint.mk node i.name).Nodup) :
    ((listed.filterMap fun (node, i) => i.incomingFilter.map fun name => (node, i, name)).map
      fun (node, i, _) => Endpoint.mk node i.name).Nodup := by
  refine h.sublist (filterMap_map_sublist (fun _ _ hb => ?_) listed)
  obtain ⟨_, _, rfl⟩ := Option.map_eq_some_iff.mp hb
  rfl

theorem nodup_filteredOut {links : List (Link × HeaderSpace × Interface)}
    (h : (links.map Prod.fst).Nodup) :
    ((links.filterMap fun (link, _, i) => i.outgoingFilter.map fun name => (link, name)).map
      Prod.fst).Nodup := by
  refine h.sublist (filterMap_map_sublist (fun _ _ hb => ?_) links)
  obtain ⟨_, _, rfl⟩ := Option.map_eq_some_iff.mp hb
  rfl

/-- Transitions whose sources tell the entries that they are made from. -/
theorem nodup_ends_of_source {α κ : Type} {f : α → Transition} {key : α → κ} {l : List α}
    (hl : (l.map key).Nodup) (hsource : ∀ a a', (f a).source = (f a').source → key a = key a') :
    ((l.map f).map Transition.ends).Nodup := by
  rw [List.map_map]
  exact nodup_map_of_key hl fun a _ a' _ heq => hsource a a' (Prod.mk.inj heq).1

/-- Transitions of which some part of the ends tells the entries that they are made from. -/
theorem nodup_ends_of_mapM {α γ κ : Type} {f : α → Except ModelError Transition} {key : α → κ}
    {l : List α} {r : List Transition} (h : l.mapM f = .ok r) (hl : (l.map key).Nodup)
    (part : Stage × Stage → γ) {g : κ → γ} (hg : ∀ k k', g k = g k' → k = k')
    (hpart : ∀ a t, f a = .ok t → part t.ends = g (key a)) : (r.map Transition.ends).Nodup := by
  refine nodup_of_mapM key h hl fun a _ a' _ t t' ht ht' heq => hg _ _ ?_
  rw [← hpart a t ht, ← hpart a' t' ht', heq]

/-- A family has at most one transition between two stages, if no name and no listing occurs
twice. -/
theorem nodup_family (hnames : s.network.namedEndpoints.Nodup)
    (hlisted : s.network.listedEndpoints.Nodup) {family : Family} (hfamily : family ∈ families)
    {l : List Transition} (hl : family s = .ok l) : (l.map Transition.ends).Nodup := by
  have hinterfaces : (s.interfaces.map fun (node, i) => Endpoint.mk node i.name).Nodup := by
    rwa [map_interfaces]
  have hvrfs : (s.vrfs.map id).Nodup := by
    rw [List.map_id]
    exact nodup_vrfs
  have hnodes : (s.network.keys.map id).Nodup := by
    rw [List.map_id]
    exact Std.ExtTreeMap.nodup_keys
  have hlinks := nodup_toList s.forwarding.arpTrue
  obtain ⟨_, hposition⟩ := List.mem_iff_getElem?.mp hfamily
  cases hposition using families_cases with
  | originateLinks =>
    cases hl
    exact nodup_ends_of_source hinterfaces fun _ _ h => Stage.originateLink.inj h
  | originateVrfs =>
    cases hl
    exact nodup_ends_of_source hvrfs fun _ _ h => Prod.ext_iff.mpr (Stage.originateVrf.inj h)
  | deniedIn =>
    obtain ⟨listed, hok, hl⟩ := bind_eq_ok.mp hl
    have hfiltered := nodup_filteredIn (nodup_listedInterfaces hnames hlisted hok)
    refine nodup_ends_of_mapM hl hfiltered Prod.fst (fun _ _ => Stage.preIn.inj) fun _ t ht => ?_
    simp only [bind_eq_ok, pure_eq_ok] at ht
    obtain ⟨_, _, rfl⟩ := ht
    rfl
  | permittedIn =>
    obtain ⟨listed, hok, hl⟩ := bind_eq_ok.mp hl
    have hlisted := nodup_listedInterfaces hnames hlisted hok
    refine nodup_ends_of_mapM hl hlisted Prod.fst (fun _ _ => Stage.preIn.inj) fun _ t ht => ?_
    simp only [bind_eq_ok, pure_eq_ok] at ht
    obtain ⟨_, _, rfl⟩ := ht
    rfl
  | accepted =>
    cases hl
    exact nodup_ends_of_source hvrfs fun _ _ h => Prod.ext_iff.mpr (Stage.postIn.inj h)
  | unrouted =>
    cases hl
    exact nodup_ends_of_source hvrfs fun _ _ h => Prod.ext_iff.mpr (Stage.postIn.inj h)
  | routed =>
    cases hl
    exact nodup_ends_of_source hvrfs fun _ _ h => Prod.ext_iff.mpr (Stage.postIn.inj h)
  | nullRouted =>
    cases hl
    exact nodup_ends_of_source (Forwarding.nodup_entries _) fun _ _ h =>
      Prod.ext_iff.mpr (Stage.preOut.inj h)
  | unanswered =>
    refine nodup_of_mapM _ hl (Forwarding.nodup_unreachableEntries _)
      fun _ _ _ _ t t' ht ht' heq => ?_
    simp only [bind_eq_ok, pure_eq_ok] at ht ht'
    obtain ⟨_, _, _, _, rfl⟩ := ht
    obtain ⟨_, _, _, _, rfl⟩ := ht'
    obtain ⟨hsource, htarget⟩ := Prod.mk.inj heq
    have hvrf := Stage.preOut.inj hsource
    have hname := Endpoint.mk.inj (Stage.nodeUnreachable.inj htarget)
    exact Prod.ext_iff.mpr ⟨hvrf.1, Prod.ext_iff.mpr ⟨hvrf.2, hname.2⟩⟩
  | sent =>
    refine nodup_ends_of_mapM hl hlinks Prod.snd (fun _ _ => Stage.preNat.inj) fun _ t ht => ?_
    simp only [bind_eq_ok, pure_eq_ok] at ht
    obtain ⟨_, _, _, _, rfl⟩ := ht
    rfl
  | sourceNat =>
    refine nodup_ends_of_mapM hl hlinks Prod.fst (fun _ _ => Stage.preNat.inj) fun _ t ht => ?_
    simp only [bind_eq_ok, pure_eq_ok] at ht
    obtain ⟨_, _, _, _, rfl⟩ := ht
    rfl
  | deniedOut =>
    obtain ⟨links, hok, hl⟩ := bind_eq_ok.mp hl
    have hfiltered := nodup_filteredOut (nodup_links hok)
    refine nodup_ends_of_mapM hl hfiltered Prod.fst (fun _ _ => Stage.postNat.inj) fun _ t ht => ?_
    simp only [bind_eq_ok, pure_eq_ok] at ht
    obtain ⟨_, _, rfl⟩ := ht
    rfl
  | permittedOut =>
    obtain ⟨links, hok, hl⟩ := bind_eq_ok.mp hl
    refine nodup_ends_of_mapM hl (nodup_links hok) Prod.fst (fun _ _ => Stage.postNat.inj)
      fun _ t ht => ?_
    simp only [bind_eq_ok, pure_eq_ok] at ht
    obtain ⟨_, _, rfl⟩ := ht
    rfl
  | nodeAccepted =>
    cases hl
    exact nodup_ends_of_source hnodes fun _ _ h => Stage.nodeAccept.inj h
  | dropCauses =>
    cases hl
    rw [List.map_flatMap]
    have hkeys : (s.network.keys.map some).Nodup :=
      Std.ExtTreeMap.nodup_keys.map fun _ _ => Option.some.inj
    refine nodup_flatMap_of_key (·.1.node?) hkeys (fun node _ => ?_) fun node _ ends hends => ?_
    · rw [List.map_map]
      refine List.Nodup.map (fun cause cause' heq => ?_) (by decide)
      exact (Stage.dropped.inj (Prod.mk.inj heq).1).1
    · rw [List.map_map] at hends
      obtain ⟨_, _, rfl⟩ := List.mem_map.mp hends
      rfl
  | nodeDropped =>
    cases hl
    exact nodup_ends_of_source hnodes fun _ _ h => Stage.nodeDrop.inj h
  | nodeUnreachable =>
    cases hl
    exact nodup_ends_of_source hinterfaces fun _ _ h => Stage.nodeUnreachable.inj h

/-- Transitions of different families have different ends. -/
theorem nodup_ends (hnames : s.network.namedEndpoints.Nodup)
    (hlisted : s.network.listedEndpoints.Nodup) {transitions : List Transition}
    (h : s.transitions = .ok transitions) : (transitions.map Transition.ends).Nodup := by
  simp only [Snapshot.transitions, bind_eq_ok, pure_eq_ok] at h
  obtain ⟨lists, hlists, rfl⟩ := h
  have hindex {k : Nat} {l : List Transition} (hl : lists[k]? = some l) {ends : Stage × Stage}
      (hends : ends ∈ l.map Transition.ends) : familyIndex ends = k := by
    obtain ⟨family, hfamily, hok⟩ := getElem?_of_mapM hlists hl
    obtain ⟨t, ht, rfl⟩ := List.mem_map.mp hends
    exact (emits_of_family hfamily hok ht).2
  rw [List.map_flatten, List.nodup_flatten]
  constructor
  · intro _ hmem
    obtain ⟨l, hl, rfl⟩ := List.mem_map.mp hmem
    obtain ⟨family, hfamily, hok⟩ := (mem_of_mapM hlists l).mp hl
    exact nodup_family hnames hlisted hfamily hok
  · rw [List.pairwise_map, List.pairwise_iff_getElem]
    intro j k hj hk hjk ends hfirst hsecond
    have hjends := hindex (List.getElem?_eq_getElem hj) hfirst
    have hkends := hindex (List.getElem?_eq_getElem hk) hsecond
    omega

end Snapshot
end Dataplane
