import Dataplane.Proofs.Agreement

/-! A query depends on the nodes that its traffic can come to, and on no others. -/
namespace Dataplane

namespace Progress

variable {g g' : Graph} {roots : Roots}

/-- A solve looks at the transitions from stages that some packet reaches, and at no others. -/
theorem drain_congr (hsame : ∀ r q, g.Reaches roots r q → g.successors r = g'.successors r)
    {p : Progress} (hp : p.Invariant g roots) : p.drain g = p.drain g' := by
  fun_induction drain g p with
  | case1 p hpending => rw [drain_nil hpending]
  | case2 p hpending ih =>
    obtain ⟨r, rest, hcons⟩ := List.exists_cons_of_ne_nil hpending
    -- The queue holds reached stages only, so the two graphs agree on what comes next.
    have hentered := hp.entered r (by rw [hcons]; exact List.mem_cons_self)
    obtain ⟨q, hq⟩ := (HeaderSpace.isEmpty_eq_false_iff _).mp ((hp.isEmpty_spaceAt r).mpr hentered)
    have hstep : p.advance g = p.advance g' := by
      rw [advance_cons hcons, advance_cons hcons, hsame r q (hp.sound r q hq)]
    rw [ih hp.advance, hstep, drain_advance]

end Progress

theorem Roots.resolve_congr {g g' : Graph} (hc : g.coarsening = g'.coarsening) {origins : Origins}
    (h : ∀ origin ∈ origins.toList, g.places.resolve? origin.1 = g'.places.resolve? origin.1)
    (headers : HeaderSpace) : resolve g origins headers = resolve g' origins headers := by
  refine foldlM_congr (fun roots origin hmem => ?_) ∅
  obtain ⟨location, packets⟩ := origin
  simp only [h (location, packets) hmem, hc]

namespace Graph

section

variable {g g' : Graph} {roots : Roots}

theorem solve_congr (hsame : ∀ r q, g.Reaches roots r q → g.successors r = g'.successors r)
    (limits : Limits) : g.solve roots limits = g'.solve roots limits := by
  have hdrain := Progress.drain_congr hsame (.ofRoots g roots)
  rw [solve_eq, solve_eq, pops, pops, outcome, outcome, hdrain]

theorem successors_congr {r : Stage}
    (h : ∀ d, g.table.between? (r, d) = g'.table.between? (r, d)) :
    g.successors r = g'.successors r := by
  have hvalues (g : Graph) : g.successors r = (g.table[r]?.getD ∅).values := by
    unfold successors
    cases g.table[r]? with
    | none => rfl
    | some targets => rfl
  have hbetween (g : Graph) (d : Stage) :
      (g.table[r]?.getD ∅)[d]? = g.table.between? (r, d) := by
    rw [TransitionTable.between?]
    cases g.table[r]? with
    | none => exact Std.ExtTreeMap.getElem?_empty
    | some targets => rfl
  have htargets : g.table[r]?.getD ∅ = g'.table[r]?.getD ∅ :=
    Std.ExtTreeMap.ext_getElem? fun d => by rw [hbetween, hbetween, h]
  rw [hvalues, hvalues, htargets]

end

variable {nodes : Set String} {network network' : Network} {facts facts' : Facts} {c : Coarsening}
  {g g' : Graph} {origins : Origins} {headers : HeaderSpace} {roots : Roots}

theorem successors_eq (h : build network facts c = .ok g) (h' : build network' facts' c = .ok g')
    (hagree : AgreeOn nodes network network' facts facts') {r : Stage} (hr : r.On nodes) :
    g.successors r = g'.successors r := by
  obtain ⟨s, transitions, rfl, hc, hs, htransitions, htable, _⟩ := build_eq_ok h
  obtain ⟨s', transitions', rfl, hc', hs', htransitions', htable', _⟩ := build_eq_ok h'
  have hsame := hs.sameAt hs' (hc.trans hc'.symm) hagree
  refine successors_congr fun d => Option.ext fun t => ?_
  rw [TransitionTable.between?_ofList htable, TransitionTable.between?_ofList htable',
    Snapshot.mem_transitions_iff htransitions, Snapshot.mem_transitions_iff htransitions']
  constructor
  · intro ht
    obtain ⟨ht, hopen, hends⟩ := ht
    have hsource : t.source.On nodes := (Prod.mk.inj hends).1 ▸ hr
    exact ⟨hsame.emits ht hsource, hopen, hends⟩
  · intro ht
    obtain ⟨ht, hopen, hends⟩ := ht
    have hsource : t.source.On nodes := (Prod.mk.inj hends).1 ▸ hr
    exact ⟨hsame.symm.emits ht hsource, hopen, hends⟩

section

variable (h : build network facts c = .ok g) (hclosed : facts.Closed nodes)

include h hclosed

/-- A packet that is at one of the nodes does not leave them. -/
theorem Moves.on {a b : Stage × Packet} (hmove : g.Moves a b) (ha : a.1.On nodes) :
    b.1.On nodes := by
  obtain ⟨t, ht, htarget, _⟩ := hmove
  obtain ⟨s, _, _, hs, hsuccessors⟩ := exists_snapshot h
  obtain ⟨hemits, _, hsource⟩ := (hsuccessors a.1 t).mp ht
  rw [← hsource] at ha
  rw [← htarget]
  exact hemits.target_on hs hclosed ha

theorem path_on {a b : Stage × Packet} (hpath : Relation.ReflTransGen g.Moves a b)
    (ha : a.1.On nodes) : b.1.On nodes := by
  induction hpath with
  | refl => exact ha
  | tail _ hmove ih => exact hmove.on h hclosed ih

variable (horigins : ∀ origin ∈ origins.toList, origin.1.node ∈ nodes)

include horigins

theorem Reaches.on (hroots : Roots.resolve g origins headers = .ok roots) {r : Stage} {q : Packet}
    (hreach : g.Reaches roots r q) : r.On nodes := by
  obtain ⟨start, x, p, hx, hp, hpath⟩ := hreach
  obtain ⟨origin, hmem, hstage, _⟩ := (Roots.contains_resolve hroots start p).mp ⟨x, hx, hp⟩
  refine path_on h hclosed hpath fun node hnode => ?_
  rw [Places.node?_of_resolve? hstage] at hnode
  cases hnode
  exact horigins origin hmem

theorem queryHeaders_eq (h' : build network' facts' c = .ok g')
    (hagree : AgreeOn nodes network network' facts facts') (headers : HeaderSpace)
    (limits : Limits) :
    g.queryHeaders origins headers limits = g'.queryHeaders origins headers limits := by
  obtain ⟨_, _, _, _, _, _, _, hc, hplaces⟩ := build_eq_ok h
  obtain ⟨_, _, _, _, _, _, _, hc', hplaces'⟩ := build_eq_ok h'
  have hplace (origin : Location × HeaderSpace) (hmem : origin ∈ origins.toList) :
      g.places.resolve? origin.1 = g'.places.resolve? origin.1 := by
    rw [hplaces, hplaces']
    exact Places.resolve?_congr (hagree.configurations _ (horigins origin hmem))
  have hresolve := Roots.resolve_congr (hc.trans hc'.symm) hplace headers
  unfold queryHeaders
  rw [← hresolve]
  cases hroots : Roots.resolve g origins headers with
  | error e => rfl
  | ok roots =>
    have hsame (r : Stage) (q : Packet) (hreach : g.Reaches roots r q) :
        g.successors r = g'.successors r :=
      successors_eq h h' hagree (hreach.on h hclosed horigins hroots)
    rw [ok_bind, ok_bind, solve_congr hsame]

theorem on_of_isReached {headers : HeaderSpace} {limits : Limits} {o : Outcome}
    (ho : g.queryHeaders origins headers limits = .ok o) {r : Stage} (hr : o.isReached r = true) :
    r.On nodes := by
  obtain ⟨roots, hroots, hsolve⟩ := queryHeaders_eq_ok ho
  rw [isReached_solve hsolve, HeaderSpace.isEmpty_eq_false_iff] at hr
  obtain ⟨q, hq⟩ := hr
  exact ((contains_solve hsolve r q).mp hq).on h hclosed horigins hroots

end

/-- The link of the loop leads back to its node. -/
theorem closed_loop : Facts.loop.Closed {"r"} := by
  intro link hlink _
  have hlinks : ∀ link ∈ Facts.loop.arpTrue.keys, link.target.node = "r" := by decide
  exact hlinks link (Std.ExtTreeMap.mem_keys.mpr hlink)

theorem agreeOn_fedLoop : AgreeOn {"r"} .loop .fedLoop .loop .fedLoop := by
  refine ⟨fun node hnode => ?_, fun node hnode vrf => ?_, fun _ _ _ => rfl, fun link hlink => ?_,
    fun _ _ _ _ => rfl⟩
  · cases hnode
    rfl
  · cases hnode
    rfl
  · have hne : ¬compare (Link.mk ⟨"s", "b"⟩ ⟨"r", "a"⟩) link = .eq := by
      intro heq
      obtain rfl := Std.compare_eq_iff_eq.mp heq
      exact absurd hlink (by decide)
    rw [Facts.fedLoop, Facts.setArpTrue, Std.ExtTreeMap.getElem?_insert, if_neg hne]
    rfl

/-- Traffic that starts at a set of nodes without a link to others stays there, and what a query
finds, or why it fails, depends on these nodes only. -/
theorem query_local (h : build network facts c = .ok g) (h' : build network' facts' c = .ok g')
    (hagree : AgreeOn nodes network network' facts facts') (hclosed : facts.Closed nodes)
    (horigins : ∀ origin ∈ origins.toList, origin.1.node ∈ nodes) (limits : Limits) :
    (∀ headers,
      g.queryHeaders origins headers limits = g'.queryHeaders origins headers limits ∧
      ∀ o, g.queryHeaders origins headers limits = .ok o →
        ∀ r, o.isReached r = true → r.On nodes) ∧
    ∀ destination, g.query origins destination limits = g'.query origins destination limits ∧
      ∀ o, g.query origins destination limits = .ok o →
        ∀ r, o.isReached r = true → r.On nodes := by
  refine ⟨fun headers => ⟨queryHeaders_eq h hclosed horigins h' hagree headers limits,
    fun o ho r => on_of_isReached h hclosed horigins ho⟩, fun destination => ⟨?_, fun o ho r => ?_⟩⟩
  · unfold query
    cases destination.headers .dstIp with
    | error fault => rfl
    | ok headers => exact queryHeaders_eq h hclosed horigins h' hagree headers limits
  · obtain ⟨headers, _, ho⟩ := query_eq_ok ho
    exact on_of_isReached h hclosed horigins ho

theorem query_local_fedLoop : ∃ g g', build .loop .loop .precise = .ok g ∧
    build .fedLoop .fedLoop .precise = .ok g' ∧ ∀ limits,
      g.query .loop (.single ⟨1⟩) limits = g'.query .loop (.single ⟨1⟩) limits ∧
      ∀ o, g.query .loop (.single ⟨1⟩) limits = .ok o →
        ∀ r, o.isReached r = true → r.On {"r"} := by
  obtain ⟨g, hg⟩ := exists_build_loop .precise
  obtain ⟨g', hg'⟩ := exists_build_fedLoop .precise
  refine ⟨g, g', hg, hg', fun limits => ?_⟩
  have horigins : ∀ origin ∈ Origins.loop.toList, origin.1.node ∈ ({"r"} : Set String) := by
    intro origin horigin
    cases List.mem_singleton.mp horigin
    rfl
  exact (query_local hg hg' agreeOn_fedLoop closed_loop horigins limits).2 (.single ⟨1⟩)

end Graph
end Dataplane
