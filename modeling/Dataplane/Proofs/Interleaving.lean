import Dataplane.Proofs.Limits
import Dataplane.Proofs.Origins

/-! Steps and new traffic in any order. What is known in between is safe to use, and what is known
in the end does not depend on the order. -/
namespace Dataplane

/-- What may happen to the state of a solve. -/
inductive Event where
  | step (limits : Limits)
  | inject (s : Stage) (packets : HeaderSpace)

/-- The traffic that events bring, in their order. -/
def Event.injections (events : List Event) : List (Stage × HeaderSpace) :=
  events.filterMap fun
    | .step _ => none
    | .inject s packets => some (s, packets)

theorem Event.injections_map_step (calls : List Limits) : injections (calls.map .step) = [] := by
  induction calls with
  | nil => rfl
  | cons limits rest ih => exact ih

namespace Roots

/-- Add packets at several stages. -/
def addAll (roots : Roots) (news : List (Stage × HeaderSpace)) : Roots :=
  news.foldl (fun roots (s, packets) => roots.add s packets) roots

theorem contains_addAll (roots : Roots) (news : List (Stage × HeaderSpace)) (r : Stage)
    (q : Packet) :
    (∃ x, (roots.addAll news)[r]? = some x ∧ x.contains q = true) ↔
      (∃ x, roots[r]? = some x ∧ x.contains q = true) ∨
        ∃ n ∈ news, n.1 = r ∧ n.2.contains q = true := by
  induction news generalizing roots with
  | nil => simp [addAll]
  | cons n rest ih =>
    have hstep : roots.addAll (n :: rest) = (roots.add n.1 n.2).addAll rest := rfl
    rw [hstep, ih, contains_add, or_assoc]
    simp only [List.mem_cons, or_and_right, exists_or, exists_eq_left]

end Roots

/-- What can be reached depends on the packets of the roots only. -/
theorem Graph.Reaches.mono {g : Graph} {roots roots' : Roots}
    (h : ∀ (r : Stage) (q : Packet), (∃ x, roots[r]? = some x ∧ x.contains q = true) →
      ∃ x, roots'[r]? = some x ∧ x.contains q = true)
    {s : Stage} {q : Packet} (hq : g.Reaches roots s q) : g.Reaches roots' s q := by
  obtain ⟨r, x, p, hr, hp, hpath⟩ := hq
  obtain ⟨x', hr', hp'⟩ := h r p ⟨x, hr, hp⟩
  exact ⟨r, x', p, hr', hp', hpath⟩

namespace Progress

variable {g : Graph} {roots : Roots}

def handle (g : Graph) (p : Progress) : Event → Progress
  | .step limits => (p.step g limits).state
  | .inject s packets => (p.extend s packets).1

/-- The state after several events. -/
def replay (g : Graph) (p : Progress) (events : List Event) : Progress :=
  events.foldl (handle g) p

theorem replay_append (g : Graph) (p : Progress) (events events' : List Event) :
    p.replay g (events ++ events') = (p.replay g events).replay g events' :=
  List.foldl_append

theorem Invariant.empty (g : Graph) : Invariant g ∅ {} := by
  have h := Invariant.ofRoots g ∅
  rw [ofRoots_eq, Std.ExtTreeMap.toList_eq_nil_iff.mpr rfl] at h
  exact h

theorem Invariant.step {p : Progress} (h : Invariant g roots p) (limits : Limits) :
    Invariant g roots (p.step g limits).state := by
  rcases state_step g limits p with hsame | hnext
  · rw [hsame]
    exact h
  · rw [hnext]
    exact h.advance

/-- New traffic keeps the invariant for the roots with the traffic added. -/
theorem Invariant.extend {p : Progress} (h : Invariant g roots p) (s : Stage)
    (packets : HeaderSpace) : Invariant g (roots.add s packets) (p.extend s packets).1 := by
  have hgrows := grows_extend h.toWellFormed s packets
  refine ⟨h.toWellFormed.extend s packets, fun r q hq => ?_, fun r x hx => ?_, fun r hr t ht => ?_⟩
  · rcases (p.contains_extend s r packets q).mp hq with hold | hnew
    · exact (h.sound r q hold).mono fun r q hq => (roots.contains_add s packets r q).mpr (Or.inl hq)
    · obtain ⟨x, hx, hxq⟩ := (roots.contains_add s packets r q).mpr (Or.inr hnew)
      exact .root hx hxq
  · rw [HeaderSpace.subset_iff_contains]
    intro q hq
    refine (p.contains_extend s r packets q).mpr ?_
    rcases (roots.contains_add s packets r q).mp ⟨x, hx, hq⟩ with ⟨y, hy, hyq⟩ | hnew
    · exact Or.inl ((HeaderSpace.subset_iff_contains _ _).mp (h.rooted r y hy) q hyq)
    · exact Or.inr hnew
  · have hnot : r ∉ p.pending := fun hp => hr (hgrows.pending r hp)
    rw [hgrows.quiet r hr]
    exact HeaderSpace.subset_trans (h.passed r hnot t ht) (hgrows.mono t.target)

theorem Invariant.extendAll {p : Progress} (h : Invariant g roots p)
    (news : List (Stage × HeaderSpace)) :
    Invariant g (roots.addAll news) (p.extendAll news) := by
  induction news generalizing p roots with
  | nil => exact h
  | cons n rest ih => exact ih (h.extend n.1 n.2)

theorem Invariant.replay {p : Progress} (h : Invariant g roots p) (events : List Event) :
    Invariant g (roots.addAll (Event.injections events)) (p.replay g events) := by
  induction events generalizing p roots with
  | nil => exact h
  | cons event rest ih =>
    cases event with
    | step limits => exact ih (h.step limits)
    | inject s packets => exact ih (h.extend s packets)

theorem subset_step (g : Graph) (limits : Limits) (p : Progress) (s : Stage) :
    (p.spaceAt s).subset ((p.step g limits).state.spaceAt s) = true := by
  rcases state_step g limits p with hsame | hnext
  · rw [hsame]
    exact HeaderSpace.subset_refl _
  · rw [hnext]
    cases hp : p.pending with
    | nil =>
      rw [advance_nil hp]
      exact HeaderSpace.subset_refl _
    | cons r rest =>
      rw [advance_cons hp, HeaderSpace.subset_iff_contains]
      exact fun q hq => (contains_propagate _ _ _ s q).mpr (Or.inl hq)

/-- Every entry of the first table is within the entry of the second. -/
def Within (a b : Std.ExtTreeMap Stage HeaderSpace) : Prop :=
  ∀ (s : Stage) (x : HeaderSpace), a[s]? = some x → ∃ y, b[s]? = some y ∧ x.subset y = true

theorem exists_entry {b : Std.ExtTreeMap Stage HeaderSpace} {s : Stage} {x : HeaderSpace}
    (hx : x.isEmpty = false) (hsub : x.subset (b[s]?.getD .empty) = true) :
    ∃ y, b[s]? = some y ∧ x.subset y = true := by
  cases hb : b[s]? with
  | none =>
    obtain ⟨q, hq⟩ := x.isEmpty_eq_false_iff.mp hx
    rw [hb, HeaderSpace.subset_iff_contains] at hsub
    have := hsub q hq
    simp at this
  | some y =>
    rw [hb] at hsub
    exact ⟨y, rfl, hsub⟩

theorem WellFormed.within {p : Progress} (h : p.WellFormed)
    {b : Std.ExtTreeMap Stage HeaderSpace}
    (hb : ∀ s, (p.spaceAt s).subset (b[s]?.getD .empty) = true) : Within p.reached b := by
  intro s x hs
  refine exists_entry (h.nonempty s x hs) ?_
  rw [← spaceAt_of_some hs]
  exact hb s

/-- A solve never holds packets that its outcome lacks. -/
theorem Invariant.within_outcome {p : Progress} (h : Invariant g roots p) :
    Within p.reached (g.outcome roots).reached := by
  have hok : g.solve roots { maxIterations := g.pops roots } = .ok (g.outcome roots) := by
    rw [g.solve_eq, if_neg (by simp), if_pos (Nat.le_refl _)]
  refine h.toWellFormed.within fun s => ?_
  rw [HeaderSpace.subset_iff_contains]
  exact fun q hq => (Graph.contains_solve hok s q).mpr (h.sound s q hq)

/-- After any number of steps, stopped or not, the queue and its set agree, a step always finds
packets to pass on, and stages that are not queued have passed theirs on. No step loses packets,
and all that is known is part of the outcome. -/
theorem invariant_between_steps (g : Graph) (roots : Roots) (calls : List Limits) :
    let p := (ofRoots roots).replay g (calls.map .step)
    (p.pending.Nodup ∧ ∀ s, s ∈ p.pending ↔ s ∈ p.queued) ∧
    (∀ s ∈ p.queued, ∃ x, p.reached[s]? = some x) ∧
    (∀ limits next, p.step g limits = ⟨next, .suspended⟩ → ∃ s rest x, p.pending = s :: rest ∧
      p.reached[s]? = some x ∧ next = (p.pop s rest).propagate (g.successors s) x) ∧
    (∀ (s : Stage) (x : HeaderSpace), p.reached[s]? = some x → x.isEmpty = false) ∧
    (∀ (r : Stage) (x : HeaderSpace), roots[r]? = some x → x.isEmpty = false →
      ∃ y, p.reached[r]? = some y ∧ x.subset y = true) ∧
    (∀ (s : Stage) (x : HeaderSpace), p.reached[s]? = some x → s ∉ p.queued →
      ∀ t ∈ g.successors s, (t.traverse x).subset (p.spaceAt t.target) = true) ∧
    (∀ limits, Within p.reached (p.step g limits).state.reached) ∧
    ∃ n o, Within p.reached o.reached ∧ ∀ limits : Limits, limits.signalled = false →
      g.solve roots limits =
        if n ≤ limits.maxIterations then .ok o else .error .iterationLimit := by
  intro p
  have h : p.Invariant g roots := by
    have hreplay := (Invariant.ofRoots g roots).replay (calls.map .step)
    rwa [Event.injections_map_step] at hreplay
  have hentered (s : Stage) (hs : s ∈ p.pending) : ∃ x, p.reached[s]? = some x :=
    mem_iff_exists.mp (h.entered s hs)
  refine ⟨⟨h.nodup, fun s => (h.queued_iff s).symm⟩, fun s hs => ?_, fun limits next hnext => ?_,
    h.nonempty, fun r x hr hx => ?_, fun s x hs hqueued t ht => ?_,
    fun limits => h.toWellFormed.within (subset_step g limits p),
    g.pops roots, g.outcome roots, h.within_outcome, fun limits hsignal => ?_⟩
  · exact hentered s ((h.queued_iff s).mp hs)
  · obtain ⟨_, hpending, rfl⟩ := step_suspended hnext
    obtain ⟨s, rest, hp⟩ := List.exists_cons_of_ne_nil hpending
    obtain ⟨x, hx⟩ := hentered s (by rw [hp]; exact List.mem_cons_self)
    exact ⟨s, rest, x, hp, hx, by rw [advance_cons hp, spaceAt_of_some hx]⟩
  · exact exists_entry hx (h.rooted r x hr)
  · rw [← spaceAt_of_some hs]
    exact h.passed s (fun hp => hqueued ((h.queued_iff s).mpr hp)) t ht
  · rw [g.solve_eq, if_neg (by simp [hsignal])]

theorem WellFormed.getElem?_eq {p : Progress} (h : p.WellFormed) (s : Stage) :
    p.reached[s]? = if (p.spaceAt s).isEmpty then none else some (p.spaceAt s) := by
  cases hs : p.reached[s]? with
  | none =>
    rw [spaceAt_of_none hs, if_pos ((HeaderSpace.isEmpty_iff .empty).mpr HeaderSpace.eval_empty)]
  | some x =>
    rw [spaceAt_of_some hs, if_neg (by simp [h.nonempty s x hs])]

/-- States in which nothing is pending agree if the same packets could be reached. -/
theorem Invariant.reached_eq {roots' : Roots} {p p' : Progress} (h : Invariant g roots p)
    (hp : p.pending = []) (h' : Invariant g roots' p') (hp' : p'.pending = [])
    (hreaches : ∀ s q, g.Reaches roots s q ↔ g.Reaches roots' s q) : p.reached = p'.reached := by
  have hspace (s : Stage) : p.spaceAt s = p'.spaceAt s := by
    refine HeaderSpace.eq_of_contains_iff fun q => ?_
    constructor
    · intro hq
      exact h'.complete hp' ((hreaches s q).mp (h.sound s q hq))
    · intro hq
      exact h.complete hp ((hreaches s q).mpr (h'.sound s q hq))
  apply Std.ExtTreeMap.ext_getElem?
  intro s
  rw [h.getElem?_eq, h'.getElem?_eq, hspace]

/-- From any state, enough steps lead to an outcome. -/
theorem exists_replay_done (g : Graph) (p : Progress) : ∃ k,
    ((p.replay g (.replicate k (.step { maxIterations := (p.drain g).iteration }))).step g
      { maxIterations := (p.drain g).iteration }).status = .done ⟨(p.drain g).reached⟩ := by
  fun_induction drain g p with
  | case1 p hp =>
    refine ⟨0, ?_⟩
    rw [List.replicate_zero, replay, List.foldl_nil, step_nil rfl hp]
  | case2 p hp ih =>
    obtain ⟨k, hk⟩ := ih
    refine ⟨k + 1, ?_⟩
    have hlt := iteration_lt_drain (g := g).mpr hp
    rw [← drain_advance] at hlt
    have hstep : (p.step g { maxIterations := ((p.advance g).drain g).iteration }).state =
        p.advance g := by
      rw [step_eq, if_neg (by simp), if_neg hp, if_neg (Nat.not_le_of_lt hlt)]
    rw [List.replicate_succ, replay, List.foldl_cons, handle, hstep]
    exact hk

/-- Whatever the order of steps and new traffic: once nothing is pending, the outcome is that of a
solve which had all the traffic from the start, in any order. -/
theorem injection_order_irrelevant (g : Graph) {events : List Event} {limits : Limits} {o : Outcome}
    (hdone : ((replay g {} events).step g limits).status = .done o) {order : List (Stage × HeaderSpace)}
    (horder : order.Perm (Event.injections events)) :
    ∃ n, ∀ limits : Limits, limits.signalled = false →
      ((extendAll {} order).run g limits).2 =
        if n ≤ limits.maxIterations then .ok o else .error .iterationLimit := by
  have hlast : (replay g {} events).step g limits =
      ⟨((replay g {} events).step g limits).state, .done o⟩ := by rw [← hdone]
  obtain ⟨_, hpending, _, rfl⟩ := step_done hlast
  have hinterleaved := (Invariant.empty g).replay events
  have hfirst := ((Invariant.empty g).extendAll order).drain
  have hroots (r : Stage) (q : Packet) :
      (∃ x, (Roots.addAll ∅ order)[r]? = some x ∧ x.contains q = true) ↔
        ∃ x, (Roots.addAll ∅ (Event.injections events))[r]? = some x ∧ x.contains q = true := by
    simp only [Roots.contains_addAll, horder.mem_iff]
  have hreached : ((extendAll {} order).drain g).reached = (replay g {} events).reached :=
    hfirst.reached_eq (pending_drain g _) hinterleaved hpending fun s q =>
      ⟨.mono fun r q => (hroots r q).mp, .mono fun r q => (hroots r q).mpr⟩
  have hstart : (extendAll {} order).iteration = 0 := iteration_extendAll {} order
  refine ⟨((extendAll {} order).drain g).iteration, fun limits hsignal => ?_⟩
  rw [run_eq (by omega), if_neg (by simp [hsignal]), apply_ite Prod.snd, hreached]

/-- New traffic arrives at the other end of the loop, after a step. -/
theorem injection_order_irrelevant_natLoop : ∃ (k : Nat) (last : Limits) (o : Outcome),
    ((replay Graph.natLoop {} ([.inject (.preNat Graph.wire) (.value .srcIp 9),
      .step { maxIterations := 1 }, .inject (.postNat Graph.wire) (.value .srcIp 7)] ++
        .replicate k (.step last))).step Graph.natLoop last).status = .done o ∧
    ∃ n, ∀ limits : Limits, limits.signalled = false →
      ((extendAll {} [(.postNat Graph.wire, .value .srcIp 7),
        (.preNat Graph.wire, .value .srcIp 9)]).run Graph.natLoop limits).2 =
          if n ≤ limits.maxIterations then .ok o else .error .iterationLimit := by
  obtain ⟨k, hdone⟩ := exists_replay_done Graph.natLoop
    (replay Graph.natLoop {} [.inject (.preNat Graph.wire) (.value .srcIp 9),
      .step { maxIterations := 1 }, .inject (.postNat Graph.wire) (.value .srcIp 7)])
  rw [← replay_append] at hdone
  refine ⟨k, _, _, hdone, injection_order_irrelevant Graph.natLoop hdone ?_⟩
  rw [Event.injections, List.filterMap_append, List.filterMap_replicate_of_none rfl,
    List.append_nil]
  exact List.Perm.swap _ _ _

end Progress
end Dataplane
