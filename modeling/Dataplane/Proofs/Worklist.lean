import Dataplane.Proofs.Crossing
import Dataplane.Reach.Solve

/-! The state of a solve: what noting packets, passing packets on and a whole step change. -/
namespace Dataplane

namespace Progress

/-- The packets known to reach a stage, which are none without an entry. -/
def spaceAt (p : Progress) (s : Stage) : HeaderSpace := p.reached[s]?.getD .empty

theorem spaceAt_of_some {p : Progress} {s : Stage} {x : HeaderSpace} (hs : p.reached[s]? = some x) :
    p.spaceAt s = x := by
  rw [spaceAt, hs]
  rfl

theorem spaceAt_of_none {p : Progress} {s : Stage} (hs : p.reached[s]? = none) :
    p.spaceAt s = .empty := by
  rw [spaceAt, hs]
  rfl

/-- The queue and its set agree, and the queue holds stages that some packet reaches. -/
structure WellFormed (p : Progress) : Prop where
  nodup : p.pending.Nodup
  queued_iff : ∀ s, s ∈ p.queued ↔ s ∈ p.pending
  entered : ∀ s ∈ p.pending, s ∈ p.reached
  nonempty : ∀ (s : Stage) (x : HeaderSpace), p.reached[s]? = some x → x.isEmpty = false

/-- Nothing is lost, and a stage that gains packets is pending afterwards. -/
structure Grows (p next : Progress) : Prop where
  mono : ∀ s, (p.spaceAt s).subset (next.spaceAt s) = true
  pending : ∀ s ∈ p.pending, s ∈ next.pending
  quiet : ∀ s, s ∉ next.pending → next.spaceAt s = p.spaceAt s

theorem Grows.refl (p : Progress) : Grows p p :=
  ⟨fun s => (p.spaceAt s).subset_refl, fun _ h => h, fun _ _ => rfl⟩

theorem Grows.trans {p q r : Progress} (hpq : Grows p q) (hqr : Grows q r) : Grows p r where
  mono s := HeaderSpace.subset_trans (hpq.mono s) (hqr.mono s)
  pending s h := hqr.pending s (hpq.pending s h)
  quiet s h := (hqr.quiet s h).trans (hpq.quiet s fun hq => h (hqr.pending s hq))

theorem WellFormed.isEmpty_spaceAt {p : Progress} (h : p.WellFormed) (s : Stage) :
    (p.spaceAt s).isEmpty = false ↔ s ∈ p.reached := by
  rw [Std.ExtTreeMap.mem_iff_isSome_getElem?, spaceAt]
  cases hs : p.reached[s]? with
  | none => simp [(HeaderSpace.isEmpty_iff_contains .empty).mpr HeaderSpace.contains_empty]
  | some x => simp [h.nonempty s x hs]

/-- The state after a stage has gained packets. -/
def grown (p : Progress) (s : Stage) (packets : HeaderSpace) : Progress :=
  { p with
    reached := p.reached.insert s ((p.spaceAt s).union packets)
    pending := if s ∈ p.queued then p.pending else p.pending ++ [s]
    queued := if s ∈ p.queued then p.queued else p.queued.insert s }

/-- Packets are news if and only if some of them were not known to reach the stage. -/
theorem extend_eq (p : Progress) (s : Stage) (packets : HeaderSpace) :
    p.extend s packets =
      if packets.subset (p.spaceAt s) then (p, false) else (p.grown s packets, true) := by
  have hgrow (space : HeaderSpace) (hspace : space = (p.spaceAt s).union packets) :
      (if (p.queued.contains s) = true then ({ p with reached := p.reached.insert s space }, true)
        else ({ p with reached := p.reached.insert s space, pending := p.pending ++ [s],
                       queued := p.queued.insert s }, true)) = (p.grown s packets, true) := by
    rw [grown, hspace]
    by_cases hq : s ∈ p.queued
    · simp [hq]
    · simp [hq]
  unfold extend
  dsimp only
  by_cases hempty : packets.isEmpty = true
  · have hsub : packets.subset (p.spaceAt s) = true := by
      rw [HeaderSpace.eq_empty_of_isEmpty hempty, HeaderSpace.subset_iff_contains]
      simp
    rw [if_pos hempty, if_pos hsub]
  · rw [if_neg hempty]
    cases hs : p.reached[s]? with
    | none =>
      have hspace := spaceAt_of_none hs
      have hsub : ¬packets.subset (p.spaceAt s) = true := by
        rw [hspace, HeaderSpace.subset_iff_contains]
        intro h
        apply hempty
        rw [HeaderSpace.isEmpty_iff_contains]
        intro q
        by_contra hq
        rw [Bool.not_eq_false] at hq
        simpa using h q hq
      rw [if_neg hsub]
      exact hgrow packets (HeaderSpace.ext_contains fun q => by simp [hspace])
    | some known =>
      have hspace := spaceAt_of_some hs
      rw [hspace]
      dsimp only
      split
      · rfl
      · exact hgrow _ (by rw [hspace])

theorem spaceAt_grown (p : Progress) (s r : Stage) (packets : HeaderSpace) :
    (p.grown s packets).spaceAt r = if s = r then (p.spaceAt s).union packets else p.spaceAt r := by
  simp only [spaceAt, grown, Std.ExtTreeMap.getElem?_insert, Std.compare_eq_iff_eq]
  split
  · rfl
  · rfl

theorem mem_pending_grown {p : Progress} (h : p.WellFormed) (s r : Stage) (packets : HeaderSpace) :
    r ∈ (p.grown s packets).pending ↔ r ∈ p.pending ∨ r = s := by
  simp only [grown]
  split
  · rename_i hq
    rw [h.queued_iff] at hq
    constructor
    · exact Or.inl
    · intro h
      rcases h with hr | rfl
      · exact hr
      · exact hq
  · simp

/-- The packets at a stage after others were noted. -/
theorem spaceAt_extend (p : Progress) (s r : Stage) (packets : HeaderSpace) :
    (p.extend s packets).1.spaceAt r =
      if s = r then (p.spaceAt s).union packets else p.spaceAt r := by
  rw [extend_eq]
  split
  · rename_i hsub
    split
    · subst r
      rw [HeaderSpace.subset_iff_contains] at hsub
      refine HeaderSpace.ext_contains fun q => ?_
      rw [HeaderSpace.contains_union]
      cases hq : packets.contains q with
      | false => simp
      | true => simp [hsub q hq]
    · rfl
  · exact spaceAt_grown p s r packets

theorem contains_extend (p : Progress) (s r : Stage) (packets : HeaderSpace) (q : Packet) :
    ((p.extend s packets).1.spaceAt r).contains q = true ↔
      (p.spaceAt r).contains q = true ∨ s = r ∧ packets.contains q = true := by
  rw [spaceAt_extend]
  split
  · subst r
    simp
  · rename_i hne
    simp [hne]

theorem grows_extend {p : Progress} (h : p.WellFormed) (s : Stage) (packets : HeaderSpace) :
    Grows p (p.extend s packets).1 := by
  rw [extend_eq]
  split
  · exact .refl p
  · refine ⟨fun r => ?_, fun r hr => ?_, fun r hr => ?_⟩
    · rw [spaceAt_grown]
      split
      · subst r
        exact HeaderSpace.subset_union_left _ _
      · exact HeaderSpace.subset_refl _
    · exact (mem_pending_grown h s r packets).mpr (Or.inl hr)
    · rw [mem_pending_grown h] at hr
      rw [spaceAt_grown, if_neg fun he => hr (Or.inr he.symm)]

theorem WellFormed.extend {p : Progress} (h : p.WellFormed) (s : Stage) (packets : HeaderSpace) :
    (p.extend s packets).1.WellFormed := by
  rw [extend_eq]
  split
  · exact h
  · rename_i hsub
    refine ⟨?_, fun r => ?_, fun r hr => ?_, fun r x hr => ?_⟩
    · simp only [grown]
      split
      · exact h.nodup
      · rename_i hq
        rw [h.queued_iff] at hq
        exact List.nodup_append.mpr ⟨h.nodup, by simp, by simp; rintro a ha rfl; exact hq ha⟩
    · rw [mem_pending_grown h]
      simp only [grown]
      split
      · rename_i hq
        rw [h.queued_iff] at hq ⊢
        constructor
        · exact Or.inl
        · intro h
          rcases h with hr | rfl
          · exact hr
          · exact hq
      · rw [Std.ExtTreeSet.mem_insert, Std.compare_eq_iff_eq, h.queued_iff, or_comm, eq_comm]
    · simp only [grown, Std.ExtTreeMap.mem_insert, Std.compare_eq_iff_eq]
      rcases (mem_pending_grown h s r packets).mp hr with hr | rfl
      · exact Or.inr (h.entered r hr)
      · exact Or.inl rfl
    · simp only [grown, Std.ExtTreeMap.getElem?_insert, Std.compare_eq_iff_eq] at hr
      split at hr
      · have hx : (p.spaceAt s).union packets = x := Option.some.inj hr
        subst x
        by_contra hempty
        rw [Bool.not_eq_false, HeaderSpace.isEmpty_iff_contains] at hempty
        apply hsub
        rw [HeaderSpace.subset_iff_contains]
        intro q hq
        have := hempty q
        simp [hq] at this
      · exact h.nonempty r x hr

/-- Note several packets at their stages, one after the other. -/
def extendAll (p : Progress) (news : List (Stage × HeaderSpace)) : Progress :=
  news.foldl (fun p (s, packets) => (p.extend s packets).1) p

theorem ofRoots_eq (roots : Roots) : ofRoots roots = extendAll {} roots.toList := rfl

theorem propagate_eq (p : Progress) (transitions : List Transition) (packets : HeaderSpace) :
    p.propagate transitions packets =
      p.extendAll (transitions.map fun t => (t.target, t.traverse packets)) := by
  rw [extendAll, List.foldl_map]
  rfl

theorem WellFormed.extendAll {p : Progress} (h : p.WellFormed) (news : List (Stage × HeaderSpace)) :
    (p.extendAll news).WellFormed := by
  induction news generalizing p with
  | nil => exact h
  | cons n rest ih => exact ih (h.extend n.1 n.2)

theorem grows_extendAll {p : Progress} (h : p.WellFormed) (news : List (Stage × HeaderSpace)) :
    Grows p (p.extendAll news) := by
  induction news generalizing p with
  | nil => exact .refl p
  | cons n rest ih => exact (grows_extend h n.1 n.2).trans (ih (h.extend n.1 n.2))

theorem contains_extendAll (p : Progress) (news : List (Stage × HeaderSpace)) (s : Stage)
    (q : Packet) :
    ((p.extendAll news).spaceAt s).contains q = true ↔
      (p.spaceAt s).contains q = true ∨ ∃ n ∈ news, n.1 = s ∧ n.2.contains q = true := by
  induction news generalizing p with
  | nil => simp [extendAll]
  | cons n rest ih =>
    have hstep : p.extendAll (n :: rest) = (p.extend n.1 n.2).1.extendAll rest := rfl
    rw [hstep, ih, contains_extend, or_assoc]
    simp only [List.mem_cons, or_and_right, exists_or, exists_eq_left]

/-- What a transition passes on, if it is one of the transitions. -/
theorem contains_propagate (p : Progress) (transitions : List Transition) (packets : HeaderSpace)
    (s : Stage) (q : Packet) :
    ((p.propagate transitions packets).spaceAt s).contains q = true ↔
      (p.spaceAt s).contains q = true ∨
        ∃ t ∈ transitions, t.target = s ∧ (t.traverse packets).contains q = true := by
  rw [propagate_eq, contains_extendAll]
  simp

/-- No packets, no news. -/
theorem propagate_empty (p : Progress) (transitions : List Transition) :
    p.propagate transitions .empty = p := by
  unfold propagate
  induction transitions with
  | nil => rfl
  | cons t rest ih =>
    have hnone : t.traverse .empty = .empty := by
      refine HeaderSpace.ext_contains fun q => ?_
      rw [HeaderSpace.contains_empty, ← Bool.not_eq_true, t.contains_traverse]
      simp
    have hsub : HeaderSpace.subset .empty (p.spaceAt t.target) = true := by
      rw [HeaderSpace.subset_iff_contains]
      simp
    rw [List.foldl_cons, hnone, extend_eq, if_pos hsub, ih]

@[simp] theorem spaceAt_pop (p : Progress) (s r : Stage) (rest : List Stage) :
    (p.pop s rest).spaceAt r = p.spaceAt r := rfl

theorem WellFormed.pop {p : Progress} (h : p.WellFormed) {s : Stage} {rest : List Stage}
    (hp : p.pending = s :: rest) : (p.pop s rest).WellFormed := by
  have hnodup := h.nodup
  rw [hp, List.nodup_cons] at hnodup
  refine ⟨hnodup.2, fun r => ?_, fun r hr => ?_, h.nonempty⟩
  · simp only [Progress.pop]
    rw [Std.ExtTreeSet.mem_erase, ne_eq, Std.compare_eq_iff_eq, h.queued_iff, hp, List.mem_cons]
    constructor
    · intro h
      rcases h with ⟨hne, rfl | hr⟩
      · exact absurd rfl hne
      · exact hr
    · intro hr
      refine ⟨?_, Or.inr hr⟩
      rintro rfl
      exact hnodup.1 hr
  · exact h.entered r (by rw [hp]; exact List.mem_cons_of_mem _ hr)

/-- A step that nothing stops takes the first pending stage and passes its packets on. -/
theorem step_cons {g : Graph} {limits : Limits} {p : Progress} {s : Stage} {rest : List Stage}
    (hsignal : limits.signalled = false) (hp : p.pending = s :: rest)
    (hlimit : p.iteration < limits.maxIterations) :
    p.step g limits = ⟨(p.pop s rest).propagate (g.successors s) (p.spaceAt s), .suspended⟩ := by
  unfold step
  rw [if_neg (by simp [hsignal]), hp]
  dsimp only
  rw [if_neg (Nat.not_le_of_lt hlimit), ← spaceAt_pop p s s rest, spaceAt]
  cases (p.pop s rest).reached[s]? with
  | none => rw [Option.getD_none, propagate_empty]
  | some packets => rfl

theorem step_nil {g : Graph} {limits : Limits} {p : Progress} (hsignal : limits.signalled = false)
    (hp : p.pending = []) : p.step g limits = ⟨p, .done ⟨p.reached⟩⟩ := by
  unfold step
  rw [if_neg (by simp [hsignal]), hp]

/-- The state after a step that nothing stops. -/
def advance (g : Graph) (p : Progress) : Progress :=
  (p.step g { maxIterations := p.iteration + 1 }).state

theorem advance_nil {g : Graph} {p : Progress} (hp : p.pending = []) : p.advance g = p := by
  rw [advance, step_nil rfl hp]

theorem advance_cons {g : Graph} {p : Progress} {s : Stage} {rest : List Stage}
    (hp : p.pending = s :: rest) :
    p.advance g = (p.pop s rest).propagate (g.successors s) (p.spaceAt s) := by
  rw [advance, step_cons rfl hp (Nat.lt_succ_self _)]

/-- Nothing moves after a signal, without a pending stage, or at the limit. -/
theorem step_eq (g : Graph) (limits : Limits) (p : Progress) :
    p.step g limits =
      if limits.signalled then ⟨p, .interrupted .signal⟩
      else if p.pending = [] then ⟨p, .done ⟨p.reached⟩⟩
      else if limits.maxIterations ≤ p.iteration then ⟨p, .interrupted .iterationLimit⟩
      else ⟨p.advance g, .suspended⟩ := by
  split_ifs with hsignal hpending hlimit
  · rw [step, if_pos hsignal]
  · exact step_nil (Bool.eq_false_iff.mpr hsignal) hpending
  · obtain ⟨s, rest, hp⟩ := List.exists_cons_of_ne_nil hpending
    unfold step
    rw [if_neg hsignal, hp]
    exact if_pos hlimit
  · obtain ⟨s, rest, hp⟩ := List.exists_cons_of_ne_nil hpending
    rw [step_cons (Bool.eq_false_iff.mpr hsignal) hp (Nat.lt_of_not_le hlimit), advance_cons hp]

theorem step_suspended {g : Graph} {limits : Limits} {p next : Progress}
    (h : p.step g limits = ⟨next, .suspended⟩) :
    limits.signalled = false ∧ p.pending ≠ [] ∧ next = p.advance g := by
  rw [step_eq] at h
  split_ifs at h with hsignal hpending
  · cases h
  · cases h
  · cases h
  · exact ⟨Bool.eq_false_iff.mpr hsignal, hpending, (Step.mk.inj h).1.symm⟩

theorem step_done {g : Graph} {limits : Limits} {p last : Progress} {o : Outcome}
    (h : p.step g limits = ⟨last, .done o⟩) :
    limits.signalled = false ∧ p.pending = [] ∧ last = p ∧ o = ⟨p.reached⟩ := by
  rw [step_eq] at h
  split_ifs at h with hsignal hpending
  · cases h
  · cases h
    exact ⟨Bool.eq_false_iff.mpr hsignal, hpending, rfl, rfl⟩
  · cases h
  · cases h

theorem step_interrupted {g : Graph} {limits : Limits} {p last : Progress} {cause : Interruption}
    (h : p.step g limits = ⟨last, .interrupted cause⟩) :
    last = p ∧ (limits.signalled = true ∧ cause = .signal ∨
      limits.signalled = false ∧ p.pending ≠ [] ∧ limits.maxIterations ≤ p.iteration ∧
        cause = .iterationLimit) := by
  rw [step_eq] at h
  split_ifs at h with hsignal hpending hlimit
  · cases h
    exact ⟨rfl, Or.inl ⟨hsignal, rfl⟩⟩
  · cases h
  · cases h
    exact ⟨rfl, Or.inr ⟨Bool.eq_false_iff.mpr hsignal, hpending, hlimit, rfl⟩⟩
  · cases h

/-- A step that does not end the solve advances it, and any other leaves the state as it was. -/
theorem state_step (g : Graph) (limits : Limits) (p : Progress) :
    (p.step g limits).state = p ∨ (p.step g limits).state = p.advance g := by
  rw [step_eq]
  split_ifs
  · exact Or.inl rfl
  · exact Or.inl rfl
  · exact Or.inl rfl
  · exact Or.inr rfl

end Progress
end Dataplane
