import Dataplane.Table
import Mathlib.Tactic.Common

/-! Passes over lists and tables that may fail: what is known about the result of one that
succeeds, which fault one that fails has met, and how a pass changes with its function. -/
namespace Dataplane

variable {ε α β γ κ : Type}

theorem ok_bind (a : α) (f : α → Except ε β) : Except.ok a >>= f = f a := rfl

theorem bind_eq_ok {x : Except ε α} {f : α → Except ε β} {b : β} :
    x >>= f = .ok b ↔ ∃ a, x = .ok a ∧ f a = .ok b := by
  cases x <;> simp [bind, Except.bind]

theorem pure_eq_ok {a b : α} : (pure a : Except ε α) = .ok b ↔ a = b := by
  simp [pure, Except.pure]

theorem exists_bind_ok {x : Except ε α} {f : α → Except ε β} :
    (∃ b, x >>= f = .ok b) ↔ ∃ a, x = .ok a ∧ ∃ b, f a = .ok b := by
  cases x <;> simp [bind, Except.bind]

theorem exists_pure_ok {a : α} : ∃ b, (pure a : Except ε α) = .ok b := ⟨a, rfl⟩

theorem rel_bind {α' β' : Type} {R : α → β → Prop} {S : α' → β' → Prop} {x : Option α}
    {y : Option β} {g : α → Option α'} {h : β → Option β'} (hxy : Option.Rel R x y)
    (hgh : ∀ a b, R a b → Option.Rel S (g a) (h b)) : Option.Rel S (x.bind g) (y.bind h) := by
  cases hxy with
  | none => exact .none
  | some hab => exact hgh _ _ hab

theorem rel_imp {R S : α → β → Prop} {x : Option α} {y : Option β} (hxy : Option.Rel R x y)
    (h : ∀ a b, R a b → S a b) : Option.Rel S x y := by
  cases hxy with
  | none => exact .none
  | some hab => exact .some (h _ _ hab)

theorem some_of_rel {R : α → β → Prop} {x : Option α} {y : Option β} (h : Option.Rel R x y) :
    (∀ a, x = some a → ∃ b, y = some b ∧ R a b) ∧ ∀ b, y = some b → ∃ a, x = some a ∧ R a b := by
  cases h with
  | none => simp
  | some hab => simp [hab]

/-- A relation that leaves no choice determines the other value. -/
theorem eq_of_rel {R : α → β → Prop} (hR : ∀ a b b', R a b → R a b' → b = b') {x : Option α}
    {y y' : Option β} (h : Option.Rel R x y) (h' : Option.Rel R x y') : y = y' := by
  cases h with
  | none =>
    cases h'
    rfl
  | some hab =>
    cases h' with
    | some hab' => rw [hR _ _ _ hab hab']

/-- If each step of a fold adds what its element brings, the result has what was there at the start
and what some element brings. -/
theorem foldlM_iff {f : β → α → Except ε β} {P : β → Prop} {Q : α → Prop}
    (hstep : ∀ b a b', f b a = .ok b' → (P b' ↔ P b ∨ Q a)) {l : List α} {b r : β}
    (h : l.foldlM f b = .ok r) : P r ↔ P b ∨ ∃ a ∈ l, Q a := by
  induction l generalizing b with
  | nil =>
    cases h
    simp
  | cons a rest ih =>
    rw [List.foldlM_cons, bind_eq_ok] at h
    obtain ⟨next, hnext, h⟩ := h
    rw [ih h, hstep b a next hnext]
    simp [or_assoc]

/-- If the element alone decides whether a step of a fold succeeds, the fold succeeds if and only if
all of its elements allow it. -/
theorem exists_foldlM_iff {f : β → α → Except ε β} {Q : α → Prop}
    (hstep : ∀ b a, (∃ b', f b a = .ok b') ↔ Q a) (l : List α) (b : β) :
    (∃ r, l.foldlM f b = .ok r) ↔ ∀ a ∈ l, Q a := by
  induction l generalizing b with
  | nil => simp [pure, Except.pure]
  | cons a rest ih =>
    rw [List.foldlM_cons, exists_bind_ok, List.forall_mem_cons, ← hstep b a]
    constructor
    · rintro ⟨next, hnext, hrest⟩
      exact ⟨⟨next, hnext⟩, (ih next).mp hrest⟩
    · rintro ⟨⟨next, hnext⟩, hrest⟩
      exact ⟨next, hnext, (ih next).mpr hrest⟩

/-- What every step of a fold keeps is kept by the fold. -/
theorem foldlM_keeps {f : β → α → Except ε β} {P : β → Prop}
    (hstep : ∀ b a b', f b a = .ok b' → P b → P b') {l : List α} {b r : β}
    (h : l.foldlM f b = .ok r) (hb : P b) : P r := by
  induction l generalizing b with
  | nil =>
    cases h
    exact hb
  | cons a rest ih =>
    rw [List.foldlM_cons, bind_eq_ok] at h
    obtain ⟨next, hnext, h⟩ := h
    exact ih h (hstep b a next hnext hb)

/-- A fold fails at the element whose step fails after those before it have succeeded. -/
theorem foldlM_eq_error {f : β → α → Except ε β} {l : List α} {b : β} {e : ε} :
    l.foldlM f b = .error e ↔ ∃ before a after b', l = before ++ a :: after ∧
      before.foldlM f b = .ok b' ∧ f b' a = .error e := by
  constructor
  · intro h
    induction l generalizing b with
    | nil => cases h
    | cons a rest ih =>
      rw [List.foldlM_cons] at h
      cases ha : f b a with
      | error e' =>
        rw [ha] at h
        cases h
        exact ⟨[], a, rest, b, rfl, rfl, ha⟩
      | ok next =>
        rw [ha] at h
        obtain ⟨before, a', after, b', rfl, hbefore, ha'⟩ := ih h
        refine ⟨a :: before, a', after, b', rfl, ?_, ha'⟩
        rw [List.foldlM_cons, ha]
        exact hbefore
  · intro h
    obtain ⟨before, a, after, b', rfl, hbefore, ha⟩ := h
    rw [List.foldlM_append, hbefore, ok_bind, List.foldlM_cons, ha]
    rfl

/-- A pass over a list has a result for every element. -/
theorem exists_of_mapM {f : α → Except ε β} {l : List α} {r : List β} (h : l.mapM f = .ok r)
    {a : α} (ha : a ∈ l) : ∃ b ∈ r, f a = .ok b := by
  induction l generalizing r with
  | nil => simp at ha
  | cons x rest ih =>
    rw [List.mapM_cons, bind_eq_ok] at h
    obtain ⟨b, hb, h⟩ := h
    obtain ⟨bs, hbs, h⟩ := bind_eq_ok.mp h
    rw [pure_eq_ok] at h
    subst r
    rcases List.mem_cons.mp ha with rfl | ha
    · exact ⟨b, List.mem_cons_self, hb⟩
    · obtain ⟨b', hb', hf⟩ := ih hbs ha
      exact ⟨b', List.mem_cons_of_mem _ hb', hf⟩

theorem mem_of_mapM {f : α → Except ε β} {l : List α} {r : List β} (h : l.mapM f = .ok r) (b : β) :
    b ∈ r ↔ ∃ a ∈ l, f a = .ok b := by
  induction l generalizing r with
  | nil =>
    rw [List.mapM_nil, pure_eq_ok] at h
    subst r
    simp
  | cons x rest ih =>
    rw [List.mapM_cons, bind_eq_ok] at h
    obtain ⟨b', hb', h⟩ := h
    obtain ⟨bs, hbs, h⟩ := bind_eq_ok.mp h
    rw [pure_eq_ok] at h
    subst r
    rw [List.mem_cons, ih hbs]
    constructor
    · intro h
      rcases h with rfl | ⟨a, ha, hf⟩
      · exact ⟨x, List.mem_cons_self, hb'⟩
      · exact ⟨a, List.mem_cons_of_mem _ ha, hf⟩
    · intro h
      obtain ⟨a, ha, hf⟩ := h
      rcases List.mem_cons.mp ha with rfl | ha
      · exact Or.inl (Except.ok.inj (hf.symm.trans hb'))
      · exact Or.inr ⟨a, ha, hf⟩

/-- The results of a pass stand where their elements do. -/
theorem getElem?_of_mapM {f : α → Except ε β} {l : List α} {r : List β} (h : l.mapM f = .ok r)
    {k : Nat} {b : β} (hb : r[k]? = some b) : ∃ a, l[k]? = some a ∧ f a = .ok b := by
  induction l generalizing r k with
  | nil =>
    rw [List.mapM_nil, pure_eq_ok] at h
    subst r
    simp at hb
  | cons a rest ih =>
    simp only [List.mapM_cons, bind_eq_ok, pure_eq_ok] at h
    obtain ⟨first, hfirst, others, hothers, rfl⟩ := h
    cases k with
    | zero =>
      cases hb
      exact ⟨a, rfl, hfirst⟩
    | succ k => exact ih hothers hb

theorem exists_mapM_iff {f : α → Except ε β} {l : List α} :
    (∃ r, l.mapM f = .ok r) ↔ ∀ a ∈ l, ∃ b, f a = .ok b := by
  constructor
  · rintro ⟨r, h⟩ a ha
    obtain ⟨b, _, hb⟩ := exists_of_mapM h ha
    exact ⟨b, hb⟩
  · intro h
    induction l with
    | nil => exact ⟨[], rfl⟩
    | cons a rest ih =>
      obtain ⟨b, hb⟩ := h a List.mem_cons_self
      obtain ⟨bs, hbs⟩ := ih fun a ha => h a (List.mem_cons_of_mem _ ha)
      refine ⟨b :: bs, ?_⟩
      rw [List.mapM_cons, hb, ok_bind, hbs]
      rfl

/-- A pass over part of a list has part of the results. -/
theorem sublist_of_mapM {f : α → Except ε β} {l l' : List α} (hsub : l'.Sublist l) {r : List β}
    (h : l.mapM f = .ok r) : ∃ r', l'.mapM f = .ok r' ∧ r'.Sublist r := by
  induction hsub generalizing r with
  | slnil => exact ⟨r, h, .refl r⟩
  | cons a _ ih =>
    simp only [List.mapM_cons, bind_eq_ok, pure_eq_ok] at h
    obtain ⟨b, _, bs, hbs, rfl⟩ := h
    obtain ⟨r', hr', hsub⟩ := ih hbs
    exact ⟨r', hr', hsub.cons b⟩
  | cons_cons a _ ih =>
    simp only [List.mapM_cons, bind_eq_ok, pure_eq_ok] at h
    obtain ⟨b, hb, bs, hbs, rfl⟩ := h
    obtain ⟨r', hr', hsub⟩ := ih hbs
    refine ⟨b :: r', ?_, hsub.cons_cons b⟩
    rw [List.mapM_cons, hb, ok_bind, hr']
    rfl

/-- What is in a list twice has its result twice. -/
theorem twice_of_mapM {f : α → Except ε β} {l : List α} {r : List β} (h : l.mapM f = .ok r) {a : α}
    (htwice : [a, a].Sublist l) : ∃ b, f a = .ok b ∧ [b, b].Sublist r := by
  obtain ⟨r', hr', hsub⟩ := sublist_of_mapM htwice h
  simp only [List.mapM_cons, List.mapM_nil, bind_eq_ok, pure_eq_ok] at hr'
  obtain ⟨b, hb, _, ⟨b', hb', _, rfl, rfl⟩, rfl⟩ := hr'
  obtain rfl := Except.ok.inj (hb.symm.trans hb')
  exact ⟨b, hb, hsub⟩

/-- Changing every result of a pass changes the list of results. -/
theorem mapM_map {f : α → Except ε β} {f' : α → Except ε γ} {g : β → γ} (l : List α)
    (h : ∀ a ∈ l, f' a = (f a).map g) : l.mapM f' = (l.mapM f).map (List.map g) := by
  induction l with
  | nil => rfl
  | cons x rest ih =>
    have hrest := ih fun a ha => h a (List.mem_cons_of_mem _ ha)
    rw [List.mapM_cons, List.mapM_cons, h x List.mem_cons_self, hrest]
    cases f x with
    | error e => rfl
    | ok b =>
      cases rest.mapM f with
      | error e => rfl
      | ok bs => rfl

theorem bind_mapM_map {δ : Type} {x : Except ε δ} {list : δ → List α} {f : α → Except ε β}
    {f' : α → Except ε γ} {g : β → γ} (h : ∀ a, f' a = (f a).map g) :
    (x >>= fun d => (list d).mapM f') = (x >>= fun d => (list d).mapM f).map (List.map g) := by
  cases x with
  | error e => rfl
  | ok d => exact mapM_map (list d) fun a _ => h a

/-- A fold that keeps step with another one through `g`. -/
theorem foldlM_keep {f : β → α → Except ε β} {f' : γ → α → Except ε γ} {g : β → γ}
    (h : ∀ b a, f' (g b) a = (f b a).map g) (l : List α) (b : β) :
    l.foldlM f' (g b) = (l.foldlM f b).map g := by
  induction l generalizing b with
  | nil => rfl
  | cons a rest ih =>
    rw [List.foldlM_cons, List.foldlM_cons, h]
    cases f b a with
    | error e => rfl
    | ok next => exact ih next

theorem foldlM_congr {f f' : β → α → Except ε β} {l : List α}
    (h : ∀ b, ∀ a ∈ l, f b a = f' b a) (b : β) : l.foldlM f b = l.foldlM f' b := by
  induction l generalizing b with
  | nil => rfl
  | cons a rest ih =>
    rw [List.foldlM_cons, List.foldlM_cons, h b a List.mem_cons_self]
    refine congrArg _ (funext fun next => ih ?_ next)
    exact fun b a ha => h b a (List.mem_cons_of_mem _ ha)

/-- The fault with which a computation fails. -/
def failure? : Except ε α → Option ε
  | .ok _ => none
  | .error e => some e

theorem failure?_eq_some {x : Except ε α} {e : ε} : failure? x = some e ↔ x = .error e := by
  cases x <;> simp [failure?]

theorem failure?_eq_none {x : Except ε α} : failure? x = none ↔ ∃ a, x = .ok a := by
  cases x <;> simp [failure?]

/-- What comes second is heard of only if what comes first succeeds. -/
theorem failure?_bind {x : Except ε α} {f : α → Except ε β} {fault : Option ε}
    (h : ∀ a, failure? (f a) = fault) : failure? (x >>= f) = (failure? x).or fault := by
  cases x with
  | error e => rfl
  | ok a => exact h a

theorem failure?_bind_pure {x : Except ε α} (f : α → β) :
    failure? (x >>= fun a => pure (f a)) = failure? x := by
  cases x <;> rfl

/-- A pass over a list fails with the first of its failures. -/
theorem failure?_mapM (f : α → Except ε β) (l : List α) :
    failure? (l.mapM f) = l.findSome? fun a => failure? (f a) := by
  induction l with
  | nil => rfl
  | cons a rest ih =>
    rw [List.mapM_cons, failure?_bind fun b => failure?_bind_pure _, ih, List.findSome?_cons]
    cases failure? (f a) <;> rfl

/-- If the element alone decides on the failure of a step, a fold fails with the first of them. -/
theorem failure?_foldlM {f : β → α → Except ε β} {fault : α → Option ε}
    (h : ∀ b a, failure? (f b a) = fault a) (l : List α) (b : β) :
    failure? (l.foldlM f b) = l.findSome? fault := by
  induction l generalizing b with
  | nil => rfl
  | cons a rest ih =>
    rw [List.foldlM_cons, failure?_bind ih, h, List.findSome?_cons]
    cases fault a <;> rfl

section Traverse

variable [Ord κ] [Std.TransOrd κ] [Std.LawfulEqOrd κ]

omit [Std.LawfulEqOrd κ] in
theorem values_eq (t : Std.ExtTreeMap κ α) : t.values = t.toList.map Prod.snd := by
  obtain ⟨⟨t⟩⟩ := t
  induction t using Quotient.inductionOn with
  | _ t =>
    show Std.DTreeMap.Internal.Impl.values _ =
      (Std.DTreeMap.Internal.Impl.Const.toList _).map Prod.snd
    rw [Std.DTreeMap.Internal.Impl.values_eq_map_snd,
      Std.DTreeMap.Internal.Impl.Const.toList_eq_toListModel_map, List.map_map]
    rfl

theorem mem_values {t : Std.ExtTreeMap κ α} {a : α} : a ∈ t.values ↔ ∃ k : κ, t[k]? = some a := by
  rw [values_eq, List.mem_map]
  constructor
  · intro h
    obtain ⟨⟨k, a⟩, h, rfl⟩ := h
    exact ⟨k, Std.ExtTreeMap.mem_toList_iff_getElem?_eq_some.mp h⟩
  · intro h
    obtain ⟨k, h⟩ := h
    exact ⟨(k, a), Std.ExtTreeMap.mem_toList_iff_getElem?_eq_some.mpr h, rfl⟩

omit [Std.LawfulEqOrd κ] in
theorem mem_iff_exists {t : Std.ExtTreeMap κ α} {k : κ} : k ∈ t ↔ ∃ a, t[k]? = some a := by
  rw [Std.ExtTreeMap.mem_iff_isSome_getElem?, Option.isSome_iff_exists]

private theorem getElem?_foldlM {f : κ → α → Except ε β} {l : List (κ × α)}
    (hl : l.Pairwise fun a b => a.1 ≠ b.1) {start r : Std.ExtTreeMap κ β}
    (h : l.foldlM (fun done (k, a) => return done.insert k (← f k a)) start = .ok r) (k : κ) :
    (∀ a, (k, a) ∈ l → ∃ b, f k a = .ok b ∧ r[k]? = some b) ∧
      ((∀ a, (k, a) ∉ l) → r[k]? = start[k]?) := by
  induction l generalizing start with
  | nil =>
    rw [List.foldlM_nil, pure_eq_ok] at h
    subst r
    simp
  | cons x rest ih =>
    obtain ⟨k', a'⟩ := x
    rw [List.pairwise_cons] at hl
    rw [List.foldlM_cons, bind_eq_ok] at h
    obtain ⟨next, hnext, h⟩ := h
    obtain ⟨b', hb', hnext⟩ := bind_eq_ok.mp hnext
    rw [pure_eq_ok] at hnext
    subst next
    obtain ⟨hmem, hnot⟩ := ih hl.2 h
    constructor
    · intro a ha
      rcases List.mem_cons.mp ha with heq | ha
      · obtain ⟨rfl, rfl⟩ := Prod.mk.inj heq
        refine ⟨b', hb', ?_⟩
        rw [hnot fun a ha => hl.1 (k, a) ha rfl, Std.ExtTreeMap.getElem?_insert_self]
      · exact hmem a ha
    · intro hnone
      have hne : k' ≠ k := by
        rintro rfl
        exact hnone a' List.mem_cons_self
      rw [hnot fun a ha => hnone a (List.mem_cons_of_mem _ ha), Std.ExtTreeMap.getElem?_insert,
        if_neg fun he => hne (Std.compare_eq_iff_eq.mp he)]

/-- A pass over a table keeps its keys and has a result for every entry. -/
theorem rel_traverse {f : κ → α → Except ε β} {t : Std.ExtTreeMap κ α} {r : Std.ExtTreeMap κ β}
    (h : traverse f t = .ok r) (k : κ) : Option.Rel (fun a b => f k a = .ok b) t[k]? r[k]? := by
  have hdistinct : t.toList.Pairwise fun a b => a.1 ≠ b.1 :=
    t.distinct_keys_toList.imp fun hne he => hne (Std.compare_eq_iff_eq.mpr he)
  obtain ⟨hmem, hnot⟩ := getElem?_foldlM hdistinct h k
  simp only [Std.ExtTreeMap.mem_toList_iff_getElem?_eq_some] at hmem hnot
  cases ha : t[k]? with
  | none =>
    rw [hnot (by simp [ha]), Std.ExtTreeMap.getElem?_empty]
    exact .none
  | some a =>
    obtain ⟨b, hb, hr⟩ := hmem a ha
    rw [hr]
    exact .some hb

theorem exists_traverse_iff {f : κ → α → Except ε β} {t : Std.ExtTreeMap κ α} :
    (∃ r, traverse f t = .ok r) ↔ ∀ (k : κ) (a : α), t[k]? = some a → ∃ b, f k a = .ok b := by
  have hstep (done : Std.ExtTreeMap κ β) (entry : κ × α) :
      (∃ next, (do return done.insert entry.1 (← f entry.1 entry.2) : Except ε _) = .ok next) ↔
        ∃ b, f entry.1 entry.2 = .ok b := by
    rw [exists_bind_ok]
    simp only [exists_pure_ok, and_true]
  have hfold := exists_foldlM_iff hstep t.toList ∅
  simp only [Prod.forall, Std.ExtTreeMap.mem_toList_iff_getElem?_eq_some] at hfold
  exact hfold

theorem mem_traverse {f : κ → α → Except ε β} {t : Std.ExtTreeMap κ α} {r : Std.ExtTreeMap κ β}
    (h : traverse f t = .ok r) {k : κ} : k ∈ r ↔ k ∈ t := by
  have hk := rel_traverse h k
  rw [Std.ExtTreeMap.mem_iff_isSome_getElem?, Std.ExtTreeMap.mem_iff_isSome_getElem?]
  generalize t[k]? = a?, r[k]? = b? at hk ⊢
  cases hk <;> rfl

theorem map_insert (t : Std.ExtTreeMap κ β) (k : κ) (b : β) (g : β → γ) :
    (t.insert k b).map (fun _ => g) = (t.map fun _ => g).insert k (g b) := by
  apply Std.ExtTreeMap.ext_getElem?
  intro k'
  rw [Std.ExtTreeMap.getElem?_map, Std.ExtTreeMap.getElem?_insert, Std.ExtTreeMap.getElem?_insert,
    Std.ExtTreeMap.getElem?_map]
  split
  · rfl
  · rfl

/-- Changing every result of a pass changes the entries of the table of results. -/
theorem traverse_map {f : κ → α → Except ε β} {f' : κ → α → Except ε γ} {g : β → γ}
    (h : ∀ k a, f' k a = (f k a).map g) (t : Std.ExtTreeMap κ α) :
    traverse f' t = (traverse f t).map (·.map fun _ => g) := by
  have hstep (done : Std.ExtTreeMap κ β) (entry : κ × α) :
      (do return (done.map fun _ => g).insert entry.1 (← f' entry.1 entry.2)) =
        Except.map (·.map fun _ => g) (do return done.insert entry.1 (← f entry.1 entry.2)) := by
    rw [h]
    cases f entry.1 entry.2 with
    | error e => rfl
    | ok b => exact congrArg Except.ok (map_insert done entry.1 b g).symm
  have hempty : (∅ : Std.ExtTreeMap κ β).map (fun _ => g) = ∅ := by simp
  unfold traverse
  rw [← hempty]
  exact foldlM_keep hstep t.toList ∅

end Traverse
end Dataplane
