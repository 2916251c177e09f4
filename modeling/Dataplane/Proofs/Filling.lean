import Dataplane.Table
import Mathlib.Data.List.Induction
import Mathlib.Tactic.Common

/-! Tables that are filled from lists. Of the entries with one key the last one stays. -/
namespace Dataplane

variable {α β κ : Type} {key : α → κ} {value : α → β} {l : List α} {a : α}

/-- The element is in the list, and none behind it has its key. -/
def LastWith (key : α → κ) (l : List α) (a : α) : Prop :=
  ∃ before after, l = before ++ a :: after ∧ ∀ b ∈ after, key b ≠ key a

theorem LastWith.mem (h : LastWith key l a) : a ∈ l := by
  obtain ⟨before, after, rfl, _⟩ := h
  exact List.mem_append_right _ List.mem_cons_self

theorem lastWith_concat {x : α} :
    LastWith key (l ++ [x]) a ↔ a = x ∨ LastWith key l a ∧ key x ≠ key a := by
  constructor
  · rintro ⟨before, after, heq, hafter⟩
    rcases List.eq_nil_or_concat after with rfl | ⟨rest, y, rfl⟩
    · exact Or.inl (List.singleton_inj.mp (List.append_inj' heq rfl).2).symm
    · have hsplit : l ++ [x] = (before ++ a :: rest) ++ [y] := by simpa using heq
      obtain ⟨rfl, hlast⟩ := List.append_inj' hsplit rfl
      obtain rfl := List.singleton_inj.mp hlast
      refine Or.inr ⟨⟨before, rest, rfl, fun b hb => ?_⟩, hafter x (by simp)⟩
      exact hafter b (by simp [hb])
  · rintro (rfl | ⟨⟨before, after, rfl, hafter⟩, hx⟩)
    · exact ⟨l, [], rfl, by simp⟩
    · refine ⟨before, after ++ [x], by simp, fun b hb => ?_⟩
      rcases List.mem_append.mp hb with hb | hb
      · exact hafter b hb
      · rwa [List.mem_singleton.mp hb]

theorem exists_lastWith (key : α → κ) (h : a ∈ l) : ∃ b, LastWith key l b ∧ key b = key a := by
  induction l using List.reverseRecOn with
  | nil => simp at h
  | append_singleton l x ih =>
    simp only [lastWith_concat]
    by_cases hx : key x = key a
    · exact ⟨x, Or.inl rfl, hx⟩
    · have ha : a ∈ l := by
        rcases List.mem_append.mp h with ha | ha
        · exact ha
        · rw [List.mem_singleton.mp ha] at hx
          contradiction
      obtain ⟨b, hb, hkey⟩ := ih ha
      exact ⟨b, Or.inr ⟨hb, by rwa [hkey]⟩, hkey⟩

theorem lastWith_iff_mem (hl : l.Pairwise fun a b => key a ≠ key b) : LastWith key l a ↔ a ∈ l := by
  refine ⟨LastWith.mem, fun h => ?_⟩
  obtain ⟨before, after, rfl⟩ := List.append_of_mem h
  rw [List.pairwise_append, List.pairwise_cons] at hl
  exact ⟨before, after, rfl, fun b hb => (hl.2.1.1 b hb).symm⟩

variable [Ord κ] [Std.TransOrd κ] [Std.LawfulEqOrd κ]

theorem getElem?_foldl_insert {k : κ} {b : β} :
    (l.foldl (fun t a => t.insert (key a) (value a)) (∅ : Std.ExtTreeMap κ β))[k]? = some b ↔
      ∃ a, LastWith key l a ∧ key a = k ∧ value a = b := by
  -- The last element is inserted last, so the induction takes it off first.
  induction l using List.reverseRecOn with
  | nil => simp [LastWith]
  | append_singleton l x ih =>
    rw [List.foldl_append, List.foldl_cons, List.foldl_nil, Std.ExtTreeMap.getElem?_insert]
    simp only [lastWith_concat]
    split
    · rename_i heq
      have hx : key x = k := Std.compare_eq_iff_eq.mp heq
      constructor
      · intro h
        exact ⟨x, Or.inl rfl, hx, Option.some.inj h⟩
      · rintro ⟨a, rfl | ⟨_, hne⟩, rfl, rfl⟩
        · rfl
        · contradiction
    · rename_i hne
      rw [Std.compare_eq_iff_eq] at hne
      rw [ih]
      constructor
      · rintro ⟨a, ha, rfl, rfl⟩
        exact ⟨a, Or.inr ⟨ha, hne⟩, rfl, rfl⟩
      · rintro ⟨a, rfl | ⟨ha, _⟩, rfl, rfl⟩
        · contradiction
        · exact ⟨a, ha, rfl, rfl⟩

/-- A table is made up of its entries. -/
theorem foldl_insert_toList (t : Std.ExtTreeMap κ β) :
    t.toList.foldl (fun t entry => t.insert entry.1 entry.2) ∅ = t := by
  have hdistinct : t.toList.Pairwise fun a b => a.1 ≠ b.1 :=
    t.distinct_keys_toList.imp fun hne he => hne (Std.compare_eq_iff_eq.mpr he)
  refine Std.ExtTreeMap.ext_getElem? fun k => Option.ext fun b => ?_
  rw [getElem?_foldl_insert, ← Std.ExtTreeMap.mem_toList_iff_getElem?_eq_some]
  simp [lastWith_iff_mem hdistinct]

end Dataplane
