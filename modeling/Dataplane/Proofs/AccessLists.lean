import Dataplane.Proofs.Conditions
import Mathlib.Logic.Equiv.Fin.Rotate
import Mathlib.Tactic.FinCases
import Mathlib.Data.Fintype.Basic

/-! Access lists: the first line that holds of a packet decides, the first malformed line is
reported, and lines that do not conflict can change places. -/
namespace Dataplane

namespace CompiledAcl

/-- The first line that holds of a packet decides, and the halves are each other's complement. -/
structure FirstMatch (lines : List (Action × HeaderSpace)) (c : CompiledAcl) : Prop where
  permit_iff : ∀ p, c.permit.contains p = true ↔
    ∃ line, lines.find? (·.2.contains p) = some line ∧ line.1 = .permit
  deny_iff : ∀ p, c.deny.contains p = true ↔ c.permit.contains p = false
  disjoint : c.permit.inter c.deny = .empty
  total : c.permit.union c.deny = .full

theorem firstMatch_ofLines (lines : List (Action × HeaderSpace)) :
    FirstMatch lines (ofLines lines) where
  permit_iff p := by
    rw [contains_ofLines, Option.any_eq_true]
    simp only [decide_eq_true_iff]
  deny_iff p := by
    rw [← Bool.not_eq_true']
    exact Bool.eq_iff_iff.mp (HeaderSpace.contains_compl _ p)
  disjoint := HeaderSpace.inter_compl _
  total := HeaderSpace.union_compl _

/-- What is permitted and what is left after one more line. -/
def passLine (split : HeaderSpace × HeaderSpace) (line : Action × HeaderSpace) :
    HeaderSpace × HeaderSpace :=
  (if line.1 = .permit then split.1.union (line.2.inter split.2) else split.1,
    split.2.diff line.2)

/-- Where nothing is left, lines change nothing. -/
theorem foldl_passLine_empty (found : HeaderSpace) (lines : List (Action × HeaderSpace)) :
    lines.foldl passLine (found, .empty) = (found, .empty) := by
  induction lines with
  | nil => rfl
  | cons line rest ih =>
    have hstep : passLine (found, .empty) line = (found, .empty) := by
      rw [passLine, HeaderSpace.inter_empty, found.union_empty, HeaderSpace.empty_diff, ite_self]
    rw [List.foldl_cons, hstep, ih]

theorem permitted_eq_foldl (found left : HeaderSpace) (lines : List (Action × HeaderSpace)) :
    permitted found left lines = (lines.foldl passLine (found, left)).1 := by
  induction lines generalizing found left with
  | nil => rfl
  | cons line rest ih =>
    rw [permitted, List.foldl_cons, passLine]
    split
    · rename_i hempty
      rw [HeaderSpace.eq_empty_of_isEmpty hempty, foldl_passLine_empty]
    · exact ih _ _

/-- Lines conflict if they say different things about some packet. -/
def Conflict (a b : Action × HeaderSpace) : Prop := a.1 ≠ b.1 ∧ (a.2.inter b.2).isEmpty = false

/-- The same lines in an order in which no two of them that conflict have changed places. -/
structure Rearrangement (lines lines' : List (Action × HeaderSpace)) where
  place : Fin lines.length ≃ Fin lines'.length
  get_place : ∀ i, lines'.get (place i) = lines.get i
  keeps : ∀ i j, i < j → Conflict (lines.get i) (lines.get j) → place i < place j

theorem conflict_of_contains {a b : Action × HeaderSpace} (hne : a.1 ≠ b.1) {p : Packet}
    (ha : a.2.contains p = true) (hb : b.2.contains p = true) : Conflict a b := by
  refine ⟨hne, HeaderSpace.isEmpty_eq_false_of_contains (p := p) ?_⟩
  rw [HeaderSpace.contains_inter, ha, hb]
  rfl

theorem exists_get_of_find? {lines : List (Action × HeaderSpace)} {p : Packet}
    {line : Action × HeaderSpace} (h : lines.find? (·.2.contains p) = some line) :
    ∃ i, lines.get i = line ∧ line.2.contains p = true ∧
      ∀ j < i, (lines.get j).2.contains p = false := by
  obtain ⟨hline, i, hi, hget, hbefore⟩ := List.find?_eq_some_iff_getElem.mp h
  refine ⟨⟨i, hi⟩, hget, hline, fun j hj => ?_⟩
  simpa using hbefore j.val hj

namespace Rearrangement

variable {lines lines' : List (Action × HeaderSpace)}

theorem get_symm (r : Rearrangement lines lines') (i : Fin lines'.length) :
    lines.get (r.place.symm i) = lines'.get i := by
  rw [← r.get_place, Equiv.apply_symm_apply]

theorem mem_iff (r : Rearrangement lines lines') (line : Action × HeaderSpace) :
    line ∈ lines' ↔ line ∈ lines := by
  rw [List.mem_iff_get, List.mem_iff_get]
  constructor
  · rintro ⟨i, rfl⟩
    exact ⟨r.place.symm i, r.get_symm i⟩
  · rintro ⟨i, rfl⟩
    exact ⟨r.place i, r.get_place i⟩

/-- The line that decides on a packet may be another one, but it says the same. -/
theorem action_eq (r : Rearrangement lines lines') {p : Packet} {line line' : Action × HeaderSpace}
    (h : lines.find? (·.2.contains p) = some line)
    (h' : lines'.find? (·.2.contains p) = some line') : line'.1 = line.1 := by
  obtain ⟨i, rfl, hi, hbefore⟩ := exists_get_of_find? h
  obtain ⟨i', rfl, hi', hbefore'⟩ := exists_get_of_find? h'
  have hback := r.get_symm i'
  rw [← hback] at hi' ⊢
  by_contra hne
  rcases Nat.lt_trichotomy i.val (r.place.symm i').val with hlt | heq | hgt
  · -- Both lines hold of the packet, so they conflict and the first one is still the first.
    have hconflict := conflict_of_contains (Ne.symm hne) hi hi'
    have hmoved := r.keeps _ _ hlt hconflict
    rw [Equiv.apply_symm_apply] at hmoved
    have hnot := hbefore' _ hmoved
    rw [r.get_place, hi] at hnot
    contradiction
  · rw [← Fin.ext heq] at hne
    exact hne rfl
  · rw [hbefore _ hgt] at hi'
    contradiction

theorem contains_permit (r : Rearrangement lines lines') (p : Packet) :
    (ofLines lines').permit.contains p = (ofLines lines).permit.contains p := by
  rw [contains_ofLines, contains_ofLines]
  cases h : lines.find? (·.2.contains p) with
  | none =>
    have hnone : lines'.find? (·.2.contains p) = none := by
      rw [List.find?_eq_none] at h ⊢
      exact fun line hline => h line ((r.mem_iff line).mp hline)
    rw [hnone]
  | some line =>
    have hmem := (r.mem_iff line).mpr (List.mem_of_find?_eq_some h)
    cases h' : lines'.find? (·.2.contains p) with
    | none =>
      have hholds := List.find?_some h
      exact absurd hholds (List.find?_eq_none.mp h' line hmem)
    | some line' => rw [Option.any_some, Option.any_some, r.action_eq h h']

/-- Lines commute unless they conflict. -/
theorem equivalent_halves (r : Rearrangement lines lines') :
    (ofLines lines').permit.equivalent (ofLines lines).permit = true ∧
      (ofLines lines').deny.equivalent (ofLines lines).deny = true := by
  have hpermit : (ofLines lines').permit = (ofLines lines).permit :=
    HeaderSpace.ext_contains r.contains_permit
  rw [HeaderSpace.equivalent_iff, HeaderSpace.equivalent_iff]
  exact ⟨hpermit, congrArg HeaderSpace.compl hpermit⟩

/-- The last line moves to the front, past one with its action and one that is disjoint from it. The
other two conflict and keep their order. -/
theorem equivalent_halves_rotated :
    Conflict (.permit, .flag .syn true) (.deny, .flag .ack true) ∧
    (ofLines [(.deny, .flag .syn false), (.permit, .flag .syn true),
        (.deny, .flag .ack true)]).permit.equivalent
      (ofLines [(.permit, .flag .syn true), (.deny, .flag .ack true),
        (.deny, .flag .syn false)]).permit = true ∧
    (ofLines [(.deny, .flag .syn false), (.permit, .flag .syn true),
        (.deny, .flag .ack true)]).deny.equivalent
      (ofLines [(.permit, .flag .syn true), (.deny, .flag .ack true),
        (.deny, .flag .syn false)]).deny = true := by
  have hconflict : Conflict (.permit, .flag .syn true) (.deny, .flag .ack true) := by
    refine conflict_of_contains (p := ⟨0, 0, 0, 0, 0, 0, 0, 34⟩) (by decide) ?_ ?_
    · rw [HeaderSpace.contains_flag]
      rfl
    · rw [HeaderSpace.contains_flag]
      rfl
  have hdisjoint : ((HeaderSpace.flag .syn true).inter (.flag .syn false)).isEmpty = true := by
    rw [HeaderSpace.isEmpty_iff_contains]
    intro p
    simp [HeaderSpace.contains_flag]
  have hrotate : ∀ i j : Fin 3, i < j → j ≠ 2 → finRotate 3 i < finRotate 3 j := by decide
  refine ⟨hconflict, equivalent_halves ⟨finRotate 3, fun (i : Fin 3) => ?_,
    fun (i : Fin 3) (j : Fin 3) hij h => ?_⟩⟩
  · fin_cases i <;> rfl
  · by_cases hj : j = 2
    · subst j
      fin_cases i
      · exact absurd (hdisjoint.symm.trans h.2) (by decide)
      · exact absurd rfl h.1
      · exact absurd hij (by decide)
    · exact hrotate i j hij hj

end Rearrangement
end CompiledAcl

theorem HeaderMatch.wellFormed_iff_fault? (m : HeaderMatch) :
    m.wellFormed = true ↔ m.fault? = none := by
  rw [← m.exists_headers_iff, ← failure?_eq_none, m.failure?_headers]

namespace Acl

theorem failure?_compile (a : Acl) :
    failure? a.compile = a.lines.findSome? (·.condition.fault?) := by
  simp only [compile, failure?_bind_pure, failure?_mapM, HeaderMatch.failure?_headers]

theorem compile_eq_error_iff (a : Acl) (e : ModelError) :
    a.compile = .error e ↔
      ∃ line, a.lines.find? (!·.condition.wellFormed) = some line ∧
        line.condition.fault? = some e := by
  have hfault (m : HeaderMatch) (h : m.fault? = some e) : m.wellFormed = false := by
    rw [← Bool.not_eq_true, m.wellFormed_iff_fault?, h]
    simp
  rw [← failure?_eq_some, failure?_compile, List.findSome?_eq_some_iff]
  simp only [List.find?_eq_some_iff_append, Bool.not_not, Bool.not_eq_true',
    HeaderMatch.wellFormed_iff_fault?]
  constructor
  · rintro ⟨before, line, after, hlines, hline, hbefore⟩
    exact ⟨line, ⟨hfault _ hline, before, after, hlines, hbefore⟩, hline⟩
  · rintro ⟨line, ⟨_, before, after, hlines, hbefore⟩, hline⟩
    exact ⟨before, line, after, hlines, hline, hbefore⟩

theorem exists_compile_error_iff (a : Acl) :
    (∃ e, a.compile = .error e) ↔ ∃ line ∈ a.lines, line.condition.wellFormed = false := by
  have hok := a.exists_compile_iff
  rw [wellFormed, List.all_eq_true] at hok
  cases h : a.compile with
  | ok c =>
    have hall := hok.mp ⟨c, h⟩
    simpa using hall
  | error e =>
    have hnot : ¬ ∀ line ∈ a.lines, line.condition.wellFormed = true := by
      rw [← hok, h]
      simp
    simpa using hnot

/-- The first line that holds of a packet decides, what no line decides is denied, and passing over
the lines behind the last packet changes nothing. A list is compiled unless one of its lines is
malformed, even one that decides nothing, and then the first such line is reported. -/
theorem first_match_default_deny :
    (∀ lines, CompiledAcl.FirstMatch lines (.ofLines lines) ∧
      (CompiledAcl.ofLines lines).permit =
        (lines.foldl CompiledAcl.passLine (.empty, .full)).1) ∧
    ∀ a : Acl,
      ((∃ e, a.compile = .error e) ↔ ∃ line ∈ a.lines, line.condition.wellFormed = false) ∧
      (∀ e, a.compile = .error e ↔
        ∃ line, a.lines.find? (!·.condition.wellFormed) = some line ∧
          line.condition.fault? = some e) ∧
      ∀ c, a.compile = .ok c → ∀ p, c.permit.contains p = a.permits p ∧
        c.deny.contains p = !a.permits p := by
  refine ⟨fun lines => ?_, fun a => ?_⟩
  · exact ⟨CompiledAcl.firstMatch_ofLines lines, CompiledAcl.permitted_eq_foldl .empty .full lines⟩
  · exact ⟨a.exists_compile_error_iff, a.compile_eq_error_iff, fun c hc => contains_compile hc⟩

end Acl
end Dataplane
