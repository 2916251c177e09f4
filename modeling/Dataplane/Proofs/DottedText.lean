import Dataplane.Header.Field
import Mathlib.Tactic.Common

/-! The dotted form of an address can be read back. -/
namespace Dataplane

/-- What is written item by item is read item by item. -/
theorem mapM_written {α β : Type} {read : β → Option α} {write : α → β} {l : List α}
    (h : ∀ a ∈ l, read (write a) = some a) : (l.map write).mapM read = some l := by
  induction l with
  | nil => rfl
  | cons a rest ih =>
    have hrest := ih fun b hb => h b (List.mem_cons_of_mem _ hb)
    rw [List.map_cons, List.mapM_cons, h a List.mem_cons_self, hrest]
    rfl

namespace Address

/-- A decimal number other than zero does not begin with a zero. -/
theorem head?_toDigits {n : Nat} (h : 0 < n) : (Nat.toDigits 10 n).head? ≠ some '0' := by
  induction n using Nat.strongRecOn with
  | ind n ih =>
    rw [Nat.toDigits_eq_if (by decide)]
    split
    · rename_i hlt
      intro hzero
      have hchar := congrArg Char.toNat (Option.some.inj hzero)
      rw [Nat.toNat_digitChar_of_lt_ten hlt] at hchar
      change 48 + n = 48 at hchar
      omega
    · have hne : Nat.toDigits 10 (n / 10) ≠ [] := Nat.toDigits_ne_nil
      obtain ⟨c, rest, hdigits⟩ := List.exists_cons_of_ne_nil hne
      have hhead := ih (n / 10) (by omega) (by omega)
      rw [hdigits] at hhead ⊢
      exact hhead

theorem octet?_toDigits {n : Nat} (h : n < 256) : octet? (Nat.toDigits 10 n) = some n := by
  have hne : Nat.toDigits 10 n ≠ [] := Nat.toDigits_ne_nil
  have hlength : (Nat.toDigits 10 n).length ≤ 3 :=
    (Nat.length_toDigits_le_iff (by decide) (by decide)).mpr (by omega)
  have hdigits : (Nat.toDigits 10 n).all Char.isDigit = true :=
    List.all_eq_true.mpr fun c hc => Nat.isDigit_of_mem_toDigits (by decide) (by decide) hc
  have hzero : ¬((Nat.toDigits 10 n).length > 1 ∧ (Nat.toDigits 10 n).head? = some '0') := by
    rintro ⟨hlong, hhead⟩
    refine head?_toDigits ?_ hhead
    by_contra hn
    obtain rfl : n = 0 := by omega
    exact absurd hlong (by decide)
  have hvalue : (Nat.toDigits 10 n).foldl (fun n c => 10 * n + (c.toNat - '0'.toNat)) 0 = n := by
    rw [← Nat.ofDigitChars_eq_foldl]
    exact Nat.ofDigitChars_toDigits (by decide) (by decide)
  unfold octet?
  rw [if_neg (by simp [hne, hlength, hdigits]), if_neg (by simpa using hzero), hvalue, if_pos h]

theorem parts_of_not_mem {part : List Char} (h : '.' ∉ part) : parts part = [part] := by
  induction part with
  | nil => rfl
  | cons c rest ih =>
    rw [List.mem_cons, not_or] at h
    rw [parts, ih h.2]
    exact fun hdot => h.1 hdot.symm

theorem parts_append {part : List Char} (h : '.' ∉ part) (rest : List Char) :
    parts (part ++ '.' :: rest) = part :: parts rest := by
  induction part with
  | nil => rfl
  | cons c others ih =>
    rw [List.mem_cons, not_or] at h
    rw [List.cons_append, parts, ih h.2]
    exact fun hdot => h.1 hdot.symm

/-- Dividing a text at its dots undoes joining parts without dots. -/
theorem parts_intercalate {l : List (List Char)} (hne : l ≠ []) (h : ∀ part ∈ l, '.' ∉ part) :
    parts (['.'].intercalate l) = l := by
  induction l with
  | nil => contradiction
  | cons part rest ih =>
    have hpart := h part List.mem_cons_self
    cases rest with
    | nil => simpa using parts_of_not_mem hpart
    | cons next others =>
      have hrest := ih (by simp) fun p hp => h p (List.mem_cons_of_mem _ hp)
      rw [List.intercalate_cons_cons, List.append_assoc, List.singleton_append,
        parts_append hpart, hrest]

theorem not_mem_toDigits (n : Nat) : '.' ∉ Nat.toDigits 10 n := by
  intro h
  have hdigit := Nat.isDigit_of_mem_toDigits (by decide) (by decide) h
  exact absurd hdigit (by decide)

theorem octet_lt (a : Address) {n : Nat} (h : n ∈ a.octets) : n < 256 := by
  have hlt := a.value.toNat_lt
  simp only [octets, List.mem_cons, List.not_mem_nil, or_false] at h
  omega

theorem parts_text (a : Address) : parts a.text.toList = a.octets.map (Nat.toDigits 10) := by
  have htext : a.text.toList = ['.'].intercalate (a.octets.map (Nat.toDigits 10)) := by
    rw [text, String.toList_intercalate, List.map_map]
    congr 1
    refine List.map_congr_left fun n _ => ?_
    exact Nat.toList_repr
  rw [htext]
  refine parts_intercalate (by simp [octets]) fun part hpart => ?_
  obtain ⟨n, _, rfl⟩ := List.mem_map.mp hpart
  exact not_mem_toDigits n

theorem ofText?_text (a : Address) : ofText? a.text = some a := by
  have hoctets : (parts a.text.toList).mapM octet? = some a.octets := by
    rw [parts_text]
    exact mapM_written fun n hn => octet?_toDigits (a.octet_lt hn)
  have hvalue (n : Nat) :
      ((n / 16777216 * 256 + n / 65536 % 256) * 256 + n / 256 % 256) * 256 + n % 256 = n := by
    omega
  rw [ofText?, hoctets]
  simp only [octets, Option.bind_eq_bind, Option.bind_some, hvalue, UInt32.ofNat_toNat]

end Address
end Dataplane
