import Dataplane.Header.Constraint
import Mathlib.Tactic.Common
import Mathlib.Tactic.Ring

/-! Packets and valuations of the header bits describe the same headers: every packet has an
encoding, every valuation is one, and a header space contains a packet if and only if it is true
at the encoding of the packet. -/
namespace Dataplane

/-- Every place is the number of places behind it, so the bits spell a binary number. -/
def Positional : List (Bit × Nat) → Prop
  | [] => True
  | (_, k) :: rest => k = rest.length ∧ Positional rest

theorem Positional.lt_length {l : List (Bit × Nat)} (h : Positional l) {b : Bit} {k : Nat}
    (hm : (b, k) ∈ l) : k < l.length := by
  induction l with
  | nil => simp at hm
  | cons place rest ih =>
    obtain ⟨b', k'⟩ := place
    obtain ⟨rfl, hrest⟩ := h
    rw [List.length_cons]
    rcases List.mem_cons.mp hm with heq | hm
    · obtain ⟨rfl, rfl⟩ := Prod.mk.inj heq
      omega
    · have := ih hrest hm
      omega

namespace Valuation

/-- The binary number that a valuation writes into the places. -/
def number (σ : Valuation) : List (Bit × Nat) → Nat
  | [] => 0
  | (b, k) :: rest => 2 ^ k * (σ b).toNat + number σ rest

/-- The value of a field. -/
def field (σ : Valuation) (f : Field) : Nat := σ.number f.places

theorem number_lt (σ : Valuation) {l : List (Bit × Nat)} (h : Positional l) :
    σ.number l < 2 ^ l.length := by
  induction l with
  | nil => simp [number]
  | cons place rest ih =>
    obtain ⟨b, k⟩ := place
    obtain ⟨rfl, hrest⟩ := h
    have hlt := ih hrest
    simp only [number, List.length_cons, Nat.pow_succ]
    cases σ b <;> simp only [Bool.toNat_true, Bool.toNat_false] <;> omega

theorem testBit_number (σ : Valuation) {l : List (Bit × Nat)} (h : Positional l) {b : Bit} {k : Nat}
    (hm : (b, k) ∈ l) : (σ.number l).testBit k = σ b := by
  induction l with
  | nil => simp at hm
  | cons place rest ih =>
    obtain ⟨b', k'⟩ := place
    obtain ⟨rfl, hrest⟩ := h
    rw [number, Nat.testBit_two_pow_mul_add _ (σ.number_lt hrest)]
    rcases List.mem_cons.mp hm with heq | hm
    · obtain ⟨rfl, rfl⟩ := Prod.mk.inj heq
      cases σ b <;> simp
    · rw [if_pos (hrest.lt_length hm), ih hrest hm]

/-- Reading the bits from the most significant one on gives the same number. -/
theorem foldl_bits (σ : Valuation) {l : List (Bit × Nat)} (h : Positional l) (start : Nat) :
    (l.map Prod.fst).foldl (fun n b => 2 * n + (σ b).toNat) start =
      2 ^ l.length * start + σ.number l := by
  induction l generalizing start with
  | nil => simp [number]
  | cons place rest ih =>
    obtain ⟨b, k⟩ := place
    obtain ⟨rfl, hrest⟩ := h
    rw [List.map_cons, List.foldl_cons, ih hrest, number, List.length_cons]
    ring

end Valuation

namespace Field

private theorem positional_ofFn {n : Nat} (bit : Fin n → Bit) :
    Positional (List.ofFn fun i => (bit i, n - 1 - i.val)) := by
  induction n with
  | zero => trivial
  | succ n ih =>
    rw [List.ofFn_succ]
    refine ⟨by simp, ?_⟩
    have htail := ih fun i => bit i.succ
    have hshift (i : Fin n) : n + 1 - 1 - i.succ.val = n - 1 - i.val := by
      rw [Fin.val_succ]
      omega
    simpa only [hshift] using htail

theorem positional_places (f : Field) : Positional f.places := positional_ofFn f.bit

@[simp] theorem length_places (f : Field) : f.places.length = f.width := List.length_ofFn

theorem bits_eq_map_places (f : Field) : f.bits = f.places.map Prod.fst := by
  rw [bits, places, List.map_ofFn]
  rfl

theorem mem_places (f : Field) (i : Fin f.width) : (f.bit i, f.width - 1 - i.val) ∈ f.places :=
  List.mem_ofFn.mpr ⟨i, rfl⟩

theorem mem_all (f : Field) : f ∈ all := by
  cases f <;> decide

/-- The field that a header bit belongs to. -/
def owner (b : Bit) : Field := (all.find? (·.owns b)).getD .tcpFlags

/-- The place of a header bit in the binary number of its field. -/
def place (b : Bit) : Nat := (owner b).offset + (owner b).width - 1 - b.val

theorem owns_iff (f : Field) (b : Bit) : f.owns b = true ↔ owner b = f := by
  revert b
  cases f <;> decide +kernel

theorem owns_bit (f : Field) (i : Fin f.width) : f.owns (f.bit i) = true := by
  have := i.isLt
  simp [owns, bit]

theorem owner_bit (f : Field) (i : Fin f.width) : owner (f.bit i) = f :=
  (owns_iff f _).mp (owns_bit f i)

theorem place_bit (f : Field) (i : Fin f.width) : place (f.bit i) = f.width - 1 - i.val := by
  rw [place, owner_bit]
  simp only [bit]
  omega

/-- Every header bit is a bit of its owner. -/
theorem exists_bit (b : Bit) : ∃ i : Fin (owner b).width, b = (owner b).bit i := by
  have h := (owns_iff (owner b) b).mpr rfl
  simp only [owns, Bool.and_eq_true, decide_eq_true_eq] at h
  refine ⟨⟨b.val - (owner b).offset, by omega⟩, Fin.ext ?_⟩
  simp only [bit]
  omega

end Field

namespace Valuation

theorem field_lt (σ : Valuation) (f : Field) : σ.field f < 2 ^ f.width := by
  have h := σ.number_lt f.positional_places
  rwa [f.length_places] at h

theorem testBit_field (σ : Valuation) (f : Field) (i : Fin f.width) :
    (σ.field f).testBit (f.width - 1 - i.val) = σ (f.bit i) :=
  σ.testBit_number f.positional_places (f.mem_places i)

/-- A field has a value if its bits are the bits of the value. -/
theorem field_eq_iff (σ : Valuation) (f : Field) (v : Nat) :
    σ.field f = v % 2 ^ f.width ↔
      ∀ i : Fin f.width, σ (f.bit i) = v.testBit (f.width - 1 - i.val) := by
  constructor
  · intro h i
    rw [← σ.testBit_field, h, Nat.testBit_mod_two_pow]
    have hlt : f.width - 1 - i.val < f.width := by omega
    simp [hlt]
  · intro h
    apply Nat.eq_of_testBit_eq
    intro k
    rw [Nat.testBit_mod_two_pow]
    by_cases hk : k < f.width
    · have hi := h ⟨f.width - 1 - k, by omega⟩
      rw [← σ.testBit_field] at hi
      have hplace : f.width - 1 - (f.width - 1 - k) = k := by omega
      simpa [hplace, hk] using hi
    · have hlt : σ.field f < 2 ^ k :=
        Nat.lt_of_lt_of_le (σ.field_lt f) (Nat.pow_le_pow_right (by omega) (by omega))
      simp [hk, Nat.testBit_lt_two_pow hlt]

/-- Valuations with the same field values are the same. -/
theorem ext_field {σ τ : Valuation} (h : ∀ f, σ.field f = τ.field f) : σ = τ := by
  funext b
  obtain ⟨i, hi⟩ := Field.exists_bit b
  rw [hi, ← σ.testBit_field, ← τ.testBit_field, h]

end Valuation

namespace Packet

/-- The valuation that describes a packet. -/
def encode (p : Packet) : Valuation := fun b => (p.field (Field.owner b)).testBit (Field.place b)

@[simp] theorem field_encode (p : Packet) (f : Field) :
    p.encode.field f = p.field f % 2 ^ f.width := by
  rw [Valuation.field_eq_iff]
  intro i
  rw [encode, Field.owner_bit, Field.place_bit]

@[simp] theorem field_ofFields (value : Field → Nat) (f : Field)
    (h : value f < 2 ^ f.width) : (ofFields value).field f = value f := by
  cases f <;> simp only [Field.width] at h <;> simp [ofFields, field] <;> omega

theorem field_decode (σ : Valuation) (f : Field) : (decode σ).field f = σ.field f := by
  have hread : f.bits.foldl (fun n b => 2 * n + (σ b).toNat) 0 = σ.field f := by
    rw [f.bits_eq_map_places, σ.foldl_bits f.positional_places]
    simp [Valuation.field]
  rw [decode, field_ofFields _ _ (by rw [hread]; exact σ.field_lt f), hread]

theorem tcpFlags_decode_lt (σ : Valuation) : (decode σ).tcpFlags < 64 := by
  have hlt := σ.field_lt .tcpFlags
  rw [← field_decode] at hlt
  exact hlt

@[simp] theorem encode_decode (σ : Valuation) : (decode σ).encode = σ := by
  apply Valuation.ext_field
  intro f
  rw [field_encode, field_decode, Nat.mod_eq_of_lt (σ.field_lt f)]

@[ext] theorem ext_field {p q : Packet} (h : ∀ f, p.field f = q.field f) : p = q := by
  have hd := UInt32.toNat.inj (h .dstIp)
  have hs := UInt32.toNat.inj (h .srcIp)
  have hdp := UInt16.toNat.inj (h .dstPort)
  have hsp := UInt16.toNat.inj (h .srcPort)
  have hip := UInt8.toNat.inj (h .ipProtocol)
  have hit := UInt8.toNat.inj (h .icmpType)
  have hic := UInt8.toNat.inj (h .icmpCode)
  have htf := UInt8.toNat.inj (h .tcpFlags)
  cases p
  cases q
  simp_all

end Packet

namespace HeaderSpace

/-- The leading bits of a field decide a literal each. -/
theorem eval_leading (f : Field) (v length : Nat) (σ : Valuation) :
    (leading f v length).eval σ = true ↔
      ∀ i : Fin f.width, i.val < length → σ (f.bit i) = v.testBit (f.width - 1 - i.val) := by
  have hfold (l : List (Bit × Nat)) :
      (l.foldr (fun place rest => (literal place.1 (v.testBit place.2)).inter rest) full).eval σ =
        true ↔ ∀ place ∈ l, σ place.1 = v.testBit place.2 := by
    induction l with
    | nil => simp
    | cons place rest ih => simp [ih]
  refine (hfold (f.places.take length)).trans ?_
  constructor
  · intro h i hi
    refine h (f.bit i, f.width - 1 - i.val) ?_
    rw [List.mem_take_iff_getElem]
    exact ⟨i.val, by simp; omega, by simp [Field.places]⟩
  · intro h place hplace
    obtain ⟨i, hi, rfl⟩ := List.mem_take_iff_getElem.mp hplace
    rw [Field.length_places] at hi
    simpa [Field.places] using h ⟨i, by omega⟩ (by simp; omega)

theorem eval_value (f : Field) (v : Nat) (σ : Valuation) :
    (value f v).eval σ = true ↔ σ.field f = v % 2 ^ f.width := by
  rw [value, eval_leading, Valuation.field_eq_iff]
  exact forall_congr' fun i => by simp

theorem eval_foldl_inter (spaces : List HeaderSpace) (s : HeaderSpace) (σ : Valuation) :
    (spaces.foldl inter s).eval σ = (s.eval σ && spaces.all (·.eval σ)) := by
  induction spaces generalizing s with
  | nil => simp
  | cons t rest ih => simp [ih, Bool.and_assoc]

/-- The space of a packet holds at the encoding of the packet alone. -/
theorem eval_ofPacket (p : Packet) (σ : Valuation) : (ofPacket p).eval σ = true ↔ σ = p.encode := by
  have hfields : (ofPacket p).eval σ = true ↔ ∀ f, σ.field f = p.field f % 2 ^ f.width := by
    have hfold : ofPacket p = (Field.all.map fun f => value f (p.field f)).foldl inter full := by
      rw [List.foldl_map]
      rfl
    rw [hfold, eval_foldl_inter]
    simp [Field.mem_all, eval_value]
  rw [hfields]
  constructor
  · intro h
    exact Valuation.ext_field fun f => by rw [h, p.field_encode]
  · rintro rfl f
    exact p.field_encode f

theorem contains_eq_eval (s : HeaderSpace) (p : Packet) : s.contains p = s.eval p.encode := by
  have h : s.contains p = true ↔ s.eval p.encode = true := by
    rw [contains, Bool.not_eq_true', ← Bool.not_eq_true, isEmpty_iff]
    constructor
    · intro hne
      by_contra hf
      refine hne fun σ => ?_
      by_cases hσ : (ofPacket p).eval σ = true
      · obtain rfl := (eval_ofPacket p σ).mp hσ
        simp [hf]
      · simp [hσ]
    · intro he hempty
      have := hempty p.encode
      simp [he, (eval_ofPacket p p.encode).mpr rfl] at this
  exact Bool.eq_iff_iff.mpr h

end HeaderSpace
end Dataplane
