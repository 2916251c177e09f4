import Dataplane.Predicate.Acl
import Dataplane.Proofs.Intervals
import Dataplane.Proofs.Tables

/-! Address sets, conditions and access lists on a single packet, and the header spaces that they
are compiled to. -/
namespace Dataplane

theorem Address.eq_iff (a b : Address) : a = b ↔ a.value.toNat = b.value.toNat := by
  cases a
  cases b
  rw [Address.mk.injEq, UInt32.toNat_inj]

theorem Field.ne_tcpFlags {f : Field} (h : f.width ≠ 6) : f ≠ .tcpFlags := by
  intro hf
  rw [hf] at h
  exact h rfl

namespace IpSpace

mutual

/-- Whether an address is in the set. -/
def includes (a : Address) : IpSpace → Bool
  | .any => true
  | .empty => false
  | .single ip => a = ip
  | .block ip length =>
    a.value.toNat >>> (32 - length.toNat) = ip.value.toNat >>> (32 - length.toNat)
  | .range first last => first.value ≤ a.value && a.value ≤ last.value
  | .union spaces => someIncludes a spaces
  | .difference kept removed => kept.includes a && !removed.includes a

def someIncludes (a : Address) : List IpSpace → Bool
  | [] => false
  | space :: rest => space.includes a || someIncludes a rest

end

variable {f : Field} {a : Address} {p : Packet}

mutual

theorem contains_headers (hf : f.width = 32) (ha : p.field f = a.value.toNat) :
    (space : IpSpace) → {s : HeaderSpace} → space.headers f = .ok s →
      s.contains p = space.includes a
  | .any, _, h => by
    cases h
    exact HeaderSpace.contains_full p
  | .empty, _, h => by
    cases h
    exact HeaderSpace.contains_empty p
  | .single ip, _, h => by
    cases h
    have hflags := Field.ne_tcpFlags (f := f) (by omega)
    rw [Bool.eq_iff_iff, HeaderSpace.contains_value_of_lt hflags (hf ▸ ip.value.toNat_lt), ha,
      includes, decide_eq_true_iff, Address.eq_iff]
  | .block ip length, _, h => by
    simp only [headers] at h
    split at h
    · contradiction
    cases h
    have hmod (x : UInt32) : x.toNat % 2 ^ 32 = x.toNat := Nat.mod_eq_of_lt x.toNat_lt
    rw [Bool.eq_iff_iff, HeaderSpace.contains_leading, ha, hf, hmod, hmod, includes,
      decide_eq_true_iff]
  | .range first last, _, h => by
    simp only [headers] at h
    split at h
    · contradiction
    cases h
    rename_i hle
    have hflags := Field.ne_tcpFlags (f := f) (by omega)
    have hordered : first.value.toNat ≤ last.value.toNat := UInt32.not_lt.mp hle
    have hlast : last.value.toNat < 2 ^ f.width := by
      rw [hf]
      exact last.value.toNat_lt
    rw [Bool.eq_iff_iff, HeaderSpace.contains_range_of_lt hflags hordered hlast, ha, includes,
      Bool.and_eq_true, decide_eq_true_iff, decide_eq_true_iff, UInt32.le_iff_toNat_le,
      UInt32.le_iff_toNat_le]
  | .union spaces, s, h => by
    rw [contains_unionHeaders hf ha spaces h, HeaderSpace.contains_empty, Bool.false_or, includes]
  | .difference kept removed, _, h => by
    simp only [headers, bind_eq_ok, pure_eq_ok] at h
    obtain ⟨keep, hkeep, remove, hremove, rfl⟩ := h
    rw [HeaderSpace.contains_diff, contains_headers hf ha kept hkeep,
      contains_headers hf ha removed hremove, includes]

theorem contains_unionHeaders (hf : f.width = 32) (ha : p.field f = a.value.toNat) :
    (spaces : List IpSpace) → {found s : HeaderSpace} → unionHeaders f found spaces = .ok s →
      s.contains p = (found.contains p || someIncludes a spaces)
  | [], _, _, h => by
    cases h
    rw [someIncludes, Bool.or_false]
  | space :: rest, found, _, h => by
    simp only [unionHeaders, bind_eq_ok] at h
    obtain ⟨first, hfirst, h⟩ := h
    rw [contains_unionHeaders hf ha rest h, HeaderSpace.contains_union,
      contains_headers hf ha space hfirst, someIncludes, Bool.or_assoc]

end

theorem contains_dstHeaders {space : IpSpace} {s : HeaderSpace} (h : space.headers .dstIp = .ok s)
    (p : Packet) : s.contains p = space.includes p.dstAddress :=
  contains_headers rfl rfl space h

theorem contains_srcHeaders {space : IpSpace} {s : HeaderSpace} (h : space.headers .srcIp = .ok s)
    (p : Packet) : s.contains p = space.includes p.srcAddress :=
  contains_headers rfl rfl space h

end IpSpace

/-- Whether one of the alternatives holds, or none is given. -/
def anyOf {α : Type} (alternatives : List α) (holds : α → Bool) : Bool :=
  alternatives.isEmpty || alternatives.any holds

def PortRange.includes (port : UInt16) (r : PortRange) : Bool := r.first ≤ port && port ≤ r.last

def Packet.flag (p : Packet) (t : TcpFlag) : Bool := p.tcpFlags.toNat.testBit (5 - t.index.val)

/-- Whether the condition holds of a packet. -/
def HeaderMatch.holds (p : Packet) (m : HeaderMatch) : Bool :=
  m.srcIps.all (·.includes p.srcAddress) && m.dstIps.all (·.includes p.dstAddress) &&
    anyOf m.srcPorts (·.includes p.srcPort) && anyOf m.dstPorts (·.includes p.dstPort) &&
    anyOf m.ipProtocols (· = p.ipProtocol) && anyOf m.icmpTypes (· = p.icmpType) &&
    anyOf m.icmpCodes (· = p.icmpCode) && m.tcpFlags.all fun (flag, set) => p.flag flag == set

/-- Whether the first line that holds permits a packet. -/
def Acl.permits (p : Packet) (a : Acl) : Bool :=
  (a.lines.find? (·.condition.holds p)).any (·.action = .permit)

theorem PortRange.contains_headers {f : Field} {ranges : List PortRange} {s : HeaderSpace}
    (h : headers f ranges = .ok s) (hf : f.width = 16) {p : Packet} {port : UInt16}
    (hport : p.field f = port.toNat) : s.contains p = anyOf ranges (·.includes port) := by
  have hflags := Field.ne_tcpFlags (f := f) (by omega)
  have hstep (found : HeaderSpace) (r : PortRange) (next : HeaderSpace)
      (h : (if r.last < r.first then .error (.invalidRange f r.first.toNat r.last.toNat)
        else .ok (found.union (.range f r.first.toNat r.last.toNat)) : Except ModelError _) =
          .ok next) :
      next.contains p = true ↔ found.contains p = true ∨ r.includes port = true := by
    split at h
    · contradiction
    cases h
    rename_i hle
    have hordered : r.first.toNat ≤ r.last.toNat := UInt16.not_lt.mp hle
    have hlast : r.last.toNat < 2 ^ f.width := by
      rw [hf]
      exact r.last.toNat_lt
    rw [HeaderSpace.contains_union, Bool.or_eq_true,
      HeaderSpace.contains_range_of_lt hflags hordered hlast, hport, includes, Bool.and_eq_true,
      decide_eq_true_iff, decide_eq_true_iff, UInt16.le_iff_toNat_le, UInt16.le_iff_toNat_le]
  unfold headers at h
  split at h
  · rename_i hempty
    cases h
    rw [anyOf, hempty, HeaderSpace.contains_full, Bool.true_or]
  · rename_i hempty
    rw [Bool.eq_iff_iff, foldlM_iff hstep h, anyOf, Bool.eq_false_iff.mpr hempty]
    simp

theorem HeaderSpace.contains_oneOf {f : Field} (hf : f.width = 8) {p : Packet} {x : UInt8}
    (hx : p.field f = x.toNat) (values : List UInt8) :
    (oneOf f values).contains p = anyOf values (· = x) := by
  have hflags := Field.ne_tcpFlags (f := f) (by omega)
  have hvalue (v : UInt8) : (value f v.toNat).contains p = decide (v = x) := by
    have hlt : v.toNat < 2 ^ f.width := by
      rw [hf]
      exact v.toNat_lt
    rw [Bool.eq_iff_iff, contains_value_of_lt hflags hlt, hx, decide_eq_true_iff, UInt8.toNat_inj,
      eq_comm]
  unfold oneOf
  split
  · rename_i hempty
    rw [anyOf, hempty, contains_full, Bool.true_or]
  · rename_i hempty
    rw [contains_foldl_union, anyOf, contains_empty, Bool.eq_false_iff.mpr hempty]
    simp only [hvalue]

theorem HeaderMatch.contains_headers {m : HeaderMatch} {s : HeaderSpace} (h : m.headers = .ok s)
    (p : Packet) : s.contains p = m.holds p := by
  simp only [headers, bind_eq_ok, pure_eq_ok] at h
  obtain ⟨src, hsrc, dst, hdst, srcPorts, hsrcPorts, dstPorts, hdstPorts, rfl⟩ := h
  have hall (o : Option IpSpace) (a : Address) :
      (o.getD .any).includes a = o.all (·.includes a) := by
    cases o <;> simp [IpSpace.includes]
  have hflags (l : List (TcpFlag × Bool)) :
      (l.map fun (flag, set) => HeaderSpace.flag flag set).all (·.contains p) =
        l.all fun (flag, set) => p.flag flag == set := by
    simp only [List.all_map, Function.comp_def, HeaderSpace.contains_flag, Packet.flag]
  have hsrcPort : srcPorts.contains p = anyOf m.srcPorts (·.includes p.srcPort) :=
    PortRange.contains_headers hsrcPorts rfl rfl
  have hdstPort : dstPorts.contains p = anyOf m.dstPorts (·.includes p.dstPort) :=
    PortRange.contains_headers hdstPorts rfl rfl
  have hprotocol := HeaderSpace.contains_oneOf (f := .ipProtocol) (x := p.ipProtocol) rfl rfl
  have htype := HeaderSpace.contains_oneOf (f := .icmpType) (x := p.icmpType) rfl rfl
  have hcode := HeaderSpace.contains_oneOf (f := .icmpCode) (x := p.icmpCode) rfl rfl
  rw [HeaderSpace.contains_foldl_inter, List.all_append, hflags]
  simp only [List.all_cons, List.all_nil, IpSpace.contains_srcHeaders hsrc,
    IpSpace.contains_dstHeaders hdst, hsrcPort, hdstPort, hprotocol, htype, hcode, hall, holds,
    HeaderSpace.contains_full, Bool.true_and, Bool.and_true, Bool.and_assoc]

namespace CompiledAcl

theorem contains_permitted (found left : HeaderSpace) (lines : List (Action × HeaderSpace))
    (p : Packet) : (permitted found left lines).contains p =
      (found.contains p ||
        left.contains p && (lines.find? (·.2.contains p)).any (·.1 = .permit)) := by
  induction lines generalizing found left with
  | nil => simp [permitted]
  | cons line rest ih =>
    obtain ⟨action, condition⟩ := line
    have hfound :
        (if action = .permit then found.union (condition.inter left) else found).contains p =
          (found.contains p ||
            decide (action = .permit) && condition.contains p && left.contains p) := by
      split <;> simp [*]
    simp only [permitted]
    split
    · rename_i hempty
      have hleft := (HeaderSpace.isEmpty_iff_contains _).mp hempty p
      rw [HeaderSpace.contains_diff] at hleft
      rw [hfound]
      cases hp : left.contains p <;> cases hc : condition.contains p <;> simp_all
    · rw [ih, hfound, HeaderSpace.contains_diff]
      cases hp : left.contains p <;> cases hc : condition.contains p <;> simp [hc]

theorem contains_ofLines (lines : List (Action × HeaderSpace)) (p : Packet) :
    (ofLines lines).permit.contains p = (lines.find? (·.2.contains p)).any (·.1 = .permit) := by
  simp [ofLines, contains_permitted]

end CompiledAcl

/-- The two halves of a compiled access list hold what it permits and what it does not. -/
theorem Acl.contains_compile {a : Acl} {c : CompiledAcl} (h : a.compile = .ok c) (p : Packet) :
    c.permit.contains p = a.permits p ∧ c.deny.contains p = !a.permits p := by
  simp only [compile, bind_eq_ok, pure_eq_ok] at h
  obtain ⟨lines, hlines, rfl⟩ := h
  have hfind (source : List AclLine) {lines : List (Action × HeaderSpace)}
      (h : source.mapM (fun line => return (line.action, ← line.condition.headers)) =
        (.ok lines : Except ModelError _)) :
      (lines.find? (·.2.contains p)).any (·.1 = .permit) =
        (source.find? (·.condition.holds p)).any (·.action = .permit) := by
    induction source generalizing lines with
    | nil =>
      cases h
      rfl
    | cons line rest ih =>
      simp only [List.mapM_cons, bind_eq_ok, pure_eq_ok] at h
      obtain ⟨_, ⟨condition, hcondition, rfl⟩, others, hothers, rfl⟩ := h
      simp only [List.find?_cons, line.condition.contains_headers hcondition]
      cases line.condition.holds p
      · exact ih hothers
      · rfl
  have hpermit : (CompiledAcl.ofLines lines).permit.contains p = a.permits p :=
    (CompiledAcl.contains_ofLines lines p).trans (hfind a.lines hlines)
  exact ⟨hpermit, by rw [← hpermit]; exact HeaderSpace.contains_compl _ p⟩

end Dataplane
