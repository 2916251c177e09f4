import Dataplane.Json.Network
import Dataplane.Proofs.DottedText
import Dataplane.Proofs.Filling

/-! Networks and facts are read back from the JSON values that they are written as. -/
namespace Dataplane

namespace Json

variable {α β : Type} {read : Json → Option α} {write : α → Json}

/-- Whatever is written is read back. -/
def Reads (read : Json → Option α) (write : α → Json) : Prop := ∀ a, read (write a) = some a

theorem reads_string : Reads string? .str := fun _ => rfl

theorem reads_bool : Reads bool? .bool := fun _ => rfl

theorem below?_ofNat {bound n : Nat} (h : n < bound) : below? bound (ofNat n) = some n := by
  rw [ofNat, below?, if_pos ⟨Int.natCast_nonneg n, Int.ofNat_lt.mpr h⟩, Int.toNat_natCast]

theorem reads_uint8 : Reads uint8? fun n => ofNat n.toNat := by
  intro n
  rw [uint8?, below?_ofNat n.toNat_lt, Option.map_some, UInt8.ofNat_toNat]

theorem reads_uint16 : Reads uint16? fun n => ofNat n.toNat := by
  intro n
  rw [uint16?, below?_ofNat n.toNat_lt, Option.map_some, UInt16.ofNat_toNat]

theorem Reads.list (h : Reads read write) : Reads (list? read) (ofList write) :=
  fun _ => mapM_written fun a _ => h a

theorem Reads.pair {readSecond : Json → Option β} {writeSecond : β → Json} (h : Reads read write)
    (hsecond : Reads readSecond writeSecond) :
    Reads (pair? read readSecond) fun pair => .arr [write pair.1, writeSecond pair.2] := by
  intro pair
  simp [pair?, h pair.1, hsecond pair.2]

theorem Reads.foldlM_insert (h : Reads read write) (l : List (String × α)) (start : Table α) :
    (l.map fun entry => (entry.1, write entry.2)).foldlM
      (fun t entry => return t.insert entry.1 (← read entry.2)) start =
        some (l.foldl (fun t entry => t.insert entry.1 entry.2) start) := by
  induction l generalizing start with
  | nil => rfl
  | cons entry rest ih =>
    rw [List.map_cons, List.foldlM_cons, h entry.2]
    exact ih (start.insert entry.1 entry.2)

theorem Reads.table (h : Reads read write) : Reads (table? read) (ofTable write) := by
  intro t
  refine (h.foldlM_insert t.toList ∅).trans ?_
  rw [foldl_insert_toList]

section Members

variable {key : String} {members : List (String × Json)}

theorem Reads.field (h : Reads read write) {a : α} (hkey : lookup? key members = some (write a)) :
    (Json.obj members).field? read key = some a := by
  rw [field?, get?, hkey]
  exact h a

/-- A missing value is written as null, so no value may be. -/
theorem Reads.optional (h : Reads read write) (hnull : ∀ a, write a ≠ .null) {a? : Option α}
    (hkey : lookup? key members = some (ofOption write a?)) :
    (Json.obj members).optional? read key = some a? := by
  rw [optional?, hkey]
  cases a? with
  | none => rfl
  | some a =>
    have ha := h a
    have hne := hnull a
    rw [ofOption]
    generalize write a = j at ha hne
    cases j <;> simp_all

end Members

end Json

open Json

theorem Address.reads : Reads ofJson? toJson := by
  intro a
  rw [toJson, ofJson?, string?, Option.bind_some, ofText?_text]

namespace IpSpace

mutual

theorem ofJson?_toJson : (s : IpSpace) → ofJson? s.toJson = some s
  | .any => by simp [toJson, ofJson?]
  | .empty => by simp [toJson, ofJson?]
  | .single ip => by
    have hip := Address.reads ip
    simp [toJson, ofJson?, hip]
  | .block ip length => by
    have hip := Address.reads ip
    have hlength := reads_uint8 length
    simp [toJson, ofJson?, field?, get?, lookup?, hip, hlength]
  | .range first last => by
    have hfirst := Address.reads first
    have hlast := Address.reads last
    simp [toJson, ofJson?, field?, get?, lookup?, hfirst, hlast]
  | .union spaces => by
    have hspaces := mapM_listToJson spaces
    simp [toJson, ofJson?, hspaces]
  | .difference kept removed => by
    have hkept := ofJson?_toJson kept
    have hremoved := ofJson?_toJson removed
    simp [toJson, ofJson?, get?, lookup?, hkept, hremoved]

theorem mapM_listToJson : (spaces : List IpSpace) → (listToJson spaces).mapM ofJson? = some spaces
  | [] => by simp [listToJson]
  | space :: rest => by
    have hspace := ofJson?_toJson space
    have hrest := mapM_listToJson rest
    simp [listToJson, hspace, hrest]

end

theorem reads : Reads ofJson? toJson := ofJson?_toJson

theorem toJson_ne_null (s : IpSpace) : s.toJson ≠ .null := by
  cases s <;> simp [toJson]

end IpSpace

theorem PortRange.reads : Reads ofJson? toJson := by
  intro r
  have hfirst : r.toJson.field? uint16? "first" = some r.first :=
    reads_uint16.field (by simp [lookup?])
  have hlast : r.toJson.field? uint16? "last" = some r.last :=
    reads_uint16.field (by simp [lookup?])
  simp [ofJson?, hfirst, hlast]

theorem TcpFlag.reads : Reads ofJson? toJson := by
  intro t
  cases t <;> simp [ofJson?, toJson, oneOf?, all, jsonName]

theorem Action.reads : Reads ofJson? toJson := by
  intro a
  cases a <;> simp [ofJson?, toJson, oneOf?, jsonName]

theorem HeaderMatch.reads : Reads ofJson? toJson := by
  intro m
  have hsrcIps : m.toJson.optional? IpSpace.ofJson? "src_ips" = some m.srcIps :=
    IpSpace.reads.optional IpSpace.toJson_ne_null (by simp [lookup?])
  have hdstIps : m.toJson.optional? IpSpace.ofJson? "dst_ips" = some m.dstIps :=
    IpSpace.reads.optional IpSpace.toJson_ne_null (by simp [lookup?])
  have hsrcPorts := PortRange.reads.list m.srcPorts
  have hdstPorts := PortRange.reads.list m.dstPorts
  have hprotocols := reads_uint8.list m.ipProtocols
  have htypes := reads_uint8.list m.icmpTypes
  have hcodes := reads_uint8.list m.icmpCodes
  have hflags := (TcpFlag.reads.pair reads_bool).list m.tcpFlags
  rw [ofJson?, hsrcIps, hdstIps]
  simp [toJson, field?, get?, lookup?, hsrcPorts, hdstPorts, hprotocols, htypes, hcodes, hflags]

theorem AclLine.reads : Reads ofJson? toJson := by
  intro l
  have haction := Action.reads l.action
  have hcondition := HeaderMatch.reads l.condition
  simp [ofJson?, toJson, field?, get?, lookup?, haction, hcondition]

theorem Acl.reads : Reads ofJson? toJson := by
  intro a
  have hlines := AclLine.reads.list a.lines
  simp [ofJson?, toJson, field?, get?, lookup?, string?, hlines]

theorem SourceNat.reads : Reads ofJson? toJson := by
  intro n
  have hfirst := Address.reads n.poolFirst
  have hlast := Address.reads n.poolLast
  simp [ofJson?, toJson, field?, get?, lookup?, string?, hfirst, hlast]

theorem Interface.reads : Reads ofJson? toJson := by
  intro i
  have haddresses := Address.reads.list i.addresses
  have hincoming : i.toJson.optional? string? "incoming_filter" = some i.incomingFilter :=
    reads_string.optional (by simp) (by simp [lookup?])
  have houtgoing : i.toJson.optional? string? "outgoing_filter" = some i.outgoingFilter :=
    reads_string.optional (by simp) (by simp [lookup?])
  have hnats := SourceNat.reads.list i.sourceNats
  rw [ofJson?, hincoming, houtgoing]
  simp [toJson, field?, get?, lookup?, string?, haddresses, hnats]

theorem Vrf.reads : Reads ofJson? toJson := by
  intro v
  have hlist := reads_string.list v.interfaces.toList
  have hset : Std.ExtTreeSet.ofList v.interfaces.toList = v.interfaces := by
    refine Std.ExtTreeSet.ext_mem fun name => ?_
    simp [Std.ExtTreeSet.mem_ofList]
  simp [ofJson?, toJson, field?, get?, lookup?, string?, hlist, hset]

theorem Configuration.reads : Reads ofJson? toJson := by
  intro c
  have hinterfaces := Interface.reads.table c.interfaces
  have hvrfs := Vrf.reads.table c.vrfs
  have hacls := Acl.reads.table c.acls
  simp [ofJson?, toJson, field?, get?, lookup?, string?, hinterfaces, hvrfs, hacls]

theorem Network.reads : Reads ofJson? toJson := Configuration.reads.table

namespace Link

theorem reads : Reads ofJson? toJson := by
  intro l
  simp [ofJson?, toJson, field?, get?, lookup?, string?]

/-- Links with spaces as they stand in a list, where a link may occur more than once. -/
def pairsToJson (pairs : List (Link × IpSpace)) : Json :=
  .ofList (fun pair => .arr [pair.1.toJson, pair.2.toJson]) pairs

/-- The links are in order, and each occurs once. -/
def Increasing (pairs : List (Link × IpSpace)) : Prop :=
  pairs.Pairwise fun a b => compare a.1 b.1 = .lt

theorem spacesToJson_eq (t : Std.ExtTreeMap Link IpSpace) :
    spacesToJson t = pairsToJson t.toList := rfl

theorem increasing_toList (t : Std.ExtTreeMap Link IpSpace) : Increasing t.toList :=
  t.ordered_keys_toList

theorem spacesOfJson?_pairsToJson (pairs : List (Link × IpSpace)) :
    spacesOfJson? (pairsToJson pairs) =
      some (pairs.foldl (fun t pair => t.insert pair.1 pair.2) ∅) := by
  have hpairs := (reads.pair IpSpace.reads).list pairs
  rw [spacesOfJson?, pairsToJson, hpairs]
  rfl

theorem reads_spaces : Reads spacesOfJson? spacesToJson := by
  intro t
  rw [spacesToJson_eq, spacesOfJson?_pairsToJson, foldl_insert_toList]

/-- Of the pairs with one link the last one is read. -/
theorem exists_spacesOfJson? (pairs : List (Link × IpSpace)) :
    ∃ t, spacesOfJson? (pairsToJson pairs) = some t ∧
      ∀ (link : Link) space, t[link]? = some space ↔ LastWith Prod.fst pairs (link, space) := by
  refine ⟨_, spacesOfJson?_pairsToJson pairs, fun link space => ?_⟩
  rw [getElem?_foldl_insert]
  constructor
  · rintro ⟨pair, hlast, rfl, rfl⟩
    exact hlast
  · intro hlast
    exact ⟨(link, space), hlast, rfl, rfl⟩

end Link

theorem Facts.reads : Reads ofJson? toJson := by
  intro f
  have hroutable := IpSpace.reads.table.table f.routable
  have hnullRouted := IpSpace.reads.table.table f.nullRouted
  have harpTrue := Link.reads_spaces f.arpTrue
  have hunreachable := IpSpace.reads.table.table.table f.neighborUnreachable
  simp [ofJson?, toJson, field?, get?, lookup?, hroutable, hnullRouted, harpTrue, hunreachable]

/-- Networks and facts are read back. The links of the facts are written in order. In a list that
is not in order or has a link twice, the last space of every link counts, so that writing it again
puts it in order. -/
theorem snapshot_round_trip (network : Network) (facts : Facts) (pairs : List (Link × IpSpace)) :
    Network.ofJson? network.toJson = some network ∧
    Facts.ofJson? facts.toJson = some facts ∧
    (∃ entries, facts.toJson.get? "arp_true" = some (Link.pairsToJson entries) ∧
      Link.Increasing entries) ∧
    ∃ t, Link.spacesOfJson? (Link.pairsToJson pairs) = some t ∧
      (∀ (link : Link) space, t[link]? = some space ↔ LastWith Prod.fst pairs (link, space)) ∧
      ∃ entries, Link.spacesToJson t = Link.pairsToJson entries ∧ Link.Increasing entries ∧
        ∀ entry, entry ∈ entries ↔ LastWith Prod.fst pairs entry := by
  obtain ⟨t, hread, hlast⟩ := Link.exists_spacesOfJson? pairs
  refine ⟨Network.reads network, Facts.reads facts, ?_, t, hread, hlast, ?_⟩
  · refine ⟨facts.arpTrue.toList, ?_, Link.increasing_toList _⟩
    simp [Facts.toJson, get?, lookup?, Link.spacesToJson_eq]
  · refine ⟨t.toList, Link.spacesToJson_eq t, Link.increasing_toList t, fun entry => ?_⟩
    rw [← hlast entry.1 entry.2, ← Std.ExtTreeMap.mem_toList_iff_getElem?_eq_some]

end Dataplane
