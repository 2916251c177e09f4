import Dataplane.Network.Location

/-! Stages of the forwarding pipeline. -/
namespace Dataplane

/-- Why a node drops a packet. -/
inductive DropCause where
  | aclIn
  | aclOut
  | noRoute
  | nullRoute
deriving DecidableEq

inductive Stage where
  /-- Injected on the link at an interface. -/
  | originateLink (endpoint : Endpoint)
  /-- Sent by a node inside a routing domain. -/
  | originateVrf (node vrf : String)
  /-- Received by an interface, before the incoming filter. -/
  | preIn (endpoint : Endpoint)
  /-- Admitted into a routing domain, before it is accepted or routed. -/
  | postIn (node vrf : String)
  /-- Routed, before the way out is chosen. -/
  | preOut (node vrf : String)
  /-- On its way out over a link, before the source is replaced. -/
  | preNat (link : Link)
  /-- On its way out over a link, after the source was replaced. -/
  | postNat (link : Link)
  | dropped (cause : DropCause) (node : String)
  | nodeDrop (node : String)
  | nodeUnreachable (endpoint : Endpoint)
  | nodeAccept (node : String)
  | accept
  | drop
  | unreachable
deriving DecidableEq

namespace DropCause

def all : List DropCause := [.aclIn, .aclOut, .noRoute, .nullRoute]

def rank : DropCause → Nat
  | .aclIn => 0
  | .aclOut => 1
  | .noRoute => 2
  | .nullRoute => 3

end DropCause

namespace Stage

/-- Stages that traffic is injected into. -/
def isOriginate : Stage → Bool
  | .originateLink _ | .originateVrf .. => true
  | _ => false

/-- Dispositions of the whole network. -/
def isTerminal : Stage → Bool
  | .accept | .drop | .unreachable => true
  | _ => false

/-- Stages in which one node has decided a disposition. -/
def isNodeDisposition : Stage → Bool
  | .dropped .. | .nodeDrop _ | .nodeUnreachable _ | .nodeAccept _ => true
  | _ => false

/-- The node that a stage belongs to. A stage on a link belongs to the sender. -/
def node? : Stage → Option String
  | .originateLink endpoint | .preIn endpoint | .nodeUnreachable endpoint => some endpoint.node
  | .originateVrf node _ | .postIn node _ | .preOut node _ => some node
  | .preNat link | .postNat link => some link.source.node
  | .dropped _ node | .nodeDrop node | .nodeAccept node => some node
  | .accept | .drop | .unreachable => none

/-- Stages are ordered by kind, then by names. -/
def rank : Stage → Nat
  | .originateLink _ => 0
  | .originateVrf .. => 1
  | .preIn _ => 2
  | .postIn .. => 3
  | .preOut .. => 4
  | .preNat _ => 5
  | .postNat _ => 6
  | .dropped cause _ => 7 + cause.rank
  | .nodeDrop _ => 11
  | .nodeUnreachable _ => 12
  | .nodeAccept _ => 13
  | .accept => 14
  | .drop => 15
  | .unreachable => 16

def names : Stage → List String
  | .originateLink endpoint | .preIn endpoint | .nodeUnreachable endpoint => [endpoint.node, endpoint.interface]
  | .originateVrf node vrf | .postIn node vrf | .preOut node vrf => [node, vrf]
  | .preNat link | .postNat link => link.names
  | .dropped _ node | .nodeDrop node | .nodeAccept node => [node]
  | .accept | .drop | .unreachable => []

/-- The kind of a stage in writing. -/
def kind : Stage → String
  | .originateLink _ => "OriginateInterfaceLink"
  | .originateVrf .. => "OriginateVrf"
  | .preIn _ => "PreInInterface"
  | .postIn .. => "PostInVrf"
  | .preOut .. => "PreOutVrf"
  | .preNat _ => "PreOutEdge"
  | .postNat _ => "PreOutEdgePostNat"
  | .dropped .aclIn _ => "NodeDropAclIn"
  | .dropped .aclOut _ => "NodeDropAclOut"
  | .dropped .noRoute _ => "NodeDropNoRoute"
  | .dropped .nullRoute _ => "NodeDropNullRoute"
  | .nodeDrop _ => "NodeDrop"
  | .nodeUnreachable _ => "NodeInterfaceNeighborUnreachable"
  | .nodeAccept _ => "NodeAccept"
  | .accept => "Accept"
  | .drop => "Drop"
  | .unreachable => "NeighborUnreachable"

/-- Names stand behind the kind in parentheses, those of a link in its own form. -/
def text (s : Stage) : String :=
  match s with
  | .accept | .drop | .unreachable => s.kind
  | .preNat link | .postNat link => s.kind ++ "(" ++ link.text ++ ")"
  | _ => s.kind ++ "(" ++ ", ".intercalate s.names ++ ")"

/-- The stage of a rank with the given names. -/
def ofKey? : Nat → List String → Option Stage
  | 0, [node, interface] => some (.originateLink ⟨node, interface⟩)
  | 1, [node, vrf] => some (.originateVrf node vrf)
  | 2, [node, interface] => some (.preIn ⟨node, interface⟩)
  | 3, [node, vrf] => some (.postIn node vrf)
  | 4, [node, vrf] => some (.preOut node vrf)
  | 5, [node, interface, peer, other] => some (.preNat ⟨⟨node, interface⟩, ⟨peer, other⟩⟩)
  | 6, [node, interface, peer, other] => some (.postNat ⟨⟨node, interface⟩, ⟨peer, other⟩⟩)
  | 7, [node] => some (.dropped .aclIn node)
  | 8, [node] => some (.dropped .aclOut node)
  | 9, [node] => some (.dropped .noRoute node)
  | 10, [node] => some (.dropped .nullRoute node)
  | 11, [node] => some (.nodeDrop node)
  | 12, [node, interface] => some (.nodeUnreachable ⟨node, interface⟩)
  | 13, [node] => some (.nodeAccept node)
  | 14, [] => some .accept
  | 15, [] => some .drop
  | 16, [] => some .unreachable
  | _, _ => none

theorem ofKey?_rank_names (s : Stage) : ofKey? s.rank s.names = some s := by
  cases s with
  | dropped cause node => cases cause <;> rfl
  | _ => rfl

theorem eq_of_rank_of_names {s t : Stage} (hr : s.rank = t.rank) (hn : s.names = t.names) :
    s = t := by
  have h := ofKey?_rank_names s
  rw [hr, hn, ofKey?_rank_names t] at h
  exact (Option.some.inj h).symm

instance : Ord Stage := ⟨compareLex (compareOn rank) (compareOn names)⟩

instance : Std.TransOrd Stage :=
  inferInstanceAs (Std.TransCmp (compareLex (compareOn rank) (compareOn names)))

instance : Std.LawfulEqOrd Stage where
  eq_of_compare {s t} (h : (compare s.rank t.rank).then (compare s.names t.names) = .eq) := by
    rw [Ordering.then_eq_eq] at h
    exact eq_of_rank_of_names (Std.LawfulEqOrd.eq_of_compare h.1) (Std.LawfulEqOrd.eq_of_compare h.2)

end Stage
end Dataplane
