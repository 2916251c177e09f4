import Std.Data.ExtTreeMap

/-! Interfaces, directed links between them, and places where traffic enters the network. -/
namespace Dataplane

/-- An interface of a node. -/
structure Endpoint where
  node : String
  interface : String
deriving DecidableEq

/-- The direction of a physical link from `source` to `target`. -/
structure Link where
  source : Endpoint
  target : Endpoint
deriving DecidableEq

def Endpoint.text (p : Endpoint) : String := p.node ++ "[" ++ p.interface ++ "]"

namespace Link

def reversed (l : Link) : Link := ⟨l.target, l.source⟩

def text (l : Link) : String := l.source.text ++ " -> " ++ l.target.text

/-- Links are ordered by these names, source first. -/
def names (l : Link) : List String :=
  [l.source.node, l.source.interface, l.target.node, l.target.interface]

theorem names_injective {l m : Link} (h : l.names = m.names) : l = m := by
  obtain ⟨⟨_, _⟩, ⟨_, _⟩⟩ := l
  obtain ⟨⟨_, _⟩, ⟨_, _⟩⟩ := m
  simp_all [names]

instance : Ord Link := ⟨compareOn names⟩

instance : Std.TransOrd Link := inferInstanceAs (Std.TransCmp (compareOn names))

instance : Std.LawfulEqOrd Link where
  eq_of_compare {l m} (h : compare l.names m.names = .eq) :=
    names_injective (Std.LawfulEqOrd.eq_of_compare h)

end Link

/-- A place where traffic enters. -/
inductive Location where
  /-- Traffic from the link at an interface, which meets the incoming filter. -/
  | link (endpoint : Endpoint)
  /-- Traffic that a node sends from an interface, which is routed in its domain at once. -/
  | interface (endpoint : Endpoint)
  /-- Traffic that a node sends inside a routing domain. -/
  | vrf (node vrf : String)
deriving DecidableEq

namespace Location

def node : Location → String
  | .link endpoint | .interface endpoint => endpoint.node
  | .vrf node _ => node

def text : Location → String
  | .link endpoint => "link " ++ endpoint.text
  | .interface endpoint => "interface " ++ endpoint.text
  | .vrf node domain => "vrf " ++ Endpoint.text ⟨node, domain⟩

/-- Locations are ordered by kind, then by names. -/
def rank : Location → Nat
  | .link _ => 0
  | .interface _ => 1
  | .vrf .. => 2

def names : Location → List String
  | .link endpoint | .interface endpoint => [endpoint.node, endpoint.interface]
  | .vrf node domain => [node, domain]

instance : Ord Location := ⟨compareLex (compareOn rank) (compareOn names)⟩

end Location
end Dataplane
