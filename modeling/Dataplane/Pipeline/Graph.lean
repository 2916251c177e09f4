import Dataplane.Pipeline.Rules

/-! The transition graph of a snapshot, and where traffic can enter it. -/
namespace Dataplane

/-- The interfaces of each node by their own name, with their routing domains, and the routing
domains of each node. -/
structure Places where
  interfaces : Table (Table String)
  vrfs : Table (List String)

namespace Places

def ofNetwork (network : Network) : Places where
  interfaces := network.map fun _ config =>
    config.interfaces.values.foldl (fun t i => t.insert i.name i.vrf) ∅
  vrfs := network.map fun _ config => config.vrfs.keys

def hasVrf (p : Places) (node vrf : String) : Bool := (p.vrfs.getD node []).contains vrf

/-- The routing domain that an interface names. -/
def vrfOf? (p : Places) (endpoint : Endpoint) : Option String := do (← p.interfaces[endpoint.node]?)[endpoint.interface]?

/-- The stage at which traffic of a location starts, if the location exists. -/
def resolve? (p : Places) : Location → Option Stage
  | .link endpoint => (p.vrfOf? endpoint).map fun _ => .originateLink endpoint
  | .interface endpoint => do
    let vrf ← p.vrfOf? endpoint
    if p.hasVrf endpoint.node vrf then some (.originateVrf endpoint.node vrf) else none
  | .vrf node vrf => if p.hasVrf node vrf then some (.originateVrf node vrf) else none

end Places

/-- Transitions by source and target. -/
abbrev TransitionTable := Std.ExtTreeMap Stage (Std.ExtTreeMap Stage Transition)

namespace TransitionTable

/-- A transition that no packet can take is left out. There must be only one between two stages. -/
def insert (table : TransitionTable) (t : Transition) : Except ModelError TransitionTable :=
  if t.guard.isEmpty then .ok table
  else
    let targets := Std.ExtTreeMap.getD table t.source ∅
    if targets.contains t.target then .error (.duplicateTransition t.source t.target)
    else .ok (Std.ExtTreeMap.insert table t.source (targets.insert t.target t))

def ofList (transitions : List Transition) : Except ModelError TransitionTable :=
  transitions.foldlM insert ∅

end TransitionTable

structure Graph where
  coarsening : Coarsening
  table : TransitionTable
  places : Places

namespace Graph

/-- The transitions that the rules make for a network, before they are put into a table. Access
lists are checked first, then facts. -/
def rules (network : Network) (facts : Facts) (coarsening : Coarsening) :
    Except ModelError (List Transition) := do
  let acls ← network.compileAcls coarsening
  let forwarding ← Forwarding.ofFacts network facts
  Snapshot.transitions { network, acls, forwarding, coarsening }

def build (network : Network) (facts : Facts) (coarsening : Coarsening) :
    Except ModelError Graph := do
  let transitions ← rules network facts coarsening
  let table ← TransitionTable.ofList transitions
  return { coarsening, table, places := .ofNetwork network }

/-- Transitions from a stage, in the order of their targets. -/
def successors (g : Graph) (s : Stage) : List Transition :=
  match g.table[s]? with
  | some targets => targets.values
  | none => []

def transition? (g : Graph) (source target : Stage) : Option Transition := do
  (← g.table[source]?)[target]?

/-- All transitions, in the order of their sources and targets. -/
def transitions (g : Graph) : List Transition := g.table.values.flatMap (·.values)

/-- Stages with a transition. -/
def sources (g : Graph) : List Stage := g.table.keys

end Graph
end Dataplane
