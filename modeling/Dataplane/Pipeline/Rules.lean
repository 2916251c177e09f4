import Dataplane.Pipeline.Transition
import Dataplane.Predicate.Acl
import Dataplane.Predicate.Forwarding

/-! The transitions of the forwarding pipeline, one family for each pair of kinds of stages. -/
namespace Dataplane

/-- The interfaces that each routing domain lists, by their names. -/
def Network.listedEndpoints (network : Network) : List Endpoint :=
  network.toList.flatMap fun (node, config) =>
    config.vrfs.values.flatMap fun vrf => vrf.interfaces.toList.map fun name => ⟨node, name⟩

/-- A network with all of its predicates. -/
structure Snapshot where
  network : Network
  acls : Table (Table CompiledAcl)
  forwarding : Forwarding
  coarsening : Coarsening

namespace Snapshot

variable (s : Snapshot)

def acl (node name : String) : Except ModelError CompiledAcl :=
  match s.acls[node]?.bind (·[name]?) with
  | some acl => .ok acl
  | none => .error (.unknownAcl node name)

/-- Packets that pass a filter, which are all packets if there is none. -/
def permitted (node : String) : Option String → Except ModelError HeaderSpace
  | some name => return (← s.acl node name).permit
  | none => .ok .full

/-- All routing domains with their nodes. -/
def vrfs : List (String × String) :=
  s.network.toList.flatMap fun (node, config) => config.vrfs.keys.map fun vrf => (node, vrf)

/-- All interfaces with their nodes. -/
def interfaces : List (String × Interface) :=
  s.network.toList.flatMap fun (node, config) => config.interfaces.values.map fun i => (node, i)

/-- Interfaces that some routing domain lists, with their nodes. Each must exist, and so must the
routing domain that it names itself. -/
def listedInterfaces : Except ModelError (List (String × Interface)) :=
  s.network.listedEndpoints.mapM fun endpoint => do
    let interface ← s.network.findInterface endpoint
    s.network.checkVrf endpoint.node interface.vrf
    return (endpoint.node, interface)

/-- The links with a fact, each with the interface that it leaves from. -/
def links : Except ModelError (List (Link × HeaderSpace × Interface)) :=
  s.forwarding.arpTrue.toList.mapM fun (link, space) =>
    return (link, space, ← s.network.findInterface link.source)

/-- A pool must not be inverted. -/
def natRules (node : String) (i : Interface) : Except ModelError (List NatRule) :=
  i.sourceNats.mapM fun nat => do
    let condition := (← s.acl node nat.acl).permit
    let (first, last) := (nat.poolFirst.value.toNat, nat.poolLast.value.toNat)
    if last < first then .error (.invalidRange .srcIp first last)
    else return ⟨condition, s.coarsening.apply (.range .srcIp first last)⟩

/-- A family of transitions. -/
abbrev Family := Snapshot → Except ModelError (List Transition)

def originateLinks : Family := fun s => .ok <|
  s.interfaces.map fun (node, i) =>
    { source := .originateLink ⟨node, i.name⟩, target := .preIn ⟨node, i.name⟩, guard := .full }

def originateVrfs : Family := fun s => .ok <|
  s.vrfs.map fun (node, vrf) =>
    { source := .originateVrf node vrf, target := .postIn node vrf, guard := .full }

def deniedIn : Family := fun s => do
  let filtered := (← s.listedInterfaces).filterMap fun (node, i) =>
    i.incomingFilter.map fun name => (node, i, name)
  filtered.mapM fun (node, i, name) => return {
    source := .preIn ⟨node, i.name⟩, target := .dropped .aclIn node,
    guard := (← s.acl node name).deny }

def permittedIn : Family := fun s => do
  (← s.listedInterfaces).mapM fun (node, i) => return {
    source := .preIn ⟨node, i.name⟩, target := .postIn node i.vrf,
    guard := ← s.permitted node i.incomingFilter }

def accepted : Family := fun s => .ok <|
  s.vrfs.map fun (node, vrf) =>
    { source := .postIn node vrf, target := .nodeAccept node,
      guard := s.forwarding.acceptedAt node vrf }

def unrouted : Family := fun s => .ok <|
  s.vrfs.map fun (node, vrf) =>
    { source := .postIn node vrf, target := .dropped .noRoute node,
      guard := (s.forwarding.notAcceptedAt node vrf).diff (s.forwarding.routableAt node vrf) }

def routed : Family := fun s => .ok <|
  s.vrfs.map fun (node, vrf) =>
    { source := .postIn node vrf, target := .preOut node vrf,
      guard := (s.forwarding.notAcceptedAt node vrf).inter (s.forwarding.routableAt node vrf) }

def nullRouted : Family := fun s => .ok <|
  (Forwarding.entries s.forwarding.nullRouted).map fun (node, vrf, space) =>
    { source := .preOut node vrf, target := .dropped .nullRoute node, guard := space }

def unanswered : Family := fun s =>
  s.forwarding.unreachableEntries.mapM fun (node, vrf, name, space) => do
    let i ← s.network.findInterface ⟨node, name⟩
    let permit ← s.permitted node i.outgoingFilter
    return {
      source := .preOut node vrf, target := .nodeUnreachable ⟨node, name⟩,
      guard := space.inter permit }

def sent : Family := fun s =>
  s.forwarding.arpTrue.toList.mapM fun (link, space) => do
    let i ← s.network.findInterface link.source
    s.network.checkVrf link.source.node i.vrf
    return { source := .preOut link.source.node i.vrf, target := .preNat link, guard := space }

def sourceNat : Family := fun s =>
  s.forwarding.arpTrue.toList.mapM fun (link, _) => do
    let i ← s.network.findInterface link.source
    return {
      source := .preNat link, target := .postNat link, guard := .full,
      nat := ← s.natRules link.source.node i }

def deniedOut : Family := fun s => do
  let filtered := (← s.links).filterMap fun (link, _, i) =>
    i.outgoingFilter.map fun name => (link, name)
  filtered.mapM fun (link, name) => return {
    source := .postNat link, target := .dropped .aclOut link.source.node,
    guard := (← s.acl link.source.node name).deny }

def permittedOut : Family := fun s => do
  (← s.links).mapM fun (link, _, i) => return {
    source := .postNat link, target := .preIn link.target,
    guard := ← s.permitted link.source.node i.outgoingFilter }

def nodeAccepted : Family := fun s => .ok <|
  s.network.keys.map fun node =>
    { source := .nodeAccept node, target := .accept, guard := .full }

def dropCauses : Family := fun s => .ok <|
  s.network.keys.flatMap fun node => DropCause.all.map fun cause =>
    { source := .dropped cause node, target := .nodeDrop node, guard := .full }

def nodeDropped : Family := fun s => .ok <|
  s.network.keys.map fun node => { source := .nodeDrop node, target := .drop, guard := .full }

def nodeUnreachable : Family := fun s => .ok <|
  s.interfaces.map fun (node, i) =>
    { source := .nodeUnreachable ⟨node, i.name⟩, target := .unreachable, guard := .full }

/-- The families in order, which decides whose fault is reported. -/
def families : List Family :=
  [originateLinks, originateVrfs, deniedIn, permittedIn, accepted, unrouted, routed, nullRouted,
    unanswered, sent, sourceNat, deniedOut, permittedOut, nodeAccepted, dropCauses, nodeDropped,
    nodeUnreachable]

/-- All transitions, also those that no packet can take. -/
def transitions : Except ModelError (List Transition) := do
  return (← families.mapM fun family => family s).flatten

end Snapshot
end Dataplane
