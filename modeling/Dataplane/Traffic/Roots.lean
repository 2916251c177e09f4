import Dataplane.Pipeline.Graph

/-! The traffic of a query, at locations and at stages. -/
namespace Dataplane

/-- Each entry lets its headers enter at all of its locations. -/
structure Origins where
  entries : List (List Location × HeaderSpace) := []

namespace Origins

def assign (o : Origins) (locations : List Location) (headers : HeaderSpace) : Origins :=
  ⟨o.entries ++ [(locations, headers)]⟩

/-- Let all packets with a source in the set enter. -/
def assignSources (o : Origins) (locations : List Location) (sources : IpSpace) :
    Except QueryError Origins :=
  match sources.headers .srcIp with
  | .ok headers => .ok (o.assign locations headers)
  | .error fault => .error (.invalidHeaderSpace fault)

/-- The locations in order, each with its headers. -/
def toList (o : Origins) : List (Location × HeaderSpace) :=
  o.entries.flatMap fun (locations, headers) => locations.map fun l => (l, headers)

/-- Whether no location is assigned. -/
def isEmpty (o : Origins) : Bool := o.entries.all fun (locations, _) => locations.isEmpty

end Origins

/-- The packets that start at each stage. -/
abbrev Roots := Std.ExtTreeMap Stage HeaderSpace

/-- Traffic was bound to a stage that none starts at. -/
structure NotOriginate where
  stage : Stage

def NotOriginate.message (e : NotOriginate) : String := e.stage.text ++ " is not an originate state"

namespace Roots

/-- Packets are added to those that start at the stage already. -/
def add (roots : Roots) (s : Stage) (headers : HeaderSpace) : Roots :=
  roots.insert s <|
    match roots[s]? with
    | some known => known.union headers
    | none => headers

/-- Add packets at a stage of which it is not known whether traffic starts there. -/
def bind (roots : Roots) (s : Stage) (headers : HeaderSpace) : Except NotOriginate Roots :=
  if s.isOriginate then .ok (roots.add s headers) else .error ⟨s⟩

/-- Traffic is limited to `destination`, and is as coarse as the graph. -/
def resolve (g : Graph) (origins : Origins) (destination : HeaderSpace) : Except QueryError Roots :=
  origins.toList.foldlM (fun (roots : Roots) (location, headers) =>
    match g.places.resolve? location with
    | some s => .ok (roots.add s (g.coarsening.apply (headers.inter destination)))
    | none => .error (.unknownLocation location)) ∅

end Roots
end Dataplane
