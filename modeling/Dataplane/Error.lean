import Dataplane.Header.Field
import Dataplane.Network.Location
import Dataplane.Pipeline.Stage

/-! Faults of a snapshot and of a query. -/
namespace Dataplane

/-- Configurations and facts do not fit together, or one of them is malformed. -/
inductive ModelError where
  | unknownNode (node : String)
  | unknownVrf (node vrf : String)
  | unknownInterface (endpoint : Endpoint)
  | unknownAcl (node acl : String)
  | invalidBlockLength (length : UInt8)
  | invalidRange (field : Field) (first last : Nat)
  | duplicateTransition (source target : Stage)
deriving DecidableEq

def ModelError.message : ModelError → String
  | .unknownNode node => "Unknown node '" ++ node ++ "'"
  | .unknownVrf node vrf => "Unknown VRF '" ++ vrf ++ "' on node '" ++ node ++ "'"
  | .unknownInterface endpoint =>
    "Unknown interface '" ++ endpoint.interface ++ "' on node '" ++ endpoint.node ++ "'"
  | .unknownAcl node acl => "Unknown ACL '" ++ acl ++ "' on node '" ++ node ++ "'"
  | .invalidBlockLength length => "Invalid prefix length /" ++ toString length.toNat
  | .invalidRange field first last =>
    "Invalid range for '" ++ field.name ++ "': " ++ toString first ++ ".." ++ toString last
  | .duplicateTransition source target =>
    "Duplicate transition " ++ source.text ++ " -> " ++ target.text

/-- What stopped a solve before it was finished. -/
inductive Interruption where
  | iterationLimit
  | signal
deriving DecidableEq

def Interruption.message : Interruption → String
  | .iterationLimit => "Operation cancelled (caused by `ReachabilityConfig::max_iterations`)"
  | .signal => "Operation cancelled"

/-- A query has no answer. -/
inductive QueryError where
  | unknownLocation (location : Location)
  | invalidHeaderSpace (fault : ModelError)
  | cancelled (cause : Interruption)
deriving DecidableEq

def QueryError.message : QueryError → String
  | .unknownLocation location => "Unknown location: " ++ location.text
  | .invalidHeaderSpace fault => "Invalid header space: " ++ fault.message
  | .cancelled _ => "Reachability analysis was cancelled"

end Dataplane
