import Dataplane.Json.Stage
import Dataplane.Reach.Solve
import Dataplane.Diagram.Canonical
import Dataplane.Proofs.Contents
import Dataplane.Proofs.Quantifiers
import Dataplane.Proofs.Crossing
import Dataplane.Proofs.Worklist
import Dataplane.Proofs.Fixpoint
import Dataplane.Proofs.Tables
import Dataplane.Proofs.Termination
import Dataplane.Proofs.Assembly
import Dataplane.Proofs.Evaluation
import Dataplane.Proofs.Simulation
import Dataplane.Proofs.Compilation
import Dataplane.Proofs.Families
import Dataplane.Proofs.Refinement
import Dataplane.Proofs.Origins
import Dataplane.Proofs.Exactness
import Dataplane.Proofs.Projection
import Dataplane.Proofs.Overapproximation
import Dataplane.Proofs.Limits
import Dataplane.Proofs.Counting
import Dataplane.Proofs.Interleaving
import Dataplane.Proofs.WellPosed
import Dataplane.Proofs.Distinct
import Dataplane.Proofs.Validation
import Dataplane.Proofs.Conservation
import Dataplane.Proofs.Dispositions
import Dataplane.Proofs.Slicing
import Dataplane.Proofs.Additivity
import Dataplane.Proofs.Agreement
import Dataplane.Proofs.Locality
import Dataplane.Proofs.Translation
import Dataplane.Proofs.Conditions
import Dataplane.Proofs.AccessLists
import Dataplane.Proofs.Tabulation
import Dataplane.Proofs.Resolution
import Dataplane.Proofs.ExamplePackets
import Dataplane.Proofs.Blocks
import Dataplane.Proofs.Correspondence
import Dataplane.Proofs.RoundTrip
import Dataplane.Proofs.Duplicates
import Dataplane.Proofs.Membership
