import Dataplane.Header.Constraint
import Dataplane.Pipeline.Stage

/-! Guarded transitions, and what a set of packets becomes on one. -/
namespace Dataplane

/-- Packets of `condition` get a source address of `pool`, which restricts no other field. -/
structure NatRule where
  condition : HeaderSpace
  pool : HeaderSpace

/-- Packets of `guard` may pass, and the first rule that applies to one replaces its source. -/
structure Transition where
  source : Stage
  target : Stage
  guard : HeaderSpace
  nat : List NatRule := []

namespace NatRule

/-- Add to `found` what the rules make of the packets `left`. Without a rule that applies, a
packet stays as it is. -/
def replaceInto (found left : HeaderSpace) : List NatRule → HeaderSpace
  | [] => found.union left
  | rule :: rest =>
    let hit := left.inter rule.condition
    let found :=
      if hit.isEmpty then found else found.union ((hit.forgetField .srcIp).inter rule.pool)
    let left := left.diff rule.condition
    if left.isEmpty then found.union left else replaceInto found left rest

/-- A packet that a rule applies to loses its source address and takes any of the pool. -/
def apply (rules : List NatRule) (packets : HeaderSpace) : HeaderSpace :=
  replaceInto .empty packets rules

end NatRule

/-- The packets that arrive at the target if `packets` are at the source. -/
def Transition.traverse (t : Transition) (packets : HeaderSpace) : HeaderSpace :=
  let admitted := packets.inter t.guard
  if admitted.isEmpty || t.nat.isEmpty then admitted else NatRule.apply t.nat admitted

end Dataplane
