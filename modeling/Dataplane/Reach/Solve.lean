import Dataplane.Traffic.Roots
import Std.Data.ExtTreeSet

/-! The solver: one stage at a time passes its packets on, until no stage has news. -/
namespace Dataplane

/-- Only stages that some packet reaches have an entry. -/
structure Outcome where
  reached : Std.ExtTreeMap Stage HeaderSpace

namespace Outcome

def get? (o : Outcome) (s : Stage) : Option HeaderSpace := o.reached[s]?

def spaceAt (o : Outcome) (s : Stage) : HeaderSpace := (o.get? s).getD .empty

def isReached (o : Outcome) (s : Stage) : Bool := o.reached.contains s

/-- The reached stages in which a node decides a disposition. -/
def nodeDispositions (o : Outcome) : List (Stage × HeaderSpace) :=
  o.reached.toList.filter fun (s, _) => s.isNodeDisposition

/-- Packets that some node accepts. -/
def accepted (o : Outcome) : HeaderSpace := o.spaceAt .accept

/-- Packets that some node drops. -/
def dropped (o : Outcome) : HeaderSpace := o.spaceAt .drop

/-- Packets that leave where no neighbor answers. -/
def unreachable (o : Outcome) : HeaderSpace := o.spaceAt .unreachable

/-- Some packet that reaches the stage. -/
def example? (o : Outcome) (s : Stage) : Option Packet := (o.get? s).bind HeaderSpace.example?

end Outcome

/-- The packets known to reach each stage, and the stages whose packets have grown since they
were last passed on. -/
structure Progress where
  iteration : Nat := 0
  reached : Std.ExtTreeMap Stage HeaderSpace := ∅
  pending : List Stage := []
  queued : Std.ExtTreeSet Stage := ∅

namespace Progress

/-- Note that packets reach a stage. The flag tells whether this is news. -/
def extend (p : Progress) (s : Stage) (packets : HeaderSpace) : Progress × Bool :=
  let grow (packets : HeaderSpace) : Progress × Bool :=
    let p := { p with reached := p.reached.insert s packets }
    if p.queued.contains s then (p, true)
    else ({ p with pending := p.pending ++ [s], queued := p.queued.insert s }, true)
  if packets.isEmpty then (p, false)
  else
    match p.reached[s]? with
    | some known => if packets.subset known then (p, false) else grow (known.union packets)
    | none => grow packets

def ofRoots (roots : Roots) : Progress :=
  roots.toList.foldl (fun p (s, packets) => (p.extend s packets).1) {}

end Progress

/-- When a solve stops early. The limit counts stages that have passed their packets on. -/
structure Limits where
  maxIterations : Nat := 2 ^ 64 - 1
  signalled : Bool := false

/-- How a step ended. -/
inductive Status where
  | suspended
  | done (outcome : Outcome)
  | interrupted (cause : Interruption)

/-- The state that a step leaves, and how it ended. -/
structure Step where
  state : Progress
  status : Status

namespace Progress

/-- Take a stage off the queue, where `rest` is left. This counts as an iteration. -/
def pop (p : Progress) (s : Stage) (rest : List Stage) : Progress :=
  { p with pending := rest, queued := p.queued.erase s, iteration := p.iteration + 1 }

/-- Pass packets on over all transitions from a stage. -/
def propagate (p : Progress) (transitions : List Transition) (packets : HeaderSpace) : Progress :=
  transitions.foldl (fun p t => (p.extend t.target (t.traverse packets)).1) p

/-- Take the next stage with news and pass its packets on. Finding none does not count against
the limit. -/
def step (g : Graph) (limits : Limits) (p : Progress) : Step :=
  if limits.signalled then ⟨p, .interrupted .signal⟩
  else
    match p.pending with
    | [] => ⟨p, .done ⟨p.reached⟩⟩
    | s :: rest =>
      if limits.maxIterations ≤ p.iteration then ⟨p, .interrupted .iterationLimit⟩
      else
        let next := p.pop s rest
        match next.reached[s]? with
        | some packets => ⟨next.propagate (g.successors s) packets, .suspended⟩
        | none => ⟨next, .suspended⟩

theorem iteration_extend (p : Progress) (s : Stage) (packets : HeaderSpace) :
    (p.extend s packets).1.iteration = p.iteration := by
  unfold extend
  dsimp only
  repeat' split
  all_goals rfl

theorem iteration_propagate (p : Progress) (transitions : List Transition) (packets : HeaderSpace) :
    (p.propagate transitions packets).iteration = p.iteration := by
  unfold propagate
  induction transitions generalizing p with
  | nil => rfl
  | cons t rest ih =>
    rw [List.foldl_cons, ih]
    exact iteration_extend p _ _

/-- A step that does not end the solve counts one iteration, within the limit. -/
theorem iteration_of_step {g : Graph} {limits : Limits} {p next : Progress}
    (h : p.step g limits = ⟨next, .suspended⟩) :
    p.iteration < limits.maxIterations ∧ next.iteration = p.iteration + 1 := by
  unfold step at h
  split at h
  · cases h
  split at h
  · cases h
  split at h
  · cases h
  rename_i hlimit
  refine ⟨by omega, ?_⟩
  dsimp only at h
  split at h
  · rw [← (Step.mk.inj h).1, iteration_propagate]
    rfl
  · rw [← (Step.mk.inj h).1]
    rfl

/-- Step until nothing is pending. The state is that of the last step. -/
def run (g : Graph) (limits : Limits) (p : Progress) : Progress × Except Interruption Outcome :=
  match _h : p.step g limits with
  | ⟨next, .suspended⟩ => next.run g limits
  | ⟨last, .done outcome⟩ => (last, .ok outcome)
  | ⟨last, .interrupted cause⟩ => (last, .error cause)
termination_by limits.maxIterations - p.iteration
decreasing_by
  have := iteration_of_step _h
  omega

end Progress

namespace Graph

/-- The packets that reach each stage from the roots. -/
def solve (g : Graph) (roots : Roots) (limits : Limits) : Except Interruption Outcome :=
  ((Progress.ofRoots roots).run g limits).2

/-- Solve for traffic from the origins within `headers`. -/
def queryHeaders (g : Graph) (origins : Origins) (headers : HeaderSpace) (limits : Limits) :
    Except QueryError Outcome := do
  let roots ← Roots.resolve g origins headers
  match g.solve roots limits with
  | .ok outcome => .ok outcome
  | .error cause => .error (.cancelled cause)

/-- Solve for traffic from the origins to a set of destinations. -/
def query (g : Graph) (origins : Origins) (destination : IpSpace) (limits : Limits) :
    Except QueryError Outcome :=
  match destination.headers .dstIp with
  | .ok headers => g.queryHeaders origins headers limits
  | .error fault => .error (.invalidHeaderSpace fault)

end Graph
end Dataplane
