import SolidField.Schedule.Trial

/-!
# The best schedule

The search runs the declared order, the reversed one and a number of shuffles,
and keeps the schedule that needs the fewest registers, the earliest of equals.
The trials after the first one may be divided among workers in any way.
-/

universe u

namespace SolidField

namespace Schedule

/-- The schedule that needs fewer registers, the first one of equals. -/
def better (first second : Schedule) : Schedule :=
  if second.registersNeeded < first.registersNeeded then second else first

/-- A schedule needs fewer registers than another, or as many in an earlier trial. -/
def Precedes (schedule other : Schedule) : Prop :=
  schedule.registersNeeded < other.registersNeeded ∨
    schedule.registersNeeded = other.registersNeeded ∧
      schedule.trial < other.trial

instance (schedule other : Schedule) : Decidable (schedule.Precedes other) :=
  inferInstanceAs (Decidable (_ ∨ _ ∧ _))

end Schedule

/-- How trials are divided among workers, down to single trials. -/
inductive Division where
  | trial (number : Nat)
  | split (first second : Division)
deriving DecidableEq, Repr

namespace Division

def trials : Division → List Nat
  | trial number => [number]
  | split first second => first.trials ++ second.trials

/-- The schedule that precedes the others of a division. -/
def least (run : Nat → Schedule) : Division → Schedule
  | trial number => run number
  | split first second =>
      if (second.least run).Precedes (first.least run) then
        second.least run
      else
        first.least run

end Division

namespace Graph

variable {α : Type u}

/-- The best of the trials up to a number. -/
def bestUpTo (graph : Graph α) (uses : Array Nat) (root : NodeId)
    (seed : UInt64) : Nat → Schedule
  | 0 => graph.scheduleWith uses root (.ofTrial 0 seed) 0
  | trial + 1 =>
      (graph.bestUpTo uses root seed trial).better
        (graph.scheduleWith uses root (.ofTrial (trial + 1) seed) (trial + 1))

/--
The number of the last trial.  The two fixed orders and the shuffles are counted
in a machine word, and the declared order is tried in any case.
-/
def lastTrial (passes : Nat) : Nat :=
  (passes + 2) % UInt64.size - 1

/--
The best schedule of the two fixed orders and a number of shuffles, for a root
in the graph.
-/
def bestSchedule (graph : Graph α) (root : NodeId) (passes : Nat)
    (seed : UInt64) : Except (BuildError α) Schedule :=
  (graph.require root).map fun _ =>
    graph.bestUpTo (graph.uses root) root seed (lastTrial passes)

/--
The best of the declared order and a division of the other trials: the first of
equals wins among the others, and the declared order wins a tie with them.
-/
def bestDivided (graph : Graph α) (uses : Array Nat) (root : NodeId)
    (seed : UInt64) (division : Division) : Schedule :=
  (graph.scheduleWith uses root (.ofTrial 0 seed) 0).better
    (division.least fun trial =>
      graph.scheduleWith uses root (.ofTrial trial seed) trial)

/-- Every shuffle is tried, as long as the trials can be counted. -/
theorem lastTrial_eq {passes : Nat} (counted : passes + 2 < UInt64.size) :
    lastTrial passes = passes + 1 := by
  simp only [lastTrial, Nat.mod_eq_of_lt counted]
  omega

end Graph

end SolidField
