import SeriesRegion.SortedMap

/-!
# Timed steps

Samples of how long the steps of a write take, by the name of the step.
-/

namespace SeriesRegion

/-- The steps that are timed: waiting for a turn in the sequencing buffer, and applying one plan. -/
inductive Step where
  | queue
  | apply
  deriving DecidableEq, Repr

def Step.name : Step → String
  | .queue => "cache_and_queue_request"
  | .apply => "state_machine_write"

/-- The samples of a step: how many, and their sum and maximum in nanoseconds. -/
structure StepStats where
  count : Nat
  total : Nat
  max : Nat
  deriving DecidableEq, Repr

namespace StepStats

def none : StepStats := ⟨0, 0, 0⟩

def record (s : StepStats) (elapsed : Nat) : StepStats := ⟨s.count + 1, s.total + elapsed, Max.max s.max elapsed⟩

/-- The mean in whole nanoseconds, at most the largest machine word; zero without samples. -/
def mean (s : StepStats) : Nat := if s.count = 0 then 0 else min (s.total / s.count) (UInt64.size - 1)

end StepStats

/-- The samples of each step that has any. -/
structure Tracker where
  steps : SortedMap String StepStats
  deriving DecidableEq

namespace Tracker

def empty : Tracker := ⟨.empty⟩

def record (t : Tracker) (step : Step) (elapsed : Nat) : Tracker :=
  ⟨t.steps.alter step.name fun s => (s.getD .none).record elapsed⟩

def report (t : Tracker) : List (String × StepStats) := t.steps.entries

def count (t : Tracker) (step : Step) : Nat := ((t.steps.get? step.name).getD .none).count

end Tracker

end SeriesRegion
