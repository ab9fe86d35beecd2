import SeriesRegion.Machine
import SeriesRegion.Replay.Batches

/-!
# Running a replay

The batches of a plan are delivered one after the other; those that still wait in the end have their windows end.  The
report gives the status of each batch in the order of delivery.

Time is not measured, so no window ends before all batches have been delivered.
-/

namespace SeriesRegion

/-- What became of the batches of a plan: the start of each with its status, in the order of delivery. -/
structure ReplayReport where
  statuses : List (UInt64 × Status)
  deriving Repr

def ReplayReport.failed (r : ReplayReport) : Nat := Status.failures (r.statuses.map (·.2))

namespace Machine

/-- Delivers batches; gives for each its start, its reply and the batches that finished. -/
def deliverAll (m : Machine) (r : Region) (bs : List BatchRequest) :
    FileTask (Machine × Region × List (UInt64 × Reply × Finished)) := do
  let ((m, r), replies) ← FileTask.gather (fun (m, r) b => do
    let (m, r, reply, finished) ← m.deliver r (.batch b)
    return ((m, r), (b.start, reply, finished))) (m, r) bs
  return (m, r, replies)

def replay (m : Machine) (r : Region) (p : ReplayPlan) : FileTask (Machine × Region × ReplayReport) := do
  let (m, r, early) ← if p.seeded then m.seed r p.first else pure (m, r, [])
  let (m, r, replies) ← m.deliverAll r p.deliveries
  let (m, r, late) ← m.outwait r
  let finished := early ++ replies.flatMap (·.2.2) ++ late
  return (m, r, ⟨replies.map fun (start, reply, _) => (start, reply.resolve finished)⟩)

end Machine

end SeriesRegion
