import SeriesRegion.Apply
import SeriesRegion.Request
import SeriesRegion.Sequencer.Settle
import SeriesRegion.Steps

/-!
# The write path

A machine takes requests for a region.  A request that cannot be resolved is answered with an error.  Commands and plans
are applied at once; a batch waits for its turn at the sequencer, and is then applied command by command.

The machine does not hold the region: each operation is given the region to apply to and gives back what became of it.
-/

namespace SeriesRegion

/-- A batch of commands waiting for its turn. -/
abbrev Waiting := LogBatch Command

/-- What a request comes to when it is resolved. -/
inductive Resolved where
  | command (command : Command)
  | batch (batch : Waiting)
  | plan (plan : Plan)

def Request.resolve : Request → Except RequestFault Resolved
  | .indexed r => r.resolve.map .command
  | .batch r => r.resolve.map .batch
  | .raw r => r.planNode.map .plan

/-- The sequencer of a machine, the samples of its steps, and how it answers fragments. -/
structure Machine where
  sequencer : Sequencer Waiting
  steps : Tracker
  execute : Fragment → Region → List (Int64 × Value)

/-- The answer to a write: its status, or the ticket that its batch waits under. -/
inductive Reply where
  | status (status : Status)
  | waits (ticket : Nat)

/-- The batches that were applied, each with its ticket and status. -/
abbrev Finished := List (Nat × Status)

/-- The status of a write once its batch is among those that were applied. -/
def Reply.resolve (finished : Finished) : Reply → Status
  | .status s => s
  | .waits ticket => (finished.lookup ticket).getD (.internalError "the batch still waits")

namespace Machine

/-- Answers a fragment from the table of a region. -/
def scan (f : Fragment) (r : Region) : List (Int64 × Value) := r.table.query f.device f.measurement f.start f.stop

def new (capacity : Nat) : Machine := ⟨.new capacity, .empty, scan⟩

/-- Adds a sample of a step.  Time is not measured, so it lasts nothing. -/
def sample (m : Machine) (s : Step) : Machine := { m with steps := m.steps.record s 0 }

/-! ### Applying -/

def applyCommand (m : Machine) (r : Region) (c : Command) : FileTask (Machine × Region × Status) := do
  let (r, s) ← r.applyCommand c
  return (m.sample .apply, r, s)

def applyPlan (m : Machine) (r : Region) (p : Plan) : FileTask (Machine × Region × Status) := do
  let (r, s) ← r.applyPlan p
  return (m.sample .apply, r, s)

def applyCommands (m : Machine) (r : Region) (cs : List Command) : FileTask (Machine × Region × List Status) := do
  let ((m, r), ss) ← FileTask.gather (fun (m, r) c => do
    let (m, r, s) ← m.applyCommand r c
    return ((m, r), s)) (m, r) cs
  return (m, r, ss)

def applyTurn (m : Machine) (r : Region) (t : Turn Waiting) : FileTask (Machine × Region × Status) := do
  let (m, r, ss) ← (m.sample .queue).applyCommands r t.batch.commands
  return (m, r, .aggregate ss)

/-- Applies the batches that have had their turns, in that order. -/
def applyTurns (m : Machine) (r : Region) (ts : List (Turn Waiting)) : FileTask (Machine × Region × Finished) := do
  let ((m, r), finished) ← FileTask.gather (fun (m, r) t => do
    let (m, r, s) ← m.applyTurn r t
    return ((m, r), (t.slot.ticket, s))) (m, r) ts
  return (m, r, finished)

/-- Lets the sequencer go on, and applies the batches that have their turns. -/
def advance (m : Machine) (r : Region) (next : Sequencer Waiting × List (Turn Waiting)) :
    FileTask (Machine × Region × Finished) :=
  { m with sequencer := next.1 }.applyTurns r next.2

/-! ### Requests -/

/-- Applies what is applied at once; `queue` says how the sequencer takes a batch. -/
def take (m : Machine) (r : Region) (request : Request)
    (queue : Sequencer Waiting → Waiting → Sequencer Waiting × List (Turn Waiting)) :
    FileTask (Machine × Region × Reply × Finished) :=
  match request.resolve with
  | .error e => return (m, r, .status (.internalError e.message), [])
  -- Only batches go through the sequencer.
  | .ok (.command c) => do
    let (m, r, s) ← m.applyCommand r c
    return (m, r, .status s, [])
  | .ok (.plan p) => do
    let (m, r, s) ← m.applyPlan r p
    return (m, r, .status s, [])
  | .ok (.batch b) => do
    let ticket := m.sequencer.buffer.ticket
    let (m, r, finished) ← m.advance r (queue m.sequencer b)
    return (m, r, .waits ticket, finished)

/-- Takes a request without waiting for its batch. -/
def deliver (m : Machine) (r : Region) (request : Request) : FileTask (Machine × Region × Reply × Finished) :=
  m.take r request fun q b => q.deliver b.start b.stop b

/-- Takes a request and waits until its batch has had its turn; gives also all batches that finished meanwhile. -/
def write (m : Machine) (r : Region) (request : Request) : FileTask (Machine × Region × Status × Finished) := do
  let (m, r, reply, finished) ← m.take r request fun q b => q.call b.start b.stop b
  return (m, r, reply.resolve finished, finished)

def seed (m : Machine) (r : Region) (index : UInt64) : FileTask (Machine × Region × Finished) :=
  m.advance r (m.sequencer.seed index).settle

/-- Interrupts the waiting batches, which go on waiting. -/
def stop (m : Machine) (r : Region) : FileTask (Machine × Region × Finished) :=
  m.advance r m.sequencer.interrupt.settle

/-- Lets the windows of all waiting batches end. -/
def outwait (m : Machine) (r : Region) : FileTask (Machine × Region × Finished) :=
  m.advance r (m.sequencer.outwait m.sequencer.callers.length)

/-! ### Reading -/

/-- What may be read: the log, or what a fragment asks for. -/
inductive ReadRequest where
  | log
  | fragment (request : RawRequest)

/-- What a read gives: the path of the log, or the points of a fragment. -/
inductive DataSet where
  | log (path : Path)
  | rows (fragment : String) (points : List (Int64 × Value))

/-- Reads from a region; `none` if the request carries no fragment. -/
def read (m : Machine) (r : Region) : ReadRequest → Option DataSet
  | .log => some (.log r.log.path)
  | .fragment request =>
    match request.fragment with
    | .error _ => none
    | .ok f => some (.rows f.id (m.execute f r))

end Machine

end SeriesRegion
