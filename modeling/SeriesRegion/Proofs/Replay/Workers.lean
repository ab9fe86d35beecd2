import SeriesRegion.Proofs.Machine.Turns
import SeriesRegion.Proofs.Replay.Batches
import SeriesRegion.Proofs.Sequencer.Filled
import SeriesRegion.Proofs.Sequencer.WakeOrder
import SeriesRegion.Replay.Run

/-!
# The workers of a replay

Each batch of a plan is delivered by a worker of its own.  Its first step brings the batch, which has its turn at once or
waits; as long as it waits the worker takes another step whenever it has been woken, and it has returned when its batch has had
its turn.  Workers may take their steps in any order (`Crew.advance`), but they cannot go on taking steps for ever
(`Crew.wellFounded_moves`).
-/

namespace SeriesRegion

/-- A batch that can be resolved is queued, and the batches that have their turns then are applied. -/
theorem Machine.run_take_batch {b : BatchRequest} {w : Waiting} (hw : b.resolve = .ok w) (m : Machine) (r : Region)
    (queue : Sequencer Waiting → Waiting → Sequencer Waiting × List (Turn Waiting)) (d : Disk) :
    (m.take r (.batch b) queue).run d =
      let next := queue m.sequencer w
      ((Machine.tally { m with sequencer := next.1 } next.2,
          { r with table := r.table.applyAll (Region.accepted (next.2.flatMap Turn.entries)) },
          .waits m.sequencer.buffer.ticket, next.2.map Turn.outcome),
        r.logAll d (Region.accepted (next.2.flatMap Turn.entries))) := by
  have hresolve : Request.resolve (.batch b) = .ok (.batch w) := by rw [Request.resolve, hw]; rfl
  rw [Machine.take, hresolve]
  refine (FileTask.run_bind _ _ _).trans ?_
  rw [Machine.run_advance]
  rfl

/-- A worker: the batch that it delivers, and the reply once it has brought it. -/
structure Worker where
  batch : BatchRequest
  reply : Option Reply

/-- Whether a worker has brought its batch and does not wait any more. -/
def Worker.returned (finished : Finished) (w : Worker) : Bool :=
  match w.reply with
  | none => false
  | some (.status _) => true
  | some (.waits ticket) => (finished.lookup ticket).isSome

/-- What a worker reports. -/
def Worker.status (finished : Finished) (w : Worker) : Status :=
  (w.reply.getD (.status (.internalError "the batch still waits"))).resolve finished

/-- The workers of a replay, the machine, its region and the files, and the batches that have finished. -/
structure Crew where
  machine : Machine
  region : Region
  disk : Disk
  workers : List Worker
  finished : Finished

namespace Crew

/-- The workers of a plan, before any of them has done anything; the cursor is set if the plan says so. -/
def start (m : Machine) (r : Region) (d : Disk) (p : ReplayPlan) : Crew :=
  let ((m, r, early), d) := (if p.seeded then m.seed r p.first else pure (m, r, [])).run d
  ⟨m, r, d, p.deliveries.map (⟨·, none⟩), early⟩

/-- A batch that is brought has its turn at once, or waits. -/
def bring (q : Sequencer Waiting) (b : Waiting) : Sequencer Waiting × List (Turn Waiting) :=
  let (q, turn) := q.arrive b.start b.stop b
  (q, turn.toList)

/-- A worker takes its next step, if there is such a worker and it can. -/
def advance (s : Crew) (i : Nat) : Crew :=
  match s.workers[i]? with
  | some ⟨b, none⟩ =>
    let ((m, r, reply, finished), d) := (s.machine.take s.region (.batch b) bring).run s.disk
    ⟨m, r, d, s.workers.set i ⟨b, some reply⟩, s.finished ++ finished⟩
  | some ⟨_, some (.waits ticket)⟩ =>
    match s.machine.sequencer.resume ticket with
    | none => s
    | some (q, turn) =>
      let ((m, r, finished), d) := (s.machine.advance s.region (q, turn.toList)).run s.disk
      ⟨m, r, d, s.workers, s.finished ++ finished⟩
  | _ => s

def run (s : Crew) (schedule : List Nat) : Crew := schedule.foldl advance s

/-- All workers have returned. -/
def Returned (s : Crew) : Prop := ∀ w ∈ s.workers, w.returned s.finished = true

/-- The status of each batch, in the order of delivery. -/
def report (s : Crew) : ReplayReport := ⟨s.workers.map fun w => (w.batch.start, w.status s.finished)⟩

/-- Whether a worker can take a step: it has not brought its batch yet, or it waits and has been woken. -/
def Moves (s : Crew) (i : Nat) : Prop :=
  (∃ b, s.workers[i]? = some ⟨b, none⟩) ∨
    ∃ b ticket, s.workers[i]? = some ⟨b, some (.waits ticket)⟩ ∧ (s.machine.sequencer.resume ticket).isSome

variable {s : Crew} {i : Nat}

/-! ### Steps -/

/-- What becomes of the machine, the region and the files when the sequencer goes on, and which batches have finished then. -/
def grant (s : Crew) (next : Sequencer Waiting × List (Turn Waiting)) : Crew :=
  { s with
    machine := Machine.tally { s.machine with sequencer := next.1 } next.2
    region := { s.region with table := s.region.table.applyAll (Region.accepted (next.2.flatMap Turn.entries)) }
    disk := s.region.logAll s.disk (Region.accepted (next.2.flatMap Turn.entries))
    finished := s.finished ++ next.2.map Turn.outcome }

@[simp] theorem sequencer_grant (s : Crew) (next : Sequencer Waiting × List (Turn Waiting)) :
    (s.grant next).machine.sequencer = next.1 := Machine.sequencer_tally _ next.2

/-- A worker brings its batch, which takes its place. -/
theorem advance_bring {b : BatchRequest} {w : Waiting} (hi : s.workers[i]? = some ⟨b, none⟩) (hw : b.resolve = .ok w)
    {q : Sequencer Waiting} {turn : Option (Turn Waiting)}
    (hstep : s.machine.sequencer.step (.arrive w.start w.stop w) = some (q, turn)) :
    s.advance i =
      { s.grant (q, turn.toList) with
        workers := s.workers.set i ⟨b, some (.waits s.machine.sequencer.buffer.ticket)⟩ } := by
  have harrive : s.machine.sequencer.arrive w.start w.stop w = (q, turn) := Option.some.inj hstep
  simp only [advance, hi, Machine.run_take_batch hw, bring, harrive]
  rfl

/-- A worker that waits goes on. -/
theorem advance_resume {b : BatchRequest} {ticket : Nat} (hi : s.workers[i]? = some ⟨b, some (.waits ticket)⟩)
    {q : Sequencer Waiting} {turn : Option (Turn Waiting)}
    (hstep : s.machine.sequencer.step (.resume ticket) = some (q, turn)) : s.advance i = s.grant (q, turn.toList) := by
  have hresume : s.machine.sequencer.resume ticket = some (q, turn) := hstep
  simp only [advance, hi, hresume, Machine.run_advance]
  rfl

/-- What a step does: a worker brings its batch, which is refused or takes its place, or it goes on; or nothing. -/
theorem advance_cases (s : Crew) (i : Nat) :
    (∃ b e, s.workers[i]? = some ⟨b, none⟩ ∧ b.resolve = .error e ∧
      s.advance i = { s with workers := s.workers.set i ⟨b, some (.status (.internalError e.message))⟩ }) ∨
    (∃ b w q turn, s.workers[i]? = some ⟨b, none⟩ ∧ b.resolve = .ok w ∧
      s.machine.sequencer.step (.arrive w.start w.stop w) = some (q, turn) ∧
      s.advance i =
        { s.grant (q, turn.toList) with
          workers := s.workers.set i ⟨b, some (.waits s.machine.sequencer.buffer.ticket)⟩ }) ∨
    (∃ b ticket q turn, s.workers[i]? = some ⟨b, some (.waits ticket)⟩ ∧
      s.machine.sequencer.step (.resume ticket) = some (q, turn) ∧ s.advance i = s.grant (q, turn.toList)) ∨
    (¬ s.Moves i ∧ s.advance i = s) := by
  cases hi : s.workers[i]? with
  | none =>
    refine .inr (.inr (.inr ⟨?_, by rw [advance, hi]⟩))
    simp [Moves, hi]
  | some w =>
    obtain ⟨b, reply⟩ := w
    cases reply with
    | none =>
      cases hw : b.resolve with
      | error e =>
        refine .inl ⟨b, e, rfl, hw, ?_⟩
        have hresolve : Request.resolve (.batch b) = .error e := by rw [Request.resolve, hw]; rfl
        simp only [advance, hi, Machine.take, hresolve, FileTask.run_pure, List.append_nil]
      | ok w => exact .inr (.inl ⟨b, w, _, _, rfl, hw, rfl, advance_bring hi hw rfl⟩)
    | some reply =>
      cases reply with
      | status status =>
        refine .inr (.inr (.inr ⟨?_, by rw [advance, hi]⟩))
        simp [Moves, hi]
      | waits ticket =>
        cases hr : s.machine.sequencer.resume ticket with
        | none =>
          refine .inr (.inr (.inr ⟨?_, by simp only [advance, hi, hr]⟩))
          simp [Moves, hi, hr]
        | some next => exact .inr (.inr (.inl ⟨b, ticket, next.1, next.2, rfl, hr, advance_resume hi hr⟩))

/-! ### Coming to an end -/

/-- What is left to do: batches that have not been brought count twice, since they may have to wait. -/
def remaining (s : Crew) : Nat × Nat :=
  (2 * s.workers.countP (·.reply.isNone) + s.machine.sequencer.callers.length, s.machine.sequencer.awake.length)

private theorem countP_set {b : BatchRequest} (h : s.workers[i]? = some ⟨b, none⟩) (reply : Reply) :
    (s.workers.set i ⟨b, some reply⟩).countP (·.reply.isNone) + 1 = s.workers.countP (·.reply.isNone) := by
  obtain ⟨hi, hw⟩ := List.getElem?_eq_some_iff.1 h
  have hpos : 0 < s.workers.countP (·.reply.isNone) :=
    List.countP_pos_iff.2 ⟨_, List.mem_of_getElem? h, rfl⟩
  rw [List.countP_set hi, hw]
  simp
  omega

/-- At most one caller more waits after a step. -/
private theorem length_callers_le {β : Type} {q q' : Sequencer β} {start stop : UInt64} {batch : β} {turn : Option (Turn β)}
    (h : q.step (.arrive start stop batch) = some (q', turn)) : q'.callers.length ≤ q.callers.length + 1 := by
  have halerted : (q.alerted start stop).length = q.callers.length := by
    simpa [Sequencer.held] using congrArg List.length (Sequencer.held_alerted q start stop)
  cases Sequencer.stepped_of_step h with
  | parks idle =>
    rw [List.length_append, halerted]
    exact Nat.le_refl _
  | enters turn =>
    rw [Sequencer.signalAll, List.length_map, halerted]
    exact Nat.le_succ _

/-- With each step less is left to do. -/
theorem remaining_advance (h : s.Moves i) : Prod.Lex (· < ·) (· < ·) (s.advance i).remaining s.remaining := by
  rcases s.advance_cases i with ⟨b, e, hi, -, heq⟩ | ⟨b, w, q, turn, hi, -, hstep, heq⟩ | ⟨b, ticket, q, turn, -, hstep, heq⟩ |
    ⟨hnot, -⟩
  · have hcount := countP_set hi (.status (.internalError e.message))
    rw [heq]
    have hlt : 2 * (s.workers.set i ⟨b, some (.status (.internalError e.message))⟩).countP (·.reply.isNone) <
        2 * s.workers.countP (·.reply.isNone) := by
      omega
    exact .left _ _ (Nat.add_lt_add_right hlt _)
  · have hcount := countP_set hi (.waits s.machine.sequencer.buffer.ticket)
    have hcallers := length_callers_le hstep
    have hlt : 2 * (s.workers.set i ⟨b, some (.waits s.machine.sequencer.buffer.ticket)⟩).countP (·.reply.isNone) +
        q.callers.length < 2 * s.workers.countP (·.reply.isNone) + s.machine.sequencer.callers.length := by
      omega
    rw [heq, remaining, remaining, sequencer_grant]
    exact .left _ _ hlt
  · rw [heq, remaining, remaining, sequencer_grant]
    have hless := (Sequencer.stepped_of_step hstep).resume_decreases
    rcases Prod.lex_def.1 hless with hcallers | ⟨hcallers, hawake⟩
    · exact .left _ _ (Nat.add_lt_add_left hcallers _)
    · have hsame : q.callers.length = s.machine.sequencer.callers.length := hcallers
      rw [hsame]
      exact .right _ hawake
  · exact absurd h hnot

/-- No schedule in which each worker that is called on takes a step goes on for ever. -/
theorem wellFounded_moves : WellFounded fun s' s : Crew => ∃ i, s.Moves i ∧ s' = s.advance i := by
  refine Subrelation.wf ?_ (InvImage.wf remaining (Prod.lex ⟨_, Nat.lt_wfRel.wf⟩ ⟨_, Nat.lt_wfRel.wf⟩).wf)
  rintro s' s ⟨i, hmoves, rfl⟩
  exact remaining_advance hmoves

end Crew

end SeriesRegion
