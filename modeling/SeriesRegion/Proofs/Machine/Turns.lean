import SeriesRegion.Machine
import SeriesRegion.Proofs.Region.Applied

/-!
# Turns that are applied

The batches that have had their turns are applied one after the other and command by command: the table and the log grow by
their inserts of good shape, and each batch has a status made of those of its commands (`Machine.run_advance`).  Each batch
leaves one sample of its wait and one for each of its commands (`Machine.count_tally`).
-/

namespace SeriesRegion

/-- The inserts of the batch that has a turn. -/
def Turn.entries (t : Turn Waiting) : List LogEntry := t.batch.commands.flatMap Command.entries

/-- The ticket of the batch that has a turn, and its status. -/
def Turn.outcome (t : Turn Waiting) : Nat × Status := (t.slot.ticket, .aggregate (t.batch.commands.map Command.status))

theorem Tracker.count_record (t : Tracker) (s s' : Step) (elapsed : Nat) :
    (t.record s elapsed).count s' = t.count s' + if s' = s then 1 else 0 := by
  have hname : s'.name = s.name ↔ s' = s := by
    cases s <;> cases s' <;> decide
  unfold count record
  rw [SortedMap.get?_alter]
  by_cases h : s' = s
  · rw [if_pos (hname.2 h), if_pos h, h]
    rfl
  · rw [if_neg (mt hname.1 h), if_neg h]
    rfl

namespace Machine

open Region

/-! ### Samples -/

/-- So many samples more of a step. -/
def samples (m : Machine) (s : Step) : Nat → Machine
  | 0 => m
  | n + 1 => (m.sample s).samples s n

/-- The samples that turns leave. -/
def tally (m : Machine) (ts : List (Turn Waiting)) : Machine :=
  ts.foldl (fun m t => (m.sample .queue).samples .apply t.batch.commands.length) m

@[simp] theorem sequencer_samples (m : Machine) (s : Step) (n : Nat) : (m.samples s n).sequencer = m.sequencer := by
  induction n generalizing m with
  | zero => rfl
  | succ n ih => exact ih (m.sample s)

@[simp] theorem sequencer_tally (m : Machine) (ts : List (Turn Waiting)) : (m.tally ts).sequencer = m.sequencer := by
  induction ts generalizing m with
  | nil => rfl
  | cons t ts ih =>
    refine (ih _).trans ?_
    rw [sequencer_samples]
    rfl

@[simp] theorem tally_append (m : Machine) (ts more : List (Turn Waiting)) :
    m.tally (ts ++ more) = (m.tally ts).tally more := List.foldl_append

theorem samples_sequencer (m : Machine) (s : Step) (n : Nat) (q : Sequencer Waiting) :
    { m.samples s n with sequencer := q } = samples { m with sequencer := q } s n := by
  induction n generalizing m with
  | zero => rfl
  | succ n ih => exact ih (m.sample s)

theorem tally_sequencer (m : Machine) (ts : List (Turn Waiting)) (q : Sequencer Waiting) :
    { m.tally ts with sequencer := q } = tally { m with sequencer := q } ts := by
  induction ts generalizing m with
  | nil => rfl
  | cons t ts ih =>
    refine (ih _).trans (congrArg (tally · ts) ?_)
    exact samples_sequencer (m.sample .queue) .apply t.batch.commands.length q

theorem count_samples (m : Machine) (s s' : Step) (n : Nat) :
    (m.samples s n).steps.count s' = m.steps.count s' + if s' = s then n else 0 := by
  induction n generalizing m with
  | zero => simp [samples]
  | succ n ih =>
    rw [samples, ih, sample, Tracker.count_record]
    split <;> omega

/-- Each turn leaves one sample of the wait, and one for each of its commands. -/
theorem count_tally (m : Machine) (ts : List (Turn Waiting)) :
    (m.tally ts).steps.count .queue = m.steps.count .queue + ts.length ∧
      (m.tally ts).steps.count .apply = m.steps.count .apply + (ts.flatMap (·.batch.commands)).length := by
  induction ts generalizing m with
  | nil => exact ⟨rfl, rfl⟩
  | cons t ts ih =>
    obtain ⟨hqueue, happly⟩ := ih ((m.sample .queue).samples .apply t.batch.commands.length)
    have hcount : ∀ s, ((m.sample .queue).samples .apply t.batch.commands.length).steps.count s =
        m.steps.count s + (if s = .queue then 1 else 0) + if s = .apply then t.batch.commands.length else 0 := by
      intro s
      rw [count_samples, sample, Tracker.count_record]
    rw [hcount] at hqueue happly
    rw [List.length_cons, List.flatMap_cons, List.length_append]
    refine ⟨hqueue.trans ?_, happly.trans ?_⟩
    · rw [if_pos rfl, if_neg (by decide)]
      omega
    · rw [if_neg (by decide), if_pos rfl]
      omega

/-! ### Applying -/

theorem run_applyCommand (m : Machine) (r : Region) (c : Command) (d : Disk) :
    (m.applyCommand r c).run d =
      ((m.sample .apply, { r with table := r.table.applyAll (accepted c.entries) }, c.status),
        r.logAll d (accepted c.entries)) := by
  rw [applyCommand, FileTask.run_bind, Region.run_applyCommand]
  rfl

theorem applyCommands_cons (m : Machine) (r : Region) (c : Command) (cs : List Command) :
    m.applyCommands r (c :: cs) = do
      let (m, r, s) ← m.applyCommand r c
      let (m, r, ss) ← m.applyCommands r cs
      return (m, r, s :: ss) := by
  simp only [applyCommands, FileTask.gather_cons, bind_assoc, pure_bind]

/-- Commands are applied one after the other, and each has its status. -/
theorem run_applyCommands (m : Machine) (r : Region) (cs : List Command) (d : Disk) :
    (m.applyCommands r cs).run d =
      ((m.samples .apply cs.length, { r with table := r.table.applyAll (accepted (cs.flatMap Command.entries)) },
          cs.map Command.status), r.logAll d (accepted (cs.flatMap Command.entries))) := by
  induction cs generalizing m r d with
  | nil => rfl
  | cons c cs ih =>
    rw [applyCommands_cons, FileTask.run_bind, run_applyCommand]
    simp only
    rw [FileTask.run_bind, ih, List.flatMap_cons, accepted_append, logAll_append, MemTable.applyAll_append]
    rfl

theorem applyTurns_cons (m : Machine) (r : Region) (t : Turn Waiting) (ts : List (Turn Waiting)) :
    m.applyTurns r (t :: ts) = do
      let (m, r, s) ← m.applyTurn r t
      let (m, r, finished) ← m.applyTurns r ts
      return (m, r, (t.slot.ticket, s) :: finished) := by
  simp only [applyTurns, FileTask.gather_cons, bind_assoc, pure_bind]

theorem run_applyTurn (m : Machine) (r : Region) (t : Turn Waiting) (d : Disk) :
    (m.applyTurn r t).run d =
      ((m.tally [t], { r with table := r.table.applyAll (accepted t.entries) }, t.outcome.2),
        r.logAll d (accepted t.entries)) := by
  rw [applyTurn, FileTask.run_bind, run_applyCommands]
  rfl

theorem run_applyTurns (m : Machine) (r : Region) (ts : List (Turn Waiting)) (d : Disk) :
    (m.applyTurns r ts).run d =
      ((m.tally ts, { r with table := r.table.applyAll (accepted (ts.flatMap Turn.entries)) }, ts.map Turn.outcome),
        r.logAll d (accepted (ts.flatMap Turn.entries))) := by
  induction ts generalizing m r d with
  | nil => rfl
  | cons t ts ih =>
    rw [applyTurns_cons, FileTask.run_bind, run_applyTurn]
    simp only
    rw [FileTask.run_bind, ih, List.flatMap_cons, accepted_append, logAll_append, MemTable.applyAll_append]
    rfl

/-- The batches that have their turns are applied in that order, each with its status. -/
theorem run_advance (m : Machine) (r : Region) (next : Sequencer Waiting × List (Turn Waiting)) (d : Disk) :
    (m.advance r next).run d =
      ((tally { m with sequencer := next.1 } next.2,
          { r with table := r.table.applyAll (accepted (next.2.flatMap Turn.entries)) }, next.2.map Turn.outcome),
        r.logAll d (accepted (next.2.flatMap Turn.entries))) := run_applyTurns _ r next.2 d

end Machine

end SeriesRegion
