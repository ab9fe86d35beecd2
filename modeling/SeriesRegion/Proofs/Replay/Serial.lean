import SeriesRegion.Proofs.Replay.Ending

/-!
# Replays without workers

A machine that replays a plan by itself delivers the batches one after the other and lets all callers go on until they are asleep
before it delivers the next.  This is what the workers do in one of their schedules (`Crew.exists_schedule`): each worker brings
its batch in its turn, and then those go on that are off the queue.
-/

namespace SeriesRegion

namespace Machine

theorem deliverAll_cons (m : Machine) (r : Region) (b : BatchRequest) (bs : List BatchRequest) :
    m.deliverAll r (b :: bs) = do
      let (m, r, reply, finished) ← m.deliver r (.batch b)
      let (m, r, replies) ← m.deliverAll r bs
      return (m, r, (b.start, reply, finished) :: replies) := by
  simp only [deliverAll, FileTask.gather_cons, bind_assoc, pure_bind]

/-- The cursor is set if the plan says so, the batches are delivered, and then the windows of those that still wait end. -/
theorem run_replay (m : Machine) (r : Region) (p : ReplayPlan) (d : Disk) :
    (m.replay r p).run d =
      let ((m, r', early), d) := (if p.seeded then m.seed r p.first else pure (m, r, [])).run d
      let ((m, r', replies), d) := (m.deliverAll r' p.deliveries).run d
      let ((m, r', late), d) := (m.outwait r').run d
      ((m, r', ⟨replies.map fun x => (x.1, x.2.1.resolve (early ++ replies.flatMap (·.2.2) ++ late))⟩), d) := by
  cases hseeded : p.seeded <;>
    simp only [replay, hseeded, if_true, if_false, Bool.false_eq_true, FileTask.run_bind, FileTask.run_pure]

/-- When nobody waits, no window ends. -/
theorem run_outwait_of_idle {m : Machine} (hnone : m.sequencer.callers = []) (r : Region) (d : Disk) :
    (m.outwait r).run d = ((m, r, []), d) := by
  rw [outwait, hnone, run_advance]
  rfl

end Machine

namespace Crew

open Sequencer (Moment Settling turns arrivals held)

variable {capacity : Nat} {p : ReplayPlan} {r : Region} {d : Disk} {past ms : List (Moment Waiting)} {s : Crew} {i : Nat}
  {b : BatchRequest}

@[simp] theorem run_append (s : Crew) (schedule more : List Nat) : s.run (schedule ++ more) = (s.run schedule).run more :=
  List.foldl_append

theorem grant_nil (s : Crew) : s.grant (s.machine.sequencer, []) = s := by
  show { s with finished := s.finished ++ [] } = s
  rw [List.append_nil]

theorem grant_grant (s : Crew) (q q' : Sequencer Waiting) (ts ts' : List (Turn Waiting)) :
    (s.grant (q, ts)).grant (q', ts') = s.grant (q', ts ++ ts') := by
  simp only [grant, Machine.tally_append, Machine.tally_sequencer, List.flatMap_append, Region.accepted_append,
    MemTable.applyAll_append, Region.logAll_append, List.map_append, List.append_assoc]
  rfl

/-! ### Going on until all are asleep -/

/-- Callers that hold the lock one after the other are workers that take a step each. -/
theorem Accounts.exists_schedule_of_play (h : Accounts p past s) (ht : Traced capacity r d past s) {order : List Nat}
    {q : Sequencer Waiting} (hplay : s.machine.sequencer.play (order.map .resume) = some (ms, q)) :
    ∃ schedule, s.run schedule = s.grant (q, turns ms) ∧ Traced capacity r d (past ++ ms) (s.run schedule) ∧
      Accounts p (past ++ ms) (s.run schedule) := by
  induction order generalizing past ms s with
  | nil =>
    cases hplay
    rw [List.append_nil]
    exact ⟨[], (grant_nil s).symm, ht, h⟩
  | cons ticket order ih =>
    obtain ⟨q₁, turn, rest, hstep, hrest, rfl⟩ := Sequencer.play_cons_eq_some.1 hplay
    obtain ⟨c, hc, rfl⟩ := Sequencer.exists_caller_of_resume hstep
    obtain ⟨i, b, hi⟩ := h.exists_worker ht hc
    have hrest' : (s.grant (q₁, turn.toList)).machine.sequencer.play (order.map .resume) = some (rest, q) := by
      rw [sequencer_grant]
      exact hrest
    obtain ⟨schedule, hrun, ht', h'⟩ := ih (h.goOn hstep) (ht.grant hstep nofun) hrest'
    have hfirst : s.run (i :: schedule) = (s.grant (q₁, turn.toList)).run schedule := by
      rw [← advance_resume hi hstep]
      rfl
    rw [List.append_assoc] at ht' h'
    refine ⟨i :: schedule, ?_, hfirst ▸ ht', hfirst ▸ h'⟩
    rw [hfirst, hrun, grant_grant]
    cases turn <;> rfl

/-! ### One delivery -/

/-- No other batch of the plan starts where one does that has not been brought yet. -/
theorem Accounts.apart (h : Accounts p past s) (ht : Traced capacity r d past s) (bounded : p.Bounded)
    (hi : s.workers[i]? = some ⟨b, none⟩) {w : Waiting} (hw : b.resolve = .ok w) :
    ∀ t ∈ s.machine.sequencer.buffer.slots, t.start ≠ w.start := by
  intro t hslot hsame
  obtain ⟨a, ha, rfl⟩ := List.mem_map.1 (ht.run.slots_subperm.subset hslot)
  have hwaiting : w ∈ s.workers.filterMap unbrought? :=
    List.mem_filterMap.2 ⟨_, List.mem_of_getElem? hi, BatchRequest.waiting?_of_resolve hw⟩
  have hnodup := ((h.batches.map (·.start)).nodup_iff).2 (ReplayPlan.ranged_waitings bounded).1.contiguous.starts_nodup
  rw [List.map_append, List.nodup_append] at hnodup
  refine hnodup.2.2 a.2.start (List.mem_map.2 ⟨a.2, List.mem_map.2 ⟨a, ha, rfl⟩, rfl⟩) w.start
    (List.mem_map.2 ⟨w, hwaiting, rfl⟩) ?_
  rw [← (h.own a ha).1, hsame]

/-- What holds of a replay when all callers are asleep, if everybody has let them go on until then. -/
structure Calm (capacity : Nat) (p : ReplayPlan) (r : Region) (d : Disk) (past : List (Moment Waiting)) (s : Crew) : Prop where
  traced : Traced capacity r d past s
  accounts : Accounts p past s
  settling : Settling capacity past s.machine.sequencer
  quiet : s.machine.sequencer.isQuiet = true

theorem calm_start (capacity : Nat) (p : ReplayPlan) (r : Region) (d : Disk) :
    Calm capacity p r d (opening capacity p) (start (.new capacity) r d p) := by
  have ht := traced_start capacity r d p
  refine ⟨ht, accounts_start capacity r d p, ?_, ?_⟩
  · have hcallers : (start (.new capacity) r d p).machine.sequencer.callers = [] := by
      rw [start_eq]
      cases p.seeded <;> rfl
    have hslots : (start (.new capacity) r d p).machine.sequencer.pending = 0 := by
      rw [start_eq]
      cases p.seeded <;> rfl
    have hapart : Sequencer.Apart (opening capacity p) := by
      rw [opening]
      cases p.seeded <;> simp [Sequencer.Apart, Moment.arrival?]
    refine ⟨ht.run, ht.untimed, hapart, ht.unexpired, ?_, ?_⟩
    · rw [hslots]
      exact Nat.zero_le _
    · rw [hcallers]
      exact fun _ c hc => absurd hc List.not_mem_nil
  · rw [start_eq]
    cases p.seeded <;> rfl

/-- A worker brings its batch, and then those go on that are off the queue until all are asleep. -/
theorem Calm.settles (h : Calm capacity p r d past s) (bounded : p.Bounded) (hi : s.workers[i]? = some ⟨b, none⟩)
    {w : Waiting} (hw : b.resolve = .ok w) :
    ∃ schedule past', Calm capacity p r d past' (s.run schedule) ∧
      s.run schedule =
        { s.grant (s.machine.sequencer.deliver w.start w.stop w) with
          workers := s.workers.set i ⟨b, some (.waits s.machine.sequencer.buffer.ticket)⟩ } := by
  obtain ⟨q₁, turn, harrive⟩ : ∃ q₁ turn, s.machine.sequencer.arrive w.start w.stop w = (q₁, turn) := ⟨_, _, rfl⟩
  have hstep : s.machine.sequencer.step (.arrive w.start w.stop w) = some (q₁, turn) := congrArg some harrive
  have hbegin := h.settling.begin h.quiet (s := .arrive w.start w.stop w) hstep (h.accounts.apart h.traced bounded hi hw)
  obtain ⟨order, ms, q, hplay, hquiet⟩ := hbegin.run.exists_order hbegin.unexpired
  obtain ⟨hsettling, hsettle⟩ := hbegin.settle_of_play hplay hquiet
  have hdeliver : s.machine.sequencer.deliver w.start w.stop w = (q, turn.toList ++ turns ms) := by
    rw [Sequencer.deliver, harrive]
    simp only [hsettle]
  -- What is played is a schedule of the workers once the batch has been brought.
  have hplay' : (s.grant (q₁, turn.toList)).machine.sequencer.play (order.map .resume) = some (ms, q) := by
    rw [sequencer_grant]
    exact hplay
  obtain ⟨schedule, hrun, ht, ha⟩ := (h.accounts.bring hi hw hstep).exists_schedule_of_play
    ((h.traced.grant hstep nofun).workers _) hplay'
  have hfirst : s.run (i :: schedule) = Crew.run _ schedule := congrArg (Crew.run · schedule) (advance_bring hi hw hstep)
  rw [← hfirst] at hrun ht ha
  have hsequencer : (s.run (i :: schedule)).machine.sequencer = q := by
    rw [hrun]
    exact sequencer_grant _ _
  refine ⟨i :: schedule, _, ⟨ht, ha, ?_, ?_⟩, ?_⟩
  · rw [hsequencer]
    exact hsettling
  · rw [hsequencer]
    exact hquiet
  · rw [hrun, hdeliver, ← grant_grant]
    rfl

/-- A machine that delivers a batch and lets all go on until they are asleep does what workers can do. -/
theorem Calm.deliver (h : Calm capacity p r d past s) (bounded : p.Bounded) (hi : s.workers[i]? = some ⟨b, none⟩) :
    ∃ schedule past' reply finished, Calm capacity p r d past' (s.run schedule) ∧
      (s.machine.deliver s.region (.batch b)).run s.disk =
        (((s.run schedule).machine, (s.run schedule).region, reply, finished), (s.run schedule).disk) ∧
      (s.run schedule).workers = s.workers.set i ⟨b, some reply⟩ ∧ (s.run schedule).finished = s.finished ++ finished := by
  obtain ⟨w, hw⟩ := h.accounts.resolves bounded hi
  obtain ⟨schedule, past', hcalm, hrun⟩ := h.settles bounded hi hw
  refine ⟨schedule, past', .waits s.machine.sequencer.buffer.ticket,
    (s.machine.sequencer.deliver w.start w.stop w).2.map Turn.outcome, hcalm, ?_, ?_, ?_⟩
  · rw [hrun]
    exact Machine.run_take_batch hw s.machine s.region _ s.disk
  · rw [hrun]
  · rw [hrun]
    rfl

/-! ### All deliveries -/

/-- A machine that delivers all batches that have not been brought does what workers can do. -/
theorem Calm.deliverAll (h : Calm capacity p r d past s) (bounded : p.Bounded) {brought : List Worker}
    {bs : List BatchRequest} (hworkers : s.workers = brought ++ bs.map (⟨·, none⟩)) :
    ∃ schedule past' replies, Calm capacity p r d past' (s.run schedule) ∧
      (s.machine.deliverAll s.region bs).run s.disk =
        (((s.run schedule).machine, (s.run schedule).region, replies), (s.run schedule).disk) ∧
      (s.run schedule).finished = s.finished ++ replies.flatMap (·.2.2) ∧
      (s.run schedule).workers.map (fun w => (w.batch.start, w.reply)) =
        brought.map (fun w => (w.batch.start, w.reply)) ++ replies.map fun x => (x.1, some x.2.1) := by
  induction bs generalizing s past brought with
  | nil =>
    refine ⟨[], past, [], h, rfl, (List.append_nil _).symm, ?_⟩
    show s.workers.map _ = _
    rw [hworkers, List.map_nil, List.append_nil, List.map_nil, List.append_nil]
  | cons b bs ih =>
    have hi : s.workers[brought.length]? = some ⟨b, none⟩ := by
      rw [hworkers]
      simp
    obtain ⟨first, past₁, reply, finished, hcalm, hdeliver, hset, hfinished⟩ := h.deliver bounded hi
    have hworkers₁ : (s.run first).workers = (brought ++ [⟨b, some reply⟩]) ++ bs.map (⟨·, none⟩) := by
      rw [hset, hworkers]
      simp
    obtain ⟨schedule, past₂, replies, hlast, hrun, hfinished₂, hanswers⟩ := ih hcalm hworkers₁
    rw [← run_append] at hlast hrun hfinished₂ hanswers
    refine ⟨first ++ schedule, past₂, (b.start, reply, finished) :: replies, hlast, ?_, ?_, ?_⟩
    · rw [Machine.deliverAll_cons, FileTask.run_bind, hdeliver]
      simp only
      rw [FileTask.run_bind, hrun]
      rfl
    · rw [hfinished₂, hfinished, List.flatMap_cons, List.append_assoc]
    · rw [hanswers, List.map_append, List.append_assoc]
      rfl

/-- A machine that replays a plan by itself does what workers can do. -/
theorem exists_schedule (capacity : Nat) (bounded : p.Bounded) (room : p.Room (max capacity 1)) (r : Region)
    (d : Disk) :
    ∃ schedule, let s := (start (.new capacity) r d p).run schedule
      s.Returned ∧ ((Machine.new capacity).replay r p).run d = ((s.machine, s.region, s.report), s.disk) := by
  have hworkers : (start (.new capacity) r d p).workers = [] ++ p.deliveries.map (⟨·, none⟩) := by rw [start_eq]; rfl
  obtain ⟨schedule, past, replies, hcalm, hrun, hfinished, hanswers⟩ :=
    (calm_start capacity p r d).deliverAll bounded hworkers
  rw [List.map_nil, List.nil_append] at hanswers
  have hbrought : ∀ w ∈ ((start (.new capacity) r d p).run schedule).workers, w.reply ≠ none := by
    intro w hw hnone
    have hanswer : (w.batch.start, w.reply) ∈ replies.map fun x => (x.1, some x.2.1) := by
      rw [← hanswers]
      exact List.mem_map.2 ⟨w, hw, rfl⟩
    obtain ⟨x, -, hx⟩ := List.mem_map.1 hanswer
    have hreply : some x.2.1 = w.reply := congrArg Prod.snd hx
    rw [hnone] at hreply
    cases hreply
  obtain ⟨-, -, -, hnone⟩ := hcalm.accounts.done_of_quiet hcalm.traced bounded room hbrought hcalm.quiet
  refine ⟨schedule, (hcalm.accounts.returned_iff hcalm.traced).2 ⟨hbrought, hnone⟩, ?_⟩
  have hregion : (start (.new capacity) r d p).region = r := by rw [start_eq]
  have hstart : (if p.seeded then (Machine.new capacity).seed r p.first else pure (.new capacity, r, [])).run d =
      (((start (.new capacity) r d p).machine, (start (.new capacity) r d p).region, (start (.new capacity) r d p).finished),
        (start (.new capacity) r d p).disk) := rfl
  have hstatuses : ((start (.new capacity) r d p).run schedule).report.statuses =
      replies.map fun x => (x.1, x.2.1.resolve ((start (.new capacity) r d p).run schedule).finished) := by
    have hreport := congrArg (List.map fun x : UInt64 × Option Reply =>
      (x.1, (x.2.getD (.status (.internalError "the batch still waits"))).resolve
        ((start (.new capacity) r d p).run schedule).finished)) hanswers
    rw [List.map_map, List.map_map] at hreport
    exact hreport
  rw [hregion] at hrun
  rw [Machine.run_replay, hstart]
  simp only
  rw [hregion, hrun]
  simp only
  rw [Machine.run_outwait_of_idle hnone, List.append_nil, ← hfinished, ← hstatuses]

end Crew

end SeriesRegion
