import SeriesRegion.Proofs.Dues
import SeriesRegion.Proofs.Replay.Workers

/-!
# The accounts of a replay

Whatever the schedule of its workers, two things are known of a replay.  The machine, the region and the files are what the turns
of the sequencer have made of them (`Crew.Traced`), and what has arrived at the sequencer is what the workers have brought
(`Crew.Accounts`).  Both hold after each step (`Crew.accounts_run`).  The arrivals are then a delivery of the batches of the plan
(`Crew.Accounts.delivery`), and each of them waits under the ticket of a worker (`Crew.Accounts.exists_worker`).
-/

namespace SeriesRegion.Crew

open Sequencer (Run Moment Own Untimed SeededFirst Delivery turns arrivals seeded granted held done)

variable {capacity : Nat} {p : ReplayPlan} {r : Region} {d : Disk} {past : List (Moment Waiting)} {s : Crew} {i : Nat}

/-! ### What the turns leave -/

/-- The machine, the region and the files are what the turns have made of them, and no window has ended. -/
structure Traced (capacity : Nat) (r : Region) (d : Disk) (past : List (Moment Waiting)) (s : Crew) : Prop where
  run : Run capacity past s.machine.sequencer
  unexpired : ∀ c ∈ s.machine.sequencer.callers, c.wait ≠ .expired
  untimed : Untimed past
  finished : s.finished = (turns past).map Turn.outcome
  region : s.region = { r with table := r.table.applyAll (Region.accepted ((turns past).flatMap Turn.entries)) }
  disk : s.disk = r.logAll d (Region.accepted ((turns past).flatMap Turn.entries))
  queued : s.machine.steps.count .queue = (turns past).length
  applied : s.machine.steps.count .apply = ((turns past).flatMap (·.batch.commands)).length

theorem Traced.workers (h : Traced capacity r d past s) (workers : List Worker) :
    Traced capacity r d past { s with workers := workers } :=
  ⟨h.run, h.unexpired, h.untimed, h.finished, h.region, h.disk, h.queued, h.applied⟩

/-- A turn of a batch whose window has not ended is not the end of one. -/
private theorem not_timedOut {q q' : Sequencer Waiting} {e : Sequencer.Event Waiting} {t : Turn Waiting}
    (h : q.step e = some (q', some t)) (unexpired : ∀ c ∈ q.callers, c.wait ≠ .expired) : t.admission ≠ .timedOut := by
  cases Sequencer.stepped_of_step h with
  | enters turn => exact Buffer.turn?_ne_timedOut turn
  | proceeds mem awake turn => exact Buffer.turn?_ne_timedOut turn
  | timesOut mem expired undisturbed => exact absurd expired (unexpired _ mem)

theorem Traced.grant (h : Traced capacity r d past s) {q : Sequencer Waiting} {e : Sequencer.Event Waiting}
    {turn : Option (Turn Waiting)} (hstep : s.machine.sequencer.step e = some (q, turn))
    (he : ∀ ticket, e ≠ .expire ticket) :
    Traced capacity r d (past ++ [⟨s.machine.sequencer, e, turn, q⟩]) (s.grant (q, turn.toList)) := by
  have hturns : turns (past ++ [⟨s.machine.sequencer, e, turn, q⟩]) = turns past ++ turn.toList := by
    rw [Sequencer.turns_append]
    cases turn <;> rfl
  obtain ⟨hqueue, happly⟩ := Machine.count_tally { s.machine with sequencer := q } turn.toList
  refine ⟨?_, ?_, ?_, ?_, ?_, ?_, ?_, ?_⟩
  · rw [sequencer_grant]
    exact h.run.step hstep
  · rw [sequencer_grant]
    exact Sequencer.unexpired_of_step h.run (Sequencer.stepped_of_step hstep) he h.unexpired
  · refine h.untimed.concat fun t ht => ?_
    rw [ht] at hstep
    exact not_timedOut hstep h.unexpired
  · rw [hturns, List.map_append, ← h.finished]
    rfl
  · rw [hturns, List.flatMap_append, Region.accepted_append, MemTable.applyAll_append, Crew.grant, h.region]
  · rw [hturns, List.flatMap_append, Region.accepted_append, Region.logAll_append, ← h.disk, Crew.grant, h.region]
    rfl
  · rw [hturns, List.length_append, ← h.queued]
    exact hqueue
  · rw [hturns, List.flatMap_append, List.length_append, ← h.applied]
    exact happly

/-! ### What has been brought -/

/-- What a worker still has to bring. -/
def unbrought? : Worker → Option Waiting
  | ⟨b, none⟩ => b.waiting?
  | _ => none

/-- The ticket under which the batch of a worker waits, or has waited. -/
def ticket? : Worker → Option Nat
  | ⟨_, some (.waits ticket)⟩ => some ticket
  | _ => none

/-- What has arrived at the sequencer is what the workers have brought. -/
structure Accounts (p : ReplayPlan) (past : List (Moment Waiting)) (s : Crew) : Prop where
  own : Own past
  seeded : seeded past = if p.seeded then [p.first] else []
  first : p.seeded → SeededFirst past
  set : p.seeded → s.machine.sequencer.buffer.cursor.isSome
  requests : s.workers.map (·.batch) = p.deliveries
  waits : ∀ w ∈ s.workers, w.reply = none ∨ ∃ ticket, w.reply = some (.waits ticket)
  batches : ((arrivals past).map (·.2) ++ s.workers.filterMap unbrought?).Perm p.waitings
  tickets : (s.workers.filterMap ticket?).Perm ((arrivals past).map (·.1.ticket))

theorem start_eq (capacity : Nat) (r : Region) (d : Disk) (p : ReplayPlan) :
    start (.new capacity) r d p =
      ⟨{ Machine.new capacity with
          sequencer := if p.seeded then (Sequencer.new capacity).seed p.first else .new capacity },
        r, d, p.deliveries.map (⟨·, none⟩), []⟩ := by
  cases hseeded : p.seeded with
  | true =>
    have hsettle : ((Sequencer.new capacity : Sequencer Waiting).seed p.first).settle =
        ((Sequencer.new capacity).seed p.first, []) := Sequencer.settle_of_isQuiet rfl
    rw [start, hseeded, if_pos rfl, Machine.seed, Machine.run_advance]
    rw [show (Machine.new capacity).sequencer = .new capacity from rfl, hsettle]
    rfl
  | false =>
    rw [start, hseeded]
    rfl

/-- What has happened at the sequencer when the workers start. -/
def opening (capacity : Nat) (p : ReplayPlan) : List (Moment Waiting) :=
  if p.seeded then [⟨.new capacity, .seed p.first, none, (Sequencer.new capacity).seed p.first⟩] else []

theorem traced_start (capacity : Nat) (r : Region) (d : Disk) (p : ReplayPlan) :
    Traced capacity r d (opening capacity p) (start (.new capacity) r d p) := by
  rw [start_eq, opening]
  cases p.seeded with
  | true =>
    exact ⟨Run.start.step rfl, by simp [Sequencer.seed, Sequencer.new, Sequencer.signalAll], by simp [Untimed, turns], rfl, rfl,
      rfl, rfl, rfl⟩
  | false => exact ⟨.start, by simp [Sequencer.new], by simp [Untimed, turns], rfl, rfl, rfl, rfl, rfl⟩

theorem accounts_start (capacity : Nat) (r : Region) (d : Disk) (p : ReplayPlan) :
    Accounts p (opening capacity p) (start (.new capacity) r d p) := by
  have harrivals : arrivals (opening capacity p) = [] := by
    rw [opening]
    cases p.seeded <;> rfl
  have hseeded : seeded (opening capacity p) = if p.seeded then [p.first] else [] := by
    rw [opening]
    cases p.seeded <;> rfl
  have htickets : (p.deliveries.map fun b => (⟨b, none⟩ : Worker)).filterMap ticket? = [] := by
    rw [List.filterMap_map, List.filterMap_eq_nil_iff]
    exact fun b _ => rfl
  rw [start_eq]
  refine ⟨?_, hseeded, fun hp m hm hsome => ?_, fun hp => ?_, ?_, ?_, ?_, ?_⟩
  · rw [Own, harrivals]
    exact fun a ha => absurd ha List.not_mem_nil
  · rw [opening, if_pos hp] at hm
    cases List.mem_singleton.1 hm
    cases hsome
  · simp only [if_pos hp]
    rfl
  · show (p.deliveries.map _).map _ = _
    rw [List.map_map]
    exact List.map_id _
  · intro w hw
    obtain ⟨b, -, rfl⟩ := List.mem_map.1 hw
    exact .inl rfl
  · rw [harrivals]
    show ((p.deliveries.map _).filterMap unbrought?).Perm _
    rw [List.filterMap_map]
    exact p.deliveries_waitings_perm
  · rw [harrivals]
    exact .of_eq htickets

/-- The cursor stays set. -/
private theorem cursor_isSome {q q' : Sequencer Waiting} {e : Sequencer.Event Waiting} {turn : Option (Turn Waiting)}
    (h : q.step e = some (q', turn)) (hset : q.buffer.cursor.isSome) : q'.buffer.cursor.isSome := by
  rw [(Sequencer.stepped_of_step h).cursor_eq]
  cases Moment.move? ⟨q, e, turn, q'⟩ with
  | none => exact hset
  | some index => rfl

/-- A worker that goes on leaves the accounts as they are. -/
theorem Accounts.goOn (h : Accounts p past s) {ticket : Nat} {q : Sequencer Waiting} {turn : Option (Turn Waiting)}
    (hstep : s.machine.sequencer.step (.resume ticket) = some (q, turn)) :
    Accounts p (past ++ [⟨s.machine.sequencer, .resume ticket, turn, q⟩]) (s.grant (q, turn.toList)) := by
  have harrivals : arrivals (past ++ [⟨s.machine.sequencer, .resume ticket, turn, q⟩]) = arrivals past := by
    simp [arrivals, Moment.arrival?]
  refine ⟨?_, ?_, fun hp => ?_, fun hp => ?_, h.requests, h.waits, ?_, ?_⟩
  · intro a ha
    rw [harrivals] at ha
    exact h.own a ha
  · rw [← h.seeded]
    simp [Sequencer.seeded, Moment.seed?]
  · intro m hm hsome
    rcases List.mem_append.1 hm with hm | hm
    · exact h.first hp m hm hsome
    · cases List.mem_singleton.1 hm
      cases hsome
  · rw [sequencer_grant]
    exact cursor_isSome hstep (h.set hp)
  · rw [harrivals]
    exact h.batches
  · rw [harrivals]
    exact h.tickets

/-- A worker that brings its batch has it arrive with its own range. -/
theorem Accounts.bring (h : Accounts p past s) {b : BatchRequest} {w : Waiting} (hi : s.workers[i]? = some ⟨b, none⟩)
    (hw : b.resolve = .ok w) {q : Sequencer Waiting} {turn : Option (Turn Waiting)}
    (hstep : s.machine.sequencer.step (.arrive w.start w.stop w) = some (q, turn)) :
    Accounts p (past ++ [⟨s.machine.sequencer, .arrive w.start w.stop w, turn, q⟩])
      { s.grant (q, turn.toList) with
        workers := s.workers.set i ⟨b, some (.waits s.machine.sequencer.buffer.ticket)⟩ } := by
  have harrivals : arrivals (past ++ [⟨s.machine.sequencer, .arrive w.start w.stop w, turn, q⟩]) =
      arrivals past ++ [(s.machine.sequencer.buffer.nextSlot w.start w.stop, w)] := by
    simp [arrivals, Moment.arrival?]
  have hwaiting : unbrought? ⟨b, none⟩ = some w := BatchRequest.waiting?_of_resolve hw
  refine ⟨?_, ?_, fun hp => ?_, fun hp => ?_, ?_, ?_, ?_, ?_⟩
  · intro a ha
    rw [harrivals] at ha
    rcases List.mem_append.1 ha with ha | ha
    · exact h.own a ha
    · cases List.mem_singleton.1 ha
      exact ⟨rfl, rfl⟩
  · rw [← h.seeded]
    simp [Sequencer.seeded, Moment.seed?]
  · intro m hm hsome
    rcases List.mem_append.1 hm with hm | hm
    · exact h.first hp m hm hsome
    · cases List.mem_singleton.1 hm
      exact h.set hp
  · show (s.grant (q, turn.toList)).machine.sequencer.buffer.cursor.isSome
    rw [sequencer_grant]
    exact cursor_isSome hstep (h.set hp)
  · have hbatch : (s.workers.map (·.batch))[i]? = some b := by rw [List.getElem?_map, hi]; rfl
    obtain ⟨hlt, hget⟩ := List.getElem?_eq_some_iff.1 hbatch
    show (s.workers.set i _).map (·.batch) = _
    rw [List.map_set, ← h.requests, ← hget]
    exact List.set_getElem_self hlt
  · intro w' hw'
    rcases List.mem_or_eq_of_mem_set hw' with hold | rfl
    · exact h.waits w' hold
    · exact .inr ⟨_, rfl⟩
  · rw [harrivals, List.map_append]
    exact Due.settled hi hwaiting rfl h.batches
  · rw [harrivals, List.map_append]
    show ([] ++ (s.workers.set i _).filterMap ticket?).Perm _
    exact Due.incurred hi rfl rfl h.tickets

/-- A worker brings a batch of the plan, which can be resolved. -/
theorem Accounts.resolves (h : Accounts p past s) (bounded : p.Bounded) {b : BatchRequest} {reply : Option Reply}
    (hi : s.workers[i]? = some ⟨b, reply⟩) : ∃ w, b.resolve = .ok w := by
  apply ReplayPlan.resolve_of_mem_deliveries bounded
  rw [← h.requests]
  exact List.mem_map.2 ⟨_, List.mem_of_getElem? hi, rfl⟩

theorem accounts_advance (bounded : p.Bounded) (ht : Traced capacity r d past s) (h : Accounts p past s) (i : Nat) :
    ∃ past', Traced capacity r d past' (s.advance i) ∧ Accounts p past' (s.advance i) := by
  rcases s.advance_cases i with ⟨b, e, hi, hw, -⟩ | ⟨b, w, q, turn, hi, hw, hstep, heq⟩ |
    ⟨b, ticket, q, turn, -, hstep, heq⟩ | ⟨-, heq⟩
  · obtain ⟨w, hresolve⟩ := h.resolves bounded hi
    rw [hw] at hresolve
    cases hresolve
  · rw [heq]
    exact ⟨_, (ht.grant hstep nofun).workers _, h.bring hi hw hstep⟩
  · rw [heq]
    exact ⟨_, ht.grant hstep nofun, h.goOn hstep⟩
  · rw [heq]
    exact ⟨past, ht, h⟩

theorem accounts_run (bounded : p.Bounded) (capacity : Nat) (r : Region) (d : Disk) (schedule : List Nat) :
    ∃ past, Traced capacity r d past ((start (.new capacity) r d p).run schedule) ∧
      Accounts p past ((start (.new capacity) r d p).run schedule) := by
  induction schedule using List.reverseRecOn with
  | nil => exact ⟨_, traced_start capacity r d p, accounts_start capacity r d p⟩
  | append_singleton schedule i ih =>
    obtain ⟨past, ht, h⟩ := ih
    rw [Crew.run, List.foldl_append]
    exact accounts_advance bounded ht h i

/-! ### What the accounts say -/

/-- The batches of the plan are delivered. -/
theorem Accounts.delivery (h : Accounts p past s) (untimed : Untimed past) : Delivery p.first p.waitings past := by
  refine ⟨h.own, (List.sublist_append_left _ _).subperm.trans h.batches.subperm, untimed, ?_⟩
  rw [h.seeded]
  cases p.seeded with
  | true => exact List.prefix_rfl
  | false => exact List.nil_prefix

/-- Each caller waits under the ticket of a worker. -/
theorem Accounts.exists_worker (h : Accounts p past s) (ht : Traced capacity r d past s) {c : Caller Waiting}
    (hc : c ∈ s.machine.sequencer.callers) :
    ∃ (i : Nat) (b : BatchRequest), s.workers[i]? = some ⟨b, some (.waits c.slot.ticket)⟩ := by
  have harrived : (c.slot, c.batch) ∈ arrivals past :=
    ht.run.granted_append_held_perm.mem_iff.1 (List.mem_append_right _ (List.mem_map.2 ⟨c, hc, rfl⟩))
  have hticket : c.slot.ticket ∈ s.workers.filterMap ticket? :=
    h.tickets.mem_iff.2 (List.mem_map.2 ⟨_, harrived, rfl⟩)
  obtain ⟨⟨b, reply⟩, hw, hwt⟩ := List.mem_filterMap.1 hticket
  obtain ⟨i, hi⟩ := List.getElem?_of_mem hw
  rcases reply with _ | _ | ticket
  · cases hwt
  · cases hwt
  · cases hwt
    exact ⟨i, b, hi⟩

/-- The batch of a worker that has a ticket has arrived. -/
theorem Accounts.exists_arrival (h : Accounts p past s) {b : BatchRequest} {ticket : Nat}
    (hw : ⟨b, some (.waits ticket)⟩ ∈ s.workers) : ∃ a ∈ arrivals past, a.1.ticket = ticket := by
  have hticket : ticket ∈ s.workers.filterMap ticket? := List.mem_filterMap.2 ⟨_, hw, rfl⟩
  exact List.mem_map.1 (h.tickets.mem_iff.1 hticket)

/-- When every worker has brought its batch, all have arrived. -/
theorem Accounts.all_arrived (h : Accounts p past s) (brought : ∀ w ∈ s.workers, w.reply ≠ none) :
    (arrivals past).length = p.waitings.length := by
  have hnone : s.workers.filterMap unbrought? = [] := by
    rw [List.filterMap_eq_nil_iff]
    rintro ⟨b, reply⟩ hw
    cases reply with
    | none => exact absurd rfl (brought _ hw)
    | some reply => rfl
  have hlength := h.batches.length_eq
  rwa [hnone, List.append_nil, List.length_map] at hlength

end SeriesRegion.Crew
