import SeriesRegion.Proofs.Replay.Accounts

/-!
# How a replay ends

The workers have returned when each has brought its batch and none waits any more (`Crew.Accounts.returned_iff`).  If the batches
of the plan fit behind a cursor that is set beforehand, or fill a buffer whose cursor is not set, then some worker can go on until
all have returned (`Crew.Accounts.returned_or_moves`), and then the whole plan has been applied once and in the order of its log
positions (`Crew.Accounts.replayed`).
-/

namespace SeriesRegion

/-- What a replay has left when its workers have returned: every batch has had its turn and is reported a success, the log holds
the rows of the plan in the order of their positions and the table holds a point for each, the cursor is past them, no slot is
taken, and each batch has left a sample of its wait and one for each of its commands. -/
structure ReplayPlan.Replayed (p : ReplayPlan) (s : Crew) : Prop where
  reported : s.report.statuses.map (·.1) = p.deliveries.map (·.start)
  succeeded : ∀ x ∈ s.report.statuses, x.2.isSuccess
  once : (s.finished.map (·.1)).Perm (List.range p.batches)
  logged : ∃ es, s.region.logged.run.run s.disk = (.ok es, s.disk) ∧ es.map (·.searchIndex) = p.indexes.map some ∧
    es.map (·.payload) = p.indexes.map fun index => .row (p.rowAt index)
  points : s.region.table.pointCount = p.batches * p.width
  devices : s.region.table.deviceNames.length = min (max p.devices 1) (p.batches * p.width)
  cursor : s.machine.sequencer.buffer.cursor = some (UInt64.ofNat (p.first.toNat + p.batches * p.width))
  slots : s.machine.sequencer.pending = 0
  queued : s.machine.steps.count .queue = p.batches
  applied : s.machine.steps.count .apply = p.batches * p.width

/-- The batches fit behind a cursor that is set beforehand, or they fill a buffer whose cursor is not set. -/
def ReplayPlan.Room (p : ReplayPlan) (slots : Nat) : Prop :=
  p.seeded = true ∧ p.batches ≤ slots ∨ p.seeded = false ∧ p.batches = slots

namespace Crew

open Sequencer (Moment turns arrivals granted held done)

variable {capacity : Nat} {p : ReplayPlan} {r : Region} {d : Disk} {past : List (Moment Waiting)} {s : Crew}

/-! ### Returning -/

/-- A batch has finished when it has had its turn. -/
theorem Traced.finished_tickets (h : Traced capacity r d past s) :
    s.finished.map (·.1) = (granted past).map (·.1.ticket) := by
  rw [h.finished, granted, List.map_map, List.map_map]
  rfl

/-- When nobody waits, all that has arrived has had its turn. -/
private theorem granted_perm (h : Traced capacity r d past s) (hnone : s.machine.sequencer.callers = []) :
    (granted past).Perm (arrivals past) := by
  have hperm := h.run.granted_append_held_perm
  rwa [hnone, held, List.map_nil, List.append_nil] at hperm

private theorem lookup_isSome {finished : Finished} {ticket : Nat} :
    (finished.lookup ticket).isSome ↔ ticket ∈ finished.map (·.1) := by
  rw [List.lookup_isSome_iff, List.mem_map]
  refine exists_congr fun x => and_congr_right fun _ => ?_
  rw [beq_iff_eq, eq_comm]

/-- A worker that has brought its batch has a ticket. -/
private theorem exists_ticket (h : Accounts p past s) (brought : ∀ w ∈ s.workers, w.reply ≠ none) {b : BatchRequest}
    {reply : Option Reply} (hw : ⟨b, reply⟩ ∈ s.workers) : ∃ ticket, reply = some (.waits ticket) :=
  (h.waits _ hw).resolve_left (brought _ hw)

theorem Accounts.returned_iff (h : Accounts p past s) (ht : Traced capacity r d past s) :
    s.Returned ↔ (∀ w ∈ s.workers, w.reply ≠ none) ∧ s.machine.sequencer.callers = [] := by
  have hperm := ht.run.granted_append_held_perm
  constructor
  · intro hreturned
    refine ⟨fun w hw hnone => ?_, ?_⟩
    · have hback := hreturned w hw
      rw [Worker.returned, hnone] at hback
      cases hback
    · rw [List.eq_nil_iff_forall_not_mem]
      intro c hc
      -- Its worker has returned, but no batch has had a turn and waits.
      have hheld : (c.slot, c.batch) ∈ held s.machine.sequencer.callers := List.mem_map.2 ⟨c, hc, rfl⟩
      obtain ⟨i, b, hi⟩ := h.exists_worker ht hc
      have hback := hreturned _ (List.mem_of_getElem? hi)
      rw [Worker.returned, lookup_isSome, ht.finished_tickets] at hback
      have hnodup := ((hperm.map (·.1.ticket)).nodup_iff).2 ht.run.arrivals_nodup
      rw [List.map_append, List.nodup_append] at hnodup
      exact hnodup.2.2 _ hback _ (List.mem_map.2 ⟨_, hheld, rfl⟩) rfl
  · rintro ⟨hbrought, hnone⟩ ⟨b, reply⟩ hw
    obtain ⟨ticket, rfl⟩ := exists_ticket h hbrought hw
    obtain ⟨a, ha, rfl⟩ := h.exists_arrival hw
    rw [Worker.returned, lookup_isSome, ht.finished_tickets]
    exact List.mem_map.2 ⟨a, (granted_perm ht hnone).mem_iff.2 ha, rfl⟩

/-! ### All is quiet -/

/-- When every worker has brought its batch and all are asleep, then all batches have had their turns in order. -/
theorem Accounts.done_of_quiet (h : Accounts p past s) (ht : Traced capacity r d past s) (bounded : p.Bounded)
    (room : p.Room (max capacity 1)) (brought : ∀ w ∈ s.workers, w.reply ≠ none)
    (hquiet : s.machine.sequencer.isQuiet = true) :
    done past = p.waitings ∧
      s.machine.sequencer.buffer.cursor = some (UInt64.ofNat (p.first.toNat + p.batches * p.width)) ∧
      s.machine.sequencer.pending = 0 ∧ s.machine.sequencer.callers = [] := by
  obtain ⟨hranged, hlength⟩ := ReplayPlan.ranged_waitings bounded
  have hcontiguous := hranged.contiguous
  have hafter := hranged.after
  rw [UInt64.ofNat_toNat] at hcontiguous hafter
  have hall := h.all_arrived brought
  have hroom : Sequencer.seeded past = [p.first] ∧ Sequencer.SeededFirst past ∧ p.waitings.length ≤ max capacity 1 ∨
      Sequencer.seeded past = [] ∧ p.waitings.length = max capacity 1 := by
    rw [hlength, h.seeded]
    rcases room with ⟨hseeded, hfit⟩ | ⟨hseeded, hfill⟩
    · exact .inl ⟨by rw [if_pos hseeded], h.first hseeded, hfit⟩
    · exact .inr ⟨by rw [hseeded]; rfl, hfill⟩
  obtain ⟨hdone, hcursor, hpending⟩ :=
    ht.run.done_of_quiet hcontiguous (h.delivery ht.untimed) hroom hquiet hall
  rw [hafter] at hcursor
  refine ⟨hdone, hcursor, hpending, List.length_eq_zero_iff.1 ?_⟩
  have hcount := ht.run.done_append_held_perm.length_eq
  rw [hdone, List.length_append, List.length_map, List.length_map, hall, held, List.length_map] at hcount
  omega

/-- Someone can go on until all have returned. -/
theorem Accounts.returned_or_moves (h : Accounts p past s) (ht : Traced capacity r d past s) (bounded : p.Bounded)
    (room : p.Room (max capacity 1)) : s.Returned ∨ ∃ i, s.Moves i := by
  by_cases hbrought : ∀ w ∈ s.workers, w.reply ≠ none
  · by_cases hquiet : s.machine.sequencer.isQuiet = true
    · obtain ⟨-, -, -, hnone⟩ := h.done_of_quiet ht bounded room hbrought hquiet
      exact .inl ((h.returned_iff ht).2 ⟨hbrought, hnone⟩)
    · right
      obtain ⟨c, hc, turn, q, hstepped⟩ := Sequencer.exists_resume ht.unexpired hquiet
      have hresume : s.machine.sequencer.resume c.slot.ticket = some (q, turn) := ht.run.step_of_stepped hstepped
      obtain ⟨i, b, hi⟩ := h.exists_worker ht hc
      refine ⟨i, .inr ⟨b, _, hi, ?_⟩⟩
      rw [hresume]
      rfl
  · right
    obtain ⟨⟨b, reply⟩, hw, hnone⟩ : ∃ w ∈ s.workers, w.reply = none := by simpa using hbrought
    obtain ⟨i, hi⟩ := List.getElem?_of_mem hw
    obtain rfl : reply = none := hnone
    exact ⟨i, .inl ⟨b, hi⟩⟩

/-! ### What is left -/

/-- What the turns write when all batches of the plan have had theirs. -/
private theorem accepted_entries (bounded : p.Bounded) (hdone : done past = p.waitings) :
    Region.accepted ((turns past).flatMap Turn.entries) = p.entries := by
  have hentries : (turns past).flatMap Turn.entries = p.entries := by
    rw [← p.entries_of_commands, ← (ReplayPlan.ranged_waitings bounded).1.commands, ← hdone, done, List.flatMap_assoc,
      List.flatMap_map]
    rfl
  rw [hentries]
  refine Region.accepted_of_valid fun e he => ?_
  obtain ⟨index, -, rfl⟩ := List.mem_map.1 he
  exact p.shapeFault?_entryAt index

/-- A batch of the plan that is applied is a success. -/
private theorem isSuccess_outcome (bounded : p.Bounded) (hdone : done past = p.waitings) {x : Nat × Status}
    (hx : x ∈ (turns past).map Turn.outcome) : x.2.isSuccess := by
  obtain ⟨t, ht, rfl⟩ := List.mem_map.1 hx
  rw [Turn.outcome, Status.isSuccess_aggregate]
  intro status hstatus
  obtain ⟨c, hc, rfl⟩ := List.mem_map.1 hstatus
  have hcommand : c ∈ p.waitings.flatMap (·.commands) := by
    rw [← hdone]
    exact List.mem_flatMap.2 ⟨t.batch, List.mem_map.2 ⟨t, ht, rfl⟩, hc⟩
  rw [(ReplayPlan.ranged_waitings bounded).1.commands] at hcommand
  obtain ⟨i, -, rfl⟩ := List.mem_map.1 hcommand
  rw [Command.isSuccess_status]
  intro e he
  rw [p.entries_commandAt, List.mem_singleton] at he
  rw [he]
  exact p.shapeFault?_entryAt _

/-- What a worker that has returned reports is the status of a batch that has finished. -/
private theorem status_of_returned {finished : Finished} {b : BatchRequest} {ticket : Nat}
    (h : Worker.returned finished ⟨b, some (.waits ticket)⟩ = true) :
    ∃ x ∈ finished, Worker.status finished ⟨b, some (.waits ticket)⟩ = x.2 := by
  obtain ⟨status, hstatus⟩ := Option.isSome_iff_exists.1 h
  obtain ⟨before, after, heq, -⟩ := List.lookup_eq_some_iff.1 hstatus
  refine ⟨(ticket, status), ?_, ?_⟩
  · rw [heq]
    exact List.mem_append_right _ (List.mem_cons_self ..)
  · show (finished.lookup ticket).getD _ = status
    rw [hstatus]
    rfl

/-- Each batch has finished once. -/
private theorem finished_perm (h : Accounts p past s) (ht : Traced capacity r d past s) (bounded : p.Bounded)
    (brought : ∀ w ∈ s.workers, w.reply ≠ none) (hnone : s.machine.sequencer.callers = []) :
    (s.finished.map (·.1)).Perm (List.range p.batches) := by
  have harrived : (arrivals past).length = p.batches :=
    (h.all_arrived brought).trans (ReplayPlan.ranged_waitings bounded).2
  have hticket : s.machine.sequencer.buffer.ticket = p.batches := by
    have hcount := congrArg List.length ht.run.arrivals_tickets
    rw [List.length_map, List.length_range] at hcount
    exact hcount.symm.trans harrived
  rw [ht.finished_tickets, ← hticket, ← ht.run.arrivals_tickets]
  exact (granted_perm ht hnone).map _

/-- The region is backed by the entries of the plan. -/
private theorem backed_entries (ht : Traced capacity r d past s) (bounded : p.Bounded) (hdone : done past = p.waitings)
    (fresh : r.Backed .empty [] d) : s.region.Backed .empty p.entries s.disk := by
  have hfits : ∀ e ∈ p.entries, Log.Fits e := by
    intro e he
    obtain ⟨index, -, rfl⟩ := List.mem_map.1 he
    exact p.fits_entryAt index
  rw [ht.region, ht.disk, accepted_entries bounded hdone]
  exact fresh.applyAll hfits

theorem Accounts.replayed (h : Accounts p past s) (ht : Traced capacity r d past s) (bounded : p.Bounded)
    (room : p.Room (max capacity 1)) (fresh : r.Backed .empty [] d) (returned : s.Returned) : p.Replayed s := by
  obtain ⟨hbrought, hnone⟩ := (h.returned_iff ht).1 returned
  have hquiet : s.machine.sequencer.isQuiet = true := by rw [Sequencer.isQuiet, hnone]; rfl
  obtain ⟨hdone, hcursor, hpending, -⟩ := h.done_of_quiet ht bounded room hbrought hquiet
  obtain ⟨hranged, hlength⟩ := ReplayPlan.ranged_waitings bounded
  have hbacked := backed_entries ht bounded hdone fresh
  refine ⟨?_, ?_, finished_perm h ht bounded hbrought hnone, ?_, ?_, ?_, hcursor, hpending, ?_, ?_⟩
  · rw [report, List.map_map, ← h.requests, List.map_map]
    rfl
  · intro x hx
    obtain ⟨⟨b, reply⟩, hw, rfl⟩ := List.mem_map.1 hx
    obtain ⟨ticket, rfl⟩ := exists_ticket h hbrought hw
    obtain ⟨y, hy, hstatus⟩ := status_of_returned (returned _ hw)
    rw [ht.finished] at hy
    rw [hstatus]
    exact isSuccess_outcome bounded hdone hy
  · refine ⟨p.entries, hbacked.run_logged, p.searchIndexes_entries, ?_⟩
    rw [ReplayPlan.entries, List.map_map]
    rfl
  · rw [hbacked.table]
    exact ReplayPlan.pointCount_applyAll bounded
  · rw [hbacked.table]
    exact ReplayPlan.length_deviceNames_applyAll bounded
  · rw [ht.queued, ← hlength, ← hdone, done, List.length_map]
  · have hcommands : (turns past).flatMap (·.batch.commands) = p.waitings.flatMap (·.commands) := by
      rw [← hdone, done, List.flatMap_map]
    rw [ht.applied, hcommands, hranged.commands, List.length_map, List.length_range']

end Crew

end SeriesRegion
