import SeriesRegion.Proofs.Region.History
import SeriesRegion.Proofs.Replay.Serial
import Mathlib

/-!
# Replays of whole plans

A plan that ends before the last position is replayed on a machine and a region to which nothing has been written.  If its batches
fit behind a cursor that is set beforehand, or if there are as many of them as the buffer has slots and the cursor is not set,
then the whole plan is applied once and in the order of its log positions, whatever the order of delivery and the schedule of the
workers (`ReplayPlan.replayed_of_returned`).
-/

namespace SeriesRegion

/-- The batches of a plan share its log positions out among them, and each is delivered once.  The workers that deliver them come
to an end: they cannot take steps for ever, and until all have returned there is one that can take a step.  When they have
returned the whole plan is replayed.  A machine that replays the plan by itself follows one of their schedules. -/
theorem ReplayPlan.replayed_of_returned {capacity : Nat} {p : ReplayPlan} {r : Region} {d : Disk}
    (bounded : p.first.toNat + p.batches * p.width < UInt64.size)
    (room : (p.seeded = true ∧ p.batches ≤ (Machine.new capacity).sequencer.buffer.capacity) ∨
      (p.seeded = false ∧ p.batches = (Machine.new capacity).sequencer.buffer.capacity))
    (fresh : r.Backed .empty [] d) :
    let start := Crew.start (.new capacity) r d p
    p.deliveries.Perm ((List.range p.batches).map p.batch) ∧
    (p.deliveries.flatMap BatchRequest.indexes).Perm p.indexes ∧ p.indexes.Nodup ∧
    (WellFounded fun s' s : Crew => ∃ i, s.Moves i ∧ s' = s.advance i) ∧
    (∀ schedule, ((start.run schedule).Returned ∨ ∃ i, (start.run schedule).Moves i) ∧
      ((start.run schedule).Returned → p.Replayed (start.run schedule))) ∧
    ∃ schedule, let s := start.run schedule
      s.Returned ∧ ((Machine.new capacity).replay r p).run d = ((s.machine, s.region, s.report), s.disk) := by
  refine ⟨(p.order.positions_perm p.batches).map _, deliveries_indexes_perm bounded, nodup_indexes bounded,
    Crew.wellFounded_moves, fun schedule => ?_, Crew.exists_schedule capacity bounded room r d⟩
  obtain ⟨past, ht, h⟩ := Crew.accounts_run bounded capacity r d schedule
  exact ⟨h.returned_or_moves ht bounded room, h.replayed ht bounded room fresh⟩

/-- Three batches of two positions each, the last of which is delivered first. -/
def backwards : ReplayPlan := ⟨3, 2, 10, 2, .reverse, false⟩

/-- They fill a buffer of three slots, and so all six rows are applied in order. -/
theorem ReplayPlan.replayed_of_returned_backwards :
    ∃ d, (Region.openAt "g" 1 ⟨"", ["r"]⟩ false).run.run (Disk.new "home") = (.ok Region.fresh, d) ∧
      let after := ((Machine.new 3).replay Region.fresh backwards).run d
      after.1.2.2.statuses.map (·.1) = [14, 12, 10] ∧ (∀ x ∈ after.1.2.2.statuses, x.2.isSuccess) ∧
      (∃ es, after.1.2.1.logged.run.run after.2 = (.ok es, after.2) ∧
        es.map (·.searchIndex) = [some 10, some 11, some 12, some 13, some 14, some 15]) ∧
      after.1.2.1.table.pointCount = 6 ∧ after.1.2.1.table.deviceNames.length = 2 ∧
      after.1.1.sequencer.buffer.cursor = some 16 ∧ after.1.1.sequencer.pending = 0 ∧
      after.1.1.steps.count .queue = 3 ∧ after.1.1.steps.count .apply = 6 := by
  obtain ⟨d, hopen, hfresh⟩ := Region.openAt_fresh
  have hbounded : backwards.first.toNat + backwards.batches * backwards.width < UInt64.size := by decide
  have hfills : backwards.batches = (Machine.new 3).sequencer.buffer.capacity := rfl
  obtain ⟨-, -, -, -, hruns, hserial⟩ := ReplayPlan.replayed_of_returned hbounded (.inr ⟨rfl, hfills⟩) hfresh
  obtain ⟨schedule, hreturned, hreplay⟩ := hserial
  have h := (hruns schedule).2 hreturned
  obtain ⟨es, hlogged, hindexes, -⟩ := h.logged
  refine ⟨d, hopen, ?_⟩
  rw [hreplay]
  exact ⟨h.reported.trans (by decide), h.succeeded, ⟨es, hlogged, hindexes.trans (by decide)⟩, h.points, h.devices, h.cursor,
    h.slots, h.queued, h.applied⟩

end SeriesRegion
