import SeriesRegion.Proofs.Sequencer.Window

/-!
# What is applied when all is quiet

When every caller is asleep, none of them starts at the cursor, so the batch that comes next has not arrived.  The
batches applied are then those up to the first that is missing, and the slots hold the others that have arrived
(`Run.delivers`).
-/

namespace SeriesRegion

def Slot.range (s : Slot) : UInt64 × UInt64 := (s.start, s.stop)

def LogBatch.range {γ : Type} (b : LogBatch γ) : UInt64 × UInt64 := (b.start, b.stop)

namespace Sequencer

variable {γ : Type} {capacity : Nat} {first : UInt64} {batches rest : List (LogBatch γ)} {b : LogBatch γ}
  {past : List (Moment (LogBatch γ))} {q : Sequencer (LogBatch γ)}

theorem delivered_iff (hb : Contiguous first batches) (hd : Delivery first batches past) (hmem : b ∈ batches) :
    delivered past b = true ↔ b ∈ (arrivals past).map (·.2) := by
  unfold delivered
  rw [decide_eq_true_eq, List.mem_map, List.mem_map]
  constructor
  · rintro ⟨a, ha, hstart⟩
    refine ⟨a, ha, hb.eq_of_start_eq (hd.mem_batches ha) hmem ?_⟩
    rw [← (hd.own a ha).1, hstart]
  · rintro ⟨a, ha, rfl⟩
    exact ⟨a, ha, (hd.own a ha).1⟩

/-- The batches that have arrived are those applied and those that wait. -/
theorem Run.done_append_held_perm (run : Run capacity past q) :
    (done past ++ (held q.callers).map (·.2)).Perm ((arrivals past).map (·.2)) := by
  have hperm := run.granted_append_held_perm.map (·.2)
  rw [List.map_append, granted, List.map_map] at hperm
  exact hperm

theorem Delivery.arrived_nodup (hb : Contiguous first batches) (hd : Delivery first batches past) :
    ((arrivals past).map (·.2)).Nodup := by
  obtain ⟨l, hl, hs⟩ := hd.part
  exact (hl.nodup_iff).1 (hb.nodup.sublist hs)

/-- The batches that wait are those that have arrived of the rest. -/
theorem Run.held_batches_perm (run : Run capacity past q) (hb : Contiguous first batches)
    (hd : Delivery first batches past) (hrest : done past ++ rest = batches) :
    ((held q.callers).map (·.2)).Perm (rest.filter (delivered past)) := by
  have hsplit := (run.done_append_held_perm.nodup_iff).2 (hd.arrived_nodup hb)
  rw [List.nodup_append] at hsplit
  have hnodup := hb.nodup
  rw [← hrest, List.nodup_append] at hnodup
  rw [List.perm_ext_iff_of_nodup hsplit.2.1 (hnodup.2.1.filter _)]
  intro b
  rw [List.mem_filter]
  constructor
  · intro hwaits
    have harrived := run.done_append_held_perm.subset (List.mem_append_right _ hwaits)
    have hmem := hd.part.subset harrived
    refine ⟨?_, (delivered_iff hb hd hmem).2 harrived⟩
    rw [← hrest] at hmem
    rcases List.mem_append.1 hmem with hdone | hmem
    · exact absurd rfl (hsplit.2.2 b hdone b hwaits)
    · exact hmem
  · rintro ⟨hmem, hdel⟩
    have hin : b ∈ batches := hrest ▸ List.mem_append_right _ hmem
    rcases List.mem_append.1 (run.done_append_held_perm.symm.subset ((delivered_iff hb hd hin).1 hdel)) with h | h
    · exact absurd rfl (hnodup.2.2 b h b hmem)
    · exact h

/-- The slots taken are those of the batches of the rest that have arrived, in their order. -/
theorem Run.slots_ranges (run : Run capacity past q) (hb : Contiguous first batches)
    (hd : Delivery first batches past) (hrest : done past ++ rest = batches) :
    q.buffer.slots.map Slot.range = (rest.filter (delivered past)).map LogBatch.range := by
  -- Both ascend, and they are the same up to their order.
  have hdistinct := hd.distinct hb
  have hperm : (q.buffer.slots.map Slot.range).Perm ((rest.filter (delivered past)).map LogBatch.range) := by
    have hslots := (run.slots_perm hd.untimed hdistinct).map Slot.range
    have hheld := (run.held_batches_perm hb hd hrest).map LogBatch.range
    rw [List.map_map] at hslots hheld
    refine hslots.trans (.trans (.of_eq ?_) hheld)
    apply List.map_congr_left
    intro a ha
    have hown := hd.own a (run.granted_append_held_perm.subset (List.mem_append_right _ ha))
    show (a.1.start, a.1.stop) = (a.2.start, a.2.stop)
    rw [hown.1, hown.2]
  have hslots : (q.buffer.slots.map Slot.range).Pairwise fun x y => x.1 < y.1 := by
    rw [List.pairwise_map]
    exact run.slots_ascending hdistinct
  have hranges : ((rest.filter (delivered past)).map LogBatch.range).Pairwise fun x y => x.1 < y.1 := by
    rw [List.pairwise_map]
    have hnd : batches.Pairwise fun b c => b.start < c.start := hb.starts_ascending
    rw [← hrest, List.pairwise_append] at hnd
    exact hnd.2.1.filter _
  refine hperm.eq_of_pairwise ?_ hslots hranges
  intro x y _ _ hxy hyx
  exact absurd (UInt64.lt_trans hxy hyx) (UInt64.lt_irrefl _)

/-- When all is quiet, the batch at the cursor has not arrived. -/
theorem Run.missing_at_cursor (run : Run capacity past q) (hb : Contiguous first batches)
    (hd : Delivery first batches past) (hcursor : q.buffer.cursor = some (following first (done past)))
    (hquiet : q.isQuiet = true) (hrest : done past ++ b :: rest = batches) : delivered past b = false := by
  by_contra hcon
  rw [Bool.not_eq_false] at hcon
  have hwaits : b ∈ (held q.callers).map (·.2) := by
    rw [(run.held_batches_perm hb hd hrest).mem_iff, List.mem_filter]
    exact ⟨List.mem_cons_self .., hcon⟩
  obtain ⟨a, ha, hab⟩ := List.mem_map.1 hwaits
  obtain ⟨c, hc, rfl⟩ := List.mem_map.1 ha
  -- It would be asleep, but the cursor stands at its start.
  apply run.asleep_not_due hc (asleep_of_isQuiet hquiet c hc)
  rw [hcursor]
  have hown := (hd.own _ (run.granted_append_held_perm.subset (List.mem_append_right _ ha))).1
  rw [← hrest, Contiguous.append_iff] at hb
  rw [← hb.2.1, ← hab]
  exact congrArg some hown.symm

theorem Run.next_missing (run : Run capacity past q) (hb : Contiguous first batches)
    (hd : Delivery first batches past) (hdel : Delivering capacity first batches past q.buffer)
    (hset : seeded past = [first]) (hquiet : q.isQuiet = true) (hrest : done past ++ b :: rest = batches) :
    delivered past b = false :=
  run.missing_at_cursor hb hd (hdel.set hset) hquiet hrest

/-- When all is quiet, the batches applied are those before the first that has not arrived. -/
theorem Run.done_eq_takeWhile (run : Run capacity past q) (hb : Contiguous first batches)
    (hd : Delivery first batches past) (hdel : Delivering capacity first batches past q.buffer)
    (hset : seeded past = [first]) (hquiet : q.isQuiet = true) (hrest : done past ++ rest = batches) :
    batches.takeWhile (delivered past) = done past ∧ batches.dropWhile (delivered past) = rest := by
  have hdone : ∀ b ∈ done past, delivered past b = true := by
    intro b hmem
    have hin : b ∈ batches := hrest ▸ List.mem_append_left _ hmem
    exact (delivered_iff hb hd hin).2 (run.done_append_held_perm.subset (List.mem_append_left _ hmem))
  rw [← hrest, List.takeWhile_append_of_pos hdone, List.dropWhile_append_of_pos hdone]
  cases rest with
  | nil => simp
  | cons b rest =>
    have hmissing : ¬ delivered past b = true := by
      rw [run.next_missing hb hd hdel hset hquiet hrest]
      decide
    rw [List.takeWhile_cons_of_neg hmissing, List.dropWhile_cons_of_neg hmissing, List.append_nil]
    exact ⟨rfl, rfl⟩

/-- Contiguous batches that are delivered within the window are all applied in order, none of them forced.  Whenever all
is quiet, those applied are the ones before the first that is missing, and the slots are those of the others that have
arrived; when all have arrived, all are applied, the cursor is past them and no slot is taken. -/
theorem Run.delivers (run : Run capacity past q) (hb : Contiguous first batches) (hd : Delivery first batches past)
    (hwindow : Roomy capacity past ∨ Fit capacity batches past) :
    (∀ t ∈ turns past, t.admission = .inOrder) ∧
    done past <+: batches ∧
    applied past <+: batches.flatMap (·.commands) ∧
    (seeded past = [first] → q.isQuiet = true →
      done past = batches.takeWhile (delivered past) ∧
      q.buffer.slots.map Slot.range =
        ((batches.dropWhile (delivered past)).filter (delivered past)).map LogBatch.range) ∧
    (seeded past = [first] → q.isQuiet = true → (arrivals past).length = batches.length →
      applied past = batches.flatMap (·.commands) ∧ q.buffer.cursor = some (following first batches) ∧
      q.pending = 0) := by
  have hroom : Roomy capacity past := hwindow.elim id fun hfit => (run.roomy_of_fit hb hd hfit).1
  have hdel := run.delivering hb hd hroom
  obtain ⟨rest, hrest⟩ := hdel.ahead
  refine ⟨hdel.inOrder, hdel.ahead, ?_, ?_, ?_⟩
  · rw [applied_eq, ← hrest, List.flatMap_append]
    exact List.prefix_append _ _
  · intro hset hquiet
    obtain ⟨htake, hdrop⟩ := run.done_eq_takeWhile hb hd hdel hset hquiet hrest
    rw [htake, hdrop]
    exact ⟨rfl, run.slots_ranges hb hd hrest⟩
  · intro hset hquiet hall
    have hperm : ((arrivals past).map (·.2)).Perm batches := by
      apply hd.part.perm_of_length_le
      exact Nat.le_of_eq (hall.symm.trans (List.length_map _).symm)
    have hnone : rest = [] := by
      cases rest with
      | nil => rfl
      | cons b rest =>
        have hin : b ∈ batches := hrest ▸ List.mem_append_right _ (List.mem_cons_self ..)
        have hmissing := run.next_missing hb hd hdel hset hquiet hrest
        rw [(delivered_iff hb hd hin).2 (hperm.mem_iff.2 hin)] at hmissing
        cases hmissing
    have hranges := run.slots_ranges hb hd hrest
    rw [hnone, List.filter_nil, List.map_nil, List.map_eq_nil_iff] at hranges
    rw [hnone, List.append_nil] at hrest
    refine ⟨?_, ?_, ?_⟩
    · rw [applied_eq, hrest]
    · rw [hdel.set hset, hrest]
    · exact congrArg List.length hranges

/-- Three batches from position 3 on, without gaps. -/
def threeBatches : List (LogBatch Nat) := [
  ⟨3, 4, [30, 40], Nat.le_of_ble_eq_true rfl, List.cons_ne_nil _ _⟩,
  ⟨5, 5, [50], Nat.le_of_ble_eq_true rfl, List.cons_ne_nil _ _⟩,
  ⟨6, 8, [60, 70, 80], Nat.le_of_ble_eq_true rfl, List.cons_ne_nil _ _⟩]

/-- The last of them is delivered first and the first one last, with an interruption in between. -/
def reversed : List (Event (LogBatch Nat)) := [
  .seed 3,
  .arrive 6 8 ⟨6, 8, [60, 70, 80], Nat.le_of_ble_eq_true rfl, List.cons_ne_nil _ _⟩,
  .arrive 5 5 ⟨5, 5, [50], Nat.le_of_ble_eq_true rfl, List.cons_ne_nil _ _⟩,
  .interrupt,
  .resume 0,
  .arrive 3 4 ⟨3, 4, [30, 40], Nat.le_of_ble_eq_true rfl, List.cons_ne_nil _ _⟩,
  .resume 0,
  .resume 1,
  .resume 0]

/-- Delivered in reverse to a buffer of three, the batches are all applied in order. -/
theorem delivers_reversed :
    Contiguous 3 threeBatches ∧ Delivery 3 threeBatches (history 3 reversed).1 ∧
      Fit 3 threeBatches (history 3 reversed).1 ∧ (history 3 reversed).2.isQuiet = true ∧
      applied (history 3 reversed).1 = [30, 40, 50, 60, 70, 80] ∧ (history 3 reversed).2.buffer.cursor = some 9 ∧
      (history 3 reversed).2.pending = 0 := by
  have hcontiguous : Contiguous 3 threeBatches := ⟨rfl, by decide, rfl, by decide, rfl, by decide, trivial⟩
  have hdelivery : Delivery 3 threeBatches (history 3 reversed).1 := by
    constructor
    · unfold Own
      decide +kernel
    · have harrivals : (arrivals (history 3 reversed).1).map (·.2) = threeBatches.reverse := by rfl
      rw [harrivals]
      exact (List.reverse_perm _).subperm
    · unfold Untimed
      decide +kernel
    · decide +kernel
  have hfit : Fit 3 threeBatches (history 3 reversed).1 := by
    refine .inr ⟨by decide, ?_⟩
    unfold SeededFirst
    decide +kernel
  have hquiet : (history 3 reversed).2.isQuiet = true := by decide +kernel
  obtain ⟨happlied, hcursor, hpending⟩ := ((Run.history 3 reversed).delivers hcontiguous hdelivery (.inr hfit)).2.2.2.2
    (by decide +kernel) hquiet (by decide +kernel)
  exact ⟨hcontiguous, hdelivery, hfit, hquiet, happlied, hcursor, hpending⟩

end Sequencer

end SeriesRegion
