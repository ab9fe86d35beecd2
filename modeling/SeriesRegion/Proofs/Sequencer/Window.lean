import SeriesRegion.Proofs.Sequencer.Delivery

/-!
# Batches that fit the window

Fewer batches than the buffer has slots never fill it, whenever the cursor is set.  As many batches as it has slots do
not fill it either if the cursor is set first: the first of them never waits (`Run.roomy_of_fit`).
-/

namespace SeriesRegion.Sequencer

variable {γ : Type} {capacity : Nat} {first : UInt64} {batches : List (LogBatch γ)}
  {past : List (Moment (LogBatch γ))} {q q' : Sequencer (LogBatch γ)} {e : Event (LogBatch γ)}

/-- The batches fit the buffer. -/
def Fit (capacity : Nat) (batches : List (LogBatch γ)) (past : List (Moment (LogBatch γ))) : Prop :=
  batches.length < capacity ∨ (batches.length ≤ capacity ∧ SeededFirst past)

theorem Fit.of_append {more : List (Moment (LogBatch γ))} (h : Fit capacity batches (past ++ more)) :
    Fit capacity batches past := by
  rcases h with h | ⟨h, hs⟩
  · exact .inl h
  · exact .inr ⟨h, fun m hm => hs m (List.mem_append_left _ hm)⟩

theorem Run.pending_add_done (run : Run capacity past q) (hb : Contiguous first batches)
    (hd : Delivery first batches past) : q.pending + (done past).length = (arrivals past).length := by
  have hslots := (run.slots_perm hd.untimed (hd.distinct hb)).length_eq
  have hacc := run.granted_append_held_perm.length_eq
  simp only [List.length_append, List.length_map, granted, done, pending] at *
  omega

/-- A batch that waits since its arrival does not start at the first position, if the cursor was set then. -/
private theorem parked_not_first {start stop : UInt64} {batch : LogBatch γ} {turn : Option (Turn (LogBatch γ))}
    (run : Run capacity past q) (hb : Contiguous first batches)
    (hd : Delivery first batches (past ++ [⟨q, .arrive start stop batch, turn, q'⟩]))
    (hdel : Delivering capacity first batches past q.buffer) (hset : q.buffer.cursor.isSome)
    (hidle : q.buffer.cursor ≠ some start) : start ≠ first := by
  rintro rfl
  have hcursor := hdel.set (hdel.seeded_eq hd.of_append.once hset)
  obtain ⟨rest, hrest⟩ := hdel.ahead
  cases hdone : turns past with
  | nil =>
    apply hidle
    rw [hcursor, done, hdone]
    rfl
  | cons t ts =>
    -- The first batch has had its turn, so this one would be a second that starts at the first position.
    have ht : t ∈ turns past := by simp [hdone]
    have hfirst : t.batch.start = start := by
      rw [← hrest, done, hdone] at hb
      exact hb.1
    have hdistinct := hd.distinct hb
    unfold Distinct at hdistinct
    rw [arrivals_append, List.map_append, List.nodup_append] at hdistinct
    refine hdistinct.2.2 t.slot.start ?_ start (by simp [arrivals, Moment.arrival?, Buffer.nextSlot]) ?_
    · exact List.mem_map.2 ⟨(t.slot, t.batch), run.turn_mem_arrivals ht, rfl⟩
    · exact (hd.of_append.own _ (run.turn_mem_arrivals ht)).1.trans hfirst

/-- If the cursor is set before any batch arrives, the first batch never waits. -/
theorem Stepped.first_not_held {turn : Option (Turn (LogBatch γ))} (h : Stepped q e turn q')
    (run : Run capacity past q) (hb : Contiguous first batches)
    (hd : Delivery first batches (past ++ [⟨q, e, turn, q'⟩]))
    (hdel : Delivering capacity first batches past q.buffer) (hs : SeededFirst (past ++ [⟨q, e, turn, q'⟩]))
    (hheld : ∀ a ∈ held q.callers, a.1.start ≠ first) : ∀ a ∈ held q'.callers, a.1.start ≠ first := by
  intro a ha
  rcases List.mem_append.1 ((h.accounts run.held_nodup).subset (List.mem_append_right _ ha)) with hold | hnew
  · exact hheld a hold
  · have hset := hs _ (List.mem_append_right _ (List.mem_singleton_self _))
    cases h with
    | parks idle =>
      cases List.mem_singleton.1 hnew
      exact parked_not_first run hb hd hdel (hset rfl) (Buffer.turn?_eq_none.1 idle).1
    | enters turn =>
      rw [held_signalAll, held_alerted] at ha
      exact hheld a ha
    | _ => exact absurd hnew List.not_mem_nil

/-- If all batches have arrived, none has had a turn and the first one does not wait, then the last to arrive is it. -/
private theorem last_is_first (run : Run capacity past q) (hb : Contiguous first batches) {m : Moment (LogBatch γ)}
    {a : Slot × LogBatch γ} (hd : Delivery first batches (past ++ [m]))
    (ha : arrivals (past ++ [m]) = arrivals past ++ [a])
    (hall : batches.length ≤ (arrivals past).length + 1) (hnone : turns past = [])
    (hheld : ∀ a ∈ held q.callers, a.1.start ≠ first) : a.1.start = first := by
  have hperm : ((arrivals (past ++ [m])).map (·.2)).Perm batches := by
    apply hd.part.perm_of_length_le
    rw [List.length_map, ha, List.length_append]
    exact hall
  cases batches with
  | nil =>
    rw [List.perm_nil, List.map_eq_nil_iff, ha] at hperm
    simp at hperm
  | cons b rest =>
    obtain ⟨a', ha', hab⟩ := List.mem_map.1 (hperm.mem_iff.2 (List.mem_cons_self ..))
    have hstart : a'.1.start = first := by
      rw [(hd.own a' ha').1, hab]
      exact hb.1
    rw [ha] at ha'
    rcases List.mem_append.1 ha' with hold | hnew
    · have hwaits := run.granted_append_held_perm.mem_iff.2 hold
      rw [granted, hnone] at hwaits
      exact absurd hstart (hheld a' hwaits)
    · cases List.mem_singleton.1 hnew
      exact hstart

private theorem roomy_step (run : Run capacity past q) (hb : Contiguous first batches)
    {turn : Option (Turn (LogBatch γ))} (hd : Delivery first batches (past ++ [⟨q, e, turn, q'⟩]))
    (hdel : Delivering capacity first batches past q.buffer) (hfit : Fit capacity batches (past ++ [⟨q, e, turn, q'⟩]))
    (hheld : SeededFirst past → ∀ a ∈ held q.callers, a.1.start ≠ first) :
    ∀ a ∈ Moment.arrival? ⟨q, e, turn, q'⟩, q.buffer.cursor = some a.1.start ∨ q.pending + 1 < capacity := by
  intro a ha
  have hcount := run.pending_add_done hb hd.of_append
  have hlength := hd.part.length_le
  have harrivals : arrivals (past ++ [⟨q, e, turn, q'⟩]) = arrivals past ++ [a] := by
    rw [arrivals_append]
    congr 1
    rw [arrivals, List.filterMap_cons_some ha]
    rfl
  rw [List.length_map, harrivals, List.length_append, List.length_singleton] at hlength
  rcases hfit with hfew | ⟨hfew, hs⟩
  · right
    omega
  · by_cases hfull : q.pending + 1 < capacity
    · exact .inr hfull
    · -- All the others wait, so this batch is the first of all, and the cursor still stands at its start.
      left
      have hdone : (done past).length = 0 := by omega
      have hnone : turns past = [] := List.map_eq_nil_iff.1 (List.length_eq_zero_iff.1 hdone)
      have hset := hs _ (List.mem_append_right _ (List.mem_singleton_self _)) (by rw [ha]; rfl)
      rw [hdel.set (hdel.seeded_eq hd.of_append.once hset), done, hnone]
      have hheld := hheld fun m hm => hs m (List.mem_append_left _ hm)
      rw [last_is_first run hb hd harrivals (by omega) hnone hheld]
      rfl

/-- Batches that fit always find room. -/
theorem Run.roomy_of_fit (run : Run capacity past q) (hb : Contiguous first batches)
    (hd : Delivery first batches past) (hfit : Fit capacity batches past) :
    Roomy capacity past ∧ (SeededFirst past → ∀ a ∈ held q.callers, a.1.start ≠ first) := by
  induction run with
  | start => exact ⟨by simp [Roomy], fun _ => by simp [held, new]⟩
  | @step past q q' e turn run h ih =>
    obtain ⟨hroom, hheld⟩ := ih hd.of_append hfit.of_append
    have hdel := run.delivering hb hd.of_append hroom
    refine ⟨?_, ?_⟩
    · intro m hm
      rcases List.mem_append.1 hm with hm | hm
      · exact hroom m hm
      · cases List.mem_singleton.1 hm
        exact roomy_step run hb hd hdel hfit hheld
    · intro hs
      refine (stepped_of_step h).first_not_held run hb hd hdel hs (hheld ?_)
      exact fun m hm => hs m (List.mem_append_left _ hm)

end SeriesRegion.Sequencer
