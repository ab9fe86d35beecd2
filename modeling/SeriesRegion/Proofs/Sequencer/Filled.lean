import SeriesRegion.Proofs.Sequencer.Capacity
import SeriesRegion.Proofs.Sequencer.Quiet

/-!
# Batches that fill the buffer

As many contiguous batches as a buffer has slots are delivered in any order while its cursor is not set.  None of them has
its turn before the last has arrived; then the buffer is full, the first of all is forced, and the others follow it in order
(`Filling`).  So these batches are all applied, as they are when they fit behind a cursor that is set beforehand
(`Run.done_of_quiet`).
-/

namespace SeriesRegion.Sequencer

variable {γ : Type} {capacity : Nat} {first : UInt64} {batches : List (LogBatch γ)}
  {past : List (Moment (LogBatch γ))} {q q' : Sequencer (LogBatch γ)} {e : Event (LogBatch γ)}

/-- How far a delivery has come whose cursor is not set: the batches that have had their turns have moved it. -/
structure Filling (first : UInt64) (batches : List (LogBatch γ)) (past : List (Moment (LogBatch γ))) (b : Buffer) :
    Prop where
  ahead : done past <+: batches
  unmoved : turns past = [] → b.cursor = none
  moved : turns past ≠ [] → b.cursor = some (following first (done past))

/-- If as many slots are taken as there are batches, all have arrived and none has had its turn; so the oldest of them is the
first of all. -/
private theorem oldest_is_first (run : Run capacity past q) (hb : Contiguous first batches)
    (hfull : batches.length = max capacity 1) {t : Turn (LogBatch γ)} (hstep : q.step e = some (q', some t))
    (hd : Delivery first batches (past ++ [⟨q, e, some t, q'⟩])) (hold : (q.tested e).oldest? = some t.slot.start)
    (hslots : (q.tested e).slots.length = max capacity 1) : turns past = [] ∧ t.slot.start = first := by
  have hcount := run.pending_add_done hb hd.of_append
  have htested := (tested_perm q q' e (some t)).length_eq
  have harrived := hd.part.length_le
  rw [List.length_append, List.length_map] at htested
  rw [arrivals_append, List.length_map, List.length_append] at harrived
  have hdone : (done past).length = 0 := by
    unfold pending at hcount
    omega
  have hall : (q.tested e).slots.Perm ((arrivals (past ++ [⟨q, e, some t, q'⟩])).map (·.1)) := by
    apply (run.tested_subperm (some t)).perm_of_length_le
    rw [arrivals_append, List.length_map, List.length_append]
    omega
  have hbatches : ((arrivals (past ++ [⟨q, e, some t, q'⟩])).map (·.2)).Perm batches := by
    apply hd.part.perm_of_length_le
    have hlength := hall.length_eq
    rw [List.length_map] at hlength ⊢
    omega
  refine ⟨List.map_eq_nil_iff.1 (List.length_eq_zero_iff.1 hdone), ?_⟩
  have hmem := (run.step hstep).turn_mem_arrivals (t := t) (by simp [turns])
  cases batches with
  | nil =>
    rw [List.length_nil] at hfull
    omega
  | cons b rest =>
    obtain ⟨a, ha, hab⟩ := List.mem_map.1 (hbatches.mem_iff.2 (List.mem_cons_self ..))
    have hle := (tested_sorted run.sorted).oldest_le hold a.1 (hall.mem_iff.2 (List.mem_map.2 ⟨a, ha, rfl⟩))
    have hge := hb.first_le (hd.mem_batches hmem)
    rw [(hd.own a ha).1, hab, hb.1] at hle
    rw [← (hd.own _ hmem).1] at hge
    exact UInt64.le_antisymm hle hge

/-- Whoever has its turn starts where those end that have had theirs. -/
private theorem turn_is_next (h : Filling first batches past q.buffer) (run : Run capacity past q)
    (hb : Contiguous first batches) (hfull : batches.length = max capacity 1) {t : Turn (LogBatch γ)}
    (hstep : q.step e = some (q', some t)) (hd : Delivery first batches (past ++ [⟨q, e, some t, q'⟩])) :
    t.slot.start = following first (done past) := by
  have hturn := (stepped_of_step hstep).turned (hd.untimed t (by simp [turns]))
  rcases Buffer.turn?_eq_some hturn with ⟨-, hcursor, -⟩ | ⟨-, -, hold, hslots, -⟩
  · rw [cursor_tested] at hcursor
    by_cases hnone : turns past = []
    · rw [h.unmoved hnone] at hcursor
      cases hcursor
    · rw [h.moved hnone] at hcursor
      exact (Option.some.inj hcursor).symm
  · rw [Buffer.isFull_iff, capacity_tested, run.capacity_eq] at hslots
    obtain ⟨hnone, hfirst⟩ := oldest_is_first run hb hfull hstep hd hold hslots
    rw [hfirst, done, hnone]
    rfl

theorem Filling.step (h : Filling first batches past q.buffer) (run : Run capacity past q)
    (hb : Contiguous first batches) (hfull : batches.length = max capacity 1) {turn : Option (Turn (LogBatch γ))}
    (hstep : q.step e = some (q', turn)) (hd : Delivery first batches (past ++ [⟨q, e, turn, q'⟩]))
    (hunset : seeded (past ++ [⟨q, e, turn, q'⟩]) = []) :
    Filling first batches (past ++ [⟨q, e, turn, q'⟩]) q'.buffer := by
  cases turn with
  | none =>
    have hseed : Moment.seed? ⟨q, e, none, q'⟩ = none := by
      rw [seeded_append, List.append_eq_nil_iff] at hunset
      exact List.filterMap_eq_nil_iff.1 hunset.2 _ (List.mem_singleton_self _)
    have hcursor := (stepped_of_step hstep).unturned.2
    rw [hseed] at hcursor
    have hturns : turns (past ++ [⟨q, e, none, q'⟩]) = turns past := by simp [turns]
    refine ⟨?_, ?_, ?_⟩
    · rw [done, hturns]
      exact h.ahead
    · rw [hturns, hcursor]
      exact h.unmoved
    · rw [done, hturns, hcursor]
      exact h.moved
  | some t =>
    have hmem := (run.step hstep).turn_mem_arrivals (t := t) (by simp [turns])
    obtain ⟨hstart, hstop⟩ := hd.own _ hmem
    have hnext := turn_is_next h run hb hfull hstep hd
    obtain ⟨hahead, hafter⟩ := hb.next_prefix h.ahead (hd.mem_batches hmem) (hstart.symm.trans hnext)
    have hturn := (stepped_of_step hstep).turned (hd.untimed t (by simp [turns]))
    have hturns : turns (past ++ [⟨q, e, some t, q'⟩]) = turns past ++ [t] := by simp [turns]
    have hdone : done (past ++ [⟨q, e, some t, q'⟩]) = done past ++ [t.batch] := by simp [done, turns]
    refine ⟨?_, ?_, ?_⟩
    · rw [hdone]
      exact hahead
    · intro hnone
      simp [hturns] at hnone
    · intro _
      rw [hdone, ← hafter, ← hstop]
      exact (Buffer.turn?_frame hturn).2.2.2.1

theorem Run.filling (run : Run capacity past q) (hb : Contiguous first batches)
    (hfull : batches.length = max capacity 1) (hd : Delivery first batches past) (hunset : seeded past = []) :
    Filling first batches past q.buffer := by
  induction run with
  | start => exact ⟨List.nil_prefix, fun _ => rfl, fun h => absurd rfl h⟩
  | @step past q q' e turn run h ih =>
    have hbefore : seeded past = [] := by
      rw [seeded_append, List.append_eq_nil_iff] at hunset
      exact hunset.1
    exact (ih hd.of_append hbefore).step run hb hfull h hd hunset

/-- If all is quiet and all batches have arrived, one of them has had its turn. -/
private theorem turns_of_quiet (run : Run capacity past q) (hb : Contiguous first batches)
    (hfull : batches.length = max capacity 1) (hd : Delivery first batches past) (hquiet : q.isQuiet = true)
    (hall : (arrivals past).length = batches.length) : turns past ≠ [] := by
  intro hnone
  have hcount := run.pending_add_done hb hd
  have hdone : (done past).length = 0 := by rw [done, hnone]; rfl
  -- All slots would be taken, and the oldest batch would not be asleep.
  obtain ⟨c, hc, -, hturn⟩ := run.oldest_turn hd.untimed (hd.distinct hb) (by omega)
  rw [run.asleep_idle hc (asleep_of_isQuiet hquiet c hc)] at hturn
  cases hturn

/-- A capacity of zero is taken as one. -/
theorem Run.at_least_one (run : Run capacity past q) : Run (max capacity 1) past q := by
  induction run with
  | start =>
    have hnew : (new capacity : Sequencer (LogBatch γ)) = new (max capacity 1) := by simp [new, Buffer.new]
    rw [hnew]
    exact .start
  | step run h ih => exact ih.step h

/-- Contiguous batches that fit behind a cursor set beforehand, or that fill a buffer whose cursor is not set, are all applied
in order when all have arrived and all is quiet.  The cursor is past them then, and no slot is taken. -/
theorem Run.done_of_quiet (run : Run capacity past q) (hb : Contiguous first batches) (hd : Delivery first batches past)
    (hroom : seeded past = [first] ∧ SeededFirst past ∧ batches.length ≤ max capacity 1 ∨
      seeded past = [] ∧ batches.length = max capacity 1)
    (hquiet : q.isQuiet = true) (hall : (arrivals past).length = batches.length) :
    done past = batches ∧ q.buffer.cursor = some (following first batches) ∧ q.pending = 0 := by
  have hcursor : done past <+: batches ∧ q.buffer.cursor = some (following first (done past)) := by
    rcases hroom with ⟨hset, hfirst, hfew⟩ | ⟨hunset, hfull⟩
    · have hroomy := run.at_least_one.roomy_of_fit hb hd (.inr ⟨hfew, hfirst⟩)
      have hdel := run.at_least_one.delivering hb hd hroomy.1
      exact ⟨hdel.ahead, hdel.set hset⟩
    · have hfilling := run.filling hb hfull hd hunset
      exact ⟨hfilling.ahead, hfilling.moved (turns_of_quiet run hb hfull hd hquiet hall)⟩
  obtain ⟨⟨rest, hrest⟩, hcursor⟩ := hcursor
  have hperm : ((arrivals past).map (·.2)).Perm batches := by
    apply hd.part.perm_of_length_le
    exact Nat.le_of_eq (hall.symm.trans (List.length_map _).symm)
  have hnone : rest = [] := by
    cases rest with
    | nil => rfl
    | cons b rest =>
      have hin : b ∈ batches := hrest ▸ List.mem_append_right _ (List.mem_cons_self ..)
      have hmissing := run.missing_at_cursor hb hd hcursor hquiet hrest
      rw [(delivered_iff hb hd hin).2 (hperm.mem_iff.2 hin)] at hmissing
      cases hmissing
  rw [hnone, List.append_nil] at hrest
  have hcount := run.pending_add_done hb hd
  rw [hrest] at hcount hcursor
  exact ⟨hrest, hcursor, by omega⟩

end SeriesRegion.Sequencer
