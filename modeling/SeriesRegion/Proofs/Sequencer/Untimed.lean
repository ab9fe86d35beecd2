import SeriesRegion.Proofs.Sequencer.Taken
import SeriesRegion.Request

/-!
# Runs without timeouts

A batch whose window ended has its turn but keeps its slot.  If that happens to no batch, and no two batches start at
the same position, then the slots taken are exactly those of the callers that wait (`Run.slots_perm`), and a step either
grants nothing or the one turn that `Buffer.turn?` finds, which releases the slot of its batch (`Run.released`).
-/

namespace SeriesRegion.Sequencer

variable {β : Type} {capacity : Nat} {past : List (Moment β)} {q q' : Sequencer β} {e : Event β}

/-- No batch has had its turn only because its window ended. -/
def Untimed (past : List (Moment β)) : Prop := ∀ t ∈ turns past, t.admission ≠ .timedOut

/-- No two batches have arrived that start at the same position. -/
def Distinct (past : List (Moment β)) : Prop := ((arrivals past).map (·.1.start)).Nodup

theorem Untimed.of_append {more : List (Moment β)} (h : Untimed (past ++ more)) : Untimed past := by
  intro t ht
  exact h t (by simp [ht])

theorem Untimed.concat {turn : Option (Turn β)} (h : Untimed past)
    (hturn : ∀ t, turn = some t → t.admission ≠ .timedOut) : Untimed (past ++ [⟨q, e, turn, q'⟩]) := by
  intro t ht
  rw [turns_append] at ht
  rcases List.mem_append.1 ht with ht | ht
  · exact h t ht
  · obtain ⟨m, hm, hmt⟩ := List.mem_filterMap.1 ht
    cases List.mem_singleton.1 hm
    exact hturn t hmt

theorem Distinct.of_append {more : List (Moment β)} (h : Distinct (past ++ more)) : Distinct past := by
  unfold Distinct at h
  rw [arrivals_append, List.map_append] at h
  exact (List.nodup_append.1 h).1

theorem Untimed.timeouts_eq (h : Untimed past) : timeouts past = [] := by
  unfold timeouts
  rw [List.filter_eq_nil_iff]
  intro t ht
  simpa using h t ht

/-- Batches of which no two start at the same position come apart. -/
theorem Run.apart (run : Run capacity past q) (distinct : Distinct past) : Apart past := by
  induction run with
  | start => simp [Apart]
  | @step past q q' e turn run h ih =>
    intro m hm a ha s hs
    rcases List.mem_append.1 hm with hm | hm
    · exact ih distinct.of_append m hm a ha s hs
    · cases List.mem_singleton.1 hm
      -- The slot was drawn by an arrival before.
      obtain ⟨b, hb, rfl⟩ := List.mem_map.1 (run.slots_subperm.subset hs)
      have hnew : a ∈ arrivals [⟨q, e, turn, q'⟩] := List.mem_filterMap.2 ⟨_, List.mem_singleton_self _, ha⟩
      unfold Distinct at distinct
      rw [arrivals_append, List.map_append, List.nodup_append] at distinct
      exact distinct.2.2 _ (List.mem_map.2 ⟨b, hb, rfl⟩) _ (List.mem_map.2 ⟨a, hnew, rfl⟩)

/-! ### The slots taken -/

/-- Without timeouts, the slots taken are those of the callers that wait. -/
theorem Run.slots_perm (run : Run capacity past q) (untimed : Untimed past) (distinct : Distinct past) :
    q.buffer.slots.Perm ((held q.callers).map (·.1)) := by
  have hperm := run.slots_perm_of_apart (run.apart distinct)
  rw [untimed.timeouts_eq, List.map_nil, List.append_nil] at hperm
  exact hperm

/-- Without timeouts, a turn releases the slot of its batch and no other. -/
theorem Run.released (run : Run capacity past q) {t : Turn β} (h : q.step e = some (q', some t))
    (untimed : Untimed (past ++ [⟨q, e, some t, q'⟩])) (distinct : Distinct (past ++ [⟨q, e, some t, q'⟩])) :
    (q.tested e).slots.Perm (t.slot :: q'.buffer.slots) := by
  exact run.released_of_apart h (untimed t (by simp [turns])) ((run.step h).apart distinct)

/-- If no two batches start at the same position, the slots taken start at strictly ascending ones. -/
theorem Run.slots_ascending (run : Run capacity past q) (distinct : Distinct past) :
    q.buffer.slots.Pairwise fun s u => s.start < u.start := by
  have hstarts := run.starts_nodup (run.apart distinct)
  rw [List.Nodup, List.pairwise_map] at hstarts
  refine (run.sorted.ascending.and hstarts).imp ?_
  rintro s u ⟨hprecedes, hne⟩
  exact UInt64.lt_of_le_of_ne (Slot.start_le_of_precedes hprecedes) hne

/-! ### Batches of commands -/

section Batches

variable {γ : Type} {past : List (Moment (LogBatch γ))}

/-- Every batch has arrived with its own range. -/
def Own (past : List (Moment (LogBatch γ))) : Prop :=
  ∀ a ∈ arrivals past, a.1.start = a.2.start ∧ a.1.stop = a.2.stop

/-- The commands that the turns so far have applied, in the order of their application. -/
def applied (past : List (Moment (LogBatch γ))) : List γ := (turns past).flatMap (·.batch.commands)

theorem Own.start_le_stop (h : Own past) {a : Slot × LogBatch γ} (ha : a ∈ arrivals past) : a.1.start ≤ a.1.stop := by
  rw [(h a ha).1, (h a ha).2]
  exact a.2.start_le_stop

theorem Own.of_append {more : List (Moment (LogBatch γ))} (h : Own (past ++ more)) : Own past := by
  intro a ha
  exact h a (by simp [ha])

end Batches

end SeriesRegion.Sequencer
