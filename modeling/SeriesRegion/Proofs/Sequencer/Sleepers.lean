import SeriesRegion.Proofs.Sequencer.Run

/-!
# Sleepers

Whoever is asleep has tested in vain whether it is its turn, and whatever gives it the turn afterwards signals all
sleepers: a turn of another, a new cursor, or an arrival that fills the buffer behind an older batch.  So it is never a
sleeper's turn (`Run.asleep_idle`), and whose turn it is takes it as soon as it holds the lock (`Run.resume_of_turn`).
-/

namespace SeriesRegion.Sequencer

variable {β : Type} {capacity : Nat} {past : List (Moment β)} {q q' : Sequencer β} {e : Event β}

theorem awake_of_mem_signalAll {cs : List (Caller β)} {c : Caller β} (h : c ∈ signalAll cs) : c.wait ≠ .asleep := by
  obtain ⟨d, -, rfl⟩ := List.mem_map.1 h
  unfold Caller.signal
  cases hw : d.wait <;> simp [hw]

theorem signalled_of_mem_signalAll {cs : List (Caller β)} (h : ∀ c ∈ cs, c.wait ≠ .expired) :
    ∀ c ∈ signalAll cs, c.wait = .signalled := by
  intro c hc
  obtain ⟨d, hd, rfl⟩ := List.mem_map.1 hc
  unfold Caller.signal
  cases hw : d.wait with
  | asleep => rfl
  | signalled => exact hw
  | expired => exact absurd hw (h d hd)

theorem asleep_of_isQuiet (h : q.isQuiet) : ∀ c ∈ q.callers, c.wait = .asleep := by
  intro c hc
  exact of_decide_eq_true (List.all_eq_true.1 h c hc)

/-- Who sleeps through an arrival slept before, and the arrival has not filled the buffer behind an older batch. -/
theorem asleep_of_mem_alerted {start stop : UInt64} {c : Caller β} (h : c ∈ q.alerted start stop)
    (hw : c.wait = .asleep) : c ∈ q.callers ∧
      ¬ ((q.buffer.enter start stop).isFull ∧ (q.buffer.enter start stop).oldest? ≠ some start) := by
  unfold alerted at h
  split at h
  · exact absurd hw (awake_of_mem_signalAll h)
  · rename_i hfull
    exact ⟨h, hfull⟩

/-- It is no sleeper's turn. -/
theorem Run.asleep_idle (run : Run capacity past q) {c : Caller β} (hc : c ∈ q.callers) (hw : c.wait = .asleep) :
    q.buffer.turn? c.slot = none := by
  induction run generalizing c with
  | start => cases hc
  | @step past q q' e turn run h ih =>
    cases stepped_of_step h with
    | @parks start stop batch idle =>
      rcases List.mem_append.1 hc with hc | hc
      · obtain ⟨hmem, hquiet⟩ := asleep_of_mem_alerted hc hw
        obtain ⟨hcursor, -⟩ := Buffer.turn?_eq_none.1 (ih hmem hw)
        obtain ⟨-, hforced⟩ := Buffer.turn?_eq_none.1 idle
        -- Had the arrival filled the buffer, the oldest batch would be the new one, which would not have parked, or it
        -- would be another, and all sleepers would have been signalled.
        have hroom : (q.buffer.enter start stop).isFull ≠ true := by
          intro hfull
          by_cases hold : (q.buffer.enter start stop).oldest? = some start
          · exact hforced ⟨hold, hfull⟩
          · exact hquiet ⟨hfull, hold⟩
        exact Buffer.turn?_eq_none.2 ⟨hcursor, fun hfull => hroom hfull.2⟩
      · cases List.mem_singleton.1 hc
        exact idle
    -- Every turn ends with a signal to all, and nobody is asleep after one.
    | enters turn => exact absurd hw (awake_of_mem_signalAll hc)
    | proceeds mem awake turn => exact absurd hw (awake_of_mem_signalAll hc)
    | @sleeps d mem awake idle =>
      obtain ⟨c, hmem, rfl⟩ := List.mem_map.1 hc
      unfold lieDown at hw ⊢
      by_cases ht : c.slot.ticket = d.slot.ticket
      · cases run.caller_unique hmem mem ht
        rw [if_pos rfl]
        exact idle
      · rw [if_neg ht] at hw ⊢
        exact ih hmem hw
    | timesOut mem expired undisturbed => exact absurd hw (awake_of_mem_signalAll hc)
    | @expires d mem asleep =>
      obtain ⟨c, hmem, rfl⟩ := List.mem_map.1 hc
      unfold runOut at hw ⊢
      by_cases ht : c.slot.ticket = d.slot.ticket
      · rw [if_pos ht] at hw
        cases hw
      · rw [if_neg ht] at hw ⊢
        exact ih hmem hw
    | seeds index => exact absurd hw (awake_of_mem_signalAll hc)
    | interrupts => exact absurd hw (awake_of_mem_signalAll hc)

/-- No sleeper starts at the cursor. -/
theorem Run.asleep_not_due (run : Run capacity past q) {c : Caller β} (hc : c ∈ q.callers) (hw : c.wait = .asleep) :
    q.buffer.cursor ≠ some c.slot.start :=
  (Buffer.turn?_eq_none.1 (run.asleep_idle hc hw)).1

/-- A waiting batch whose turn it is has it as soon as it holds the lock. -/
theorem Run.resume_of_turn (run : Run capacity past q) {c : Caller β} (hc : c ∈ q.callers)
    (h : (q.buffer.turn? c.slot).isSome) :
    ∃ t q', q.step (.resume c.slot.ticket) = some (q', some t) ∧ t.slot = c.slot := by
  obtain ⟨⟨admission, b⟩, hturn⟩ := Option.isSome_iff_exists.1 h
  cases hw : c.wait with
  | asleep =>
    rw [run.asleep_idle hc hw] at hturn
    cases hturn
  | signalled => exact ⟨_, _, run.step_of_stepped (.proceeds hc (.inl hw) hturn), rfl⟩
  | expired =>
    by_cases he : c.epoch = q.buffer.epoch
    · exact ⟨_, _, run.step_of_stepped (.timesOut hc hw he), rfl⟩
    · exact ⟨_, _, run.step_of_stepped (.proceeds hc (.inr ⟨hw, he⟩) hturn), rfl⟩

/-- No wake-up is lost: who is asleep neither starts at the cursor nor is the oldest of a full buffer, so whoever waits
while one of the two holds of it is off the queue, and its next step is its turn. -/
theorem Run.no_lost_wakeup (run : Run capacity past q) {c : Caller β} (hc : c ∈ q.callers) :
    (c.wait = .asleep → q.buffer.cursor ≠ some c.slot.start ∧
      ¬ (q.pending = q.buffer.capacity ∧ q.buffer.oldest? = some c.slot.start)) ∧
    (q.buffer.cursor = some c.slot.start ∨
        (q.pending = q.buffer.capacity ∧ q.buffer.oldest? = some c.slot.start) →
      ∃ t q', q.step (.resume c.slot.ticket) = some (q', some t) ∧ t.slot = c.slot) := by
  constructor
  · intro hw
    obtain ⟨hcursor, hforced⟩ := Buffer.turn?_eq_none.1 (run.asleep_idle hc hw)
    exact ⟨hcursor, fun h => hforced ⟨h.2, Buffer.isFull_iff.2 h.1⟩⟩
  · intro h
    refine run.resume_of_turn hc (Option.isSome_iff_ne_none.2 fun hnone => ?_)
    obtain ⟨hcursor, hforced⟩ := Buffer.turn?_eq_none.1 hnone
    rcases h with h | h
    · exact hcursor h
    · exact hforced ⟨h.2, Buffer.isFull_iff.2 h.1⟩

/-- Three batches crowd a buffer of two.  The first goes to sleep again, since the buffer is more than full; then the
cursor is set to its start, it has its turn, and the last one tests in vain while the buffer is full. -/
def crowded : List (Event String) :=
  [.arrive 5 5 "first", .arrive 6 6 "second", .arrive 7 7 "third", .resume 0, .seed 5, .resume 0, .resume 2]

/-- The third batch sleeps in a full buffer, and the second, which the cursor has come to, has the next turn. -/
theorem no_lost_wakeup_crowded :
    (∃ c ∈ (history 2 crowded).2.callers, c.wait = .asleep ∧ (history 2 crowded).2.pending = 2 ∧
      (history 2 crowded).2.buffer.cursor ≠ some c.slot.start) ∧
    ∃ t q', (history 2 crowded).2.step (.resume 1) = some (q', some t) ∧ t.slot = ⟨6, 1, 6⟩ := by
  have hthird : (⟨⟨7, 2, 7⟩, "third", 0, .asleep⟩ : Caller String) ∈ (history 2 crowded).2.callers := by decide +kernel
  have hsecond : (⟨⟨6, 1, 6⟩, "second", 0, .signalled⟩ : Caller String) ∈ (history 2 crowded).2.callers := by
    decide +kernel
  have hcursor : (history 2 crowded).2.buffer.cursor = some 6 := by decide +kernel
  refine ⟨⟨_, hthird, rfl, by decide +kernel, ?_⟩, ?_⟩
  · exact (((Run.history 2 crowded).no_lost_wakeup hthird).1 rfl).1
  · exact ((Run.history 2 crowded).no_lost_wakeup hsecond).2 (.inl hcursor)

end SeriesRegion.Sequencer
