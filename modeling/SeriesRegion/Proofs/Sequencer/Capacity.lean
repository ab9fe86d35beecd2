import SeriesRegion.Proofs.Sequencer.Sleepers
import SeriesRegion.Proofs.Sequencer.Untimed

/-!
# More slots than the capacity

A buffer is full when exactly as many slots are taken as its capacity says.  Then it is the turn of the oldest batch
(`Run.oldest_turn`), which is not asleep; but until it holds the lock again another batch may arrive, and with one slot
more the buffer does not count as full.  The slots stay within the capacity exactly as long as no batch parks
at a full buffer (`Run.pending_le_capacity_iff`).  That is so if batches arrive only while all others sleep, none times
out and no two start at the same position.
-/

namespace SeriesRegion

theorem Buffer.length_of_turn? {b b' : Buffer} {s : Slot} {admission : Admission}
    (h : b.turn? s = some (admission, b')) (hs : s ∈ b.slots) : b'.slots.length < b.slots.length := by
  rcases Buffer.turn?_eq_some h with ⟨-, -, rfl⟩ | ⟨-, -, -, -, rfl⟩
  · exact List.length_filter_lt_length_iff_exists.2 ⟨s, hs, by simp⟩
  · have := List.length_pos_of_mem hs
    show (b.slots.drop 1).length < _
    rw [List.length_drop]
    omega

namespace Sequencer

variable {β : Type} {capacity : Nat} {past : List (Moment β)} {q q' : Sequencer β} {e : Event β}

/-- A batch arrives and has to wait. -/
def Moment.Parks (m : Moment β) : Prop := m.arrival?.isSome ∧ m.turn = none

/-! ### The number of slots -/

theorem Stepped.pending_parks {start stop : UInt64} {batch : β} (h : Stepped q (.arrive start stop batch) none q') :
    q'.pending = q.pending + 1 := by
  cases h with
  | parks idle => exact Buffer.length_enter _ _ _

/-- Only a batch that parks adds a slot. -/
theorem Stepped.pending_le {turn : Option (Turn β)} (h : Stepped q e turn q')
    (hparks : ¬ Moment.Parks ⟨q, e, turn, q'⟩) : q'.pending ≤ q.pending := by
  cases h with
  | parks idle => exact absurd ⟨rfl, rfl⟩ hparks
  | @enters start stop batch admission b turn =>
    -- The slot of the batch is taken and one is released.
    have hin : q.buffer.nextSlot start stop ∈ (q.buffer.enter start stop).slots :=
      (Buffer.place_perm _ _).mem_iff.2 (List.mem_cons_self ..)
    have hlt := Buffer.length_of_turn? turn hin
    rw [Buffer.length_enter] at hlt
    exact Nat.le_of_lt_succ hlt
  | proceeds mem awake turn => exact (Buffer.turn?_frame turn).2.2.2.2.length_le
  | sleeps mem awake idle => exact Nat.le_refl _
  | timesOut mem expired undisturbed => exact Nat.le_refl _
  | expires mem asleep => exact Nat.le_refl _
  | seeds index => exact Nat.le_refl _
  | interrupts => exact Nat.le_refl _

theorem Stepped.turn_pending {t : Turn β} (h : Stepped q e (some t) q') : t.pending = q'.pending := by
  cases h <;> rfl

theorem Run.pending_le (run : Run capacity past q)
    (hroom : ∀ m ∈ past, m.Parks → m.before.pending < max capacity 1) :
    q.pending ≤ max capacity 1 ∧ ∀ m ∈ past, m.after.pending ≤ max capacity 1 := by
  induction run with
  | start => exact ⟨Nat.zero_le _, by simp⟩
  | @step past q q' e turn run h ih =>
    obtain ⟨hbefore, hpast⟩ := ih fun m hm => hroom m (List.mem_append_left _ hm)
    have hstepped := stepped_of_step h
    have hafter : q'.pending ≤ max capacity 1 := by
      by_cases hparks : Moment.Parks ⟨q, e, turn, q'⟩
      · have hlt := hroom _ (List.mem_append_right _ (List.mem_singleton_self _)) hparks
        obtain ⟨harrival, rfl : turn = none⟩ := hparks
        cases e with
        | arrive start stop batch =>
          rw [hstepped.pending_parks]
          exact hlt
        | _ => cases harrival
      · exact Nat.le_trans (hstepped.pending_le hparks) hbefore
    refine ⟨hafter, ?_⟩
    intro m hm
    rcases List.mem_append.1 hm with hm | hm
    · exact hpast m hm
    · cases List.mem_singleton.1 hm
      exact hafter

/-! ### The oldest batch of a full buffer -/

/-- When as many slots are taken as the capacity says, no batch has timed out and batches came apart, the oldest batch is
waiting and it is its turn. -/
theorem Run.oldest_turn_of_apart (run : Run capacity past q) (untimed : Untimed past) (apart : Apart past)
    (hfull : q.pending = max capacity 1) :
    ∃ c ∈ q.callers, q.buffer.oldest? = some c.slot.start ∧ (q.buffer.turn? c.slot).isSome := by
  have hperm := run.slots_perm_of_apart apart
  rw [untimed.timeouts_eq, List.map_nil, List.append_nil] at hperm
  cases hslots : q.buffer.slots with
  | nil =>
    have hzero : q.pending = 0 := by rw [Sequencer.pending, hslots, List.length_nil]
    omega
  | cons s rest =>
    have hs : s ∈ (held q.callers).map (·.1) := by
      rw [← hperm.mem_iff, hslots]
      exact List.mem_cons_self ..
    unfold held at hs
    rw [List.map_map] at hs
    obtain ⟨c, hc, rfl⟩ := List.mem_map.1 hs
    have hold : q.buffer.oldest? = some c.slot.start := by
      unfold Buffer.oldest?
      rw [hslots]
      rfl
    refine ⟨c, hc, hold, Option.isSome_iff_ne_none.2 fun hnone => ?_⟩
    refine (Buffer.turn?_eq_none.1 hnone).2 ⟨hold, Buffer.isFull_iff.2 ?_⟩
    rw [run.capacity_eq]
    exact hfull

/-- So it is if no two batches start at the same position. -/
theorem Run.oldest_turn (run : Run capacity past q) (untimed : Untimed past) (distinct : Distinct past)
    (hfull : q.pending = max capacity 1) :
    ∃ c ∈ q.callers, q.buffer.oldest? = some c.slot.start ∧ (q.buffer.turn? c.slot).isSome :=
  run.oldest_turn_of_apart untimed (run.apart distinct) hfull

/-- No batch parks at a full buffer if batches arrive only while all others sleep. -/
theorem Run.room_of_quiet (run : Run capacity past q) (untimed : Untimed past) (distinct : Distinct past)
    (hquiet : ∀ m ∈ past, m.arrival?.isSome → m.before.isQuiet) :
    ∀ m ∈ past, m.Parks → m.before.pending < max capacity 1 := by
  induction run with
  | start => simp
  | @step past q q' e turn run h ih =>
    have hpast := ih untimed.of_append distinct.of_append fun m hm => hquiet m (List.mem_append_left _ hm)
    intro m hm hparks
    rcases List.mem_append.1 hm with hm | hm
    · exact hpast m hm hparks
    · cases List.mem_singleton.1 hm
      have hasleep := hquiet _ (List.mem_append_right _ (List.mem_singleton_self _)) hparks.1
      refine Nat.lt_of_le_of_ne (run.pending_le hpast).1 fun hfull => ?_
      obtain ⟨c, hc, -, hturn⟩ := run.oldest_turn untimed.of_append distinct.of_append hfull
      rw [run.asleep_idle hc (asleep_of_isQuiet hasleep c hc)] at hturn
      cases hturn

/-- The slots stay within the capacity exactly as long as no batch parks at a buffer that is full.  Without timeouts and
with distinct starts the oldest batch of a full buffer is awake and it is its turn; so no batch parks at a full buffer if
batches arrive only while all others sleep. -/
theorem Run.pending_le_capacity_iff (run : Run capacity past q) :
    ((∀ m ∈ past, m.after.pending ≤ max capacity 1 ∧ ∀ t, m.turn = some t → t.pending ≤ max capacity 1) ↔
      ∀ m ∈ past, m.Parks → m.before.pending < max capacity 1) ∧
    (Untimed past → Distinct past →
      (q.pending = max capacity 1 → ∃ c ∈ q.callers, q.buffer.oldest? = some c.slot.start ∧
        (q.buffer.turn? c.slot).isSome ∧ c.wait ≠ .asleep) ∧
      ((∀ m ∈ past, m.arrival?.isSome → m.before.isQuiet) →
        ∀ m ∈ past, m.Parks → m.before.pending < max capacity 1)) := by
  refine ⟨⟨?_, ?_⟩, fun untimed distinct => ⟨?_, run.room_of_quiet untimed distinct⟩⟩
  · intro h m hm hparks
    have hstepped := run.stepped_of_mem hm
    obtain ⟨before, event, turn, after⟩ := m
    have hle : after.pending ≤ max capacity 1 := (h _ hm).1
    obtain ⟨harrival, rfl : turn = none⟩ := hparks
    cases event with
    | arrive start stop batch =>
      have hmore : after.pending = before.pending + 1 := hstepped.pending_parks
      show before.pending < _
      omega
    | _ => cases harrival
  · intro h m hm
    have hle := (run.pending_le h).2 m hm
    refine ⟨hle, fun t ht => ?_⟩
    have hstepped := run.stepped_of_mem hm
    rw [ht] at hstepped
    rw [hstepped.turn_pending]
    exact hle
  · intro hfull
    obtain ⟨c, hc, hold, hturn⟩ := run.oldest_turn untimed distinct hfull
    refine ⟨c, hc, hold, hturn, fun hw => ?_⟩
    rw [run.asleep_idle hc hw] at hturn
    cases hturn

/-- The second batch fills the buffer and the first is signalled, but the third arrives before the first holds the lock
again. -/
def overrun : List (Event String) := [.arrive 5 5 "first", .arrive 6 6 "second", .arrive 7 7 "third", .resume 0]

/-- No batch has timed out and their starts differ, but there are three slots in a buffer of two, and the first batch has
gone back to sleep. -/
theorem pending_overrun :
    Untimed (history 2 overrun).1 ∧ Distinct (history 2 overrun).1 ∧ (history 2 overrun).2.pending = 3 ∧
      (history 2 overrun).2.isQuiet ∧
      ¬ ∀ m ∈ (history 2 overrun).1, m.after.pending ≤ 2 ∧ ∀ t, m.turn = some t → t.pending ≤ 2 := by
  refine ⟨by unfold Untimed; decide +kernel, by unfold Distinct; decide +kernel, by decide +kernel, by decide +kernel, ?_⟩
  intro hbound
  have hroom := (Run.history 2 overrun).pending_le_capacity_iff.1.1 hbound
  have hparks : ∃ m ∈ (history 2 overrun).1, m.arrival?.isSome ∧ m.turn = none ∧ m.before.pending = 2 := by
    decide +kernel
  obtain ⟨m, hm, harrival, hturn, hpending⟩ := hparks
  exact absurd (hroom m hm ⟨harrival, hturn⟩) (by rw [hpending]; decide)

end Sequencer

end SeriesRegion
