import SeriesRegion.Proofs.Sequencer.Sleepers

/-!
# Between the end of a window and the lock

When the window of a sleeper ends it is not the turn of its batch, for no sleeper starts at the cursor.  But the caller
goes on only once it holds the lock, and does not look at the cursor again.  Whoever held the lock in between may have
moved the cursor, and if the last move was to the start of that batch then it times out in its turn: it is applied, its
slot stays taken and the cursor stays where it is (`Run.timedOut_at_cursor_iff`).
-/

namespace SeriesRegion.Sequencer

variable {β : Type} {capacity : Nat} {past : List (Moment β)} {q q' : Sequencer β} {e : Event β}

/-- The position that the cursor is moved to at a moment, if it is: it is set, or a batch has its turn in time. -/
def Moment.move? (m : Moment β) : Option UInt64 :=
  match m.turn with
  | none => m.seed?
  | some t => if t.admission = .timedOut then none else some (positionAfter t.slot.stop)

def lastMove (ms : List (Moment β)) : Option UInt64 := (ms.filterMap Moment.move?).getLast?

theorem lastMove_concat (ms : List (Moment β)) (m : Moment β) :
    lastMove (ms ++ [m]) = (m.move? <|> lastMove ms) := by
  unfold lastMove
  rw [List.filterMap_append, List.getLast?_append]
  cases h : m.move? <;> simp [h]

private theorem move?_of_turn {m : Moment β} {t : Turn β} (hm : m.turn = some t) (ht : t.admission ≠ .timedOut) :
    m.move? = some (positionAfter t.slot.stop) := by
  simp [Moment.move?, hm, ht]

theorem Stepped.cursor_eq {turn : Option (Turn β)} (h : Stepped q e turn q') :
    q'.buffer.cursor = (Moment.move? ⟨q, e, turn, q'⟩ <|> q.buffer.cursor) := by
  cases h with
  | enters turn =>
    rw [move?_of_turn rfl (Buffer.turn?_ne_timedOut turn)]
    exact (Buffer.turn?_frame turn).2.2.2.1
  | proceeds mem awake turn =>
    rw [move?_of_turn rfl (Buffer.turn?_ne_timedOut turn)]
    exact (Buffer.turn?_frame turn).2.2.2.1
  | _ => rfl

/-! ### Ended windows -/

private theorem expired_of_signalAll {cs : List (Caller β)} {c : Caller β} (h : c ∈ signalAll cs)
    (hw : c.wait = .expired) : c ∈ cs := by
  obtain ⟨d, hd, rfl⟩ := List.mem_map.1 h
  unfold Caller.signal at hw ⊢
  cases hwd : d.wait <;> simp only [hwd] at hw ⊢
  · cases hw
  · cases hw
  · exact hd

private theorem expired_of_alerted {start stop : UInt64} {c : Caller β} (h : c ∈ q.alerted start stop)
    (hw : c.wait = .expired) : c ∈ q.callers := by
  unfold alerted at h
  split at h
  · exact expired_of_signalAll h hw
  · exact h

private theorem expired_of_without {cs : List (Caller β)} {ticket : Nat} {c : Caller β}
    (h : c ∈ signalAll (without cs ticket)) (hw : c.wait = .expired) : c ∈ cs ∧ c.slot.ticket ≠ ticket := by
  have hmem := List.mem_filter.1 (expired_of_signalAll h hw)
  exact ⟨hmem.1, by simpa using hmem.2⟩

private theorem resume_ne {n k : Nat} (h : k ≠ n) : (Event.resume n : Event β) ≠ .resume k := by
  intro he
  injection he with he
  exact h he.symm

/-- Whose window has ended after a step had it end before and did not go on, or slept until the step. -/
theorem Stepped.expired {turn : Option (Turn β)} (h : Stepped q e turn q') (run : Run capacity past q)
    {c : Caller β} (hc : c ∈ q'.callers) (hw : c.wait = .expired) :
    (c ∈ q.callers ∧ e ≠ .resume c.slot.ticket) ∨
      (e = .expire c.slot.ticket ∧ turn = none ∧ ∃ d ∈ q.callers, d.wait = .asleep ∧ d.slot = c.slot) := by
  cases h with
  | parks idle =>
    left
    rcases List.mem_append.1 hc with hc | hc
    · exact ⟨expired_of_alerted hc hw, by simp⟩
    · cases List.mem_singleton.1 hc
      cases hw
  | enters turn => exact .inl ⟨expired_of_alerted (expired_of_signalAll hc hw) hw, by simp⟩
  | proceeds mem awake turn =>
    obtain ⟨hmem, hne⟩ := expired_of_without hc hw
    exact .inl ⟨hmem, resume_ne hne⟩
  | @sleeps d mem awake idle =>
    left
    obtain ⟨c, hmem, rfl⟩ := List.mem_map.1 hc
    unfold lieDown at hw ⊢
    by_cases ht : c.slot.ticket = d.slot.ticket
    · rw [if_pos ht] at hw
      cases hw
    · rw [if_neg ht]
      exact ⟨hmem, resume_ne ht⟩
  | timesOut mem expired undisturbed =>
    obtain ⟨hmem, hne⟩ := expired_of_without hc hw
    exact .inl ⟨hmem, resume_ne hne⟩
  | @expires d mem asleep =>
    obtain ⟨c, hmem, rfl⟩ := List.mem_map.1 hc
    unfold runOut at hw ⊢
    by_cases ht : c.slot.ticket = d.slot.ticket
    · right
      cases run.caller_unique hmem mem ht
      rw [if_pos rfl]
      exact ⟨rfl, rfl, d, mem, asleep, rfl⟩
    · left
      rw [if_neg ht]
      exact ⟨hmem, by simp⟩
  | seeds index => exact .inl ⟨expired_of_signalAll hc hw, by simp⟩
  | interrupts => exact .inl ⟨expired_of_signalAll hc hw, by simp⟩

/-- The window of the batch at a slot ended while it slept, not at the cursor, and it has not gone on since. -/
structure EndedBefore (n : Moment β) (s : Slot) (between : List (Moment β)) : Prop where
  event : n.event = .expire s.ticket
  slept : ∃ c ∈ n.before.callers, c.wait = .asleep ∧ c.slot = s
  notDue : n.before.buffer.cursor ≠ some s.start
  waits : ∀ k ∈ between, k.event ≠ .resume s.ticket

/-- Since the window of a caller ended, the cursor has not moved but by what happened in between. -/
theorem Run.ended (run : Run capacity past q) {c : Caller β} (hc : c ∈ q.callers) (hw : c.wait = .expired) :
    ∃ before n between, past = before ++ n :: between ∧ EndedBefore n c.slot between ∧
      q.buffer.cursor = (lastMove between <|> n.before.buffer.cursor) := by
  induction run generalizing c with
  | start => cases hc
  | @step past q q' e turn run h ih =>
    have hstepped := stepped_of_step h
    -- The window ended at this step, or it had ended before and the caller did not go on.
    rcases hstepped.expired run hc hw with ⟨hold, hne⟩ | ⟨he, hturn, d, hd, hasleep, hslot⟩
    · obtain ⟨before, n, between, hpast, hended, hcursor⟩ := ih hold hw
      refine ⟨before, n, between ++ [⟨q, e, turn, q'⟩], ?_, ?_, ?_⟩
      · rw [hpast]
        simp
      · refine ⟨hended.event, hended.slept, hended.notDue, ?_⟩
        intro k hk
        rcases List.mem_append.1 hk with hk | hk
        · exact hended.waits k hk
        · cases List.mem_singleton.1 hk
          exact hne
      · rw [lastMove_concat, hstepped.cursor_eq, hcursor]
        cases Moment.move? ⟨q, e, turn, q'⟩ <;> rfl
    · subst hturn he
      have hnot := run.asleep_not_due hd hasleep
      rw [hslot] at hnot
      exact ⟨past, _, [], rfl, ⟨rfl, ⟨d, hd, hasleep, hslot⟩, hnot, by simp⟩, hstepped.cursor_eq⟩

theorem Stepped.timedOut {t : Turn β} (h : Stepped q e (some t) q') (ht : t.admission = .timedOut) :
    (∃ c ∈ q.callers, c.wait = .expired ∧ c.slot = t.slot) ∧ q'.buffer = q.buffer := by
  cases h with
  | enters turn => exact absurd ht (Buffer.turn?_ne_timedOut turn)
  | proceeds mem awake turn => exact absurd ht (Buffer.turn?_ne_timedOut turn)
  | timesOut mem expired undisturbed => exact ⟨⟨_, mem, expired, rfl⟩, rfl⟩

/-- A batch that times out does so in its turn exactly if, since its window ended, the cursor was last moved to its start.
Either way it was not its turn when the window ended, and the buffer stays as it is. -/
theorem Run.timedOut_at_cursor_iff {m : Moment β} {t : Turn β} (run : Run capacity (past ++ [m]) q)
    (hm : m.turn = some t) (ht : t.admission = .timedOut) :
    m.after.buffer = m.before.buffer ∧
      ∃ before n between, past = before ++ n :: between ∧ EndedBefore n t.slot between ∧
        (m.before.buffer.cursor = some t.slot.start ↔ lastMove between = some t.slot.start) := by
  generalize hpast : past ++ [m] = whole at run
  cases run with
  | start => simp at hpast
  | @step past' q q' e turn run h =>
    obtain ⟨rfl, hlast⟩ := List.append_inj' hpast rfl
    cases List.singleton_inj.1 hlast
    obtain rfl : turn = some t := hm
    obtain ⟨⟨c, hc, hw, hslot⟩, hbuffer⟩ := (stepped_of_step h).timedOut ht
    refine ⟨hbuffer, ?_⟩
    obtain ⟨before, n, between, hsplit, hended, hcursor⟩ := run.ended hc hw
    rw [hslot] at hended
    refine ⟨before, n, between, hsplit, hended, ?_⟩
    show q.buffer.cursor = _ ↔ _
    -- Without a move in between the cursor is where it was when the window ended, which was not at the start.
    rw [hcursor]
    cases lastMove between with
    | none =>
      constructor
      · intro h
        exact absurd h hended.notDue
      · intro h
        cases h
    | some index => exact Iff.rfl

/-- The window of a batch ends, its predecessor arrives and has its turn, and only then does the batch go on. -/
def overtaken : List (Event String) := [.seed 0, .arrive 1 1 "second", .expire 0, .arrive 0 0 "first"]

/-- The second batch times out although the cursor is at its start, to which it was moved after the window had ended, and there
the cursor stays. -/
theorem timedOut_at_cursor_overtaken :
    ∃ (t : Turn String) (q' : Sequencer String), (history 5 overtaken).2.step (.resume 0) = some (q', some t) ∧
      t.admission = .timedOut ∧ (history 5 overtaken).2.buffer.cursor = some t.slot.start ∧
      q'.buffer.cursor = some t.slot.start ∧
      ∃ before n between, (history 5 overtaken).1 = before ++ n :: between ∧ EndedBefore n t.slot between ∧
        lastMove between = some t.slot.start := by
  have hstep : (history 5 overtaken).2.step (.resume 0) =
      some (⟨⟨5, [⟨1, 0, 1⟩], some 1, 2, 0⟩, []⟩, some ⟨⟨1, 0, 1⟩, "second", .timedOut, 1⟩) := by decide +kernel
  have hcursor : (history 5 overtaken).2.buffer.cursor = some 1 := by decide +kernel
  obtain ⟨-, before, n, between, hpast, hended, hiff⟩ :=
    ((Run.history 5 overtaken).step hstep).timedOut_at_cursor_iff rfl rfl
  exact ⟨_, _, hstep, rfl, hcursor, rfl, before, n, between, hpast, hended, hiff.1 hcursor⟩

end SeriesRegion.Sequencer
