import SeriesRegion.Sequencer.Callers

/-!
# Schedules

Ways to let the callers at a sequencer go on.  `settle` lets the signalled callers take their steps, those that came
first before the others, until all are asleep; `outwait` lets the window of the first sleeper end as often as there are
sleepers; `deliver` lets a caller arrive and `call` waits until it has had its turn, while nobody else arrives.

Whoever has a turn signals all others, and who tests in vain only goes back to sleep.  So a schedule need not follow
each vain test: it goes from turn to turn, and in the end those still signalled lie down together.
-/

namespace SeriesRegion.Sequencer

variable {β : Type}

/-- The first signalled caller whose turn it is. -/
def ready? (q : Sequencer β) : Option (Caller β) :=
  q.callers.find? fun c => c.wait = .signalled && (q.buffer.turn? c.slot).isSome

/-- The signalled callers go back to sleep. -/
def sleepAgain (q : Sequencer β) : Sequencer β :=
  { q with callers := q.callers.map fun c =>
      if c.wait = .signalled then { c with epoch := q.buffer.epoch, wait := .asleep } else c }

theorem length_without_lt {cs : List (Caller β)} {c : Caller β} (h : c ∈ cs) :
    (without cs c.slot.ticket).length < cs.length := by
  unfold without
  rw [List.length_filter_lt_length_iff_exists]
  exact ⟨c, h, by simp⟩

private theorem retest_decreases {q : Sequencer β} {c : Caller β} (h : q.ready? = some c) :
    (q.retest c).1.callers.length < q.callers.length := by
  have hc : c ∈ q.callers := List.mem_of_find?_eq_some h
  have ht := List.find?_some h
  unfold retest
  split
  · simpa [signalAll] using length_without_lt hc
  · rename_i hn
    simp [hn] at ht

/-- Lets signalled callers have their turns until it is nobody's turn; `turns` holds those had before, the last first. -/
def settleOnto (q : Sequencer β) (turns : List (Turn β)) : Sequencer β × List (Turn β) :=
  match h : q.ready? with
  | none => (q.sleepAgain, turns.reverse)
  | some c =>
    have := retest_decreases h
    settleOnto (q.retest c).1 ((q.retest c).2.toList ++ turns)
  termination_by q.callers.length

/-- Lets signalled callers take their steps until all are asleep, and gives the turns in the order in which they were
had. -/
def settle (q : Sequencer β) : Sequencer β × List (Turn β) := q.settleOnto []

theorem settleOnto_eq (q : Sequencer β) (turns : List (Turn β)) :
    q.settleOnto turns = (q.settle.1, turns.reverse ++ q.settle.2) := by
  induction h : q.callers.length using Nat.strongRecOn generalizing q turns with
  | _ n ih =>
    rw [settle, settleOnto, settleOnto]
    split
    · simp
    · rename_i c hc
      have := retest_decreases hc
      rw [ih _ (by omega) _ _ rfl, ih _ (by omega) _ ((q.retest c).2.toList ++ []) rfl]
      cases (q.retest c).2 <;> simp

/-- One turn comes after the other. -/
theorem settle_eq (q : Sequencer β) :
    q.settle =
      match q.ready? with
      | none => (q.sleepAgain, [])
      | some c => ((q.retest c).1.settle.1, (q.retest c).2.toList ++ (q.retest c).1.settle.2) := by
  rw [settle, settleOnto]
  split
  · rename_i h
    simp [h]
  · rename_i c h
    simp only [h]
    rw [settleOnto_eq]
    cases (q.retest c).2 <;> simp

/-- Lets the window of a sleeper end and the sleeper go on, then the others settle. -/
def outwaitOne (q : Sequencer β) (ticket : Nat) : Sequencer β × List (Turn β) :=
  match (q.expire ticket).bind fun q => q.resume ticket with
  | none => (q, [])
  | some (q, turn) =>
    let (q, turns) := q.settle
    (q, turn.toList ++ turns)

/-- Lets the windows of the first sleepers end one after the other, at most `count` times. -/
def outwait (q : Sequencer β) : (count : Nat) → Sequencer β × List (Turn β)
  | 0 => (q, [])
  | count + 1 =>
    match q.callers.head? with
    | none => (q, [])
    | some c =>
      let (q, turns) := q.outwaitOne c.slot.ticket
      let (q, more) := q.outwait count
      (q, turns ++ more)

/-- A caller arrives, and all settle. -/
def deliver (q : Sequencer β) (start stop : UInt64) (batch : β) : Sequencer β × List (Turn β) :=
  let (q, turn) := q.arrive start stop batch
  let (q, turns) := q.settle
  (q, turn.toList ++ turns)

/-- A caller arrives and waits until it has had its turn: all settle, and if it still waits then its window ends.  Gives
all turns had meanwhile; the caller's own is the one with the ticket drawn on arrival. -/
def call (q : Sequencer β) (start stop : UInt64) (batch : β) : Sequencer β × List (Turn β) :=
  let ticket := q.buffer.ticket
  let (q, turns) := q.deliver start stop batch
  let (q, more) := q.outwaitOne ticket
  (q, turns ++ more)

end SeriesRegion.Sequencer
