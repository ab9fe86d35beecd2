import SeriesRegion.Sequencer.Buffer

/-!
# Waiting for a turn

The callers that wait at a sequencing buffer, and the steps they take.  A caller that finds it is not its turn goes to
sleep.  A signal or the end of its window takes it off the queue of sleepers; only when it holds the lock again does it
go on, and other callers may have held the lock in between.  A caller that was signalled or interrupted tests again,
one whose window ended has its turn regardless, keeping its slot and leaving the cursor where it is.

The one who has a turn applies its batch and signals all sleepers before it gives up the lock, so a step and the turn it
grants are one.
-/

namespace SeriesRegion

/-- Whether a waiting caller is on the queue of sleepers, and if not, what took it off. -/
inductive Wait where
  | asleep
  | signalled
  | expired
  deriving DecidableEq, Repr

/-- A caller that waits: its slot, its batch, and the number of interruptions there were when it went to sleep. -/
structure Caller (β : Type) where
  slot : Slot
  batch : β
  epoch : UInt64
  wait : Wait
  deriving DecidableEq, Repr

/-- A turn: the batch to apply, how it was admitted, and how many slots stay taken meanwhile. -/
structure Turn (β : Type) where
  slot : Slot
  batch : β
  admission : Admission
  pending : Nat
  deriving DecidableEq, Repr

/-- A sequencing buffer with the callers waiting at it, in the order of their arrival. -/
structure Sequencer (β : Type) where
  buffer : Buffer
  callers : List (Caller β)
  deriving DecidableEq, Repr

def Caller.signal {β : Type} (c : Caller β) : Caller β :=
  match c.wait with
  | .asleep => { c with wait := .signalled }
  | _ => c

namespace Sequencer

variable {β : Type}

def new (capacity : Nat) : Sequencer β := ⟨.new capacity, []⟩

def signalAll (callers : List (Caller β)) : List (Caller β) := callers.map Caller.signal

def caller? (q : Sequencer β) (ticket : Nat) : Option (Caller β) := q.callers.find? (·.slot.ticket = ticket)

def without (callers : List (Caller β)) (ticket : Nat) : List (Caller β) :=
  callers.filter (·.slot.ticket ≠ ticket)

/-- A batch arrives: it takes a slot, signals the sleepers if that fills the buffer behind an older batch, and tests
whether it is its turn. -/
def arrive (q : Sequencer β) (start stop : UInt64) (batch : β) : Sequencer β × Option (Turn β) :=
  let slot := q.buffer.nextSlot start stop
  let b := q.buffer.enter start stop
  -- The oldest batch may be asleep, and a full buffer is its turn.
  let callers := if b.isFull ∧ b.oldest? ≠ some start then signalAll q.callers else q.callers
  match b.turn? slot with
  | some (admission, b') => (⟨b', signalAll callers⟩, some ⟨slot, batch, admission, b'.slots.length⟩)
  | none => (⟨b, callers ++ [⟨slot, batch, b.epoch, .asleep⟩]⟩, none)

/-- A caller off the queue tests whether it is its turn, and else goes back to sleep. -/
def retest (q : Sequencer β) (c : Caller β) : Sequencer β × Option (Turn β) :=
  match q.buffer.turn? c.slot with
  | some (admission, b) =>
    (⟨b, signalAll (without q.callers c.slot.ticket)⟩, some ⟨c.slot, c.batch, admission, b.slots.length⟩)
  | none =>
    (⟨q.buffer, q.callers.map fun d =>
      if d.slot.ticket = c.slot.ticket then { d with epoch := q.buffer.epoch, wait := .asleep } else d⟩, none)

/-- A caller off the queue holds the lock again.  There is no such step for a sleeper. -/
def resume (q : Sequencer β) (ticket : Nat) : Option (Sequencer β × Option (Turn β)) :=
  match q.caller? ticket with
  | none => none
  | some c =>
    match c.wait with
    | .asleep => none
    | .signalled => some (q.retest c)
    | .expired =>
      -- Where the cursor is now does not matter, even if it has moved since the window ended.
      if c.epoch = q.buffer.epoch then
        some (⟨q.buffer, signalAll (without q.callers ticket)⟩,
          some ⟨c.slot, c.batch, .timedOut, q.buffer.slots.length⟩)
      else some (q.retest c)

/-- The window of a sleeper ends. -/
def expire (q : Sequencer β) (ticket : Nat) : Option (Sequencer β) :=
  match q.caller? ticket with
  | none => none
  | some c =>
    if c.wait = .asleep then
      some { q with callers := q.callers.map fun d =>
        if d.slot.ticket = ticket then { d with wait := .expired } else d }
    else none

/-- Sets the cursor and signals all sleepers. -/
def seed (q : Sequencer β) (index : UInt64) : Sequencer β :=
  ⟨{ q.buffer with cursor := some index }, signalAll q.callers⟩

/-- Interrupts all sleepers: they will test again and go back to sleep. -/
def interrupt (q : Sequencer β) : Sequencer β :=
  ⟨{ q.buffer with epoch := q.buffer.epoch + 1 }, signalAll q.callers⟩

/-- What may happen at a sequencer. -/
inductive Event (β : Type) where
  | arrive (start stop : UInt64) (batch : β)
  | resume (ticket : Nat)
  | expire (ticket : Nat)
  | seed (index : UInt64)
  | interrupt

/-- One event, and the turn it grants; `none` if it cannot happen now. -/
def step (q : Sequencer β) : Event β → Option (Sequencer β × Option (Turn β))
  | .arrive start stop batch => some (q.arrive start stop batch)
  | .resume ticket => q.resume ticket
  | .expire ticket => (q.expire ticket).map fun q => (q, none)
  | .seed index => some (q.seed index, none)
  | .interrupt => some (q.interrupt, none)

def pending (q : Sequencer β) : Nat := q.buffer.slots.length

/-- Whether every waiting caller is asleep. -/
def isQuiet (q : Sequencer β) : Bool := q.callers.all (·.wait = .asleep)

end Sequencer

end SeriesRegion
