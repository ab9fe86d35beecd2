/-!
# The sequencing buffer

Batches of log positions may be delivered out of order.  Each takes a slot in the buffer and waits for its turn: a batch
that starts at the cursor goes in order, and when the buffer is full the oldest batch is forced.  Either way its slot is
released and the cursor moves past its end.

`Buffer` is what the buffer's lock protects; `Buffer.turn?` is the test a batch makes while it holds the lock.
-/

namespace SeriesRegion

/-- The place of a batch in the buffer: its range and the ticket it drew. -/
structure Slot where
  start : UInt64
  ticket : Nat
  stop : UInt64
  deriving DecidableEq, Repr

/-- Slots are ordered by the start of their batch, then by ticket. -/
def Slot.precedes (a b : Slot) : Bool := a.start < b.start || (a.start == b.start && a.ticket < b.ticket)

/-- How a batch got its turn. -/
inductive Admission where
  /-- The batch started at the cursor. -/
  | inOrder
  /-- The buffer was full and the batch was the oldest. -/
  | forced
  /-- The batch waited long enough. -/
  | timedOut
  deriving DecidableEq, Repr

def Admission.name : Admission → String
  | .inOrder => "InOrder"
  | .forced => "Forced"
  | .timedOut => "TimedOut"

/-- The position after a batch that ends at `stop`; the last position is followed by itself. -/
def positionAfter (stop : UInt64) : UInt64 := if stop = UInt64.ofNat (UInt64.size - 1) then stop else stop + 1

/-- The buffer: its capacity, the slots taken in ascending order, the start expected next if one is known, the ticket to
be drawn next, and the number of interruptions. -/
structure Buffer where
  capacity : Nat
  slots : List Slot
  cursor : Option UInt64
  ticket : Nat
  epoch : UInt64
  deriving DecidableEq, Repr

namespace Buffer

/-- The empty buffer; a capacity of zero is taken as one. -/
def new (capacity : Nat) : Buffer := ⟨max capacity 1, [], none, 0, 0⟩

/-- Puts a slot at its place. -/
def place (s : Slot) : List Slot → List Slot
  | [] => [s]
  | t :: rest => if s.precedes t then s :: t :: rest else t :: place s rest

def oldest? (b : Buffer) : Option UInt64 := b.slots.head?.map (·.start)

/-- Whether exactly as many slots are taken as the capacity says. -/
def isFull (b : Buffer) : Bool := b.slots.length == b.capacity

def nextSlot (b : Buffer) (start stop : UInt64) : Slot := ⟨start, b.ticket, stop⟩

def enter (b : Buffer) (start stop : UInt64) : Buffer :=
  { b with slots := place (b.nextSlot start stop) b.slots, ticket := b.ticket + 1 }

/-- Tests whether it is the turn of the batch at a slot, and if so releases a slot and moves the cursor past the batch.
A batch in order releases its own slot, a forced one the oldest. -/
def turn? (b : Buffer) (s : Slot) : Option (Admission × Buffer) :=
  if b.cursor = some s.start then
    some (.inOrder, { b with slots := b.slots.filter (· ≠ s), cursor := some (positionAfter s.stop) })
  else if b.oldest? = some s.start && b.isFull then
    -- Of two slots with the same start this may be the one of the other batch.
    some (.forced, { b with slots := b.slots.drop 1, cursor := some (positionAfter s.stop) })
  else none

end Buffer

end SeriesRegion
