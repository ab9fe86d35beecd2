import SeriesRegion.Request

/-!
# Batches for a replay

A replay plan cuts a range of log positions into batches of one span, with one row at each position, and delivers the
batches in a chosen order.
-/

namespace SeriesRegion

inductive DeliveryOrder where
  | inOrder
  | reverse
  /-- Neighbours swapped: 1, 0, 3, 2, … -/
  | interleaved
  deriving DecidableEq, Repr

def DeliveryOrder.name : DeliveryOrder → String
  | .inOrder => "InOrder"
  | .reverse => "Reverse"
  | .interleaved => "Interleaved"

/-- Swaps the members of consecutive pairs. -/
def swapPairs {α : Type} : List α → List α
  | a :: b :: rest => b :: a :: swapPairs rest
  | l => l

/-- The positions `0, …, count - 1` in the order of their delivery. -/
def DeliveryOrder.positions (order : DeliveryOrder) (count : Nat) : List Nat :=
  match order with
  | .inOrder => List.range count
  | .reverse => (List.range count).reverse
  | .interleaved => swapPairs (List.range count)

/-- What is replayed: how many batches, how many log positions in each, the first of them, how many devices are written
to, the order of delivery, and whether the cursor is set to the first position beforehand. -/
structure ReplayPlan where
  batches : Nat
  span : UInt64
  first : UInt64
  devices : Nat
  order : DeliveryOrder
  seeded : Bool
  deriving DecidableEq, Repr

namespace ReplayPlan

/-- The number of positions in each batch: at least one. -/
def width (p : ReplayPlan) : Nat := max p.span.toNat 1

/-- The row at a log position. -/
def rowAt (p : ReplayPlan) (index : UInt64) : Row where
  device := s!"root.replay.d{index.toNat % max p.devices 1}"
  time := index.toInt64
  measurements := ["value"]
  values := [.int64 index.toInt64]

/-- The request at a log position. -/
def requestAt (p : ReplayPlan) (index : UInt64) : IndexedRequest :=
  ⟨index, [.plan (.write (.row ⟨s!"replay-{index.toNat}", none, p.rowAt index⟩))]⟩

def batch (p : ReplayPlan) (position : Nat) : BatchRequest :=
  let start := p.first.toNat + position * p.width
  ⟨UInt64.ofNat start, UInt64.ofNat (start + p.width - 1),
    (List.range p.width).map fun i => p.requestAt (UInt64.ofNat (start + i))⟩

def deliveries (p : ReplayPlan) : List BatchRequest := (p.order.positions p.batches).map p.batch

end ReplayPlan

end SeriesRegion
