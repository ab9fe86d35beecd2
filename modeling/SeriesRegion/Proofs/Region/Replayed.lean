import SeriesRegion.Proofs.MemTable.Holds
import SeriesRegion.Proofs.Region.Opened
import Mathlib

/-!
# Replaying a log again

A log may be replayed over a table to which the first of its entries have been applied already, or all of them.  The table
then goes back to older values, since entries overwrite one another and have been overwritten by others.  But the last write
of each point is among the entries that are replayed, so that in the end it is as if each of them had been applied once
(`MemTable.applyAll_prefix`), and this is so however often the log is replayed (`Region.replayed_prefix`).
-/

namespace SeriesRegion

namespace MemTable

/-- Entries that are applied again, with others behind them, leave what they leave if all are applied once. -/
theorem applyAll_prefix (t : MemTable) (p q : List LogEntry) : (t.applyAll p).applyAll (p ++ q) = t.applyAll (p ++ q) := by
  rw [← applyAll_append]
  apply applyAll_eq_of_mem_iff
  case members =>
    intro e
    simp only [List.mem_append, or_self_left]
  case values =>
    intro x
    rw [lastWrite_append p, lastWrite_append p q, Option.or_assoc, Option.or_self]

theorem applyAll_self (t : MemTable) (es : List LogEntry) : (t.applyAll es).applyAll es = t.applyAll es := by
  simpa only [List.append_nil] using t.applyAll_prefix es []

end MemTable

theorem LogFile.cut_of_whole {log : LogFile} {d : Disk} {es : List LogEntry} (h : Log.Whole (d.bytesOf log.file) es) :
    log.cut d = d := by
  rw [cut, if_neg]
  rw [h]
  exact Nat.lt_irrefl _

namespace Region

variable {log : LogFile} {d : Disk} {t : MemTable} {es : List LogEntry}

/-- Replays a log a number of times. -/
def replayTimes (log : LogFile) : Nat → MemTable → FileWork RegionFault MemTable
  | 0, t => pure t
  | n + 1, t => do
    let t ← replayOver log t
    replayTimes log n t

/-- A table that its entries do not change is not changed by a log, however often this is replayed. -/
theorem run_replayTimes (whole : Log.Whole (d.bytesOf log.file) es) (held : t.applyAll es = t) (n : Nat) :
    (replayTimes log n t).run.run d = (.ok t, d) := by
  induction n with
  | zero => rfl
  | succ n ih =>
    have hreplay : (replayOver log t).run.run d = (.ok t, d) := by
      have hcut := LogFile.cut_of_whole whole
      rw [Log.Whole] at whole
      simp only [run_replayOver, whole, held, hcut]
    rw [replayTimes, FileWork.run_bind_ok hreplay, ih]

/-- Entries that have been applied and are applied again with others behind them leave what all of them leave that are applied
once, and entries that are applied again any number of times leave the table as it is.  So does a log that holds them, whose
incomplete frame at the end, if there is one, is cut off by the first replay. -/
theorem replayed_prefix (t : MemTable) (p q : List LogEntry) :
    (t.applyAll p).applyAll (p ++ q) = t.applyAll (p ++ q) ∧
    (∀ n, (fun u : MemTable => u.applyAll p)^[n] (t.applyAll p) = t.applyAll p) ∧
    ∀ (log : LogFile) (d : Disk), (Log.scan (d.bytesOf log.file)).fault = none →
      (Log.scan (d.bytesOf log.file)).entries = p ++ q →
      ∀ n, (replayTimes log (n + 1) (t.applyAll p)).run.run d = (.ok (t.applyAll (p ++ q)), log.cut d) := by
  refine ⟨t.applyAll_prefix p q, fun n => Function.iterate_fixed (t.applyAll_self p) n, ?_⟩
  intro log d readable entries n
  have hreplay : (replayOver log (t.applyAll p)).run.run d = (.ok (t.applyAll (p ++ q)), log.cut d) := by
    simp only [run_replayOver, readable, entries, t.applyAll_prefix]
  have hwhole : Log.Whole ((log.cut d).bytesOf log.file) (p ++ q) := entries ▸ LogFile.whole_cut readable
  rw [replayTimes, FileWork.run_bind_ok hreplay]
  exact run_replayTimes hwhole (t.applyAll_self (p ++ q)) n

def assign (index : UInt64) (v : Int64) : LogEntry := ⟨some index, .row ⟨"d", 0, ["m"], [.int64 v]⟩⟩

/-- A log of three writes of one point, with two bytes of a frame behind them, is replayed three times over what the first two
have made. -/
theorem replayed_prefix_torn :
    ∃ (log : LogFile) (d : Disk),
      d.bytesOf log.file = Log.framesOf [assign 5 1, assign 4 2, assign 3 3] ++ [1, 0] ∧
      (Log.scan (d.bytesOf log.file)).fault = none ∧
      (Log.scan (d.bytesOf log.file)).entries = [assign 5 1, assign 4 2] ++ [assign 3 3] ∧
      (replayTimes log 3 (.applyAll .empty [assign 5 1, assign 4 2])).run.run d =
        (.ok (.applyAll .empty [assign 5 1, assign 4 2, assign 3 3]), log.cut d) ∧
      (MemTable.empty.applyAll [assign 5 1, assign 4 2]).value ⟨"d", "m", 0⟩ = some (.int64 2) ∧
      (MemTable.empty.applyAll [assign 5 1, assign 4 2, assign 3 3]).value ⟨"d", "m", 0⟩ = some (.int64 3) := by
  let log : LogFile := ⟨⟨"", ["wal-0.log"]⟩, 0, false⟩
  let d := (Disk.new "home").append 0 (Log.framesOf [assign 5 1, assign 4 2, assign 3 3] ++ [1, 0])
  have hbytes : d.bytesOf log.file = Log.framesOf [assign 5 1, assign 4 2, assign 3 3] ++ [1, 0] := by
    rw [Disk.bytesOf_append, if_pos rfl]
    rfl
  have hfits : ∀ e ∈ [assign 5 1, assign 4 2, assign 3 3], Log.Fits e := by
    simp only [List.forall_mem_cons]
    refine ⟨?_, ?_, ?_, List.forall_mem_nil _⟩
    all_goals
      rw [Log.Fits]
      cbv
  have htorn : Log.scan [1, 0] = ⟨[], 0, none⟩ := by
    rw [Log.scan_eq]
    rfl
  have hscan := (Log.whole_framesOf hfits).scan_append [1, 0]
  rw [← hbytes, htorn] at hscan
  have hreadable : (Log.scan (d.bytesOf log.file)).fault = none := by rw [hscan]
  have hentries : (Log.scan (d.bytesOf log.file)).entries = [assign 5 1, assign 4 2] ++ [assign 3 3] := by rw [hscan]; rfl
  obtain ⟨-, -, hreplay⟩ := replayed_prefix .empty [assign 5 1, assign 4 2] [assign 3 3]
  refine ⟨log, d, hbytes, hreadable, hentries, hreplay log d hreadable hentries 2, ?_, ?_⟩
  · rw [MemTable.value_applyAll]
    decide
  · rw [MemTable.value_applyAll]
    decide

end Region

end SeriesRegion
