import SeriesRegion.Proofs.MemTable.LastWrite
import SeriesRegion.Proofs.Region.Applied
import SeriesRegion.Proofs.Request.Merged

/-!
# Applying merged commands

A merged command is applied as the commands that it is merged from, one after the other: what it leaves of the region and
on the disk is the same, and its report has their statuses (`Region.applyCommand_of_mergeCommands`).
-/

namespace SeriesRegion

namespace Status

/-- Statuses whose positions are in ascending order stay as they are. -/
theorem atPositions_of_pairwise {positions : List UInt64} {ss : List Status} (length : positions.length = ss.length)
    (ascending : positions.Pairwise (· ≤ ·)) : atPositions positions ss = ss := by
  have hpairs : (positions.zip ss).Pairwise fun a b => a.1 ≤ b.1 := by
    rw [← List.pairwise_map (f := Prod.fst), List.map_fst_zip (Nat.le_of_eq length)]
    exact ascending
  rw [atPositions, List.mergeSort_of_pairwise (hpairs.imp fun h => decide_eq_true h),
    List.map_snd_zip (Nat.le_of_eq length.symm)]

theorem pairwise_positions {n : Nat} (h : n ≤ UInt64.size) : ((List.range n).map UInt64.ofNat).Pairwise (· ≤ ·) := by
  rw [List.pairwise_map]
  refine List.pairwise_lt_range.imp_of_mem fun {i j} _ hj hij => ?_
  have hj : j < n := List.mem_range.1 hj
  rw [UInt64.le_iff_toNat_le, UInt64.toNat_ofNat_of_lt' (by omega), UInt64.toNat_ofNat_of_lt' (by omega)]
  omega

/-- The parts of a merged command that fails are the statuses of the commands that it is merged from. -/
theorem parts_ofGroup_range {ss : List Status} (h : ss.length ≤ UInt64.size) {n : Nat} (length : n = ss.length)
    (fails : ¬ (ofGroup ((List.range n).map UInt64.ofNat) ss).isSuccess) :
    (ofGroup ((List.range n).map UInt64.ofNat) ss).parts = ss := by
  have hparts : atPositions ((List.range n).map UInt64.ofNat) ss = ss :=
    atPositions_of_pairwise (by simp [length]) (pairwise_positions (length ▸ h))
  rw [isSuccess_ofGroup, ← failures_eq_zero] at fails
  rw [ofGroup, if_neg fails]
  exact hparts

end Status

namespace Merged

variable {cs : List Command} {c : Command}

/-- The status of a merged command is made of those of the commands that it is merged from. -/
theorem status_eq (h : Merged cs c) :
    c.status = .ofGroup ((List.range cs.length).map UInt64.ofNat) (cs.map Command.status) := by
  cases h <;> simp [Command.status, Group.under, insertStatuses, Function.comp_def]

end Merged

namespace Region

/-- Applies commands one after the other. -/
def applyEach (r : Region) (cs : List Command) : FileTask (Region × List Status) :=
  FileTask.gather (fun r c => r.applyCommand c) r cs

theorem applyEach_cons (r : Region) (c : Command) (cs : List Command) :
    r.applyEach (c :: cs) = do
      let (r, s) ← r.applyCommand c
      let (r, ss) ← r.applyEach cs
      return (r, s :: ss) := FileTask.gather_cons _ r c cs

theorem run_applyEach (r : Region) (cs : List Command) (d : Disk) :
    (r.applyEach cs).run d =
      (({ r with table := r.table.applyAll (accepted (cs.flatMap Command.entries)) }, cs.map Command.status),
        r.logAll d (accepted (cs.flatMap Command.entries))) := by
  induction cs generalizing r d with
  | nil => rfl
  | cons c cs ih =>
    rw [applyEach_cons, FileTask.run_bind, run_applyCommand]
    simp only
    rw [FileTask.run_bind, ih, List.flatMap_cons, accepted_append, logAll_append, MemTable.applyAll_append]
    rfl

/-- Commands can be merged if there is one, which stays as it is, or there are several that are all single rows or all
single tablets.  To apply what they are merged into is to apply them one after the other: the region and the files are left
the same, the status is a success if each of theirs is, and otherwise its parts are theirs.  Positions are machine words, so
this is said of no more commands than there are words. -/
theorem applyCommand_of_mergeCommands (cs : List Command) :
    ((∃ c, mergeCommands cs = .ok c) ↔ Mergeable cs) ∧ (∀ c, cs = [c] → mergeCommands cs = .ok c) ∧
    ∀ c, mergeCommands cs = .ok c → ∀ (r : Region) (d : Disk),
      let merged := (r.applyCommand c).run d
      let each := (r.applyEach cs).run d
      merged.1.1 = each.1.1 ∧ merged.2 = each.2 ∧ (merged.1.2.isSuccess ↔ ∀ s ∈ each.1.2, s.isSuccess) ∧
        (2 ≤ cs.length → cs.length ≤ UInt64.size → ¬ merged.1.2.isSuccess → merged.1.2.parts = each.1.2) := by
  refine ⟨mergeCommands_ok_iff, ?_, ?_⟩
  · rintro c rfl
    rfl
  · intro c h r d
    simp only [run_applyCommand, run_applyEach, mergeCommands_entries h]
    refine ⟨trivial, trivial, ?_⟩
    obtain rfl | h := mergeCommands_cases h
    · refine ⟨by simp, fun hlength => absurd hlength (by simp)⟩
    · rw [h.status_eq]
      refine ⟨Status.isSuccess_ofGroup, fun _ hlength hfails => ?_⟩
      exact Status.parts_ofGroup_range (by simpa using hlength) (by simp) hfails

/-- Rows of two devices at different log positions, of which the second has no measurement. -/
def mixedRows : List Command :=
  [.row ⟨"p", some 4, ⟨"d", 1, ["m"], [.int64 1]⟩⟩, .row ⟨"q", none, ⟨"e", 2, [], []⟩⟩,
    .row ⟨"r", some 9, ⟨"d", 3, ["m"], [.int64 3]⟩⟩]

/-- A row without a measurement does not keep the others from being merged and applied: these are logged with their positions,
and their points are in the table. -/
theorem applyCommand_of_mergeCommands_mixedRows :
    ∃ (c : Command) (r : Region), mergeCommands mixedRows = .ok c ∧ r.table = .empty ∧
      let merged := (r.applyCommand c).run (Disk.new "home")
      let each := (r.applyEach mixedRows).run (Disk.new "home")
      merged.1.1 = each.1.1 ∧ merged.2 = each.2 ∧ ¬ merged.1.2.isSuccess ∧ merged.1.2.parts = each.1.2 ∧
        each.1.2.map (·.isSuccess) = [true, false, true] ∧
        merged.2.bytesOf r.log.file =
          Log.framesOf [⟨some 4, .row ⟨"d", 1, ["m"], [.int64 1]⟩⟩, ⟨some 9, .row ⟨"d", 3, ["m"], [.int64 3]⟩⟩] ∧
        merged.1.1.table.value ⟨"d", "m", 1⟩ = some (.int64 1) ∧ merged.1.1.table.value ⟨"d", "m", 3⟩ = some (.int64 3) ∧
        merged.1.1.table.maxSearchIndex = some 9 := by
  obtain ⟨c, hmerge⟩ : ∃ c, mergeCommands mixedRows = .ok c := ⟨_, rfl⟩
  let r : Region := ⟨"g", 1, ⟨"", ["r"]⟩, 0, false, ⟨⟨"", ["r", "wal-0.log"]⟩, 0, false⟩, .empty⟩
  obtain ⟨hregion, hdisk, hsuccess, hparts⟩ := (applyCommand_of_mergeCommands mixedRows).2.2 c hmerge r (Disk.new "home")
  have hstatuses : ((r.applyEach mixedRows).run (Disk.new "home")).1.2.map (·.isSuccess) = [true, false, true] := by
    rw [run_applyEach]
    decide
  have hfails : ¬ ((r.applyCommand c).run (Disk.new "home")).1.2.isSuccess := by
    rw [hsuccess]
    intro hall
    have hmem : false ∈ ((r.applyEach mixedRows).run (Disk.new "home")).1.2.map (·.isSuccess) := by
      rw [hstatuses]
      decide
    obtain ⟨s, hs, hfalse⟩ := List.mem_map.1 hmem
    rw [hall s hs] at hfalse
    cases hfalse
  refine ⟨c, r, hmerge, rfl, hregion, hdisk, hfails, hparts (by decide) (by decide) hfails, hstatuses, ?_, ?_, ?_, ?_⟩
  · rw [hdisk, run_applyEach, bytesOf_logAll]
    rfl
  · rw [hregion, run_applyEach, MemTable.value_applyAll]
    decide
  · rw [hregion, run_applyEach, MemTable.value_applyAll]
    decide
  · rw [hregion, run_applyEach]
    decide

end Region

end SeriesRegion
