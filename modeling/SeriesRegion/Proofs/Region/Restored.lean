import SeriesRegion.Proofs.Region.Chosen
import SeriesRegion.Proofs.Region.Loaded
import SeriesRegion.Proofs.Snapshot.Held

/-!
# Opening a region on a table that was written

What is written as the checkpoint of a generation is opened only if the directory names no later generation, and under the
entries of a log of the generation if there is one (`Region.restored_iff`).
-/

namespace SeriesRegion

namespace Region

variable {storageGroup : String} {id : UInt32} {dir : Path} {syncWal : Bool} {g : UInt64} {table : MemTable} {t : Trail}
  {r : Region} {d d' d₁ d₂ : Disk}

namespace Checkpointed

theorem isSome_checkpoint (h : Checkpointed dir g table t d₁ d₂) :
    (d₂.node? t.here (Generation.checkpointName g)).isSome := by
  obtain ⟨f, hf, -⟩ := h.checkpoint
  rw [hf]
  rfl

/-- The draft belongs to no generation and the checkpoint to its own, so that no later one is named than before. -/
theorem isLast_iff (h : Checkpointed dir g table t d₁ d₂) :
    Generation.IsLast g d₂ t.here ↔ Generation.IsLast g d₁ t.here := by
  have hothers : ∀ {x l}, Generation.Spells x l → x = Generation.checkpointName g ∧ l = g ∨
      d₂.node? t.here x = d₁.node? t.here x := by
    intro x l hl
    rw [← Generation.ofName?_eq_some_iff] at hl
    by_cases hx : x = Generation.checkpointName g
    · rw [hx, Generation.ofName?_checkpointName] at hl
      exact .inl ⟨hx, (Option.some.inj hl).symm⟩
    · exact .inr (h.others x hx (Generation.draftName_ne_of_ofName? hl))
  constructor
  · intro hlast x l hx hl
    obtain ⟨-, rfl⟩ | hsame := hothers hl
    · exact UInt64.le_refl l
    · exact hlast x l (hsame ▸ hx) hl
  · intro hlast x l hx hl
    obtain ⟨-, rfl⟩ | hsame := hothers hl
    · exact UInt64.le_refl l
    · exact hlast x l (hsame ▸ hx) hl

/-- The log of the generation is left as it is. -/
theorem entriesAt_log (h : Checkpointed dir g table t d₁ d₂) :
    d₂.entriesAt t.here (Generation.logName g) = d₁.entriesAt t.here (Generation.logName g) := by
  have hdraft := Generation.draftName_ne_of_ofName? (Generation.ofName?_logName g) (g := g)
  have hnode := h.others _ (Generation.checkpointName_ne_logName g g).symm hdraft
  rw [Disk.entriesAt, Disk.entriesAt, hnode]
  cases hn : d₁.node? t.here (Generation.logName g) with
  | none => rfl
  | some node =>
    cases node with
    | directory n => rfl
    | file f => simp only [h.contents _ f hdraft hn]

theorem image_eq (h : Checkpointed dir g table t d₁ d₂) (reads : Binary.Format.memTable.Reads table) :
    (readCheckpoint dir g).run.run d₂ = (.ok table, d₂) := by
  obtain ⟨f, hf, hbytes⟩ := h.checkpoint
  rw [run_readCheckpoint, Disk.find_child h.after (Generation.isPlain_checkpointName g) h.refusal, hf]
  simp only [hbytes, reads.decode]
  rfl

end Checkpointed

/-- A region that is opened on a table written as the checkpoint of a generation is of this generation and has this table if
and only if no name in the directory spells a later one, or the directory has the empty path and the generation is the first,
and the entries of a log of the generation change nothing.  Under a later generation the checkpoint is removed again. -/
theorem restored_iff (names : d.OneName) (fits : (Binary.Format.memTable.write table).length < UInt64.size)
    (h : (restore storageGroup id dir g table syncWal).run.run d = (.ok r, d')) :
    ∃ t d₁, d.makeDirectories dir = (.ok (), d₁) ∧ d₁.Leads dir t ∧
      (r.generation = g ∧ r.table = table ↔
        (if dir.isEmpty then g = 0 else Generation.IsLast g d₁ t.here) ∧
          table.applyAll (d₁.entriesAt t.here (Generation.logName g)) = table) ∧
      (r.generation ≠ g → dir.isEmpty = false →
        g < r.generation ∧ d'.node? t.here (Generation.checkpointName g) = none) := by
  obtain ⟨d₂, hwrite, hopen⟩ := restore_ok h
  obtain ⟨t, d₁, hmade, hcheckpointed⟩ := checkpointed_of_writeCheckpoint names hwrite
  have hmade₂ : d₂.makeDirectories dir = (.ok (), d₂) :=
    Disk.makeDirectories_of_leads hcheckpointed.after hcheckpointed.refusal
  have hname := Generation.ofName?_checkpointName g
  have hgeneration := generation_eq_iff hopen hmade₂ hcheckpointed.after hcheckpointed.isSome_checkpoint hname
  refine ⟨t, d₁, hmade, hcheckpointed.before, ?_, fun hne hwritten => ?_⟩
  · rw [hcheckpointed.isLast_iff] at hgeneration
    rw [← hgeneration]
    refine and_congr_right fun hg => ?_
    subst hg
    obtain ⟨image, hread, htable⟩ := table_of_openAt hopen hmade₂ hcheckpointed.after
    rw [hcheckpointed.image_eq (Binary.Format.memTable_roundTrips.reads fits)] at hread
    cases hread
    rw [htable, hcheckpointed.entriesAt_log]
  · have hle := le_generation_of_openAt hopen hmade₂ hcheckpointed.after hwritten hcheckpointed.isSome_checkpoint hname
    have hlt := UInt64.lt_of_le_of_ne hle hne.symm
    obtain ⟨f, hf, -⟩ := hcheckpointed.checkpoint
    have hdir := (Path.refusal?_of_child hcheckpointed.refusal).resolve_left (by simp [hwritten])
    exact ⟨hlt, node?_openAt hopen hmade₂ hcheckpointed.after hdir (Generation.isPlain_checkpointName g)
      hcheckpointed.refusal hf (Generation.isStale_of_lt hname hlt)⟩

/-- A table is restored into the generation whose log stands there, and the entries of the log come on top of it. -/
theorem restored_iff_beside : ∃ r d',
    (restore "g" 1 ⟨".", []⟩ 0 Snapshot.sampled.table false).run.run Snapshot.sampledBeside = (.ok r, d') ∧
      r.generation = 0 ∧ r.table ≠ Snapshot.sampled.table := by
  have hstanding := Snapshot.sampledBeside_standing_dot
  have hwritable : Writable ⟨".", []⟩ 0 (Snapshot.sampledBeside.makeDirectories ⟨".", []⟩).2 := by
    rw [hstanding.made]
    exact Snapshot.writable_beside _ _ _ hstanding.leads (by cbv) fun _ _ => .rfl
  have hreads := Binary.Format.memTable_roundTrips.reads Snapshot.sampled_fits
  have hended := (hstanding.openable.assures_restore (fun _ _ => trivial) (fun _ _ _ => trivial) hreads
    (fun hlt => absurd hlt (UInt64.lt_irrefl 0)) :
      (restore "g" 1 ⟨".", []⟩ 0 Snapshot.sampled.table false).run.Assures (fun _ => True) _ Snapshot.sampledBeside).of_run
  rcases hrestore : (restore "g" 1 ⟨".", []⟩ 0 Snapshot.sampled.table false).run.run Snapshot.sampledBeside with ⟨answer, d'⟩
  rw [hrestore] at hended
  cases answer with
  | error e => exact absurd hwritable hended.1
  | ok r =>
    obtain ⟨t, d₁, hmade, hl, hiff, -⟩ := restored_iff hstanding.names Snapshot.sampled_fits hrestore
    obtain rfl : Snapshot.sampledBeside = d₁ := congrArg Prod.snd (hstanding.made.symm.trans hmade)
    obtain rfl : t = ⟨1, [0]⟩ := Except.ok.inj (hl.symm.trans hstanding.leads)
    have hentries : Snapshot.sampledBeside.entriesAt 1 (Generation.logName 0) = [Snapshot.elsewhere] := by
      obtain ⟨hn, hempty⟩ | ⟨f, hf, -, hscan⟩ := hstanding.log
      · cases hempty
      · rw [Disk.entriesAt, hf]
        exact hscan
    have hgeneration : r.generation = 0 := by
      obtain ⟨-, ⟨file, rfl⟩, -⟩ := hended
      simp [Basis.overlay]
    have hmixed : (Snapshot.sampled.table.applyAll [Snapshot.elsewhere]).pointCount = 2 ∧
        Snapshot.sampled.table.pointCount = 1 := by
      constructor <;> cbv
    refine ⟨r, d', rfl, hgeneration, fun htable => ?_⟩
    have hsame := (hiff.1 ⟨hgeneration, htable⟩).2
    rw [hentries] at hsame
    rw [hsame, hmixed.2] at hmixed
    exact absurd hmixed.1 (by decide)

end Region

end SeriesRegion
