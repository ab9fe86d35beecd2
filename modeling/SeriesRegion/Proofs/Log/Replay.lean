import SeriesRegion.Proofs.Disk.Places
import SeriesRegion.Proofs.Disk.Work
import SeriesRegion.Proofs.Log.Frames

/-!
# Opening and replaying a log

Opening gives the file that the path leads to (`LogFile.run_openAt`).  A replay hands the entries that are read to the
handler, and cuts an incomplete frame off at the end (`LogFile.run_replay`), after which the log is whole
(`LogFile.whole_cut`).
-/

namespace SeriesRegion

/-- A handler that does not fail is handed all entries. -/
theorem Log.feed_eq {σ ε : Type} {handler : σ → LogEntry → σ × Option ε} (sound : ∀ s e, (handler s e).2 = none) (s : σ)
    (es : List LogEntry) : feed handler s es = (es.foldl (fun s e => (handler s e).1) s, none) := by
  induction es generalizing s with
  | nil => rfl
  | cons e es ih =>
    have he : handler s e = ((handler s e).1, none) := Prod.ext rfl (sound s e)
    rw [feed, he, List.foldl_cons]
    exact ih _

namespace LogFile

theorem run_openAt (p : Path) (sync : Bool) (d : Disk) : (LogFile.openAt p sync).run.run d =
    match d.openFile p with
    | (.ok f, d) => (.ok ⟨p, f, sync⟩, d)
    | (.error e, d) => (.error (.io e), d) := by
  have hopen := FileWork.run_attempt (α := Nat) (.perform (.openLog p)) LogFault.io d
  change _ = ((d.openFile p).1.mapError LogFault.io, (d.openFile p).2) at hopen
  rw [LogFile.openAt, FileWork.run_bind, hopen]
  rcases d.openFile p with ⟨answer, d'⟩
  cases answer with
  | error e => rfl
  | ok f => rfl

@[simp] theorem run_flush (l : LogFile) (d : Disk) : l.flush.run d = (.ok (), d) := by
  rw [flush]
  cases l.sync <;> rfl

/-- The disk after the incomplete frame at the end of a log has been cut off. -/
def cut (l : LogFile) (d : Disk) : Disk :=
  if (Log.scan (d.bytesOf l.file)).length < (d.bytesOf l.file).length
    then d.truncate l.file (Log.scan (d.bytesOf l.file)).length
    else d

theorem agreeBut_cut (l : LogFile) (d : Disk) : d.AgreeBut l.file (l.cut d) := by
  rw [cut]
  split
  · exact d.agreeBut_truncate _ _
  · exact .refl _ d

theorem bytesOf_cut (l : LogFile) (d : Disk) :
    (l.cut d).bytesOf l.file = (d.bytesOf l.file).take (Log.scan (d.bytesOf l.file)).length := by
  rw [cut]
  split
  · rw [Disk.bytesOf_truncate, if_pos rfl]
  · rename_i hall
    rw [List.take_of_length_le (Nat.not_lt.1 hall)]

theorem whole_cut {l : LogFile} {d : Disk} (h : (Log.scan (d.bytesOf l.file)).fault = none) :
    Log.Whole ((l.cut d).bytesOf l.file) (Log.scan (d.bytesOf l.file)).entries := by
  obtain ⟨front, torn, hbytes, hlength, hwhole, -⟩ := Log.scan_parts h
  have hfront : (d.bytesOf l.file).take front.length = front := by rw [hbytes, List.take_left]
  rwa [bytesOf_cut, ← hlength, hfront]

/-- A replay whose handler does not fail ends with what the handler makes of the entries that are read. -/
theorem run_replay {σ : Type} {l : LogFile} {handler : σ → LogEntry → σ × Option LogFault} {init s : σ} {d : Disk}
    (fed : Log.feed handler init (Log.scan (d.bytesOf l.file)).entries = (s, none)) :
    (l.replay handler init).run d =
      match (Log.scan (d.bytesOf l.file)).fault with
      | some e => ((s, .error (.codec e)), d)
      | none => ((s, .ok ()), l.cut d) := by
  have hreplay : (l.replay handler init).run d = (l.replayBytes handler init (d.bytesOf l.file)).run d := rfl
  rw [hreplay, replayBytes, cut]
  simp only [fed]
  cases (Log.scan (d.bytesOf l.file)).fault with
  | some e => rfl
  | none =>
    by_cases hcut : (Log.scan (d.bytesOf l.file)).length < (d.bytesOf l.file).length
    · simp only [if_pos hcut, FileTask.run_bind, run_flush]
      rfl
    · simp only [if_neg hcut]
      rfl

end LogFile

end SeriesRegion
