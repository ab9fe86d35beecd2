import SeriesRegion.Region
import SeriesRegion.Proofs.Disk.Places
import SeriesRegion.Proofs.Log.Frames
import SeriesRegion.Proofs.MemTable.LastWrite

/-!
# Regions backed by their files

A region is backed by a checkpoint and the entries of its log if the path of the log leads to the file written to, the
file holds the frames of the entries to its end, and the table is what the entries make of the checkpoint
(`Region.Backed`).  An insert that runs alone leaves a region backed (`Region.Backed.insert`).
-/

namespace SeriesRegion

namespace Region

/-- A region is what its log makes of a checkpoint, and the log is where it is looked for. -/
structure Backed (checkpoint : MemTable) (es : List LogEntry) (r : Region) (d : Disk) : Prop where
  found : d.find r.log.path = .ok (.file r.log.file)
  whole : Log.Whole (d.bytesOf r.log.file) es
  table : r.table = checkpoint.applyAll es

theorem run_insert (r : Region) (e : LogEntry) (d : Disk) :
    (r.insert e).run d =
      match e.payload.shapeFault? with
      | some f => ((r, .error (.invalidInsert e.payload.device f)), d)
      | none => ((r.applyEntry e, .ok ()), d.append r.log.file (Log.frameOf e)) := by
  rw [insert]
  cases e.payload.shapeFault? with
  | some f => rfl
  | none => rfl

variable {checkpoint : MemTable} {es : List LogEntry} {r : Region} {d : Disk}

/-- The log of a backed region is read as it was written. -/
theorem Backed.run_logged (h : Backed checkpoint es r d) : r.logged.run.run d = (.ok es, d) :=
  Log.run_read_of_whole h.found h.whole

/-! ### Inserts -/

/-- The entries that are inserted when they are handed in: those of good shape. -/
def accepted (es : List LogEntry) : List LogEntry := es.filter fun e => e.payload.shapeFault?.isNone

theorem accepted_append (es es' : List LogEntry) : accepted (es ++ es') = accepted es ++ accepted es' :=
  List.filter_append es es'

theorem accepted_cons (e : LogEntry) (es : List LogEntry) : accepted (e :: es) = accepted [e] ++ accepted es :=
  accepted_append [e] es

theorem accepted_of_valid {es : List LogEntry} (h : ∀ e ∈ es, e.payload.shapeFault? = none) : accepted es = es :=
  List.filter_eq_self.2 fun e he => by rw [h e he]; rfl

def logAll (r : Region) (d : Disk) (es : List LogEntry) : Disk := es.foldl (fun d e => ((r.logEntry e).run d).2) d

theorem logAll_append (r : Region) (d : Disk) (es es' : List LogEntry) :
    r.logAll d (es ++ es') = r.logAll (r.logAll d es) es' := List.foldl_append

/-- Logging touches nothing but the log. -/
theorem agreeBut_logAll (r : Region) (d : Disk) (es : List LogEntry) : d.AgreeBut r.log.file (r.logAll d es) := by
  induction es generalizing d with
  | nil => exact .refl _ d
  | cons e es ih => exact (d.agreeBut_append r.log.file (Log.frameOf e)).trans (ih _)

theorem bytesOf_logAll (r : Region) (d : Disk) (es : List LogEntry) :
    (r.logAll d es).bytesOf r.log.file = d.bytesOf r.log.file ++ Log.framesOf es := by
  induction es generalizing d with
  | nil => exact (List.append_nil _).symm
  | cons e es ih =>
    refine (ih _).trans ?_
    show (d.append r.log.file (Log.frameOf e)).bytesOf r.log.file ++ _ = _
    rw [Disk.bytesOf_append, if_pos rfl, List.append_assoc]
    rfl

/-- What an insert answers. -/
def outcomeOf (e : LogEntry) : Except RegionFault Unit :=
  match e.payload.shapeFault? with
  | some f => .error (.invalidInsert e.payload.device f)
  | none => .ok ()

/-- An insert that runs alone logs and applies its entry, if this is of good shape. -/
theorem run_insert_eq (r : Region) (e : LogEntry) (d : Disk) :
    (r.insert e).run d =
      (({ r with table := r.table.applyAll (accepted [e]) }, outcomeOf e), r.logAll d (accepted [e])) := by
  rw [run_insert, outcomeOf]
  cases hs : e.payload.shapeFault? with
  | some f =>
    have : accepted [e] = [] := by simp [accepted, hs]
    rw [this]
    rfl
  | none =>
    have : accepted [e] = [e] := by simp [accepted, hs]
    rw [this]
    rfl

theorem fits_accepted {e : LogEntry} (fits : Log.Fits e) : ∀ e' ∈ accepted [e], Log.Fits e' := by
  intro e' he
  obtain rfl := List.mem_singleton.1 (List.mem_filter.1 he).1
  exact fits

/-- The log of a backed region holds what is logged after what it held before. -/
theorem Backed.logAll (h : Backed checkpoint es r d) {more : List LogEntry} (fits : ∀ e ∈ more, Log.Fits e) :
    (r.logAll d more).find r.log.path = .ok (.file r.log.file) ∧
      Log.Whole ((r.logAll d more).bytesOf r.log.file) (es ++ more) := by
  constructor
  · rw [(agreeBut_logAll r d more).find]
    exact h.found
  · rw [bytesOf_logAll]
    exact h.whole.append (Log.whole_framesOf fits)

/-- What is logged and then applied leaves a region backed. -/
theorem Backed.applyAll (h : Backed checkpoint es r d) {more : List LogEntry} (fits : ∀ e ∈ more, Log.Fits e) :
    Backed checkpoint (es ++ more) { r with table := r.table.applyAll more } (r.logAll d more) := by
  obtain ⟨hfound, hwhole⟩ := h.logAll fits
  refine ⟨hfound, hwhole, ?_⟩
  show r.table.applyAll more = _
  rw [h.table, MemTable.applyAll_append]

/-- An insert that runs alone leaves a region backed, also by what it inserts. -/
theorem Backed.insert (h : Backed checkpoint es r d) {e : LogEntry} (fits : Log.Fits e) :
    Backed checkpoint (es ++ accepted [e]) ((r.insert e).run d).1.1 ((r.insert e).run d).2 := by
  rw [run_insert_eq]
  exact h.applyAll (fits_accepted fits)

end Region

end SeriesRegion
