import SeriesRegion.Proofs.Binary.Exact
import SeriesRegion.Proofs.Log.Recovery
import SeriesRegion.Proofs.MemTable.Written
import SeriesRegion.Proofs.Region.Applied
import SeriesRegion.Proofs.Region.History
import SeriesRegion.Proofs.Region.Replayed
import Mathlib

/-!
# Frames that say a wrong length

Four bytes of the length of an entry are kept in front of it, and nothing bounds the length of an insert.  An entry that is
too long for them is read as a part of itself, which is no entry (`Log.scan_misfit`), so that nothing can be read of a log
from such an entry on, and the readers of the log get nothing at all.  An append that fails can leave a part of a frame, and
what is appended then fills the frame up and is lost with it (`Log.scan_torn`).  What is read back of the inserts of a region
follows from the two (`Region.readAs_insertAll`).
-/

namespace SeriesRegion

open Binary

namespace Log

variable {bs rest : Bytes} {e : LogEntry} {es before after later : List LogEntry} {k : Nat}

theorem length_frameOf (e : LogEntry) : (frameOf e).length = 4 + (Format.logEntry.write e).length := by
  rw [frameOf, frame, List.length_append, length_littleEndian]

theorem frameOf_ne_nil (e : LogEntry) : frameOf e ≠ [] := by
  rw [← List.length_pos_iff, length_frameOf]
  omega

/-- The length that the frame of an entry says the entry has. -/
def saidLength (e : LogEntry) : Nat := ofLittleEndian ((frameOf e).take 4)

theorem saidLength_eq (e : LogEntry) : saidLength e = (Format.logEntry.write e).length % UInt32.size := by
  rw [saidLength, frameOf, frame, List.take_left' (length_littleEndian 4 _), ofLittleEndian_littleEndian]

/-- The frames of the entries that fit, and of no others, say the length of their entries. -/
theorem saidLength_eq_iff : saidLength e = (Format.logEntry.write e).length ↔ Fits e := by
  rw [saidLength_eq, Fits]
  constructor
  · intro h
    rw [← h]
    exact Nat.mod_lt _ (by decide)
  · exact Nat.mod_eq_of_lt

/-- Of an entry whose length is too long for its frame a part is taken for the entry, and refused. -/
theorem scan_misfit (memory : (Format.logEntry.write e).length < UInt64.size) (misfit : ¬ Fits e) (rest : Bytes) :
    ∃ fault, scan (frameOf e ++ rest) = ⟨[], 0, some fault⟩ := by
  have hlong : UInt32.size ≤ (Format.logEntry.write e).length := Nat.not_lt.1 misfit
  have hsaid : saidLength e < (Format.logEntry.write e).length := by
    rw [saidLength_eq]
    exact Nat.lt_of_lt_of_le (Nat.mod_lt _ (by decide)) hlong
  have hpart : ((Format.logEntry.write e).take (saidLength e)).length = saidLength e :=
    List.length_take_of_le (Nat.le_of_lt hsaid)
  have hframe : firstFrame? (frameOf e ++ rest) =
      some ((Format.logEntry.write e).take (saidLength e), (Format.logEntry.write e).drop (saidLength e) ++ rest) := by
    refine firstFrame?_eq_some.2 ⟨littleEndian 4 (Format.logEntry.write e).length, length_littleEndian 4 _, ?_, ?_⟩
    · rw [hpart, saidLength, frameOf, frame, List.take_left' (length_littleEndian 4 _)]
    · rw [← List.append_assoc (List.take _ _), List.take_append_drop, frameOf, frame, List.append_assoc]
  have hcodec := Format.codec_of Format.logEntry_roundTrips Format.logEntry_exact
  obtain ⟨fault, hfault⟩ := hcodec.refuses e _ memory (List.take_prefix (saidLength e) _) fun heq => by
    rw [heq] at hpart
    omega
  refine ⟨fault, ?_⟩
  rw [scan_eq, hframe]
  simp only [hfault]

/-- A log is read up to the first entry that does not fit. -/
theorem Whole.scan_misfit (whole : Whole bs es) (fits : ∀ b ∈ before, Fits b)
    (memory : (Format.logEntry.write e).length < UInt64.size) (misfit : ¬ Fits e) (after : List LogEntry) :
    ∃ length fault, scan (bs ++ framesOf (before ++ e :: after)) = ⟨es ++ before, length, some fault⟩ := by
  obtain ⟨fault, hfault⟩ := Log.scan_misfit memory misfit (framesOf after)
  refine ⟨(bs ++ framesOf before).length + 0, fault, ?_⟩
  rw [framesOf_append, framesOf_cons, ← List.append_assoc, (whole.append (whole_framesOf fits)).scan_append, hfault,
    List.append_nil]

theorem exists_first_misfit (h : ¬ ∀ e ∈ es, Fits e) :
    ∃ before e after, es = before ++ e :: after ∧ (∀ b ∈ before, Fits b) ∧ ¬ Fits e := by
  induction es with
  | nil => exact absurd (List.forall_mem_nil _) h
  | cons a es ih =>
    by_cases ha : Fits a
    · obtain ⟨before, e, after, rfl, fits, misfit⟩ := ih fun hes => h (List.forall_mem_cons.2 ⟨ha, hes⟩)
      exact ⟨a :: before, e, after, rfl, List.forall_mem_cons.2 ⟨ha, fits⟩, misfit⟩
    · exact ⟨[], a, es, rfl, List.forall_mem_nil _, ha⟩

/-- A frame is not complete before as much has followed its first four bytes as these say. -/
theorem firstFrame?_torn (header : 4 ≤ k) (short : (((frameOf e).take k) ++ rest).length < 4 + saidLength e) :
    firstFrame? ((frameOf e).take k ++ rest) = none := by
  cases hf : firstFrame? ((frameOf e).take k ++ rest) with
  | none => rfl
  | some p =>
    obtain ⟨entry, left⟩ := p
    obtain ⟨said, hlength, hsaid, hbytes⟩ := firstFrame?_eq_some.1 hf
    have hfront : ((frameOf e).take k ++ rest).take 4 = (frameOf e).take 4 := by
      have hk : 4 ≤ ((frameOf e).take k).length := by
        rw [List.length_take, length_frameOf]
        omega
      rw [List.take_append_of_le_length hk, List.take_take, Nat.min_eq_left header]
    have hentry : saidLength e = entry.length := by rw [saidLength, ← hfront, hbytes, List.take_left' hlength, hsaid]
    rw [hbytes, List.length_append, List.length_append] at short
    omega

/-- What follows a part of a frame is taken for the rest of it as long as it is not complete. -/
theorem scan_torn (header : 4 ≤ k) (short : (((frameOf e).take k) ++ rest).length < 4 + saidLength e) :
    scan ((frameOf e).take k ++ rest) = ⟨[], 0, none⟩ := by
  rw [scan_eq, firstFrame?_torn header short]

/-- A handler that keeps what it is handed. -/
def keep (kept : List LogEntry) (e : LogEntry) : List LogEntry × Option LogFault := (kept ++ [e], none)

theorem feed_keep (kept es : List LogEntry) : feed keep kept es = (kept ++ es, none) := by
  induction es generalizing kept with
  | nil => rw [feed, List.append_nil]
  | cons e es ih =>
    rw [feed, keep]
    exact (ih _).trans (by rw [List.append_assoc, List.singleton_append])

end Log

namespace LogFile

variable {l : LogFile} {d : Disk} {es more : List LogEntry}

/-- Entries, and no others, are read from a log, by its readers and by a replay, which leaves it as it is. -/
def ReadAs (l : LogFile) (es : List LogEntry) (d : Disk) : Prop :=
  (Log.read l.path).run.run d = (.ok es, d) ∧ (l.replay Log.keep []).run d = ((es, .ok ()), d)

/-- The readers of a log are refused, and so is a replay once it has handed on entries. -/
def RefusedAfter (l : LogFile) (es : List LogEntry) (d : Disk) : Prop :=
  ∃ fault, (Log.read l.path).run.run d = (.error (.codec fault), d) ∧
    (l.replay Log.keep []).run d = ((es, .error (.codec fault)), d)

theorem readAs_of_whole (found : d.find l.path = .ok (.file l.file)) (whole : Log.Whole (d.bytesOf l.file) es) :
    l.ReadAs es d := by
  have hscan : Log.scan (d.bytesOf l.file) = ⟨es, (d.bytesOf l.file).length, none⟩ := whole
  refine ⟨Log.run_read_of_whole found whole, ?_⟩
  rw [run_replay (Log.feed_keep [] _), hscan, cut_of_whole whole, List.nil_append]

theorem refusedAfter_of_scan {length : Nat} {fault : Fault} (found : d.find l.path = .ok (.file l.file))
    (hscan : Log.scan (d.bytesOf l.file) = ⟨es, length, some fault⟩) : l.RefusedAfter es d := by
  have hread : d.read l.path = .ok (d.bytesOf l.file) := by rw [Disk.read, found]
  refine ⟨fault, ?_, ?_⟩
  · rw [Log.run_read, hread, Log.entriesOf, hscan]
  · rw [run_replay (Log.feed_keep [] _), hscan, List.nil_append]

theorem RefusedAfter.not_readAs (h : l.RefusedAfter es d) : ¬ l.ReadAs more d := by
  rintro ⟨hread, -⟩
  obtain ⟨fault, hrefused, -⟩ := h
  rw [hread] at hrefused
  cases hrefused

end LogFile

namespace Region

variable {r : Region} {d : Disk} {es more before later : List LogEntry} {e : LogEntry} {k : Nat}

/-- After an insert whose entry does not fit, the log is refused from this entry on. -/
theorem refusedAfter_logAll (found : d.find r.log.path = .ok (.file r.log.file))
    (whole : Log.Whole (d.bytesOf r.log.file) es) (fits : ∀ b ∈ before, Log.Fits b)
    (memory : (Format.logEntry.write e).length < UInt64.size) (misfit : ¬ Log.Fits e) (later : List LogEntry) :
    r.log.RefusedAfter (es ++ before) (r.logAll d (before ++ e :: later)) := by
  obtain ⟨length, fault, hscan⟩ := whole.scan_misfit fits memory misfit later
  rw [← bytesOf_logAll] at hscan
  exact LogFile.refusedAfter_of_scan ((agreeBut_logAll r d _).find _ ▸ found) hscan

theorem readAs_logAll_iff (found : d.find r.log.path = .ok (.file r.log.file))
    (whole : Log.Whole (d.bytesOf r.log.file) es) (memory : ∀ e ∈ more, (Format.logEntry.write e).length < UInt64.size) :
    r.log.ReadAs (es ++ more) (r.logAll d more) ↔ ∀ e ∈ more, Log.Fits e := by
  constructor
  · intro hread
    by_contra hmisfit
    -- The first entry that does not fit ends what can be read.
    obtain ⟨before, e, later, rfl, fits, misfit⟩ := Log.exists_first_misfit hmisfit
    have he : e ∈ before ++ e :: later := List.mem_append_right _ List.mem_cons_self
    exact (refusedAfter_logAll found whole fits (memory e he) misfit later).not_readAs hread
  · intro fits
    refine LogFile.readAs_of_whole ((agreeBut_logAll r d _).find _ ▸ found) ?_
    rw [bytesOf_logAll]
    exact whole.append (Log.whole_framesOf fits)

/-- Inserts that follow a part of a frame, and do not fill it up, are not read, and a replay cuts them off. -/
theorem lost_logAll (found : d.find r.log.path = .ok (.file r.log.file)) (whole : Log.Whole (d.bytesOf r.log.file) es)
    (header : 4 ≤ k) (short : k + (Log.framesOf more).length < 4 + Log.saidLength e) :
    let lost := r.logAll (d.append r.log.file ((Log.frameOf e).take k)) more
    (Log.read r.log.path).run.run lost = (.ok es, lost) ∧
      ∃ d', (r.log.replay Log.keep []).run lost = ((es, .ok ()), d') ∧ d'.bytesOf r.log.file = d.bytesOf r.log.file := by
  intro lost
  have hfound : lost.find r.log.path = .ok (.file r.log.file) := by
    rw [(agreeBut_logAll r _ _).find, (d.agreeBut_append _ _).find, found]
  have hbytes : lost.bytesOf r.log.file =
      d.bytesOf r.log.file ++ ((Log.frameOf e).take k ++ Log.framesOf more) := by
    rw [bytesOf_logAll, Disk.bytesOf_append, if_pos rfl, List.append_assoc]
  have hscan : Log.scan (lost.bytesOf r.log.file) = ⟨es, (d.bytesOf r.log.file).length, none⟩ := by
    rw [hbytes, whole.scan_append, Log.scan_torn header, List.append_nil, Nat.add_zero]
    rw [List.length_append]
    exact Nat.lt_of_le_of_lt (Nat.add_le_add_right (List.length_take_le _ _) _) short
  refine ⟨?_, r.log.cut lost, ?_, ?_⟩
  · rw [Log.run_read_of_find hfound (by rw [hscan]), hscan]
  · rw [LogFile.run_replay (Log.feed_keep [] _), hscan, List.nil_append]
  · rw [LogFile.bytesOf_cut, hscan, hbytes, List.take_left]

/-- What the inserts of a region leave in its log, whatever their length, as long as each fits into memory.  Every insert of good
shape succeeds.  All entries are read back exactly if each frame says the length of its entry, which it does if this is below
the size of four bytes.  If one does not, the entries before it are all that a replay hands on, and the readers are refused.
An append that fails can leave a part of its frame; if this says a length, the inserts that follow are not read while they are
shorter than what is missing, and a replay cuts them off. -/
theorem readAs_insertAll (found : d.find r.log.path = .ok (.file r.log.file)) (whole : Log.Whole (d.bytesOf r.log.file) es)
    (valid : ∀ e ∈ more, e.payload.shapeFault? = none)
    (memory : ∀ e ∈ more, (Format.logEntry.write e).length < UInt64.size) :
    let after := (r.insertAll more).run d
    (∀ s ∈ after.1.2, s.isSuccess) ∧
    (∀ e, Log.saidLength e = (Format.logEntry.write e).length ↔ (Format.logEntry.write e).length < UInt32.size) ∧
    (r.log.ReadAs (es ++ more) after.2 ↔ ∀ e ∈ more, Log.saidLength e = (Format.logEntry.write e).length) ∧
    (∀ before e later, more = before ++ e :: later →
      (∀ b ∈ before, Log.saidLength b = (Format.logEntry.write b).length) →
      Log.saidLength e ≠ (Format.logEntry.write e).length → r.log.RefusedAfter (es ++ before) after.2) ∧
    ∀ e k,
      let failed := d.append r.log.file ((Log.frameOf e).take k)
      let lost := ((r.insertAll more).run failed).2
      (failed.bytesOf r.log.file = d.bytesOf r.log.file ↔ k = 0) ∧
      (4 ≤ k → k + (Log.framesOf more).length < 4 + Log.saidLength e →
        (Log.read r.log.path).run.run lost = (.ok es, lost) ∧
        ∃ d', (r.log.replay Log.keep []).run lost = ((es, .ok ()), d') ∧
          d'.bytesOf r.log.file = d.bytesOf r.log.file) := by
  intro after
  have hrun : ∀ d, (r.insertAll more).run d =
      (({ r with table := r.table.applyAll more }, insertStatuses more), r.logAll d more) := by
    intro d
    rw [run_insertAll, accepted_of_valid valid]
  have hafter : after = (({ r with table := r.table.applyAll more }, insertStatuses more), r.logAll d more) := hrun d
  refine ⟨?_, fun e => Log.saidLength_eq_iff, ?_, ?_, fun e k => ⟨?_, ?_⟩⟩
  · rw [hafter, insertStatuses, List.forall_mem_map]
    exact fun e he => Status.isSuccess_ofInsert.2 (valid e he)
  · rw [hafter]
    exact (readAs_logAll_iff found whole memory).trans (forall₂_congr fun e _ => Log.saidLength_eq_iff.symm)
  · rintro before e later rfl fits misfit
    rw [hafter]
    exact refusedAfter_logAll found whole (fun b hb => Log.saidLength_eq_iff.1 (fits b hb))
      (memory e (List.mem_append_right _ List.mem_cons_self)) (fun hfits => misfit (Log.saidLength_eq_iff.2 hfits)) later
  · rw [Disk.bytesOf_append, if_pos rfl, List.append_right_eq_self, List.take_eq_nil_iff]
    exact or_iff_left (Log.frameOf_ne_nil e)
  · intro header short
    rw [hrun]
    exact lost_logAll found whole header short

/-- A tablet with lines and no columns. -/
def blank (lines : Nat) : LogEntry := ⟨none, .tablet ⟨"d", [], List.replicate lines 0, []⟩⟩

theorem shapeFault?_blank {lines : Nat} (h : lines ≠ 0) : (blank lines).payload.shapeFault? = none :=
  Tablet.shapeFault?_eq_none.2 ⟨fun hnil => h ((List.replicate_eq_nil_iff _).1 hnil), rfl, List.forall_mem_nil _⟩

theorem length_blank (lines : Nat) : (Format.logEntry.write (blank lines)).length = 38 + 8 * lines := by
  have htimes : (Format.int64.list.write (List.replicate lines 0)).length = 8 + 8 * lines := by
    have hint : ∀ time, (Format.int64.write time).length = 8 := fun time => length_littleEndian 8 _
    show (Format.length.write (List.replicate lines (0 : Int64)).length ++ _).length = _
    rw [List.length_append, Format.length_write, List.length_flatMap]
    simp [hint, Nat.mul_comm]
  have hfront : (Format.word64.option.write none ++ (Format.word32.write 1 ++ (Format.text.write "d" ++
      Format.text.list.write []))).length = 22 := by cbv
  have hwrite : Format.logEntry.write (blank lines) =
      (Format.word64.option.write none ++ (Format.word32.write 1 ++ (Format.text.write "d" ++ Format.text.list.write []))) ++
        (Format.int64.list.write (List.replicate lines 0) ++ Format.value.list.list.write []) := by
    simp only [List.append_assoc]
    rfl
  have hback : (Format.value.list.list.write []).length = 8 := by cbv
  rw [hwrite, List.length_append, hfront, List.length_append, htimes, hback]
  omega

/-- A tablet whose entry takes more than four gigabytes. -/
def long : LogEntry := blank 536870912

/-- Of two inserts that succeed the second is too long for its frame, and the log can no longer be read.  An append that fails
after five bytes swallows the next insert. -/
theorem readAs_insertAll_long :
    ∃ d, (openAt "g" 1 ⟨"", ["r"]⟩ false).run.run (Disk.new "home") = (.ok fresh, d) ∧
      (∀ e ∈ [sound, long], e.payload.shapeFault? = none) ∧
      (∀ s ∈ ((fresh.insertAll [sound, long]).run d).1.2, s.isSuccess) ∧
      fresh.log.RefusedAfter [sound] ((fresh.insertAll [sound, long]).run d).2 ∧
      let lost := ((fresh.insertAll [sound]).run (d.append 0 ((Log.frameOf (blank 9)).take 5))).2
      (Log.read fresh.log.path).run.run lost = (.ok [], lost) := by
  obtain ⟨d, hopen, hbacked⟩ := openAt_fresh
  have hlong : (Format.logEntry.write long).length = 38 + 8 * 536870912 := length_blank _
  have hvalid : ∀ e ∈ [sound, long], e.payload.shapeFault? = none :=
    List.forall_mem_cons.2 ⟨rfl, List.forall_mem_singleton.2 (shapeFault?_blank (by decide))⟩
  have hmemory : ∀ e ∈ [sound, long], (Format.logEntry.write e).length < UInt64.size := by
    refine List.forall_mem_cons.2 ⟨?_, List.forall_mem_singleton.2 ?_⟩
    · rw [length_sound]
      decide
    · rw [hlong]
      decide
  obtain ⟨hsuccess, hsaid, -, hrefused, -⟩ := readAs_insertAll hbacked.found hbacked.whole hvalid hmemory
  have hfirst : ∀ e ∈ [sound], (Format.logEntry.write e).length < UInt64.size :=
    List.forall_mem_singleton.2 (hmemory sound List.mem_cons_self)
  obtain ⟨-, -, -, -, hlost⟩ := readAs_insertAll hbacked.found hbacked.whole (List.forall_mem_singleton.2 rfl) hfirst
  refine ⟨d, hopen, hvalid, hsuccess, ?_, ?_⟩
  · refine hrefused [sound] long [] rfl (List.forall_mem_singleton.2 ((hsaid sound).2 ?_)) fun h => ?_
    · rw [length_sound]
      decide
    · have hfits := (hsaid long).1 h
      rw [hlong] at hfits
      exact absurd hfits (by decide)
  · have hblank : Log.saidLength (blank 9) = 110 := by
      rw [(hsaid (blank 9)).2 (by rw [length_blank]; decide), length_blank]
    refine ((hlost (blank 9) 5).2 (by decide) ?_).1
    rw [Log.framesOf_singleton, Log.length_frameOf, length_sound, hblank]
    decide

end Region

end SeriesRegion
