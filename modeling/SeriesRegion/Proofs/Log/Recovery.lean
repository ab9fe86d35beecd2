import SeriesRegion.Proofs.Disk.Children
import SeriesRegion.Proofs.Log.Replay
import Mathlib

/-!
# Recovering a log

A crash leaves the first bytes of a log.  Opening and replaying it then gives the entries whose frames are left whole
(`Log.surviving_eq_take`) and cuts the rest off, so that the log can be written on, and this can happen any number of times
(`LogFile.restarts_recovers`).
-/

namespace SeriesRegion

namespace Log

/-- The entries whose frames lie completely within the first `n` bytes. -/
def surviving (n : Nat) : List LogEntry → List LogEntry
  | [] => []
  | e :: es => if (frameOf e).length ≤ n then e :: surviving (n - (frameOf e).length) es else []

variable {n : Nat} {e : LogEntry} {es more : List LogEntry}

theorem framesOf_cons (e : LogEntry) (es : List LogEntry) : framesOf (e :: es) = frameOf e ++ framesOf es :=
  List.flatMap_cons

theorem framesOf_singleton (e : LogEntry) : framesOf [e] = frameOf e := List.append_nil _

theorem framesOf_append (es more : List LogEntry) : framesOf (es ++ more) = framesOf es ++ framesOf more :=
  List.flatMap_append

/-- An entry survives if its frame ends within the bytes that are left. -/
theorem surviving_eq_take (n : Nat) (es : List LogEntry) : ∃ j ≤ es.length, surviving n es = es.take j ∧
    ∀ i < es.length, i < j ↔ (framesOf (es.take (i + 1))).length ≤ n := by
  induction es generalizing n with
  | nil => exact ⟨0, Nat.le_refl _, rfl, nofun⟩
  | cons e es ih =>
    rw [surviving]
    split
    · rename_i hfits
      obtain ⟨j, hj, htake, hiff⟩ := ih (n - (frameOf e).length)
      refine ⟨j + 1, Nat.succ_le_succ hj, by rw [htake, List.take_succ_cons], fun i hi => ?_⟩
      rw [List.take_succ_cons, framesOf_cons, List.length_append]
      cases i with
      | zero => simpa [framesOf] using hfits
      | succ i =>
        have := hiff i (Nat.lt_of_succ_lt_succ hi)
        omega
    · rename_i hfits
      refine ⟨0, Nat.zero_le _, rfl, fun i _ => ?_⟩
      rw [List.take_succ_cons, framesOf_cons, List.length_append]
      omega

theorem mem_of_mem_surviving (h : e ∈ surviving n es) : e ∈ es := by
  obtain ⟨j, -, htake, -⟩ := surviving_eq_take n es
  rw [htake] at h
  exact List.mem_of_mem_take h

/-- A part of a frame is no entry. -/
theorem scan_take_frameOf (fits : Fits e) (hn : n < (frameOf e).length) : scan ((frameOf e).take n) = ⟨[], 0, none⟩ := by
  rw [scan_eq, firstFrame?_take (firstFrame?_frameOf fits) hn]

/-- What is read of the first bytes of a log are the entries that survive, and their frames are all that is used. -/
theorem scan_take_framesOf (fits : ∀ e ∈ es, Fits e) (n : Nat) :
    scan ((framesOf es).take n) = ⟨surviving n es, (framesOf (surviving n es)).length, none⟩ ∧
      ((framesOf es).take n).take (framesOf (surviving n es)).length = framesOf (surviving n es) := by
  induction es generalizing n with
  | nil =>
    rw [framesOf, List.flatMap_nil, List.take_nil]
    exact ⟨whole_nil, rfl⟩
  | cons e es ih =>
    obtain ⟨hscan, htake⟩ := ih (fun e' he => fits e' (List.mem_cons_of_mem _ he)) (n - (frameOf e).length)
    rw [framesOf_cons, List.take_append, surviving]
    by_cases hn : (frameOf e).length ≤ n
    · rw [if_pos hn, List.take_of_length_le hn, framesOf_cons]
      refine ⟨?_, ?_⟩
      · rw [(whole_frameOf (fits e List.mem_cons_self)).scan_append, hscan, List.length_append]
        rfl
      · rw [List.length_append, List.take_length_add_append, htake]
    · rw [if_neg hn, Nat.sub_eq_zero_of_le (Nat.le_of_not_le hn), List.take_zero, List.append_nil]
      exact ⟨scan_take_frameOf (fits e List.mem_cons_self) (Nat.not_le.1 hn), rfl⟩

end Log

namespace LogFile

/-! ### Phases -/

/-- A phase in the life of a log: entries are appended, a crash leaves the first bytes, and what is read when the log is
opened again is handed to a handler. -/
structure Phase (σ : Type) where
  appended : List LogEntry
  kept : Nat
  init : σ
  handler : σ → LogEntry → σ × Option LogFault

/-- A crash, which leaves the first bytes of the file. -/
def crash (l : LogFile) (kept : Nat) : FileTask Unit := FileTask.perform (.truncate l.file kept)

def appendAll (l : LogFile) : List LogEntry → FileTask Unit
  | [] => return ()
  | e :: es => do
    let _ ← l.append e
    l.appendAll es

variable {σ : Type}

/-- Goes through a phase; gives the log that is open afterwards, and what the handler made of the entries. -/
def restart (l : LogFile) (p : Phase σ) : FileWork LogFault (LogFile × σ) := do
  ExceptT.lift (l.appendAll p.appended)
  ExceptT.lift (l.crash p.kept)
  let l ← openAt l.path l.sync
  let (s, outcome) ← ExceptT.lift (l.replay p.handler p.init)
  match outcome with
  | .ok () => return (l, s)
  | .error e => throw e

/-- Goes through phases one after the other. -/
def restarts (l : LogFile) : List (Phase σ) → FileWork LogFault (LogFile × List σ)
  | [] => return (l, [])
  | p :: ps => do
    let (l, s) ← l.restart p
    let (l, ss) ← l.restarts ps
    return (l, s :: ss)

/-- What the handler of a phase makes of entries. -/
def Phase.replayed (p : Phase σ) (es : List LogEntry) : σ := es.foldl (fun s e => (p.handler s e).1) p.init

/-- The entries that are left after a phase, of those there were and those appended. -/
def Phase.left (p : Phase σ) (es : List LogEntry) : List LogEntry := Log.surviving p.kept (es ++ p.appended)

/-- The entries that are left after phases. -/
def left (es : List LogEntry) : List (Phase σ) → List LogEntry
  | [] => es
  | p :: ps => left (p.left es) ps

/-- What the handlers of phases make of the entries that are left after each. -/
def replayed (es : List LogEntry) : List (Phase σ) → List σ
  | [] => []
  | p :: ps => p.replayed (p.left es) :: replayed (p.left es) ps

/-- A phase whose entries can be read back, and whose handler does not fail. -/
structure Phase.Sound (p : Phase σ) : Prop where
  fits : ∀ e ∈ p.appended, Log.Fits e
  handles : ∀ s e, (p.handler s e).2 = none

/-- A log is where it is looked for, and holds the frames of entries. -/
structure Holds (l : LogFile) (es : List LogEntry) (d : Disk) : Prop where
  found : d.find l.path = .ok (.file l.file)
  bytes : d.bytesOf l.file = Log.framesOf es
  fits : ∀ e ∈ es, Log.Fits e

variable {l : LogFile} {d : Disk} {es more : List LogEntry} {p : Phase σ} {ps : List (Phase σ)}

/-- A log that was not there holds nothing when it has been opened. -/
theorem holds_of_openAt {dir : Path} {x : String} {sync : Bool} {d' : Disk} (plain : Disk.IsPlain x)
    (missing : ∀ f, d.find (dir.child x) ≠ .ok (.file f)) (h : (openAt (dir.child x) sync).run.run d = (.ok l, d')) :
    l.Holds [] d' := by
  rw [run_openAt] at h
  rcases hopen : d.openFile (dir.child x) with ⟨answer, d₁⟩
  rw [hopen] at h
  cases answer with
  | error e => cases h
  | ok f =>
    cases h
    obtain ⟨t, hleads, hrefusal, hkeeps, hnode, -, -⟩ := Disk.child_of_openFile plain hopen
    refine ⟨?_, Disk.bytesOf_openFile_of_missing hopen missing, nofun⟩
    rw [Disk.find_child (hkeeps.leads hleads) plain hrefusal, hnode]

theorem Holds.appendAll (h : l.Holds es d) (fits : ∀ e ∈ more, Log.Fits e) :
    l.Holds (es ++ more) ((l.appendAll more).run d).2 := by
  induction more generalizing es d with
  | nil =>
    rw [List.append_nil]
    exact h
  | cons e more ih =>
    have hone : l.Holds (es ++ [e]) (d.append l.file (Log.frameOf e)) := by
      refine ⟨?_, ?_, ?_⟩
      · rw [(d.agreeBut_append _ _).find]
        exact h.found
      · rw [Disk.bytesOf_append, if_pos rfl, h.bytes, Log.framesOf_append, Log.framesOf_singleton]
      · intro e' he
        rcases List.mem_append.1 he with he | he
        · exact h.fits e' he
        · rw [List.mem_singleton.1 he]
          exact fits e List.mem_cons_self
    have hrest := ih hone fun e' he => fits e' (List.mem_cons_of_mem _ he)
    rwa [List.append_assoc, List.singleton_append] at hrest

/-- A reader of a log sees its entries, and nothing of an entry that is being appended. -/
theorem Holds.reads (h : l.Holds es d) {e : LogEntry} (fits : Log.Fits e) {k : Nat} (hk : k < (Log.frameOf e).length) :
    ((Log.read l.path).run.run (d.append l.file ((Log.frameOf e).take k))).1 = .ok es := by
  have hfound : (d.append l.file ((Log.frameOf e).take k)).find l.path = .ok (.file l.file) := by
    rw [(d.agreeBut_append _ _).find]
    exact h.found
  have hscan : Log.scan ((d.append l.file ((Log.frameOf e).take k)).bytesOf l.file) =
      ⟨es, (Log.framesOf es).length, none⟩ := by
    rw [Disk.bytesOf_append, if_pos rfl, h.bytes, (Log.whole_framesOf h.fits).scan_append, Log.scan_take_frameOf fits hk,
      List.append_nil, Nat.add_zero]
  rw [Log.run_read_of_find hfound (by rw [hscan]), hscan]

/-- What a crash leaves is opened and replayed, and the log is written on. -/
theorem Holds.recovers (h : l.Holds es d) (n : Nat) {handler : σ → LogEntry → σ × Option LogFault}
    (handles : ∀ s e, (handler s e).2 = none) (init : σ) :
    (openAt l.path l.sync).run.run (d.truncate l.file n) = (.ok l, d.truncate l.file n) ∧
      (l.replay handler init).run (d.truncate l.file n) =
        (((Log.surviving n es).foldl (fun s e => (handler s e).1) init, .ok ()), l.cut (d.truncate l.file n)) ∧
      l.Holds (Log.surviving n es) (l.cut (d.truncate l.file n)) := by
  have hfound : (d.truncate l.file n).find l.path = .ok (.file l.file) := by
    rw [(d.agreeBut_truncate _ _).find]
    exact h.found
  have hbytes : (d.truncate l.file n).bytesOf l.file = (Log.framesOf es).take n := by
    rw [Disk.bytesOf_truncate, if_pos rfl, h.bytes]
  obtain ⟨hscan, htake⟩ := Log.scan_take_framesOf h.fits n
  refine ⟨?_, ?_, ?_, ?_, ?_⟩
  · rw [run_openAt, Disk.openFile_of_find hfound]
  · rw [run_replay (Log.feed_eq handles init _), hbytes, hscan]
  · rw [(l.agreeBut_cut _).find, hfound]
  · rw [bytesOf_cut, hbytes, hscan, htake]
  · exact fun e he => h.fits e (Log.mem_of_mem_surviving he)

/-- After a phase the log holds the entries that are left, and the handler has been handed these. -/
theorem Holds.restart (h : l.Holds es d) (sound : p.Sound) :
    ∃ d', (l.restart p).run.run d = (.ok (l, p.replayed (p.left es)), d') ∧ l.Holds (p.left es) d' := by
  obtain ⟨hopen, hreplay, hafter⟩ := (h.appendAll sound.fits).recovers p.kept sound.handles p.init
  refine ⟨_, ?_, hafter⟩
  have hcrash : (l.crash p.kept).run ((l.appendAll p.appended).run d).2 =
      ((), ((l.appendAll p.appended).run d).2.truncate l.file p.kept) := rfl
  rw [LogFile.restart, FileWork.run_bind_ok (FileWork.run_lift _ _), FileWork.run_bind_ok (FileWork.run_lift _ _), hcrash,
    FileWork.run_bind_ok hopen, FileWork.run_bind_ok (FileWork.run_lift _ _), hreplay, Phase.replayed, Phase.left]
  simp only [FileWork.run_pure]

theorem Holds.restarts (h : l.Holds es d) (sound : ∀ p ∈ ps, p.Sound) :
    ∃ d', (l.restarts ps).run.run d = (.ok (l, replayed es ps), d') ∧ l.Holds (left es ps) d' := by
  induction ps generalizing es d with
  | nil => exact ⟨d, rfl, h⟩
  | cons p ps ih =>
    obtain ⟨d₁, hrun, hafter⟩ := h.restart (sound p List.mem_cons_self)
    obtain ⟨d₂, hruns, hleft⟩ := ih hafter fun p' hp => sound p' (List.mem_cons_of_mem _ hp)
    refine ⟨d₂, ?_, hleft⟩
    rw [LogFile.restarts, FileWork.run_bind_ok hrun, FileWork.run_bind_ok hruns]
    rfl

/-- A log that holds the frames of entries goes through any number of phases.  Each replay succeeds, hands its handler the
entries whose frames the crash has left whole, and leaves their frames in the log.  What is appended afterwards is read after
the entries that are left, and a reader that comes in the middle of an append sees the entries before it. -/
theorem restarts_recovers (h : l.Holds es d) (sound : ∀ p ∈ ps, p.Sound) :
    ∃ d', (l.restarts ps).run.run d = (.ok (l, replayed es ps), d') ∧
      d'.bytesOf l.file = Log.framesOf (left es ps) ∧
      ∀ more : List LogEntry, (∀ e ∈ more, Log.Fits e) →
        ((Log.read l.path).run.run ((l.appendAll more).run d').2).1 = .ok (left es ps ++ more) ∧
        ∀ e, Log.Fits e → ∀ k < (Log.frameOf e).length,
          ((Log.read l.path).run.run (((l.appendAll more).run d').2.append l.file ((Log.frameOf e).take k))).1 =
            .ok (left es ps ++ more) := by
  obtain ⟨d', hrun, hleft⟩ := h.restarts sound
  refine ⟨d', hrun, hleft.bytes, fun more fits => ?_⟩
  have hmore := hleft.appendAll fits
  refine ⟨?_, fun e he k hk => hmore.reads he hk⟩
  rw [Log.run_read_of_whole hmore.found (hmore.bytes ▸ Log.whole_framesOf hmore.fits)]

def tick (time : Int64) : LogEntry := ⟨none, .row ⟨"d", time, ["m"], [.int64 1]⟩⟩

/-- Two phases: in the first a crash cuts the second entry off in its middle, in the second the third in its length. -/
def twoCrashes : List (Phase (List LogEntry)) :=
  [⟨[tick 1, tick 2], 100, [], fun s e => (s ++ [e], none)⟩, ⟨[tick 3], 65, [], fun s e => (s ++ [e], none)⟩]

/-- The first entry outlives both crashes, and is read while another is being appended. -/
theorem restarts_recovers_twoCrashes :
    ∃ l d d', (openAt ⟨"", ["wal.log"]⟩ true).run.run (Disk.new "home") = (.ok l, d) ∧
      (l.restarts twoCrashes).run.run d = (.ok (l, [[tick 1], [tick 1]]), d') ∧
      d'.bytesOf l.file = Log.framesOf [tick 1] ∧
      ((Log.read l.path).run.run (d'.append l.file ((Log.frameOf (tick 4)).take 9))).1 = .ok [tick 1] := by
  have hanswer : ((openAt ⟨"", ["wal.log"]⟩ true).run.run (Disk.new "home")).1 = .ok ⟨⟨"", ["wal.log"]⟩, 0, true⟩ := by cbv
  rcases hopen : (openAt ⟨"", ["wal.log"]⟩ true).run.run (Disk.new "home") with ⟨answer, d⟩
  rw [hopen] at hanswer
  subst hanswer
  have hmissing : (Disk.new "home").find (Path.child ⟨"", []⟩ "wal.log") = .error .notFound := by cbv
  have hlength : ∀ t ∈ [1, 2, 3, 4], (Binary.Format.logEntry.write (tick t)).length = 59 := by
    simp only [List.forall_mem_cons]
    refine ⟨?_, ?_, ?_, ?_, List.forall_mem_nil _⟩ <;> cbv
  have hframe : ∀ t ∈ [1, 2, 3, 4], (Log.frameOf (tick t)).length = 63 := by
    intro t ht
    rw [Log.frameOf, Log.frame, List.length_append, length_littleEndian, hlength t ht]
  have hfits : ∀ t ∈ [1, 2, 3, 4], Log.Fits (tick t) := by
    intro t ht
    rw [Log.Fits, hlength t ht]
    decide
  have hchild : (openAt (Path.child ⟨"", []⟩ "wal.log") true).run.run (Disk.new "home") = (.ok ⟨⟨"", ["wal.log"]⟩, 0, true⟩, d) := hopen
  have hholds := holds_of_openAt ⟨by decide, by decide⟩ (by simp [hmissing]) hchild
  have hsound : ∀ p ∈ twoCrashes, p.Sound := by
    simp only [twoCrashes, List.forall_mem_cons]
    refine ⟨⟨?_, fun _ _ => rfl⟩, ⟨?_, fun _ _ => rfl⟩, List.forall_mem_nil _⟩
    · simp [hfits]
    · simp [hfits]
  obtain ⟨d', hrun, hbytes, hreads⟩ := restarts_recovers hholds hsound
  have hleft : left [] twoCrashes = [tick 1] := by
    simp [left, twoCrashes, Phase.left, Log.surviving, hframe]
  have hreplayed : replayed [] twoCrashes = [[tick 1], [tick 1]] := by
    simp [replayed, twoCrashes, Phase.left, Phase.replayed, Log.surviving, hframe]
  refine ⟨_, d, d', rfl, hreplayed ▸ hrun, hleft ▸ hbytes, ?_⟩
  have hread := (hreads [] (List.forall_mem_nil _)).2 (tick 4) (hfits 4 (by decide)) 9 (by rw [hframe 4 (by decide)]; decide)
  rw [hleft] at hread
  exact hread

end LogFile

end SeriesRegion
