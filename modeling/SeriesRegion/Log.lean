import SeriesRegion.Binary.Entry
import SeriesRegion.Disk.Task

/-!
# The write-ahead log

A log file is a row of frames, each the length of an entry in four bytes followed by the entry.  Reading stops at the
first frame that is not complete, which is what a crash in the middle of an append leaves behind; a replay cuts the file
there.
-/

namespace SeriesRegion

/-- Why a log cannot be used. -/
inductive LogFault where
  | io (fault : IoFault)
  | codec (fault : Binary.Fault)
  deriving DecidableEq, Repr

def LogFault.message : LogFault → String
  | .io e => "WAL I/O error: " ++ e.message
  | .codec e => "WAL codec error: " ++ e.message

namespace Log

/-- The bytes of a frame: the length of an entry, of which four bytes are kept, and the entry. -/
def frame (entry : Bytes) : Bytes := littleEndian 4 entry.length ++ entry

def frameOf (e : LogEntry) : Bytes := frame (Binary.Format.logEntry.write e)

def framesOf (es : List LogEntry) : Bytes := es.flatMap frameOf

/-- What is read from the bytes of a log: the entries of the frames that are complete, how many bytes these take, and
what is wrong with the frame after them if it is complete too. -/
structure Scan where
  entries : List LogEntry
  length : Nat
  fault : Option Binary.Fault
  deriving DecidableEq, Repr

/-- Splits the first frame off; `none` if it is not complete. -/
def firstFrame? (bs : Bytes) : Option (Bytes × Bytes) :=
  let header := bs.take 4
  if header.length < 4 then none
  else
    let n := ofLittleEndian header
    let entry := (bs.drop 4).take n
    if entry.length < n then none else some (entry, (bs.drop 4).drop n)

theorem firstFrame?_length {bs entry rest : Bytes} (h : firstFrame? bs = some (entry, rest)) :
    bs.length = 4 + entry.length + rest.length := by
  simp only [firstFrame?] at h
  split at h
  · cases h
  · split at h
    · cases h
    · simp only [Option.some.injEq, Prod.mk.injEq] at h
      obtain ⟨rfl, rfl⟩ := h
      simp only [List.length_take, List.length_drop] at *
      omega

/-- Reads frames until one is not complete or holds no entry.  `read` holds the entries before them, the last first, and
`length` is the number of bytes these take. -/
def scanOnto (read : List LogEntry) (length : Nat) (bs : Bytes) : Scan :=
  match h : firstFrame? bs with
  | none => ⟨read.reverse, length, none⟩
  | some (bytes, rest) =>
    match Binary.Format.logEntry.decode bytes with
    | .error e => ⟨read.reverse, length, some e⟩
    | .ok entry =>
      have := firstFrame?_length h
      scanOnto (entry :: read) (length + (4 + bytes.length)) rest
  termination_by bs.length
  decreasing_by omega

def scan (bs : Bytes) : Scan := scanOnto [] 0 bs

theorem scanOnto_eq (read : List LogEntry) (length : Nat) (bs : Bytes) :
    scanOnto read length bs =
      ⟨read.reverse ++ (scan bs).entries, length + (scan bs).length, (scan bs).fault⟩ := by
  induction h : bs.length using Nat.strongRecOn generalizing bs read length with
  | _ n ih =>
    rw [scan, scanOnto, scanOnto]
    split
    · simp
    · rename_i bytes rest hf
      have := firstFrame?_length hf
      split
      · simp
      · rename_i entry _
        rw [ih _ (by omega) (entry :: read) _ rest rfl, ih _ (by omega) [entry] _ rest rfl]
        simp [Nat.add_assoc]

/-- A log is read frame by frame. -/
theorem scan_eq (bs : Bytes) :
    scan bs =
      match firstFrame? bs with
      | none => ⟨[], 0, none⟩
      | some (bytes, rest) =>
        match Binary.Format.logEntry.decode bytes with
        | .error e => ⟨[], 0, some e⟩
        | .ok entry =>
          ⟨entry :: (scan rest).entries, 4 + bytes.length + (scan rest).length, (scan rest).fault⟩ := by
  rw [scan, scanOnto]
  split
  · rename_i h
    simp [h]
  · rename_i bytes rest h
    simp only [h]
    cases Binary.Format.logEntry.decode bytes with
    | error e => rfl
    | ok entry => simp [scanOnto_eq [entry]]

/-- Hands entries to a handler until it fails. -/
def feed {σ ε : Type} (handler : σ → LogEntry → σ × Option ε) : σ → List LogEntry → σ × Option ε
  | s, [] => (s, none)
  | s, e :: es =>
    match handler s e with
    | (s, some fault) => (s, some fault)
    | (s, none) => feed handler s es

end Log

/-- A log open for appending: the path it was opened at, the file, and whether the file is to be synced. -/
structure LogFile where
  path : Path
  file : Nat
  sync : Bool
  deriving DecidableEq, Repr

namespace LogFile

/-- Opens a log, creating it if it is missing. -/
def openAt (p : Path) (sync : Bool) : FileWork LogFault LogFile := do
  let file ← FileWork.attempt (.perform (.openLog p)) .io
  return ⟨p, file, sync⟩

def flush (l : LogFile) : FileTask (Except IoFault Unit) :=
  if l.sync then FileTask.perform (.sync l.file) else return .ok ()

/-- Appends an entry; gives the number of bytes that the frame says it has.  Writing to an open file does not fail here,
and so neither does syncing what was written. -/
def append (l : LogFile) (e : LogEntry) : FileTask Nat := do
  let bytes := Binary.Format.logEntry.write e
  let _ ← FileTask.perform (.append l.file (Log.frame bytes))
  -- Not the length of the frame if the entry is too long for four bytes to tell its length.
  return ofLittleEndian (littleEndian 4 bytes.length) + 4

/-- Hands the entries among the bytes of a log to a handler, and then cuts off an incomplete frame at the end.  A failure
of the handler, or a complete frame that holds no entry, ends the replay and leaves the file as it is.  If the file cannot
be synced once it has been cut, the replay fails as well. -/
def replayBytes {σ : Type} (l : LogFile) (handler : σ → LogEntry → σ × Option LogFault) (init : σ) (bytes : Bytes) :
    FileTask (σ × Except LogFault Unit) :=
  let s := Log.scan bytes
  match Log.feed handler init s.entries with
  | (state, some e) => return (state, .error e)
  | (state, none) =>
    match s.fault with
    | some e => return (state, .error (.codec e))
    | none => do
      if s.length < bytes.length then
        let _ ← FileTask.perform (.truncate l.file s.length)
        let synced ← l.flush
        return (state, synced.mapError .io)
      else return (state, .ok ())

def replay {σ : Type} (l : LogFile) (handler : σ → LogEntry → σ × Option LogFault) (init : σ) :
    FileTask (σ × Except LogFault Unit) := do
  let bytes : Bytes ← FileTask.perform (.contents l.file)
  l.replayBytes handler init bytes

end LogFile

/-- What the answer to reading a log file says: its entries, and none if the file is missing. -/
def Log.entriesOf : Except IoFault Bytes → Except LogFault (List LogEntry)
  | .error .notFound => .ok []
  | .error e => .error (.io e)
  | .ok bytes =>
    let s := Log.scan bytes
    match s.fault with
    | some e => .error (.codec e)
    | none => .ok s.entries

/-- The entries of the log at a path; a log that is missing has none. -/
def Log.read (p : Path) : FileWork LogFault (List LogEntry) := ExceptT.mk do
  let answer : Except IoFault Bytes ← FileTask.perform (.read p)
  return Log.entriesOf answer

/-- The entries bound to a log position from `first` on. -/
def Log.since (first : UInt64) (es : List LogEntry) : List LogEntry :=
  es.filter fun e =>
    match e.searchIndex with
    | some i => first ≤ i
    | none => false

end SeriesRegion
