import SeriesRegion.Proofs.Dues
import SeriesRegion.Proofs.MemTable.Holds
import SeriesRegion.Proofs.Region.Opened
import Mathlib

/-!
# Inserts at the same time

Logging an entry and applying it are two steps, each of which excludes all others, and calls of inserts may take theirs
in any order.  A schedule says whose turn it is; when it has run and all calls have returned, what was logged and what
was applied are the same entries, though not in the same order (`Writers.Accounts`).  The table is then what the log
makes of the checkpoint exactly if in both orders each point is written last by the same value
(`Writers.table_eq_rebuilt_iff`), and there are schedules after which it is not (`Writers.table_ne_rebuilt_overtaken`).
-/

namespace SeriesRegion

/-- How far a call of an insert is. -/
inductive Stage where
  | called
  | logged
  | returned (outcome : Except RegionFault Unit)
  deriving Repr

structure Call where
  entry : LogEntry
  stage : Stage
  deriving Repr

/-- Calls that insert into a region, and the entries they have logged and applied, in the order in which they did. -/
structure Writers where
  region : Region
  disk : Disk
  calls : List Call
  logged : List LogEntry
  applied : List LogEntry

namespace Writers

/-- The calls that insert entries, before any of them has done anything. -/
def start (r : Region) (d : Disk) (es : List LogEntry) : Writers := ⟨r, d, es.map (⟨·, .called⟩), [], []⟩

/-- A call takes its next step, if there is such a call and it has not returned: an entry of bad shape is refused, any
other is logged and then, in a step of its own, applied. -/
def advance (s : Writers) (i : Nat) : Writers :=
  match s.calls[i]? with
  | some ⟨e, .called⟩ =>
    match e.payload.shapeFault? with
    | some f => { s with calls := s.calls.set i ⟨e, .returned (.error (.invalidInsert e.payload.device f))⟩ }
    | none =>
      { s with
        disk := ((s.region.logEntry e).run s.disk).2
        calls := s.calls.set i ⟨e, .logged⟩
        logged := s.logged ++ [e] }
  | some ⟨e, .logged⟩ =>
    { s with
      region := s.region.applyEntry e
      calls := s.calls.set i ⟨e, .returned (.ok ())⟩
      applied := s.applied ++ [e] }
  | _ => s

def run (s : Writers) (schedule : List Nat) : Writers := schedule.foldl advance s

def Finished (s : Writers) : Prop := ∀ c ∈ s.calls, ∃ outcome, c.stage = .returned outcome

/-- What a step does: nothing, or the refusal, the logging or the application of the entry of a call. -/
theorem advance_cases (s : Writers) (i : Nat) :
    s.advance i = s ∨
    (∃ e f, s.calls[i]? = some ⟨e, .called⟩ ∧ e.payload.shapeFault? = some f ∧
      s.advance i =
        { s with calls := s.calls.set i ⟨e, .returned (.error (.invalidInsert e.payload.device f))⟩ }) ∨
    (∃ e, s.calls[i]? = some ⟨e, .called⟩ ∧ e.payload.shapeFault? = none ∧
      s.advance i =
        { s with
          disk := ((s.region.logEntry e).run s.disk).2
          calls := s.calls.set i ⟨e, .logged⟩
          logged := s.logged ++ [e] }) ∨
    (∃ e, s.calls[i]? = some ⟨e, .logged⟩ ∧
      s.advance i =
        { s with
          region := s.region.applyEntry e
          calls := s.calls.set i ⟨e, .returned (.ok ())⟩
          applied := s.applied ++ [e] }) := by
  cases hc : s.calls[i]? with
  | none =>
    left
    rw [advance, hc]
  | some c =>
    obtain ⟨e, stage⟩ := c
    cases stage with
    | called =>
      right
      cases hs : e.payload.shapeFault? with
      | some f => exact .inl ⟨e, f, rfl, hs, by simp only [advance, hc, hs]⟩
      | none => exact .inr (.inl ⟨e, rfl, hs, by simp only [advance, hc, hs]⟩)
    | logged => exact .inr (.inr (.inr ⟨e, rfl, by simp only [advance, hc]⟩))
    | returned outcome =>
      left
      rw [advance, hc]

/-- A call whose two steps are not parted by those of others does what an insert does. -/
theorem run_twice {s : Writers} {i : Nat} {e : LogEntry} (h : s.calls[i]? = some ⟨e, .called⟩) :
    (s.run [i, i]).region = ((s.region.insert e).run s.disk).1.1 ∧
      (s.run [i, i]).disk = ((s.region.insert e).run s.disk).2 ∧
      (s.run [i, i]).calls[i]? = some ⟨e, .returned ((s.region.insert e).run s.disk).1.2⟩ := by
  have hi : i < s.calls.length := (List.getElem?_eq_some_iff.1 h).1
  have hset : ∀ c : Call, (s.calls.set i c)[i]? = some c := fun c => by simp [hi]
  have hrun : s.run [i, i] = (s.advance i).advance i := rfl
  rw [hrun, Region.run_insert]
  cases hs : e.payload.shapeFault? with
  | some f =>
    simp only [advance, h, hs, hset]
    exact ⟨trivial, trivial, trivial⟩
  | none =>
    simp only [advance, h, hs, hset, List.set_set]
    exact ⟨trivial, rfl, trivial⟩

/-! ### Accounts -/

/-- The entry of a call that is still to be logged. -/
def unlogged? : Call → Option LogEntry
  | ⟨e, .called⟩ => if e.payload.shapeFault? = none then some e else none
  | _ => none

/-- The entry of a call that is logged but still to be applied. -/
def unapplied? : Call → Option LogEntry
  | ⟨e, .logged⟩ => some e
  | _ => none

/-- Where the entries of the calls are, and what has become of the region and the disk from which they started. -/
structure Accounts (r : Region) (d : Disk) (es : List LogEntry) (s : Writers) : Prop where
  logged : (s.logged ++ s.calls.filterMap unlogged?).Perm (Region.accepted es)
  applied : (s.applied ++ s.calls.filterMap unapplied?).Perm s.logged
  region : s.region = { r with table := r.table.applyAll s.applied }
  disk : s.disk = r.logAll d s.logged

theorem accounts_start (r : Region) (d : Disk) (es : List LogEntry) : Accounts r d es (start r d es) := by
  have hunlogged : (start r d es).calls.filterMap unlogged? = Region.accepted es := by
    have hentry : (unlogged? ∘ fun e => ⟨e, .called⟩) =
        Option.guard fun e : LogEntry => e.payload.shapeFault?.isNone := by
      funext e
      show unlogged? ⟨e, .called⟩ = _
      rw [unlogged?, Option.guard]
      cases e.payload.shapeFault? <;> rfl
    rw [start, List.filterMap_map, hentry, List.filterMap_eq_filter, Region.accepted]
  have hunapplied : (start r d es).calls.filterMap unapplied? = [] := by
    rw [List.filterMap_eq_nil_iff]
    intro c hc
    obtain ⟨e, -, rfl⟩ := List.mem_map.1 hc
    rfl
  refine ⟨?_, ?_, rfl, rfl⟩
  · rw [hunlogged]
    exact .refl _
  · rw [hunapplied]
    exact .refl _

theorem Accounts.advance {r : Region} {d : Disk} {es : List LogEntry} {s : Writers} (h : Accounts r d es s)
    (i : Nat) : Accounts r d es (s.advance i) := by
  obtain hs | ⟨e, f, hc, hf, hs⟩ | ⟨e, hc, hf, hs⟩ | ⟨e, hc, hs⟩ := s.advance_cases i
  · rw [hs]
    exact h
  · -- A refused entry was never to be logged.
    have hunlogged : unlogged? ⟨e, .called⟩ = none := if_neg (by simp [hf])
    rw [hs]
    exact ⟨Due.same hc hunlogged rfl h.logged, Due.same hc rfl rfl h.applied, h.region, h.disk⟩
  · -- An entry that is logged is to be applied from then on.
    rw [hs]
    refine ⟨Due.settled hc (if_pos hf) rfl h.logged, Due.incurred hc rfl rfl h.applied, h.region, ?_⟩
    show ((s.region.logEntry e).run s.disk).2 = _
    rw [Region.logAll_append, ← h.disk, h.region]
    rfl
  · -- The entry was to be applied, and now it is.
    rw [hs]
    refine ⟨Due.same hc rfl rfl h.logged, Due.settled hc rfl rfl h.applied, ?_, h.disk⟩
    show s.region.applyEntry e = _
    rw [Region.applyEntry, h.region, MemTable.applyAll_append]
    rfl

/-- Whatever the schedule, the entries are accounted for. -/
theorem accounts (r : Region) (d : Disk) (es : List LogEntry) (schedule : List Nat) :
    Accounts r d es ((start r d es).run schedule) := by
  have hrun : ∀ s, Accounts r d es s → Accounts r d es (s.run schedule) := by
    induction schedule with
    | nil => exact fun s hs => hs
    | cons i schedule ih => exact fun s hs => ih (s.advance i) (hs.advance i)
  exact hrun _ (accounts_start r d es)

/-- When all calls have returned, exactly the entries of good shape are logged, and the same are applied. -/
theorem Finished.perms {r : Region} {d : Disk} {es : List LogEntry} {s : Writers} (finished : s.Finished)
    (h : Accounts r d es s) : s.logged.Perm (Region.accepted es) ∧ s.applied.Perm s.logged := by
  have hunlogged : s.calls.filterMap unlogged? = [] := by
    rw [List.filterMap_eq_nil_iff]
    rintro ⟨e, stage⟩ hc
    obtain ⟨outcome, rfl⟩ := finished _ hc
    rfl
  have hunapplied : s.calls.filterMap unapplied? = [] := by
    rw [List.filterMap_eq_nil_iff]
    rintro ⟨e, stage⟩ hc
    obtain ⟨outcome, rfl⟩ := finished _ hc
    rfl
  have hlogged := h.logged
  have happlied := h.applied
  rw [hunlogged, List.append_nil] at hlogged
  rw [hunapplied, List.append_nil] at happlied
  exact ⟨hlogged, happlied⟩

theorem Accounts.whole {checkpoint : MemTable} {before : List LogEntry} {r : Region} {d : Disk} {es : List LogEntry}
    {s : Writers} (h : Accounts r d es s) (backed : r.Backed checkpoint before d) (fits : ∀ e ∈ s.logged, Log.Fits e) :
    s.disk.find s.region.log.path = .ok (.file s.region.log.file) ∧
      Log.Whole (s.disk.bytesOf s.region.log.file) (before ++ s.logged) := by
  have hfile : s.region.log = r.log := by rw [h.region]
  rw [hfile, h.disk]
  exact backed.logAll fits

/-- Calls insert into a region that has been opened, all at the same time and in any order of their steps.  When they have
returned, the log holds the entries of good shape after those from before, in the order in which they were logged.  The
table is what these entries make of the checkpoint if and only if each point was written last by the same value in the
order of logging and in that of applying. -/
theorem table_eq_rebuilt_iff {storageGroup : String} {id : UInt32} {dir : Path} {syncWal : Bool} {d₀ d : Disk}
    {r : Region} (opened : (Region.openAt storageGroup id dir syncWal).run.run d₀ = (.ok r, d))
    {es : List LogEntry} (fits : ∀ e ∈ es, Log.Fits e) {schedule : List Nat}
    (finished : ((start r d es).run schedule).Finished) :
    let s := (start r d es).run schedule
    ∃ checkpoint before,
      (Region.readCheckpoint dir r.generation).run.run (d₀.makeDirectories dir).2 =
        (.ok checkpoint, (d₀.makeDirectories dir).2) ∧
      s.logged.Perm (Region.accepted es) ∧ s.applied.Perm (Region.accepted es) ∧
      s.region.logged.run.run s.disk = (.ok (before ++ s.logged), s.disk) ∧
      (s.region.table = checkpoint.applyAll (before ++ s.logged) ↔
        ∀ x, MemTable.lastWrite s.logged x = MemTable.lastWrite s.applied x) := by
  intro s
  have h : Accounts r d es s := accounts r d es schedule
  obtain ⟨checkpoint, before, hcheckpoint, backed⟩ := Region.backed_of_openAt opened
  obtain ⟨hlogged, happlied⟩ := Finished.perms finished h
  have hfits : ∀ e ∈ s.logged, Log.Fits e := fun e he => fits e (List.mem_filter.1 (hlogged.mem_iff.1 he)).1
  obtain ⟨hfound, hwhole⟩ := h.whole backed hfits
  refine ⟨checkpoint, before, hcheckpoint, hlogged, happlied.trans hlogged, Log.run_read_of_whole hfound hwhole, ?_⟩
  have htable : s.region.table = r.table.applyAll s.applied := by rw [h.region]
  rw [htable, MemTable.applyAll_append, ← backed.table, ← MemTable.applyAll_eq_iff_of_perm r.table happlied.symm]
  exact eq_comm

def single (value : Int64) : LogEntry := ⟨none, .row ⟨"d", 0, ["m"], [.int64 value]⟩⟩

/-- The first call logs its entry, the second logs and applies another for the same point, and then the first applies
its own: the table says 1, and the log makes it 2. -/
theorem table_ne_rebuilt_overtaken :
    ∃ r d, (Region.openAt "g" 1 ⟨"", ["r"]⟩ false).run.run (Disk.new "home") = (.ok r, d) ∧
      let s := (start r d [single 1, single 2]).run [0, 1, 1, 0]
      s.Finished ∧ ∃ checkpoint before,
        ((Region.readCheckpoint ⟨"", ["r"]⟩ r.generation).run.run ((Disk.new "home").makeDirectories ⟨"", ["r"]⟩).2).1 =
          .ok checkpoint ∧
        s.region.logged.run.run s.disk = (.ok (before ++ s.logged), s.disk) ∧
        s.region.table ≠ checkpoint.applyAll (before ++ s.logged) := by
  have hok : ((Region.openAt "g" 1 ⟨"", ["r"]⟩ false).run.run (Disk.new "home")).1.isOk = true := by cbv
  rcases hopen : (Region.openAt "g" 1 ⟨"", ["r"]⟩ false).run.run (Disk.new "home") with ⟨answer, d⟩
  rw [hopen] at hok
  cases answer with
  | error e => cases hok
  | ok r =>
    have finished : ((start r d [single 1, single 2]).run [0, 1, 1, 0]).Finished := by
      intro c hc
      have hcalls : ((start r d [single 1, single 2]).run [0, 1, 1, 0]).calls =
          [⟨single 1, .returned (.ok ())⟩, ⟨single 2, .returned (.ok ())⟩] := rfl
      rw [hcalls] at hc
      simp only [List.mem_cons, List.not_mem_nil, or_false] at hc
      rcases hc with rfl | rfl
      · exact ⟨_, rfl⟩
      · exact ⟨_, rfl⟩
    have fits : ∀ e ∈ [single 1, single 2], Log.Fits e := by
      intro e he
      simp only [List.mem_cons, List.not_mem_nil, or_false] at he
      rcases he with rfl | rfl
      · have hlength : (Binary.Format.logEntry.write (single 1)).length = 59 := by cbv
        rw [Log.Fits, hlength]
        decide
      · have hlength : (Binary.Format.logEntry.write (single 2)).length = 59 := by cbv
        rw [Log.Fits, hlength]
        decide
    obtain ⟨checkpoint, before, hcheckpoint, -, -, hread, hiff⟩ := table_eq_rebuilt_iff hopen fits finished
    refine ⟨r, d, rfl, finished, checkpoint, before, congrArg Prod.fst hcheckpoint, hread, ?_⟩
    rw [Ne, hiff]
    intro h
    have hpoint : MemTable.lastWrite [single 1, single 2] ⟨"d", "m", 0⟩ =
      MemTable.lastWrite [single 2, single 1] ⟨"d", "m", 0⟩ := h ⟨"d", "m", 0⟩
    exact absurd hpoint (by decide)

end Writers

end SeriesRegion
