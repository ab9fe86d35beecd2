import SeriesRegion.Proofs.Binary.Exact
import SeriesRegion.Proofs.Region.Applied
import Mathlib.Data.List.Forall2

/-!
# What is reported of a group

If an insert of a group fails, the report of the group lists the statuses of its inserts in the order of their positions
(`Status.placed_atPositions`) and counts those that failed.  But only an insert that is given a position is listed.  A group
that is read from bytes may have fewer positions than inserts, and then the last inserts are missing from the list and from
the count: the report tells of every insert exactly if there are enough positions (`Region.applyCommand_reports`).
-/

namespace SeriesRegion

namespace Status

variable {positions : List UInt64} {ss : List Status}

/-- The statuses that are given a position, in the order of their positions; those at one position stay in their order. -/
def Placed (positions : List UInt64) (ss parts : List Status) : Prop :=
  ∃ placed : List (UInt64 × Status), placed.map (·.2) = parts ∧ placed.Perm (positions.zip ss) ∧
    placed.Pairwise (fun a b => a.1 ≤ b.1) ∧ ∀ p, placed.filter (·.1 = p) = (positions.zip ss).filter (·.1 = p)

theorem placed_atPositions (positions : List UInt64) (ss : List Status) : Placed positions ss (atPositions positions ss) := by
  let le : UInt64 × Status → UInt64 × Status → Bool := fun a b => a.1 ≤ b.1
  have htrans : ∀ a b c, le a b → le b c → le a c := by
    intro a b c hab hbc
    exact decide_eq_true (UInt64.le_trans (of_decide_eq_true hab) (of_decide_eq_true hbc))
  have htotal : ∀ a b, le a b || le b a := by
    intro a b
    rw [Bool.or_eq_true, decide_eq_true_eq, decide_eq_true_eq]
    exact UInt64.le_total a.1 b.1
  have hperm := (positions.zip ss).mergeSort_perm le
  refine ⟨(positions.zip ss).mergeSort le, rfl, hperm, ?_, fun p => ?_⟩
  · exact (List.pairwise_mergeSort htrans htotal _).imp fun h => of_decide_eq_true h
  · -- Pairs at one position are sorted as they stand, and so they stand in the sorted list.
    have hsame : ((positions.zip ss).filter (·.1 = p)).Pairwise fun a b => le a b := by
      refine List.pairwise_of_forall_mem_list fun a ha b hb => ?_
      have ha : a.1 = p := of_decide_eq_true (List.mem_filter.1 ha).2
      have hb : b.1 = p := of_decide_eq_true (List.mem_filter.1 hb).2
      exact decide_eq_true (ha.trans hb.symm ▸ UInt64.le_refl _)
    have hsub := (List.sublist_mergeSort htrans htotal hsame List.filter_sublist).filter (·.1 = p)
    simp only [List.filter_filter, Bool.and_self] at hsub
    exact (hsub.eq_of_length (hperm.filter _).length_eq.symm).symm

private theorem eq_of_filter_eq {xs ys : List (UInt64 × Status)} (hx : xs.Pairwise fun a b => a.1 ≤ b.1)
    (hy : ys.Pairwise fun a b => a.1 ≤ b.1) (h : ∀ p, xs.filter (·.1 = p) = ys.filter (·.1 = p)) : xs = ys := by
  induction xs generalizing ys with
  | nil =>
    cases ys with
    | nil => rfl
    | cons y ys => simpa using h y.1
  | cons x xs ih =>
    have hmem : ∀ z, z ∈ x :: xs ↔ z ∈ ys := fun z => by simpa using congrArg (z ∈ ·) (h z.1)
    cases ys with
    | nil => exact absurd ((hmem x).1 List.mem_cons_self) List.not_mem_nil
    | cons y ys =>
      rw [List.pairwise_cons] at hx hy
      have hxy : x.1 ≤ y.1 := by
        obtain rfl | hin := List.mem_cons.1 ((hmem y).2 List.mem_cons_self)
        · exact UInt64.le_refl _
        · exact hx.1 y hin
      have hyx : y.1 ≤ x.1 := by
        obtain rfl | hin := List.mem_cons.1 ((hmem x).1 List.mem_cons_self)
        · exact UInt64.le_refl _
        · exact hy.1 x hin
      have hpos : y.1 = x.1 := UInt64.le_antisymm hyx hxy
      -- Both begin with the first pair at the least position.
      obtain rfl : x = y := by simpa [hpos] using congrArg List.head? (h x.1)
      refine congrArg (x :: ·) (ih hx.2 hy.2 fun p => ?_)
      have hp := h p
      rw [List.filter_cons, List.filter_cons] at hp
      split at hp
      · exact (List.cons.inj hp).2
      · exact hp

/-- There is one way to list the statuses. -/
theorem Placed.unique {parts parts' : List Status} (h : Placed positions ss parts) (h' : Placed positions ss parts') :
    parts = parts' := by
  obtain ⟨placed, rfl, -, hsorted, hstable⟩ := h
  obtain ⟨placed', rfl, -, hsorted', hstable'⟩ := h'
  exact congrArg _ (eq_of_filter_eq hsorted hsorted' fun p => (hstable p).trans (hstable' p).symm)

theorem map_snd_zip (positions : List UInt64) (ss : List Status) :
    (positions.zip ss).map (·.2) = ss.take positions.length := by
  induction positions generalizing ss with
  | nil => rfl
  | cons p positions ih =>
    cases ss with
    | nil => rfl
    | cons s ss => exact congrArg (s :: ·) (ih ss)

/-- The statuses that are listed are those that are given a position. -/
theorem atPositions_perm (positions : List UInt64) (ss : List Status) :
    (atPositions positions ss).Perm (ss.take positions.length) := by
  rw [← map_snd_zip]
  exact ((positions.zip ss).mergeSort_perm _).map _

theorem length_atPositions (positions : List UInt64) (ss : List Status) :
    (atPositions positions ss).length = min positions.length ss.length := by
  rw [(atPositions_perm positions ss).length_eq, List.length_take]

theorem failures_atPositions (positions : List UInt64) (ss : List Status) :
    failures (atPositions positions ss) = failures (ss.take positions.length) :=
  (atPositions_perm positions ss).countP_eq _

/-- What the report of a group says of the statuses of its inserts, one of which has failed, if it leaves none out. -/
structure Whole (positions : List UInt64) (ss : List Status) (report : Status) : Prop where
  code : report.code = .multipleError
  length : report.parts.length = ss.length
  placed : Placed positions ss report.parts
  count : failures report.parts = failures ss
  message : report.message = some s!"{failures ss} of {ss.length} inserts failed"

theorem ofGroup_of_failure (fails : ∃ s ∈ ss, ¬ s.isSuccess) : ofGroup positions ss =
    ⟨.multipleError, some s!"{failures (atPositions positions ss)} of {(atPositions positions ss).length} inserts failed",
      atPositions positions ss⟩ := by
  rw [ofGroup, if_neg]
  rw [failures_eq_zero]
  simpa using fails

/-- Nothing is left out of the report of a group in which an insert has failed exactly if there are enough positions. -/
theorem whole_ofGroup_iff (fails : ∃ s ∈ ss, ¬ s.isSuccess) :
    Whole positions ss (ofGroup positions ss) ↔ ss.length ≤ positions.length := by
  rw [ofGroup_of_failure fails]
  constructor
  · intro h
    have hlength := h.length
    rw [length_atPositions] at hlength
    omega
  · intro h
    have hlength : (atPositions positions ss).length = ss.length := by rw [length_atPositions, Nat.min_eq_right h]
    have hcount : failures (atPositions positions ss) = failures ss := by
      rw [failures_atPositions, List.take_of_length_le h]
    exact ⟨rfl, hlength, placed_atPositions positions ss, hcount, by rw [hcount, hlength]⟩

/-- The failures that are listed are all there are exactly if no status without a position is one. -/
theorem failures_take_eq_iff (n : Nat) (ss : List Status) :
    failures (ss.take n) = failures ss ↔ ∀ s ∈ ss.drop n, s.isSuccess := by
  have hsplit : failures ss = failures (ss.take n) + failures (ss.drop n) := by
    conv => lhs; rw [← List.take_append_drop n ss]
    exact List.countP_append
  rw [← failures_eq_zero]
  omega

end Status

/-- The positions that a group gives to its inserts. -/
def Command.positions? : Command → Option (List UInt64)
  | .row _ | .tablet _ => none
  | .tablets g => some g.positions
  | .rows g | .rowsOfOneDevice g => some g.positions

theorem Command.status_of_positions {c : Command} {positions : List UInt64} (hgroup : c.positions? = some positions) :
    c.status = .ofGroup positions (insertStatuses c.entries) := by
  cases c <;> cases hgroup <;> rfl

theorem forall₂_insertStatuses (es : List LogEntry) :
    List.Forall₂ (fun e s => s.isSuccess ↔ e.payload.shapeFault? = none) es (insertStatuses es) := by
  rw [insertStatuses, List.forall₂_map_right_iff, List.forall₂_same]
  exact fun e _ => Status.isSuccess_ofInsert

namespace Region

/--
Each insert of a group that is applied has a status, a success exactly if its shape is good.  If one has failed, the
report lists those that are given a position, in the order of their positions, and counts the failures that it lists.  So it
tells of every insert exactly if there are as many positions as inserts, or more; and it tells of every failure exactly if
no insert without a position has failed.
-/
theorem applyCommand_reports (r : Region) (d : Disk) {c : Command} {positions : List UInt64}
    (hgroup : c.positions? = some positions) :
    let ss := ((r.insertAll c.entries).run d).1.2
    let report := ((r.applyCommand c).run d).1.2
    List.Forall₂ (fun e s => s.isSuccess ↔ e.payload.shapeFault? = none) c.entries ss ∧
      ((∃ s ∈ ss, ¬ s.isSuccess) →
        report.code = .multipleError ∧ Status.Placed positions ss report.parts ∧
          report.message = some s!"{Status.failures report.parts} of {report.parts.length} inserts failed" ∧
          (Status.Whole positions ss report ↔ c.entries.length ≤ positions.length) ∧
          (Status.failures report.parts = Status.failures ss ↔ ∀ s ∈ ss.drop positions.length, s.isSuccess)) := by
  intro ss report
  have hss : ss = insertStatuses c.entries := congrArg (·.1.2) (run_insertAll r c.entries d)
  have hreport : report = .ofGroup positions ss := by
    rw [hss, ← Command.status_of_positions hgroup]
    exact congrArg (·.1.2) (run_applyCommand r c d)
  have hlength : ss.length = c.entries.length := by rw [hss, insertStatuses, List.length_map]
  refine ⟨hss ▸ forall₂_insertStatuses c.entries, fun fails => ?_⟩
  have hwhole : Status.Whole positions ss (.ofGroup positions ss) ↔ ss.length ≤ positions.length :=
    Status.whole_ofGroup_iff fails
  rw [← hreport, hlength] at hwhole
  have hparts : report.parts = Status.atPositions positions ss := by rw [hreport, Status.ofGroup_of_failure fails]
  refine ⟨?_, ?_, ?_, hwhole, ?_⟩
  · rw [hreport, Status.ofGroup_of_failure fails]
  · exact hparts ▸ Status.placed_atPositions positions ss
  · rw [hreport, Status.ofGroup_of_failure fails]
  · rw [hparts, Status.failures_atPositions]
    exact Status.failures_take_eq_iff positions.length ss

/-- Two rows, of which the second has no value and no position. -/
def shortRows : Group Row :=
  ⟨"p", none, "d", [0], [⟨"q", none, ⟨"d", 1, ["m"], [.int64 1]⟩⟩, ⟨"r", none, ⟨"e", 2, ["m"], []⟩⟩]⟩

/-- The rows can be read from bytes.  The second fails, and the report, a failure, lists none. -/
theorem applyCommand_reports_short :
    (RawRequest.encode (.write (.rows shortRows))).planNode = .ok (.write (.rows shortRows)) ∧
      ∃ (r : Region) (d : Disk),
        let ss := ((r.insertAll (Command.rows shortRows).entries).run d).1.2
        let report := ((r.applyCommand (.rows shortRows)).run d).1.2
        Status.failures ss = 1 ∧ report.code = .multipleError ∧ report.message = some "0 of 1 inserts failed" ∧
          Status.failures report.parts = 0 ∧ ¬ Status.Whole shortRows.positions ss report := by
  let r : Region := ⟨"g", 1, ⟨"", ["r"]⟩, 0, false, ⟨⟨"", ["r", "wal-0.log"]⟩, 0, false⟩, .empty⟩
  have hlength : (Binary.Format.plan.write (.write (.rows shortRows))).length = 167 := by cbv
  refine ⟨Binary.Format.planNode_encode (hlength ▸ by decide), r, Disk.new "home", ?_⟩
  have hss : ((r.insertAll (Command.rows shortRows).entries).run (Disk.new "home")).1.2 =
      insertStatuses (Command.rows shortRows).entries := congrArg (·.1.2) (run_insertAll ..)
  obtain ⟨-, hreport⟩ := applyCommand_reports r (Disk.new "home") (c := .rows shortRows) rfl
  have hcount : Status.failures ((r.insertAll (Command.rows shortRows).entries).run (Disk.new "home")).1.2 = 1 := by
    rw [hss]
    decide
  have hfails : ∃ s ∈ ((r.insertAll (Command.rows shortRows).entries).run (Disk.new "home")).1.2, ¬ s.isSuccess := by
    rw [hss]
    decide
  obtain ⟨hcode, hplaced, hmessage, hwhole, -⟩ := hreport hfails
  have hparts : ((r.applyCommand (.rows shortRows)).run (Disk.new "home")).1.2.parts = [.success] := by
    rw [hss] at hplaced
    exact hplaced.unique ⟨[(0, .success)], rfl, .refl _, List.pairwise_singleton _ _, fun p => rfl⟩
  refine ⟨hcount, hcode, ?_, ?_, fun h => absurd (hwhole.1 h) (by decide)⟩
  · rw [hmessage, hparts]
    rfl
  · rw [hparts]
    rfl

end Region

end SeriesRegion
