import SeriesRegion.Proofs.MemTable.Holds
import SeriesRegion.Proofs.Region.Applied
import SeriesRegion.Proofs.Region.Reopened
import SeriesRegion.Proofs.Request.Inserts
import Mathlib

/-!
# Commands seen halfway

The inserts of a command are logged and applied one by one.  What a snapshot copies meanwhile, or what is left of the log
after a crash, may have the first of them and not the others (`Region.seen_iff`), and all of them carry the log position
of the command (`Region.seen_at_iff`).  So a table that has reached the position has all of the command if and only if the inserts that are left
never say anything that is not there already (`Region.seen_whole_iff`).
-/

namespace SeriesRegion.Region

variable {r : Region} {d : Disk} {c : Command}

/-- The tables that may be seen of a region while a command is applied to it or afterwards: those that a snapshot copies
between two of its inserts, and those of the region opened again after a crash that leaves a part of the log. -/
inductive Seen (r : Region) (d : Disk) (c : Command) : MemTable → Prop
  | copied (k : Nat) : Seen r d c ((r.insertAll (c.entries.take k)).run d).1.1.table
  | rebuilt {n : Nat} {r' : Region}
      (h : ((openAt r.storageGroup r.id r.dataDir r.syncWal).run.run
        (((r.applyCommand c).run d).2.truncate r.log.file n)).1 = .ok r') : Seen r d c r'.table

section Applied

variable {checkpoint : MemTable} {es : List LogEntry} (kept : Kept checkpoint r d) (backed : r.Backed checkpoint es d)
  (valid : ∀ e ∈ c.entries, e.payload.shapeFault? = none) (fits : ∀ e ∈ c.entries, Log.Fits e)

include kept backed valid fits

private theorem kept_applied : Kept checkpoint r ((r.applyCommand c).run d).2 ∧
    Log.Whole (((r.applyCommand c).run d).2.bytesOf r.log.file) (es ++ c.entries) := by
  rw [run_applyCommand, accepted_of_valid valid]
  exact ⟨kept.agree (agreeBut_logAll r d c.entries), (backed.logAll fits).2⟩

/-- A table that is seen has the first inserts of the command, or only the first of the entries from before it. -/
theorem seen_iff {t : MemTable} : Seen r d c t ↔
    (∃ k ≤ c.entries.length, t = r.table.applyAll (c.entries.take k)) ∨
      ∃ j ≤ es.length, t = checkpoint.applyAll (es.take j) := by
  obtain ⟨hkept, hwhole⟩ := kept_applied kept backed valid fits
  constructor
  · rintro (k | @⟨n, r', h⟩)
    · left
      refine ⟨min k c.entries.length, Nat.min_le_right _ _, ?_⟩
      rw [run_insertAll, accepted_of_valid fun e he => valid e (List.mem_of_mem_take he), ← List.take_eq_take_min]
    · obtain ⟨j, hj, hopen⟩ := hkept.reopens_cut hwhole n
      rw [hopen, Except.ok.injEq] at h
      subst h
      by_cases hbefore : j ≤ es.length
      · right
        exact ⟨j, hbefore, by rw [List.take_append_of_le_length hbefore]⟩
      · left
        rw [List.length_append] at hj
        refine ⟨j - es.length, by omega, ?_⟩
        rw [backed.table, ← MemTable.applyAll_append, List.take_append, List.take_of_length_le (by omega)]
  · rintro (⟨k, -, rfl⟩ | ⟨j, hj, rfl⟩)
    · have h := Seen.copied (r := r) (d := d) (c := c) k
      rwa [run_insertAll, accepted_of_valid fun e he => valid e (List.mem_of_mem_take he)] at h
    · obtain ⟨n, hopen⟩ := hkept.exists_cut hwhole j
      have h := Seen.rebuilt hopen
      rwa [List.take_append_of_le_length hj] at h

/-- If the inserts carry a log position above those before, the tables that have reached it are those with the first of
the inserts, from one on. -/
theorem seen_at_iff {i : UInt64} (bound : ∀ e ∈ c.entries, e.searchIndex = some i)
    (above : ∀ k, r.table.maxSearchIndex = some k → k < i) {t : MemTable} :
    Seen r d c t ∧ t.maxSearchIndex = some i ↔
      ∃ k, 0 < k ∧ k ≤ c.entries.length ∧ t = r.table.applyAll (c.entries.take k) := by
  rw [seen_iff kept backed valid fits]
  constructor
  · rintro ⟨⟨k, hk, rfl⟩ | ⟨j, -, rfl⟩, hindex⟩
    · refine ⟨k, Nat.pos_of_ne_zero ?_, hk, rfl⟩
      rintro rfl
      exact UInt64.lt_irrefl _ (above _ hindex)
    · -- What is rebuilt of the entries from before has no position above theirs.
      obtain ⟨l, hl, hle⟩ := MemTable.le_maxSearchIndex_applyAll hindex (es.drop j)
      rw [← MemTable.applyAll_append, List.take_append_drop, ← backed.table] at hl
      exact absurd (UInt64.lt_of_le_of_lt hle (above l hl)) (UInt64.lt_irrefl _)
  · rintro ⟨k, hpos, hk, rfl⟩
    have hne : c.entries.take k ≠ [] := by
      intro hnil
      have hlength := congrArg List.length hnil
      rw [List.length_take, List.length_nil] at hlength
      omega
    exact ⟨.inl ⟨k, hk, rfl⟩, MemTable.maxSearchIndex_applyAll_bound (fun e he => bound e (List.mem_of_mem_take he)) hne
      fun k hk => UInt64.le_of_lt (above k hk)⟩

end Applied

/-- A request with a log position above those before it is applied to a region whose files make it what it is.  However
much of the log a crash leaves, the region can be opened again.  The tables with the log position of the request that can
be seen are those with the first of its inserts, from one insert on.  So all of them have the whole request if and only if
after each of the inserts those that are left say nothing that is not there already. -/
theorem seen_whole_iff (durable : r.Durable d) {q : IndexedRequest} (resolved : q.resolve = .ok c)
    (valid : ∀ e ∈ c.entries, e.payload.shapeFault? = none) (fits : ∀ e ∈ c.entries, Log.Fits e)
    (above : ∀ i, r.table.maxSearchIndex = some i → i < q.searchIndex) :
    (∀ n, ∃ r', ((openAt r.storageGroup r.id r.dataDir r.syncWal).run.run
      (((r.applyCommand c).run d).2.truncate r.log.file n)).1 = .ok r') ∧
    (∀ t, Seen r d c t ∧ t.maxSearchIndex = some q.searchIndex ↔
      ∃ k, 0 < k ∧ k ≤ c.entries.length ∧ t = r.table.applyAll (c.entries.take k)) ∧
    ((∀ t, Seen r d c t → t.maxSearchIndex = some q.searchIndex → t.Holds c.entries) ↔
      ∀ k, 0 < k → k < c.entries.length →
        (r.table.applyAll (c.entries.take k)).Holds (c.entries.drop k)) := by
  obtain ⟨checkpoint, es, kept, backed⟩ := durable
  have hseen : ∀ t, Seen r d c t ∧ t.maxSearchIndex = some q.searchIndex ↔ _ := fun t =>
    seen_at_iff kept backed valid fits (fun e he => q.searchIndex_of_resolve resolved he) above
  refine ⟨fun n => ?_, hseen, ?_⟩
  · obtain ⟨hkept, hwhole⟩ := kept_applied kept backed valid fits
    obtain ⟨j, -, hopen⟩ := hkept.reopens_cut hwhole n
    exact ⟨_, hopen⟩
  · have hholds : ∀ k, (r.table.applyAll (c.entries.take k)).Holds c.entries ↔
        (r.table.applyAll (c.entries.take k)).Holds (c.entries.drop k) := by
      intro k
      have h := MemTable.holds_append_iff r.table (c.entries.take k) (c.entries.drop k)
      rwa [List.take_append_drop] at h
    constructor
    · intro hwhole k hpos hk
      obtain ⟨hs, hindex⟩ := (hseen _).2 ⟨k, hpos, Nat.le_of_lt hk, rfl⟩
      exact (hholds k).1 (hwhole _ hs hindex)
    · intro hrest t hs hindex
      obtain ⟨k, hpos, hk, rfl⟩ := (hseen t).1 ⟨hs, hindex⟩
      rcases Nat.lt_or_eq_of_le hk with hlt | heq
      · exact (hholds k).2 (hrest k hpos hlt)
      · rw [List.take_of_length_le (Nat.le_of_eq heq.symm)]
        exact MemTable.holds_applyAll _ _

def stamped (time : Int64) : LogEntry := ⟨some 7, .row ⟨"d", time, ["m"], [.int64 1]⟩⟩

/-- Two rows at one log position. -/
def pair : IndexedRequest :=
  ⟨7, [.plan (.write (.row ⟨"p", none, ⟨"d", 1, ["m"], [.int64 1]⟩⟩)),
    .plan (.write (.row ⟨"q", none, ⟨"d", 2, ["m"], [.int64 1]⟩⟩))]⟩

/-- Of two rows at one log position the first is seen without the second. -/
theorem seen_whole_iff_pair :
    ∃ r d c, (openAt "g" 1 ⟨"", ["r"]⟩ false).run.run (Disk.new "home") = (.ok r, d) ∧ r.table = .empty ∧
      pair.resolve = .ok c ∧ c.entries = [stamped 1, stamped 2] ∧
      (∀ e ∈ c.entries, e.payload.shapeFault? = none ∧ Log.Fits e) ∧
      ¬ ∀ t, Seen r d c t → t.maxSearchIndex = some 7 → t.Holds c.entries := by
  have hanswer : ((openAt "g" 1 ⟨"", ["r"]⟩ false).run.run (Disk.new "home")).1 =
      .ok ⟨"g", 1, ⟨"", ["r"]⟩, 0, false, ⟨⟨"", ["r", "wal-0.log"]⟩, 0, false⟩, .empty⟩ := by cbv
  rcases hopen : (openAt "g" 1 ⟨"", ["r"]⟩ false).run.run (Disk.new "home") with ⟨answer, d⟩
  rw [hopen] at hanswer
  subst hanswer
  obtain ⟨c, hresolve, hentries⟩ : ∃ c, pair.resolve = .ok c ∧ c.entries = [stamped 1, stamped 2] := ⟨_, rfl, rfl⟩
  have hgood : ∀ e ∈ c.entries, e.payload.shapeFault? = none ∧ Log.Fits e := by
    intro e he
    rw [hentries] at he
    simp only [List.mem_cons, List.not_mem_nil, or_false] at he
    rcases he with rfl | rfl
    · have hlength : (Binary.Format.logEntry.write (stamped 1)).length = 67 := by cbv
      exact ⟨rfl, by rw [Log.Fits, hlength]; decide⟩
    · have hlength : (Binary.Format.logEntry.write (stamped 2)).length = 67 := by cbv
      exact ⟨rfl, by rw [Log.Fits, hlength]; decide⟩
  refine ⟨_, d, c, rfl, rfl, hresolve, hentries, hgood, ?_⟩
  intro hwhole
  have h := seen_whole_iff (durable_of_openAt (Disk.oneName_new "home") hopen) hresolve (fun e he => (hgood e he).1)
    (fun e he => (hgood e he).2) (fun i hi => by cases hi)
  rw [hentries] at h hwhole
  have hfirst : (MemTable.empty.applyAll [stamped 1]).Holds [stamped 2] := h.2.2.1 hwhole 1 (by decide) (by decide)
  have hvalue := hfirst.2 ⟨"d", "m", 2⟩ (.int64 1) (by decide)
  rw [MemTable.value_applyAll] at hvalue
  exact absurd hvalue (by decide)

end SeriesRegion.Region
