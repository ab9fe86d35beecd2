import SeriesRegion.Log
import SeriesRegion.Proofs.Binary.RoundTrip

/-!
# Reading the frames of a log

A log is whole if its bytes are read to their end (`Log.Whole`).  What stands after a whole log is read as if it stood
alone (`Log.Whole.scan_append`), so that a whole log stays whole when entries are appended, and these are read after
those before (`Log.Whole.append`).  Of a log that is cut anywhere the first entries are read (`Log.Whole.scan_take`), and
it can be cut after each (`Log.Whole.take`).  The length of an entry has to fit into the four bytes kept of it
(`Log.Fits`).
-/

namespace SeriesRegion.Log

/-- The length of an entry can be written down in front of it. -/
def Fits (e : LogEntry) : Prop := (Binary.Format.logEntry.write e).length < UInt32.size

/-- The bytes of a log are the frames of entries, to their end. -/
def Whole (bs : Bytes) (es : List LogEntry) : Prop := scan bs = ⟨es, bs.length, none⟩

/-- A frame is complete if as many bytes follow the first four as these say. -/
theorem firstFrame?_eq_some {bs entry rest : Bytes} : firstFrame? bs = some (entry, rest) ↔
    ∃ header : Bytes, header.length = 4 ∧ ofLittleEndian header = entry.length ∧ bs = header ++ (entry ++ rest) := by
  constructor
  · intro h
    simp only [firstFrame?] at h
    split at h
    · cases h
    · rename_i header
      split at h
      · cases h
      · rename_i body
        simp only [Option.some.injEq, Prod.mk.injEq] at h
        obtain ⟨rfl, rfl⟩ := h
        refine ⟨bs.take 4, ?_, ?_, ?_⟩
        · rw [List.length_take] at header ⊢
          omega
        · rw [List.length_take] at body ⊢
          omega
        · rw [List.take_append_drop, List.take_append_drop]
  · rintro ⟨header, hl, hn, rfl⟩
    simp only [firstFrame?, List.take_left' hl, List.drop_left' hl, hl, hn, List.take_left' rfl, List.drop_left' rfl,
      Nat.lt_irrefl, if_false]

theorem firstFrame?_append {bs entry rest : Bytes} (h : firstFrame? bs = some (entry, rest)) (more : Bytes) :
    firstFrame? (bs ++ more) = some (entry, rest ++ more) := by
  obtain ⟨header, hl, hn, rfl⟩ := firstFrame?_eq_some.1 h
  refine firstFrame?_eq_some.2 ⟨header, hl, hn, ?_⟩
  rw [List.append_assoc, List.append_assoc]

theorem firstFrame?_frame {entry : Bytes} (h : entry.length < UInt32.size) (rest : Bytes) :
    firstFrame? (frame entry ++ rest) = some (entry, rest) := by
  refine firstFrame?_eq_some.2 ⟨littleEndian 4 entry.length, length_littleEndian 4 _, ?_, List.append_assoc _ _ _⟩
  rw [ofLittleEndian_littleEndian]
  exact Nat.mod_eq_of_lt h

theorem firstFrame?_parts {bs entry rest : Bytes} (h : firstFrame? bs = some (entry, rest)) :
    ∃ front, bs = front ++ rest ∧ firstFrame? front = some (entry, []) := by
  obtain ⟨header, hl, hn, rfl⟩ := firstFrame?_eq_some.1 h
  refine ⟨header ++ entry, (List.append_assoc _ _ _).symm, firstFrame?_eq_some.2 ⟨header, hl, hn, ?_⟩⟩
  rw [List.append_nil]

/-- No part of a frame is a frame. -/
theorem firstFrame?_take {front entry : Bytes} (h : firstFrame? front = some (entry, [])) {n : Nat}
    (hn : n < front.length) : firstFrame? (front.take n) = none := by
  cases hf : firstFrame? (front.take n) with
  | none => rfl
  | some p =>
    obtain ⟨entry', rest⟩ := p
    have happend := firstFrame?_append hf (front.drop n)
    rw [List.take_append_drop, h, Option.some.injEq, Prod.mk.injEq] at happend
    have hdrop : front.drop n = [] := (List.append_eq_nil_iff.1 happend.2.symm).2
    exact absurd (List.drop_eq_nil_iff.1 hdrop) (Nat.not_le.2 hn)

theorem Whole.unique {bs : Bytes} {es es' : List LogEntry} (h : Whole bs es) (h' : Whole bs es') : es = es' :=
  congrArg Scan.entries (h.symm.trans h')

theorem Whole.take_length {bs : Bytes} {es : List LogEntry} (h : Whole bs es) : bs.take (scan bs).length = bs := by
  rw [show scan bs = ⟨es, bs.length, none⟩ from h, List.take_length]

theorem whole_nil : Whole [] [] := by
  rw [Whole, scan_eq]
  rfl

/-- A log that is whole, frame by frame. -/
inductive Framed : Bytes → List LogEntry → Prop
  | nil : Framed [] []
  | cons {front entry rest : Bytes} {e : LogEntry} {es : List LogEntry} (frame : firstFrame? front = some (entry, []))
      (decoded : Binary.Format.logEntry.decode entry = .ok e) (more : Framed rest es) : Framed (front ++ rest) (e :: es)

theorem Whole.framed {bs : Bytes} {es : List LogEntry} (h : Whole bs es) : Framed bs es := by
  induction hn : bs.length using Nat.strongRecOn generalizing bs es with
  | _ n ih =>
    rw [Whole, scan_eq] at h
    cases hf : firstFrame? bs with
    | none =>
      simp only [hf, Scan.mk.injEq] at h
      obtain ⟨rfl, hlen, -⟩ := h
      rw [List.length_eq_zero_iff.1 hlen.symm]
      exact .nil
    | some p =>
      obtain ⟨entry, rest⟩ := p
      have hlen := firstFrame?_length hf
      simp only [hf] at h
      cases hd : Binary.Format.logEntry.decode entry with
      | error e => simp [hd] at h
      | ok e =>
        simp only [hd, Scan.mk.injEq] at h
        obtain ⟨rfl, hlength, hfault⟩ := h
        obtain ⟨front, rfl, hfront⟩ := firstFrame?_parts hf
        have hrest : Whole rest (scan rest).entries := by
          have : rest.length = (scan rest).length := by omega
          rw [Whole, this, ← hfault]
        exact .cons hfront hd (ih rest.length (by omega) hrest rfl)

/-- After a frame the log is read on. -/
theorem scan_frame {front entry : Bytes} {e : LogEntry} (hf : firstFrame? front = some (entry, []))
    (hd : Binary.Format.logEntry.decode entry = .ok e) (rest : Bytes) :
    scan (front ++ rest) = ⟨e :: (scan rest).entries, front.length + (scan rest).length, (scan rest).fault⟩ := by
  have hl := firstFrame?_length hf
  rw [scan_eq, firstFrame?_append hf, List.nil_append, hl, List.length_nil, Nat.add_zero]
  simp only [hd]

/-- What follows a whole log is read as if it stood alone. -/
theorem Whole.scan_append {bs : Bytes} {es : List LogEntry} (h : Whole bs es) (more : Bytes) :
    scan (bs ++ more) = ⟨es ++ (scan more).entries, bs.length + (scan more).length, (scan more).fault⟩ := by
  replace h := h.framed
  induction h with
  | nil => simp
  | cons hf hd _ ih =>
    rw [List.append_assoc, scan_frame hf hd, ih]
    simp [Nat.add_assoc]

theorem Whole.append {bs more : Bytes} {es es' : List LogEntry} (h : Whole bs es) (h' : Whole more es') :
    Whole (bs ++ more) (es ++ es') := by
  rw [Whole, h.scan_append, h', List.length_append]

theorem whole_of_firstFrame? {front entry : Bytes} {e : LogEntry} (hf : firstFrame? front = some (entry, []))
    (hd : Binary.Format.logEntry.decode entry = .ok e) : Whole front [e] := by
  have h := scan_frame hf hd []
  rwa [List.append_nil, show scan [] = ⟨[], 0, none⟩ from whole_nil] at h

/-- The beginning of a whole log holds its first entries, and nothing that is not an entry. -/
theorem Whole.scan_take {bs : Bytes} {es : List LogEntry} (h : Whole bs es) (n : Nat) :
    ∃ j ≤ es.length, (scan (bs.take n)).entries = es.take j ∧ (scan (bs.take n)).fault = none := by
  replace h := h.framed
  induction h generalizing n with
  | nil =>
    rw [List.take_nil, show scan [] = ⟨[], 0, none⟩ from whole_nil]
    exact ⟨0, Nat.le_refl _, rfl, rfl⟩
  | @cons front entry rest e es hf hd _ ih =>
    rw [List.take_append]
    by_cases hn : n < front.length
    · rw [Nat.sub_eq_zero_of_le (Nat.le_of_lt hn), List.take_zero, List.append_nil, scan_eq, firstFrame?_take hf hn]
      exact ⟨0, Nat.zero_le _, rfl, rfl⟩
    · rw [List.take_of_length_le (Nat.not_lt.1 hn), scan_frame hf hd]
      obtain ⟨j, hj, hentries, hfault⟩ := ih (n - front.length)
      exact ⟨j + 1, Nat.succ_le_succ hj, by rw [hentries, List.take_succ_cons], hfault⟩

/-- A whole log can be cut after each of its entries. -/
theorem Whole.take {bs : Bytes} {es : List LogEntry} (h : Whole bs es) (j : Nat) :
    ∃ n, Whole (bs.take n) (es.take j) := by
  replace h := h.framed
  induction h generalizing j with
  | nil =>
    rw [List.take_nil]
    exact ⟨0, whole_nil⟩
  | @cons front entry rest e es hf hd _ ih =>
    cases j with
    | zero => exact ⟨0, whole_nil⟩
    | succ j =>
      obtain ⟨n, hn⟩ := ih j
      refine ⟨front.length + n, ?_⟩
      rw [List.take_length_add_append, List.take_succ_cons]
      exact (whole_of_firstFrame? hf hd).append hn

theorem firstFrame?_frameOf {e : LogEntry} (h : Fits e) :
    firstFrame? (frameOf e) = some (Binary.Format.logEntry.write e, []) := by
  have hf := firstFrame?_frame h []
  rwa [List.append_nil] at hf

theorem whole_frameOf {e : LogEntry} (h : Fits e) : Whole (frameOf e) [e] := by
  have hreads := Binary.Format.logEntry_roundTrips.reads (Nat.lt_trans h (by decide))
  exact whole_of_firstFrame? (firstFrame?_frameOf h) hreads.decode

/-- The entries of a log are those written to it. -/
theorem whole_framesOf {es : List LogEntry} (h : ∀ e ∈ es, Fits e) : Whole (framesOf es) es := by
  induction es with
  | nil => exact whole_nil
  | cons e es ih =>
    have := (whole_frameOf (h e (by simp))).append (ih fun e' he => h e' (by simp [he]))
    rwa [List.singleton_append] at this

/-- A log without a frame that holds no entry is a whole log and an incomplete frame after it. -/
theorem scan_parts {bs : Bytes} (h : (scan bs).fault = none) :
    ∃ front torn, bs = front ++ torn ∧ front.length = (scan bs).length ∧ Whole front (scan bs).entries ∧
      firstFrame? torn = none := by
  induction hn : bs.length using Nat.strongRecOn generalizing bs with
  | _ n ih =>
    rw [scan_eq] at h ⊢
    cases hf : firstFrame? bs with
    | none => exact ⟨[], bs, rfl, rfl, whole_nil, hf⟩
    | some p =>
      obtain ⟨entry, rest⟩ := p
      have hlen := firstFrame?_length hf
      obtain ⟨first, hbs, hfirst⟩ := firstFrame?_parts hf
      simp only [hf] at h ⊢
      cases hd : Binary.Format.logEntry.decode entry with
      | error e => simp [hd] at h
      | ok e =>
        simp only [hd] at h ⊢
        obtain ⟨front, torn, hrest, hfront, hwhole, htorn⟩ := ih rest.length (by omega) h rfl
        have hfirstlen := firstFrame?_length hfirst
        refine ⟨first ++ front, torn, ?_, ?_, (whole_of_firstFrame? hfirst hd).append hwhole, htorn⟩
        · rw [List.append_assoc, ← hrest]
          exact hbs
        · rw [List.length_append, hfront, hfirstlen, List.length_nil, Nat.add_zero]

/-! ### Logs on a disk -/

theorem run_read (p : Path) (d : Disk) : (read p).run.run d = (entriesOf (d.read p), d) := rfl

/-- The log that a path leads to is read up to an incomplete frame. -/
theorem run_read_of_find {d : Disk} {p : Path} {f : Nat} (hp : d.find p = .ok (.file f))
    (readable : (scan (d.bytesOf f)).fault = none) : (read p).run.run d = (.ok (scan (d.bytesOf f)).entries, d) := by
  have hr : d.read p = .ok (d.bytesOf f) := by rw [Disk.read, hp]
  rw [run_read, hr]
  simp only [entriesOf, readable]

/-- The log that a path leads to is read to its end, if it is whole. -/
theorem run_read_of_whole {d : Disk} {p : Path} {f : Nat} {es : List LogEntry} (hp : d.find p = .ok (.file f))
    (h : Whole (d.bytesOf f) es) : (read p).run.run d = (.ok es, d) := by
  have hs : scan (d.bytesOf f) = ⟨es, (d.bytesOf f).length, none⟩ := h
  rw [run_read_of_find hp (by rw [hs]), hs]

end SeriesRegion.Log
