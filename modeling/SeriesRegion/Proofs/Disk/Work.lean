import SeriesRegion.Disk.Task

/-!
# Running work on files

What work that may fail answers, and which disk it leaves, part by part.
-/

namespace SeriesRegion.FileWork

variable {ε α β : Type}

theorem run_pure (a : α) (d : Disk) : (pure a : FileWork ε α).run.run d = (.ok a, d) := rfl

theorem run_attempt (t : FileTask (Except IoFault α)) (fault : IoFault → ε) (d : Disk) :
    (attempt t fault).run.run d = ((t.run d).1.mapError fault, (t.run d).2) := by
  show (t >>= _ : FileTask (Except ε α)).run d = _
  rw [FileTask.run_bind]
  cases (t.run d).1 with
  | error e => rfl
  | ok a => rfl

theorem run_within {δ : Type} (w : FileWork δ α) (fault : δ → ε) (d : Disk) :
    (within w fault).run.run d = ((w.run.run d).1.mapError fault, (w.run.run d).2) := by
  show (w.run >>= _ : FileTask (Except ε α)).run d = _
  rw [FileTask.run_bind]
  rfl

private theorem mapError_eq_ok {δ : Type} {r : Except δ α × Disk} {fault : δ → ε} {a : α} {d : Disk} :
    (r.1.mapError fault, r.2) = (.ok a, d) ↔ r = (.ok a, d) := by
  obtain ⟨answer, d'⟩ := r
  constructor
  · intro h
    cases answer with
    | error e => cases h
    | ok b =>
      cases h
      rfl
  · intro h
    cases h
    rfl

theorem run_attempt_eq_ok {t : FileTask (Except IoFault α)} {fault : IoFault → ε} {d d' : Disk} {a : α} :
    (attempt t fault).run.run d = (.ok a, d') ↔ t.run d = (.ok a, d') := by
  rw [run_attempt]
  exact mapError_eq_ok

theorem run_attempt_error {t : FileTask (Except IoFault α)} {d d' : Disk} {e : IoFault} (h : t.run d = (.error e, d'))
    (fault : IoFault → ε) : (attempt t fault).run.run d = (.error (fault e), d') := by
  rw [run_attempt, h]
  rfl

theorem run_read_eq_ok {p : Path} {fault : IoFault → ε} {d d' : Disk} {bytes : Bytes} :
    (attempt (α := Bytes) (.perform (.read p)) fault).run.run d = (.ok bytes, d') ↔ d.read p = .ok bytes ∧ d' = d := by
  have hrun : (attempt (α := Bytes) (.perform (.read p)) fault).run.run d = ((d.read p).mapError fault, d) :=
    run_attempt (α := Bytes) (.perform (.read p)) fault d
  rw [hrun, mapError_eq_ok (r := (d.read p, d)), Prod.mk.injEq, eq_comm (a := d)]

theorem run_within_eq_ok {δ : Type} {w : FileWork δ α} {fault : δ → ε} {d d' : Disk} {a : α} :
    (within w fault).run.run d = (.ok a, d') ↔ w.run.run d = (.ok a, d') := by
  rw [run_within]
  exact mapError_eq_ok

theorem run_ofExcept {δ : Type} (r : Except δ α) (fault : δ → ε) (d : Disk) :
    (ofExcept r fault).run.run d = (r.mapError fault, d) := rfl

theorem run_ofExcept_eq_ok {δ : Type} {r : Except δ α} {fault : δ → ε} {d d' : Disk} {a : α} :
    (ofExcept r fault).run.run d = (.ok a, d') ↔ r = .ok a ∧ d' = d := by
  rw [run_ofExcept, mapError_eq_ok (r := (r, d)), Prod.mk.injEq, eq_comm (a := d)]

theorem run_lift (t : FileTask α) (d : Disk) :
    (ExceptT.lift t : FileWork ε α).run.run d = (.ok (t.run d).1, (t.run d).2) := by
  show (_ <$> t : FileTask (Except ε α)).run d = _
  rw [← bind_pure_comp, FileTask.run_bind]
  rfl

/-- Work after other work is only reached if that succeeds, and starts from the disk that it leaves. -/
theorem run_bind (w : FileWork ε α) (f : α → FileWork ε β) (d : Disk) :
    (w >>= f).run.run d =
      match w.run.run d with
      | (.ok a, d) => (f a).run.run d
      | (.error e, d) => (.error e, d) := by
  rw [ExceptT.run_bind, FileTask.run_bind]
  obtain ⟨answer, d'⟩ := w.run.run d
  cases answer with
  | ok a => rfl
  | error e => rfl

theorem run_bind_ok {w : FileWork ε α} {d d' : Disk} {a : α} (h : w.run.run d = (.ok a, d')) (f : α → FileWork ε β) :
    (w >>= f).run.run d = (f a).run.run d' := by
  rw [run_bind, h]

theorem run_bind_error {w : FileWork ε α} {d d' : Disk} {e : ε} (h : w.run.run d = (.error e, d')) (f : α → FileWork ε β) :
    (w >>= f).run.run d = (.error e, d') := by
  rw [run_bind, h]

theorem bind_ok {w : FileWork ε α} {f : α → FileWork ε β} {d d' : Disk} {b : β}
    (h : (w >>= f).run.run d = (.ok b, d')) :
    ∃ a d₁, w.run.run d = (.ok a, d₁) ∧ (f a).run.run d₁ = (.ok b, d') := by
  rw [run_bind] at h
  rcases hw : w.run.run d with ⟨answer, d₁⟩
  rw [hw] at h
  cases answer with
  | ok a => exact ⟨a, d₁, rfl, h⟩
  | error e => cases h

end SeriesRegion.FileWork
