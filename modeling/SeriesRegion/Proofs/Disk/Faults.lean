import SeriesRegion.Proofs.Disk.Stops

/-!
# Syncs that fail

Other operations fail because of the names and files that there are; a sync may fail at any time, and what has been written
can still be read then.  `FileTask.MayEnd` says with what a task may end if syncs of some files may fail.  If none may, these are
the ends on a disk that works (`FileTask.mayEnd_iff_ends`), and so are those of a task without syncs
(`FileTask.MayEnd.ends`).  Work that fails has failed in one of its parts, after those before it have succeeded
(`FileWork.mayEnd_bind_error`).
-/

namespace SeriesRegion

/-- Whether an operation waits for the device. -/
def FileOp.isSync : FileOp → Bool
  | .sync _ => true
  | _ => false

/-- What an operation may answer on a disk where syncs of some files may fail. -/
inductive Disk.MayAnswer (fails : Nat → Prop) (d : Disk) : (op : FileOp) → op.Answer → Prop
  | works {op : FileOp} {answer : op.Answer} (answers : d.Answers op answer) : MayAnswer fails d op answer
  | unsynced {f : Nat} (e : IoFault) (h : fails f) : MayAnswer fails d (.sync f) (.error e)

namespace FileTask

variable {α β : Type} {fails : Nat → Prop}

/-- A task may end with an answer, on a disk where syncs of some files may fail. -/
inductive MayEnd (fails : Nat → Prop) : FileTask α → Disk → α → Disk → Prop
  | done (a : α) (d : Disk) : MayEnd fails (.done a) d a d
  | call {op : FileOp} {next : op.Answer → FileTask α} {d d' : Disk} {answer : op.Answer} {a : α}
    (answers : d.MayAnswer fails op answer) (ends : MayEnd fails (next answer) (d.perform op).2 a d') :
    MayEnd fails (.call op next) d a d'

variable {task : FileTask α} {d d' : Disk} {a : α} {b : β}

theorem Ends.mayEnd (h : task.Ends d a d') : task.MayEnd fails d a d' := by
  induction h with
  | done a d => exact .done a d
  | call answers _ ih => exact .call (.works answers) ih

theorem mayEnd_of_run (h : task.run d = (a, d')) : task.MayEnd fails d a d' := by
  have hends := ends_run task d
  rw [h] at hends
  exact hends.mayEnd

theorem mayEnd_iff_ends (never : ∀ f, ¬ fails f) : task.MayEnd fails d a d' ↔ task.Ends d a d' := by
  refine ⟨fun h => ?_, Ends.mayEnd⟩
  induction h with
  | done a d => exact .done a d
  | call answers _ ih =>
    cases answers with
    | works answers => exact .call answers ih
    | unsynced e h => exact absurd h (never _)

theorem MayEnd.ends (h : task.MayEnd fails d a d') (unsyncing : task.Uses fun op => !op.isSync) : task.Ends d a d' := by
  induction h with
  | done a d => exact .done a d
  | call answers _ ih =>
    obtain ⟨hop, hnext⟩ := unsyncing
    cases answers with
    | works answers => exact .call answers (ih (hnext _))
    | unsynced => cases hop

/-! ### The parts of a task -/

theorem mayEnd_pure {a' : α} : (pure a : FileTask α).MayEnd fails d a' d' ↔ a' = a ∧ d' = d := by
  constructor
  · intro h
    cases (show (done a).MayEnd fails d a' d' from h)
    exact ⟨rfl, rfl⟩
  · rintro ⟨rfl, rfl⟩
    exact .done a' d'

theorem mayEnd_perform {op : FileOp} {answer : op.Answer} :
    (perform op).MayEnd fails d answer d' ↔ d.MayAnswer fails op answer ∧ d' = (d.perform op).2 := by
  constructor
  · rintro ⟨⟩
    rename_i answers ends
    cases ends
    exact ⟨answers, rfl⟩
  · rintro ⟨answers, rfl⟩
    exact .call answers (.done answer _)

/-- An operation that has one answer gives it. -/
theorem mayEnd_call_of_isSure {op : FileOp} {next : op.Answer → FileTask α} (sure : op.isSure = true)
    (unsyncing : op.isSync = false) :
    (call op next).MayEnd fails d a d' ↔ (next (d.perform op).1).MayEnd fails (d.perform op).2 a d' := by
  refine ⟨fun h => ?_, .call (.works (.performed op))⟩
  cases h with
  | call answers ends =>
    cases answers with
    | works answers => exact Disk.answer_eq sure answers ▸ ends
    | unsynced => cases unsyncing

/-- A task after another starts with what that has ended with. -/
theorem mayEnd_bind {f : α → FileTask β} :
    (task >>= f).MayEnd fails d b d' ↔ ∃ a d₁, task.MayEnd fails d a d₁ ∧ (f a).MayEnd fails d₁ b d' := by
  induction task generalizing d with
  | done a =>
    refine ⟨fun h => ⟨a, d, .done a d, h⟩, ?_⟩
    rintro ⟨a', d₁, ⟨⟩, h⟩
    exact h
  | call op next ih =>
    constructor
    · intro h
      cases (show (call op fun answer => next answer >>= f).MayEnd fails d b d' from h) with
      | call answers ends =>
        obtain ⟨a, d₁, hnext, hf⟩ := (ih _).1 ends
        exact ⟨a, d₁, .call answers hnext, hf⟩
    · rintro ⟨a, d₁, h, hf⟩
      cases h with
      | call answers ends => exact .call answers ((ih _).2 ⟨a, d₁, ends, hf⟩)

end FileTask

namespace FileWork

open FileTask

variable {ε α β : Type} {fails : Nat → Prop} {w : FileWork ε α} {f : α → FileWork ε β} {d d₁ d' : Disk} {a : α} {e : ε}

theorem mayEnd_bind_ok {answer : Except ε β} (first : w.run.MayEnd fails d (.ok a) d₁)
    (rest : (f a).run.MayEnd fails d₁ answer d') : (w >>= f).run.MayEnd fails d answer d' := by
  rw [ExceptT.run_bind]
  exact mayEnd_bind.2 ⟨.ok a, d₁, first, rest⟩

theorem mayEnd_lift {t : FileTask α} {answer : Except ε α} :
    (ExceptT.lift t : FileWork ε α).run.MayEnd fails d answer d' ↔ ∃ a, answer = .ok a ∧ t.MayEnd fails d a d' := by
  show (_ <$> t : FileTask (Except ε α)).MayEnd fails d answer d' ↔ _
  rw [← bind_pure_comp, mayEnd_bind]
  constructor
  · rintro ⟨a, d₁, ht, ha⟩
    obtain ⟨rfl, rfl⟩ := mayEnd_pure.1 ha
    exact ⟨a, rfl, ht⟩
  · rintro ⟨a, rfl, ht⟩
    exact ⟨a, d', ht, .done _ d'⟩

/-- Work that fails has failed in its first part, or in what comes after it. -/
theorem mayEnd_bind_error : (w >>= f).run.MayEnd fails d (.error e) d' ↔
    w.run.MayEnd fails d (.error e) d' ∨
      ∃ a d₁, w.run.MayEnd fails d (.ok a) d₁ ∧ (f a).run.MayEnd fails d₁ (.error e) d' := by
  constructor
  · intro h
    rw [ExceptT.run_bind] at h
    obtain ⟨e' | a, d₁, hw, hf⟩ := mayEnd_bind.1 h
    · obtain ⟨he, rfl⟩ := mayEnd_pure.1 hf
      cases he
      exact .inl hw
    · exact .inr ⟨a, d₁, hw, hf⟩
  · rintro (h | ⟨a, d₁, hw, hf⟩)
    · rw [ExceptT.run_bind]
      exact mayEnd_bind.2 ⟨.error e, d', h, .done _ d'⟩
    · exact mayEnd_bind_ok hw hf

end FileWork

end SeriesRegion
