import SeriesRegion.Proofs.Disk.Work

/-!
# Tasks that are stopped

A process can be stopped at any moment.  The disk then shows the operations that its task has been through, and a part of
the one that was under way (`Disk.Begins`).  Which operations these are need not be determined, since a directory lists its
names in any order (`Disk.Answers`).  `FileTask.Stops` says on which disks a task may stop, and `FileTask.Ends` with what it may end.

What holds of all of them is shown part by part, along the task: a task assures what it leaves wherever it stops and what it
answers if it ends (`FileTask.Assures`), and a task made of others assures what they do (`FileTask.Assures.bind`,
`FileWork.assures_bind`).
-/

namespace SeriesRegion

namespace FileOp

/-- Whether an operation is done as a whole or not at all. -/
def isWhole : FileOp → Bool
  | .makeDirectories _ | .write .. | .append .. => false
  | _ => true

/-- Whether an operation has one answer only. -/
def isSure : FileOp → Bool
  | .list _ => false
  | _ => true

/-- Whether an operation changes nothing and has one answer only. -/
def looks : FileOp → Bool
  | .present _ | .read _ | .contents _ => true
  | _ => false

theorem isWhole_of_looks {op : FileOp} (h : op.looks = true) : op.isWhole = true := by
  cases op <;> first | rfl | cases h

theorem isSure_of_looks {op : FileOp} (h : op.looks = true) : op.isSure = true := by
  cases op <;> first | rfl | cases h

end FileOp

namespace Disk

/-- The disk on which making directories stops after it has tried to make `n` of them. -/
def makeSome (d : Disk) (n : Nat) (p : Path) : Disk :=
  let make (p : Path) : StateM (Nat × Disk) (Except IoFault Unit) := fun
    | (0, d) => (.error .other, 0, d)
    | (n + 1, d) => ((d.makeDirectory p).1, n, (d.makeDirectory p).2)
  let isThere (p : Path) : StateM (Nat × Disk) Bool := fun s => (s.2.isDirectory p, s)
  ((p.makeDirectories make isThere).run (n, d)).2.2

/-- What an operation has done of itself when it is stopped: some of the directories are made, or some of the bytes are
written. -/
inductive Begins (d : Disk) : FileOp → Disk → Prop
  | makeDirectories (p : Path) (n : Nat) : Begins d (.makeDirectories p) (d.makeSome n p)
  | write (p : Path) (bytes : Bytes) (n : Nat) : Begins d (.write p bytes) (d.write p (bytes.take n)).2
  | append (f : Nat) (bytes : Bytes) (n : Nat) : Begins d (.append f bytes) (d.append f (bytes.take n))

/-- What an operation may answer: names may be listed in another order. -/
inductive Answers (d : Disk) : (op : FileOp) → op.Answer → Prop
  | performed (op : FileOp) : Answers d op (d.perform op).1
  | listed {p : Path} {names order : List String} (h : d.list p = .ok names) (perm : order.Perm names) :
    Answers d (.list p) (.ok order)

variable {op : FileOp} {d d' : Disk}

theorem not_begins (whole : op.isWhole = true) : ¬ d.Begins op d' := by
  rintro ⟨⟩ <;> cases whole

theorem answer_eq {answer : op.Answer} (sure : op.isSure = true) (answers : d.Answers op answer) :
    answer = (d.perform op).1 := by
  cases answers with
  | performed => rfl
  | listed => cases sure

theorem answers_list {p : Path} {names : List String} {answer : FileOp.Answer (.list p)} (h : d.list p = .ok names)
    (answers : d.Answers (.list p) answer) : ∃ order, answer = .ok order ∧ order.Perm names := by
  cases answers with
  | performed => exact ⟨names, h, .refl names⟩
  | listed h' perm =>
    rw [h] at h'
    cases h'
    exact ⟨_, rfl, perm⟩

theorem perform_of_looks (looks : op.looks = true) (d : Disk) : (d.perform op).2 = d := by
  cases op <;> first | rfl | cases looks

end Disk

namespace FileTask

variable {α β : Type}

/-- A task may stop on a disk: before an operation or at the end, within an operation, or later. -/
inductive Stops : FileTask α → Disk → Disk → Prop
  | now (task : FileTask α) (d : Disk) : Stops task d d
  | within {op : FileOp} {next : op.Answer → FileTask α} {d d' : Disk} (begins : d.Begins op d') :
    Stops (.call op next) d d'
  | later {op : FileOp} {next : op.Answer → FileTask α} {d d' : Disk} {answer : op.Answer} (answers : d.Answers op answer)
    (stops : Stops (next answer) (d.perform op).2 d') : Stops (.call op next) d d'

/-- A task may end with an answer, on a disk. -/
inductive Ends : FileTask α → Disk → α → Disk → Prop
  | done (a : α) (d : Disk) : Ends (.done a) d a d
  | call {op : FileOp} {next : op.Answer → FileTask α} {d d' : Disk} {answer : op.Answer} {a : α}
    (answers : d.Answers op answer) (ends : Ends (next answer) (d.perform op).2 a d') : Ends (.call op next) d a d'

/-- Wherever the task is stopped, the disk is as said; and if it ends, so are its answer and the disk. -/
def Assures (stopped : Disk → Prop) (ended : α → Disk → Prop) : FileTask α → Disk → Prop
  | done a, d => stopped d ∧ ended a d
  | call op next, d => stopped d ∧ (∀ d', d.Begins op d' → stopped d') ∧
      ∀ answer, d.Answers op answer → Assures stopped ended (next answer) (d.perform op).2

variable {stopped stopped' : Disk → Prop} {ended ended' : α → Disk → Prop} {task : FileTask α} {d d' : Disk}

theorem Assures.here (h : task.Assures stopped ended d) : stopped d := by
  cases task with
  | done a => exact h.1
  | call op next => exact h.1

theorem Assures.of_stops (h : task.Assures stopped ended d) (stops : task.Stops d d') : stopped d' := by
  induction stops with
  | now task d => exact h.here
  | within begins => exact h.2.1 _ begins
  | later answers _ ih => exact ih (h.2.2 _ answers)

theorem Assures.of_ends {a : α} (h : task.Assures stopped ended d) (ends : task.Ends d a d') : ended a d' := by
  induction ends with
  | done a d => exact h.2
  | call answers _ ih => exact ih (h.2.2 _ answers)

/-- The run in which names are listed in their order is one of those that end. -/
theorem ends_run (task : FileTask α) (d : Disk) : task.Ends d (task.run d).1 (task.run d).2 := by
  induction task generalizing d with
  | done a => exact .done a d
  | call op next ih => exact .call (.performed op) (ih _ _)

theorem Assures.of_run (h : task.Assures stopped ended d) : ended (task.run d).1 (task.run d).2 := h.of_ends (ends_run task d)

/-- A task may be stopped when it has ended. -/
theorem Ends.stops {a : α} (h : task.Ends d a d') : task.Stops d d' := by
  induction h with
  | done a d => exact .now _ d
  | call answers _ ih => exact .later answers ih

theorem stops_run (task : FileTask α) (d : Disk) : task.Stops d (task.run d).2 := (ends_run task d).stops

theorem Stops.bind (h : task.Stops d d') (f : α → FileTask β) : (task >>= f).Stops d d' := by
  induction h with
  | now task d => exact .now _ d
  | within begins => exact .within begins
  | later answers _ ih => exact .later answers ih

/-- A task after another may be stopped once that has ended. -/
theorem Ends.stops_bind {a : α} {d₁ : Disk} {f : α → FileTask β} (h : task.Ends d a d₁) (rest : (f a).Stops d₁ d') :
    (task >>= f).Stops d d' := by
  induction h with
  | done a d => exact rest
  | call answers _ ih => exact .later answers (ih rest)

theorem Assures.mono (h : task.Assures stopped ended d) (hstopped : ∀ d, stopped d → stopped' d)
    (hended : ∀ a d, stopped d → ended a d → ended' a d) : task.Assures stopped' ended' d := by
  induction task generalizing d with
  | done a => exact ⟨hstopped d h.1, hended a d h.1 h.2⟩
  | call op next ih =>
    exact ⟨hstopped d h.1, fun d' begins => hstopped d' (h.2.1 d' begins), fun answer answers =>
      ih answer (h.2.2 answer answers)⟩

theorem assures_pure {a : α} (hstopped : stopped d) (hended : ended a d) : (pure a : FileTask α).Assures stopped ended d :=
  ⟨hstopped, hended⟩

theorem Assures.bind {f : α → FileTask β} {final : β → Disk → Prop}
    (h : task.Assures stopped (fun a d => (f a).Assures stopped final d) d) : (task >>= f).Assures stopped final d := by
  induction task generalizing d with
  | done a => exact h.2
  | call op next ih => exact ⟨h.1, h.2.1, fun answer answers => ih answer (h.2.2 answer answers)⟩

theorem assures_perform {op : FileOp} {ended : op.Answer → Disk → Prop} (here : stopped d)
    (begins : ∀ d', d.Begins op d' → stopped d') (after : stopped (d.perform op).2)
    (answers : ∀ answer, d.Answers op answer → ended answer (d.perform op).2) :
    (perform op).Assures stopped ended d :=
  ⟨here, begins, fun answer h => ⟨after, answers answer h⟩⟩

theorem assures_whole {op : FileOp} {ended : op.Answer → Disk → Prop} (whole : op.isWhole = true) (here : stopped d)
    (after : stopped (d.perform op).2) (answers : ∀ answer, d.Answers op answer → ended answer (d.perform op).2) :
    (perform op).Assures stopped ended d :=
  assures_perform here (fun _ begins => (Disk.not_begins whole begins).elim) after answers

/-- An operation that has one answer. -/
theorem assures_performed {op : FileOp} {a : op.Answer} {d₁ : Disk} (performed : d.perform op = (a, d₁))
    (sure : op.isSure = true) (here : stopped d) (begins : ∀ d', d.Begins op d' → stopped d') (after : stopped d₁) :
    (perform op).Assures stopped (fun answer d => answer = a ∧ d = d₁) d := by
  refine assures_perform here begins (by rwa [performed]) fun answer answers => ?_
  rw [Disk.answer_eq sure answers, performed]
  exact ⟨rfl, rfl⟩

/-! ### Tasks that only look -/

/-- A task all of whose operations are of a kind, whatever they answer. -/
def Uses (kind : FileOp → Bool) : FileTask α → Prop
  | done _ => True
  | call op next => kind op = true ∧ ∀ answer, Uses kind (next answer)

/-- A task that reads files and asks whether there are some. -/
abbrev Looks (task : FileTask α) : Prop := task.Uses FileOp.looks

variable {kind : FileOp → Bool}

theorem uses_perform {op : FileOp} (h : kind op = true) : (perform op).Uses kind := ⟨h, fun _ => trivial⟩

theorem Uses.bind {f : α → FileTask β} (h : task.Uses kind) (hf : ∀ a, (f a).Uses kind) : (task >>= f).Uses kind := by
  induction task with
  | done a => exact hf a
  | call op next ih => exact ⟨h.1, fun answer => ih answer (h.2 answer)⟩

theorem Uses.mono {kind' : FileOp → Bool} (h : task.Uses kind) (hkind : ∀ op, kind op = true → kind' op = true) :
    task.Uses kind' := by
  induction task with
  | done a => exact trivial
  | call op next ih => exact ⟨hkind op h.1, fun answer => ih answer (h.2 answer)⟩

/-- A task whose operations have one answer each ends as it is run. -/
theorem Uses.run_of_ends {a : α} (h : task.Uses FileOp.isSure) (ends : task.Ends d a d') : task.run d = (a, d') := by
  induction ends with
  | done a d => rfl
  | call answers _ ih =>
    obtain rfl := Disk.answer_eq h.1 answers
    exact ih (h.2 _)

/-- A task that only looks leaves the disk as it is, and what it answers is determined. -/
theorem Looks.assures (h : task.Looks) (here : stopped d) (after : (task.run d).2 = d → ended (task.run d).1 d) :
    task.Assures stopped ended d := by
  induction task with
  | done a => exact ⟨here, after rfl⟩
  | call op next ih =>
    obtain ⟨hlooks, hnext⟩ := h
    have hrun : (call op next).run d = (next (d.perform op).1).run d := by
      rw [run, Disk.perform_of_looks hlooks]
    rw [hrun] at after
    have hwhole := FileOp.isWhole_of_looks hlooks
    refine ⟨here, fun _ begins => (Disk.not_begins hwhole begins).elim, fun answer answers => ?_⟩
    obtain rfl := Disk.answer_eq (FileOp.isSure_of_looks hlooks) answers
    rw [Disk.perform_of_looks hlooks]
    exact ih _ (hnext _) after

theorem Looks.eq_of_ends {a : α} (h : task.Looks) (ends : task.Ends d a d') : d' = d := by
  have hassures : task.Assures (fun _ => True) (fun _ d' => d' = d) d := Looks.assures h trivial fun _ => rfl
  exact hassures.of_ends ends

end FileTask

namespace FileWork

open FileTask

variable {ε α β : Type} {stopped : Disk → Prop} {d : Disk}

theorem assures_attempt {task : FileTask (Except IoFault α)} {fault : IoFault → ε} {ended : Except ε α → Disk → Prop}
    (h : task.Assures stopped (fun answer d => ended (answer.mapError fault) d) d) :
    (attempt task fault).run.Assures stopped ended d := by
  refine Assures.bind (h.mono (fun _ here => here) fun answer d here after => ?_)
  cases answer with
  | error e => exact ⟨here, after⟩
  | ok a => exact ⟨here, after⟩

theorem assures_within {δ : Type} {w : FileWork δ α} {fault : δ → ε} {ended : Except ε α → Disk → Prop}
    (h : w.run.Assures stopped (fun answer d => ended (answer.mapError fault) d) d) :
    (within w fault).run.Assures stopped ended d :=
  Assures.bind (h.mono (fun _ here => here) fun _ _ here after => ⟨here, after⟩)

theorem assures_lift {task : FileTask α} {ended : Except ε α → Disk → Prop}
    (h : task.Assures stopped (fun a d => ended (.ok a) d) d) :
    (ExceptT.lift task : FileWork ε α).run.Assures stopped ended d := by
  show (_ <$> task : FileTask (Except ε α)).Assures stopped ended d
  rw [← bind_pure_comp]
  exact Assures.bind (h.mono (fun _ here => here) fun _ _ here after => ⟨here, after⟩)

/-- Work after other work is assured of what that leaves if it succeeds. -/
theorem assures_bind {w : FileWork ε α} {f : α → FileWork ε β} {ended : Except ε β → Disk → Prop}
    (h : w.run.Assures stopped (fun
      | .ok a, d => (f a).run.Assures stopped ended d
      | .error e, d => ended (.error e) d) d) : (w >>= f).run.Assures stopped ended d := by
  rw [ExceptT.run_bind]
  refine Assures.bind (h.mono (fun _ here => here) fun answer d here after => ?_)
  cases answer with
  | error e => exact ⟨here, after⟩
  | ok a => exact after

theorem assures_attempt_ok {task : FileTask (Except IoFault α)} {fault : IoFault → ε} {a : α} {d₁ : Disk}
    (h : task.Assures stopped (fun answer d => answer = .ok a ∧ d = d₁) d) :
    (attempt task fault).run.Assures stopped (fun answer d => answer = .ok a ∧ d = d₁) d := by
  refine assures_attempt (h.mono (fun _ here => here) ?_)
  rintro _ _ - ⟨rfl, rfl⟩
  exact ⟨rfl, rfl⟩

theorem assures_attempt_error {task : FileTask (Except IoFault α)} {fault : IoFault → ε} {e : IoFault} {d₁ : Disk}
    (h : task.Assures stopped (fun answer d => answer = .error e ∧ d = d₁) d) :
    (attempt task fault).run.Assures stopped (fun answer d => answer = .error (fault e) ∧ d = d₁) d := by
  refine assures_attempt (h.mono (fun _ here => here) ?_)
  rintro _ _ - ⟨rfl, rfl⟩
  exact ⟨rfl, rfl⟩

theorem assures_within_ok {δ : Type} {w : FileWork δ α} {fault : δ → ε} {a : α} {d₁ : Disk}
    (h : w.run.Assures stopped (fun answer d => answer = .ok a ∧ d = d₁) d) :
    (within w fault).run.Assures stopped (fun answer d => answer = .ok a ∧ d = d₁) d := by
  refine assures_within (h.mono (fun _ here => here) ?_)
  rintro _ _ - ⟨rfl, rfl⟩
  exact ⟨rfl, rfl⟩

/-- Work after other work that succeeds, whatever happens, with one answer and one disk. -/
theorem assures_bind_ok {w : FileWork ε α} {f : α → FileWork ε β} {ended : Except ε β → Disk → Prop} {a : α} {d₁ : Disk}
    (h : w.run.Assures stopped (fun answer d => answer = .ok a ∧ d = d₁) d)
    (next : (f a).run.Assures stopped ended d₁) : (w >>= f).run.Assures stopped ended d := by
  refine assures_bind (h.mono (fun _ here => here) ?_)
  rintro _ _ - ⟨rfl, rfl⟩
  exact next

/-- Work after other work that fails, whatever happens. -/
theorem assures_bind_error {w : FileWork ε α} {f : α → FileWork ε β} {ended : Except ε β → Disk → Prop} {e : ε} {d₁ : Disk}
    (h : w.run.Assures stopped (fun answer d => answer = .error e ∧ d = d₁) d) (after : ended (.error e) d₁) :
    (w >>= f).run.Assures stopped ended d := by
  refine assures_bind (h.mono (fun _ here => here) ?_)
  rintro _ _ - ⟨rfl, rfl⟩
  exact after

theorem stops_bind {w : FileWork ε α} {d' : Disk} (h : w.run.Stops d d') (f : α → FileWork ε β) :
    (w >>= f).run.Stops d d' := by
  rw [ExceptT.run_bind]
  exact h.bind _

theorem stops_bind_ok {w : FileWork ε α} {f : α → FileWork ε β} {a : α} {d₁ d' : Disk} (first : w.run.run d = (.ok a, d₁))
    (rest : (f a).run.Stops d₁ d') : (w >>= f).run.Stops d d' := by
  have hends := ends_run w.run d
  rw [first] at hends
  rw [ExceptT.run_bind]
  exact hends.stops_bind rest

variable {kind : FileOp → Bool}

theorem uses_attempt {task : FileTask (Except IoFault α)} (h : task.Uses kind) (fault : IoFault → ε) :
    (attempt task fault).run.Uses kind := by
  refine Uses.bind h fun answer => ?_
  cases answer <;> exact trivial

theorem uses_within {δ : Type} {w : FileWork δ α} (h : w.run.Uses kind) (fault : δ → ε) : (within w fault).run.Uses kind :=
  Uses.bind h fun _ => trivial

theorem uses_bind {w : FileWork ε α} {f : α → FileWork ε β} (h : w.run.Uses kind) (hf : ∀ a, (f a).run.Uses kind) :
    (w >>= f).run.Uses kind := by
  rw [ExceptT.run_bind]
  refine Uses.bind h fun answer => ?_
  cases answer with
  | error e => exact trivial
  | ok a => exact hf a

end FileWork

end SeriesRegion
