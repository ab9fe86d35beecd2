import SeriesRegion.Disk.Tree

/-!
# Tasks on files

A task is a sequence of operations on files, each of which may depend on the answers to those before it.  What touches
files is written as a task, so that it can be run as a whole, stopped after any operation, or carried out elsewhere.
-/

namespace SeriesRegion

inductive FileOp where
  | makeDirectories (path : Path)
  | list (path : Path)
  | present (path : Path)
  | read (path : Path)
  | write (path : Path) (bytes : Bytes)
  | rename (source target : Path)
  | remove (path : Path)
  /-- Opens a file to append to, creating it if it is missing. -/
  | openLog (path : Path)
  /-- Reads an open file from its beginning. -/
  | contents (file : Nat)
  | append (file : Nat) (bytes : Bytes)
  | truncate (file length : Nat)
  /-- Waits until the device has what an open file holds. -/
  | sync (file : Nat)
  deriving DecidableEq, Repr

/-- What an operation answers. -/
def FileOp.Answer : FileOp → Type
  | makeDirectories _ => Except IoFault Unit
  | list _ => Except IoFault (List String)
  | present _ => Bool
  | read _ => Except IoFault Bytes
  | write .. => Except IoFault Unit
  | rename .. => Except IoFault Unit
  | remove _ => Except IoFault Unit
  | openLog _ => Except IoFault Nat
  | contents _ => Bytes
  | append .. => Unit
  | truncate .. => Unit
  | sync _ => Except IoFault Unit

/-- Performs an operation on a disk that works: what fails does so because of the names and files that there are, and a
sync succeeds. -/
def Disk.perform (d : Disk) : (op : FileOp) → op.Answer × Disk
  | .makeDirectories p => d.makeDirectories p
  | .list p => (d.list p, d)
  | .present p => (d.present p, d)
  | .read p => (d.read p, d)
  | .write p bytes => d.write p bytes
  | .rename source target => d.rename source target
  | .remove p => d.remove p
  | .openLog p => d.openFile p
  | .contents f => (d.bytesOf f, d)
  | .append f bytes => ((), d.append f bytes)
  | .truncate f length => ((), d.truncate f length)
  | .sync _ => (.ok (), d)

inductive FileTask (α : Type) : Type where
  | done (value : α)
  | call (op : FileOp) (next : op.Answer → FileTask α)

namespace FileTask

variable {α β : Type}

def bind : FileTask α → (α → FileTask β) → FileTask β
  | done a, f => f a
  | call op next, f => call op fun a => bind (next a) f

instance : Monad FileTask where
  pure := done
  bind := bind

def perform (op : FileOp) : FileTask op.Answer := call op done

def run : FileTask α → Disk → α × Disk
  | done a, d => (a, d)
  | call op next, d => run (next (d.perform op).1) (d.perform op).2

theorem bind_done (t : FileTask α) : bind t done = t := by
  induction t with
  | done a => rfl
  | call op next ih => exact congrArg (call op) (funext ih)

theorem bind_assoc {γ : Type} (t : FileTask α) (f : α → FileTask β) (g : β → FileTask γ) :
    bind (bind t f) g = bind t fun a => bind (f a) g := by
  induction t with
  | done a => rfl
  | call op next ih => exact congrArg (call op) (funext ih)

instance : LawfulMonad FileTask :=
  LawfulMonad.mk' FileTask (fun t => bind_done t) (fun _ _ => rfl) bind_assoc

theorem run_bind (t : FileTask α) (f : α → FileTask β) (d : Disk) :
    (t >>= f).run d = (f (t.run d).1).run (t.run d).2 := by
  induction t generalizing d with
  | done a => rfl
  | call op next ih => exact ih _ _

@[simp] theorem run_pure (a : α) (d : Disk) : (pure a : FileTask α).run d = (a, d) := rfl

@[simp] theorem run_perform (op : FileOp) (d : Disk) : (perform op).run d = d.perform op := rfl

/-! ### Going through a list -/

variable {σ : Type} (f : σ → α → FileTask (σ × β))

/-- Goes through a list with a state; `done` holds what was gathered before, the last first. -/
def gatherOnto (s : σ) (done : List β) : List α → FileTask (σ × List β)
  | [] => pure (s, done.reverse)
  | a :: as => do
    let (s, b) ← f s a
    gatherOnto s (b :: done) as

/-- Goes through a list with a state, and gathers what each member gives. -/
def gather (s : σ) (as : List α) : FileTask (σ × List β) := gatherOnto f s [] as

theorem gatherOnto_eq (s : σ) (done : List β) (as : List α) :
    gatherOnto f s done as = do
      let (s, bs) ← gather f s as
      return (s, done.reverse ++ bs) := by
  induction as generalizing s done with
  | nil => simp [gather, gatherOnto]
  | cons a as ih =>
    rw [gather, gatherOnto, gatherOnto, LawfulMonad.bind_assoc]
    apply bind_congr
    intro (s, b)
    simp [ih s (b :: done), ih s [b]]

@[simp] theorem gather_nil (s : σ) : gather f s [] = pure (s, []) := rfl

theorem gather_cons (s : σ) (a : α) (as : List α) :
    gather f s (a :: as) = do
      let (s, b) ← f s a
      let (s, bs) ← gather f s as
      return (s, b :: bs) := by
  rw [gather, gatherOnto]
  apply bind_congr
  intro (s, b)
  exact gatherOnto_eq f s [b] as

end FileTask

/-- A task that may fail. -/
abbrev FileWork (ε : Type) := ExceptT ε FileTask

namespace FileWork

variable {ε α : Type}

/-- An operation whose failure ends the task. -/
def attempt (t : FileTask (Except IoFault α)) (fault : IoFault → ε) : FileWork ε α :=
  ExceptT.mk (t >>= fun
    | .ok a => pure (.ok a)
    | .error e => pure (.error (fault e)))

/-- A value, or a failure that is known beforehand. -/
def ofExcept {δ : Type} (r : Except δ α) (fault : δ → ε) : FileWork ε α :=
  ExceptT.mk (pure (r.mapError fault))

/-- A task whose failures are those of another. -/
def within {δ : Type} (t : FileWork δ α) (fault : δ → ε) : FileWork ε α :=
  ExceptT.mk (t.run >>= fun r => pure (r.mapError fault))

end FileWork

end SeriesRegion
