/-!
# Values by number

A table gives a value for each number; all but finitely many have the default one.

* `Numbered.get_modify`: a change is seen at its own number and nowhere else;
* `Numbered.next_modify`: the numbers from `next` on have not been used.
-/

namespace SeriesRegion

/-- Values by number.  Numbers beyond the cells have the default value. -/
structure Numbered (α : Type) where
  cells : Array α
  deriving DecidableEq

namespace Numbered

variable {α : Type}

def empty : Numbered α := ⟨#[]⟩

/-- The first number after all that have been used. -/
def next (t : Numbered α) : Nat := t.cells.size

@[simp] theorem next_empty : (empty : Numbered α).next = 0 := rfl

variable [Inhabited α]

def get (t : Numbered α) (n : Nat) : α := t.cells.getD n default

/-- Cells for the first `size` numbers at least. -/
def reach (cells : Array α) (size : Nat) : Array α := cells ++ Array.replicate (size - cells.size) default

/-- Changes the value of a number. -/
def modify (t : Numbered α) (n : Nat) (f : α → α) : Numbered α := ⟨(reach t.cells (n + 1)).modify n f⟩

def set (t : Numbered α) (n : Nat) (a : α) : Numbered α := t.modify n fun _ => a

@[simp] theorem get_empty (n : Nat) : (empty : Numbered α).get n = default := rfl

theorem get_of_next_le {t : Numbered α} {n : Nat} (h : t.next ≤ n) : t.get n = default := by
  unfold next at h
  simp [get, Array.getD, Nat.not_lt.2 h]

theorem getD_reach (cells : Array α) (size n : Nat) : (reach cells size).getD n default = cells.getD n default := by
  simp only [reach, Array.getD_eq_getD_getElem?, Array.getElem?_append, Array.getElem?_replicate]
  split
  · rfl
  · rename_i h
    rw [Array.getElem?_eq_none (Nat.not_lt.1 h)]
    split <;> rfl

theorem get_modify (t : Numbered α) (n k : Nat) (f : α → α) :
    (t.modify n f).get k = if k = n then f (t.get n) else t.get k := by
  simp only [get, modify, ← getD_reach t.cells (n + 1)]
  have hn : n < (reach t.cells (n + 1)).size := by
    simp only [reach, Array.size_append, Array.size_replicate]
    omega
  generalize reach t.cells (n + 1) = c at hn
  simp only [Array.getD_eq_getD_getElem?, Array.getElem?_modify]
  by_cases h : k = n
  · subst h
    simp [hn]
  · simp [h, Ne.symm h]

theorem get_set (t : Numbered α) (n k : Nat) (a : α) : (t.set n a).get k = if k = n then a else t.get k :=
  t.get_modify n k fun _ => a

theorem next_modify (t : Numbered α) (n : Nat) (f : α → α) : (t.modify n f).next = max t.next (n + 1) := by
  simp only [next, modify, reach, Array.size_modify, Array.size_append, Array.size_replicate]
  omega

end Numbered

end SeriesRegion
