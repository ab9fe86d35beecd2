/-!
# Searching by halves

An array is parted by a test if the elements that pass stand before those that do not.  `Search.frontier` finds where the
first part ends with one test for each binary digit of the size (`Search.frontier_eq`).
-/

namespace SeriesRegion.Search

variable {α : Type} (before : α → Bool) (cells : Array α)

/-- Whether there is an element at a position that passes. -/
def passes (i : Nat) : Bool := cells[i]?.any before

/-- Goes on from a position by `2 ^ (digits - 1)`, …, `2`, `1` places, each time if all elements gone by pass. -/
def advance : (digits : Nat) → (position : Nat) → Nat
  | 0, p => p
  | d + 1, p => advance d (if passes before cells (p + Nat.pow 2 d - 1) then p + Nat.pow 2 d else p)

/-- The number of elements at the beginning that pass. -/
def frontier : Nat := advance before cells (cells.size.log2 + 1) 0

variable {before cells}

theorem passes_eq {l₁ l₂ : List α} (h : cells.toList = l₁ ++ l₂) (h₁ : ∀ a ∈ l₁, before a = true)
    (h₂ : ∀ a ∈ l₂, before a = false) (i : Nat) : passes before cells i = decide (i < l₁.length) := by
  rw [passes, ← Array.getElem?_toList, h]
  by_cases hi : i < l₁.length
  · rw [List.getElem?_append_left hi, List.getElem?_eq_getElem hi, Option.any_some, h₁ _ (List.getElem_mem hi)]
    simp [hi]
  · rw [List.getElem?_append_right (Nat.not_lt.1 hi), decide_eq_false hi]
    cases ha : l₂[i - l₁.length]? with
    | none => rfl
    | some a => exact h₂ a (List.mem_of_getElem? ha)

theorem advance_eq {l₁ l₂ : List α} (h : cells.toList = l₁ ++ l₂) (h₁ : ∀ a ∈ l₁, before a = true)
    (h₂ : ∀ a ∈ l₂, before a = false) (d p : Nat) (low : p ≤ l₁.length) (high : l₁.length < p + Nat.pow 2 d) :
    advance before cells d p = l₁.length := by
  induction d generalizing p with
  | zero => exact Nat.le_antisymm low (Nat.le_of_lt_succ high)
  | succ d ih =>
    have : 0 < Nat.pow 2 d := Nat.two_pow_pos d
    rw [Nat.pow_eq, Nat.pow_succ, ← Nat.pow_eq] at high
    rw [advance, passes_eq h h₁ h₂]
    by_cases hp : p + Nat.pow 2 d - 1 < l₁.length
    · rw [if_pos (by simpa using hp)]
      exact ih _ (by omega) (by omega)
    · rw [if_neg (by simpa using hp)]
      exact ih _ low (by omega)

/-- In an array parted by the test the frontier is where the parts meet. -/
theorem frontier_eq {l₁ l₂ : List α} (h : cells.toList = l₁ ++ l₂) (h₁ : ∀ a ∈ l₁, before a = true)
    (h₂ : ∀ a ∈ l₂, before a = false) : frontier before cells = l₁.length := by
  apply advance_eq h h₁ h₂ _ _ (Nat.zero_le _)
  have size : cells.size = l₁.length + l₂.length := by rw [← Array.length_toList, h, List.length_append]
  have : cells.size < Nat.pow 2 (cells.size.log2 + 1) := Nat.lt_log2_self
  omega

end SeriesRegion.Search
