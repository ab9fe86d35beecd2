import SeriesRegion.Proofs.Sequencer.Slots
import SeriesRegion.Request
import Mathlib.Data.List.Nodup
import Mathlib.Data.List.Pairwise

/-!
# Contiguous batches

Batches that follow each other without gaps (`Contiguous`), and the position that follows them (`following`).  Of such
batches the one that starts where some of the first end is the next one (`Contiguous.next`, `Contiguous.next_prefix`).
-/

namespace SeriesRegion

variable {γ : Type}

/-- Batches follow each other without gaps from a position on, and the last position there is is not among them. -/
def Contiguous : UInt64 → List (LogBatch γ) → Prop
  | _, [] => True
  | first, b :: rest => b.start = first ∧ b.stop.toNat + 1 < UInt64.size ∧ Contiguous (b.stop + 1) rest

/-- The position that follows the last of batches, or a position that is given if there are none. -/
def following (first : UInt64) (bs : List (LogBatch γ)) : UInt64 := (bs.getLast?.map (·.stop + 1)).getD first

theorem following_cons (first : UInt64) (b : LogBatch γ) (bs : List (LogBatch γ)) :
    following first (b :: bs) = following (b.stop + 1) bs := by
  unfold following
  rw [List.getLast?_cons]
  cases bs.getLast? <;> rfl

theorem following_append (first : UInt64) (l r : List (LogBatch γ)) :
    following first (l ++ r) = following (following first l) r := by
  induction l generalizing first with
  | nil => rfl
  | cons b l ih => rw [List.cons_append, following_cons, following_cons, ih]

private theorem toNat_succ {stop : UInt64} (h : stop.toNat + 1 < UInt64.size) : (stop + 1).toNat = stop.toNat + 1 := by
  rw [UInt64.toNat_add, UInt64.toNat_one, Nat.mod_eq_of_lt h]

theorem positionAfter_eq {stop : UInt64} (h : stop.toNat + 1 < UInt64.size) : positionAfter stop = stop + 1 := by
  rw [← UInt64.toNat_inj, toNat_positionAfter, toNat_succ h]
  omega

namespace Contiguous

variable {first : UInt64} {bs l r : List (LogBatch γ)} {b : LogBatch γ}

theorem append_iff : Contiguous first (l ++ r) ↔ Contiguous first l ∧ Contiguous (following first l) r := by
  induction l generalizing first with
  | nil => simp [Contiguous, following]
  | cons b l ih =>
    rw [List.cons_append, following_cons]
    simp only [Contiguous, ih, and_assoc]

theorem no_overflow (h : Contiguous first bs) (hb : b ∈ bs) : b.stop.toNat + 1 < UInt64.size := by
  induction bs generalizing first with
  | nil => cases hb
  | cons c bs ih =>
    rcases List.mem_cons.1 hb with rfl | hb
    · exact h.2.1
    · exact ih h.2.2 hb

theorem first_le (h : Contiguous first bs) (hb : b ∈ bs) : first ≤ b.start := by
  induction bs generalizing first with
  | nil => cases hb
  | cons c bs ih =>
    rcases List.mem_cons.1 hb with rfl | hb
    · rw [h.1]
      exact UInt64.le_refl _
    · have hle := ih h.2.2 hb
      have hc := c.start_le_stop
      rw [UInt64.le_iff_toNat_le, toNat_succ h.2.1] at hle
      rw [← h.1]
      rw [UInt64.le_iff_toNat_le] at *
      omega

/-- Each batch ends before those after it start. -/
theorem ascending (h : Contiguous first bs) : bs.Pairwise fun b c => b.stop < c.start := by
  induction bs generalizing first with
  | nil => exact .nil
  | cons b bs ih =>
    rw [List.pairwise_cons]
    refine ⟨?_, ih h.2.2⟩
    intro c hc
    have hle := h.2.2.first_le hc
    rw [UInt64.le_iff_toNat_le, toNat_succ h.2.1] at hle
    rw [UInt64.lt_iff_toNat_lt]
    omega

theorem starts_ascending (h : Contiguous first bs) : bs.Pairwise fun b c => b.start < c.start :=
  h.ascending.imp fun {b _} hlt => UInt64.lt_of_le_of_lt b.start_le_stop hlt

theorem starts_nodup (h : Contiguous first bs) : (bs.map (·.start)).Nodup := by
  rw [List.Nodup, List.pairwise_map]
  exact h.starts_ascending.imp fun hlt => UInt64.ne_of_lt hlt

theorem nodup (h : Contiguous first bs) : bs.Nodup := h.starts_nodup.of_map _

/-- Contiguous batches that start at the same position are one. -/
theorem eq_of_start_eq (h : Contiguous first bs) {c : LogBatch γ} (hb : b ∈ bs) (hc : c ∈ bs)
    (he : b.start = c.start) : b = c := List.inj_on_of_nodup_map h.starts_nodup hb hc he

theorem le_following (h : Contiguous first bs) : first ≤ following first bs := by
  induction bs generalizing first with
  | nil => exact UInt64.le_refl _
  | cons b bs ih =>
    rw [following_cons, ← h.1]
    have hle := ih h.2.2
    have hb := b.start_le_stop
    rw [UInt64.le_iff_toNat_le, toNat_succ h.2.1] at hle
    rw [UInt64.le_iff_toNat_le] at *
    omega

/-- Contiguous batches lie before the position that follows them. -/
theorem stop_lt_following (h : Contiguous first bs) (hb : b ∈ bs) : b.stop < following first bs := by
  induction bs generalizing first with
  | nil => cases hb
  | cons c bs ih =>
    rw [following_cons]
    rcases List.mem_cons.1 hb with rfl | hb
    · have hle := h.2.2.le_following
      rw [UInt64.le_iff_toNat_le, toNat_succ h.2.1] at hle
      rw [UInt64.lt_iff_toNat_lt]
      omega
    · exact ih h.2.2 hb

/-- The batch that starts where the first of contiguous batches end is the next of them. -/
theorem next (h : Contiguous first (l ++ r)) (hb : b ∈ l ++ r) (hs : b.start = following first l) :
    ∃ rest, r = b :: rest := by
  obtain ⟨hl, hr⟩ := append_iff.1 h
  rcases List.mem_append.1 hb with hb | hb
  · have hlt := hl.stop_lt_following hb
    have hle := b.start_le_stop
    rw [← hs, UInt64.lt_iff_toNat_lt] at hlt
    rw [UInt64.le_iff_toNat_le] at hle
    omega
  · cases r with
    | nil => cases hb
    | cons c rest =>
      have hc : c = b := hr.eq_of_start_eq (List.mem_cons_self ..) hb (hr.1.trans hs.symm)
      rw [hc]
      exact ⟨rest, rfl⟩

/-- With it they are still the first of all, and it moves the cursor to where they end. -/
theorem next_prefix (h : Contiguous first bs) (hl : l <+: bs) (hb : b ∈ bs) (hs : b.start = following first l) :
    l ++ [b] <+: bs ∧ positionAfter b.stop = following first (l ++ [b]) := by
  have hover := h.no_overflow hb
  obtain ⟨r, rfl⟩ := hl
  obtain ⟨rest, rfl⟩ := h.next hb hs
  refine ⟨⟨rest, List.append_cons _ _ _ |>.symm⟩, ?_⟩
  rw [following_append, positionAfter_eq hover]
  rfl

end Contiguous

end SeriesRegion
