import SeriesRegion.Sequencer.Buffer
import Mathlib.Data.List.Perm.Basic

/-!
# The slots of a buffer

The slots stand in strictly ascending order of start and ticket (`Buffer.Sorted`), so the first of them is the oldest.
A slot that is taken is put at its place, and a turn releases one: its own, if no two of the slots have the same start
(`Buffer.released_perm`).
-/

namespace SeriesRegion

/-! ### The order of slots -/

theorem Slot.precedes_iff {a b : Slot} :
    a.precedes b = true ↔ a.start < b.start ∨ (a.start = b.start ∧ a.ticket < b.ticket) := by
  simp [Slot.precedes]

theorem Slot.precedes_trans {a b c : Slot} (h : a.precedes b = true) (h' : b.precedes c = true) :
    a.precedes c = true := by
  rw [precedes_iff, UInt64.lt_iff_toNat_lt, ← UInt64.toNat_inj] at *
  omega

theorem Slot.precedes_of_not {a b : Slot} (hne : a.ticket ≠ b.ticket) (h : ¬ a.precedes b = true) :
    b.precedes a = true := by
  rw [precedes_iff, UInt64.lt_iff_toNat_lt, ← UInt64.toNat_inj] at *
  omega

theorem Slot.start_le_of_precedes {a b : Slot} (h : a.precedes b = true) : a.start ≤ b.start := by
  rw [precedes_iff, UInt64.lt_iff_toNat_lt, ← UInt64.toNat_inj] at h
  rw [UInt64.le_iff_toNat_le]
  omega

/-! ### The position after a batch -/

theorem toNat_positionAfter (stop : UInt64) : (positionAfter stop).toNat = min (stop.toNat + 1) (UInt64.size - 1) := by
  have hlt := stop.toNat_lt_size
  unfold positionAfter
  split
  · rename_i h
    subst h
    decide
  · rename_i h
    have hne : stop.toNat ≠ UInt64.size - 1 := fun he => h (UInt64.toNat_inj.1 he)
    have hnext : stop.toNat + 1 < UInt64.size := by omega
    rw [UInt64.toNat_add, UInt64.toNat_one, Nat.mod_eq_of_lt hnext]
    omega

theorem le_positionAfter (stop : UInt64) : stop ≤ positionAfter stop := by
  have := stop.toNat_lt_size
  rw [UInt64.le_iff_toNat_le, toNat_positionAfter]
  omega

theorem positionAfter_le_of_lt {stop start : UInt64} (h : stop < start) : positionAfter stop ≤ start := by
  rw [UInt64.lt_iff_toNat_lt] at h
  rw [UInt64.le_iff_toNat_le, toNat_positionAfter]
  exact Nat.le_trans (Nat.min_le_left _ _) h

namespace Buffer

/-! ### Taking a slot -/

theorem place_perm (s : Slot) (l : List Slot) : (place s l).Perm (s :: l) := by
  induction l with
  | nil => exact List.Perm.refl _
  | cons t l ih =>
    unfold place
    split
    · exact List.Perm.refl _
    · exact (ih.cons t).trans (List.Perm.swap s t l)

@[simp] theorem length_enter (b : Buffer) (start stop : UInt64) :
    (b.enter start stop).slots.length = b.slots.length + 1 :=
  (place_perm _ _).length_eq

theorem place_sorted {s : Slot} {l : List Slot} (h : l.Pairwise fun a b => a.precedes b = true)
    (hs : ∀ t ∈ l, s.ticket ≠ t.ticket) : (place s l).Pairwise fun a b => a.precedes b = true := by
  induction l with
  | nil => simp [place]
  | cons t l ih =>
    rw [List.pairwise_cons] at h
    unfold place
    split
    · rename_i hst
      rw [List.pairwise_cons, List.pairwise_cons]
      refine ⟨?_, h⟩
      intro u hu
      rcases List.mem_cons.1 hu with rfl | hu
      · exact hst
      · exact Slot.precedes_trans hst (h.1 u hu)
    · rename_i hst
      rw [List.pairwise_cons]
      refine ⟨?_, ih h.2 fun u hu => hs u (List.mem_cons_of_mem t hu)⟩
      intro u hu
      rcases List.mem_cons.1 ((place_perm s l).mem_iff.1 hu) with rfl | hu
      · exact Slot.precedes_of_not (hs t (List.mem_cons_self ..)) hst
      · exact h.1 u hu

/-- The slots stand in ascending order, and each drew a ticket. -/
structure Sorted (b : Buffer) : Prop where
  ascending : b.slots.Pairwise fun s t => s.precedes t = true
  drawn : ∀ s ∈ b.slots, s.ticket < b.ticket

theorem Sorted.new (capacity : Nat) : (Buffer.new capacity).Sorted := ⟨.nil, by simp [Buffer.new]⟩

theorem Sorted.enter {b : Buffer} (h : b.Sorted) (start stop : UInt64) : (b.enter start stop).Sorted := by
  constructor
  · apply place_sorted h.ascending
    intro t ht
    have := h.drawn t ht
    show b.ticket ≠ t.ticket
    omega
  · intro s hs
    show s.ticket < b.ticket + 1
    rcases List.mem_cons.1 ((place_perm _ _).mem_iff.1 hs) with rfl | hs
    · exact Nat.lt_succ_self _
    · have := h.drawn s hs
      omega

theorem Sorted.sublist {b b' : Buffer} (h : b.Sorted) (hs : b'.slots.Sublist b.slots) (ht : b'.ticket = b.ticket) :
    b'.Sorted :=
  ⟨h.ascending.sublist hs, fun s m => ht ▸ h.drawn s (hs.subset m)⟩

theorem Sorted.nodup {b : Buffer} (h : b.Sorted) : b.slots.Nodup := by
  refine h.ascending.imp ?_
  rintro s _ hprecedes rfl
  rw [Slot.precedes_iff] at hprecedes
  rcases hprecedes with hlt | ⟨-, hlt⟩
  · exact UInt64.lt_irrefl _ hlt
  · exact Nat.lt_irrefl _ hlt

theorem Sorted.oldest_le {b : Buffer} (h : b.Sorted) {start : UInt64} (ho : b.oldest? = some start) :
    ∀ s ∈ b.slots, start ≤ s.start := by
  unfold oldest? at ho
  have hp := h.ascending
  cases hl : b.slots with
  | nil => simp
  | cons t l =>
    rw [hl] at ho hp
    rw [List.pairwise_cons] at hp
    simp only [List.head?_cons, Option.map_some, Option.some.injEq] at ho
    subst ho
    intro s hs
    rcases List.mem_cons.1 hs with rfl | hs
    · exact UInt64.le_refl _
    · exact Slot.start_le_of_precedes (hp.1 s hs)

@[simp] theorem isFull_iff {b : Buffer} : b.isFull = true ↔ b.slots.length = b.capacity := by
  simp [isFull]

/-! ### A turn -/

/-- How the turn of a batch comes: either it starts at the cursor and releases its own slot, or it is the oldest of a
full buffer and releases the first slot. -/
theorem turn?_eq_some {b b' : Buffer} {s : Slot} {admission : Admission} (h : b.turn? s = some (admission, b')) :
    (admission = .inOrder ∧ b.cursor = some s.start ∧
      b' = { b with slots := b.slots.filter (· ≠ s), cursor := some (positionAfter s.stop) }) ∨
    (admission = .forced ∧ b.cursor ≠ some s.start ∧ b.oldest? = some s.start ∧ b.isFull = true ∧
      b' = { b with slots := b.slots.drop 1, cursor := some (positionAfter s.stop) }) := by
  unfold turn? at h
  split at h
  · rename_i hc
    simp only [Option.some.injEq, Prod.mk.injEq] at h
    exact .inl ⟨h.1.symm, hc, h.2.symm⟩
  · rename_i hc
    split at h
    · rename_i hf
      simp only [Bool.and_eq_true, decide_eq_true_eq] at hf
      simp only [Option.some.injEq, Prod.mk.injEq] at h
      exact .inr ⟨h.1.symm, hc, hf.1, hf.2, h.2.symm⟩
    · cases h

/-- It is not the turn of a batch exactly if it neither starts at the cursor nor is the oldest of a full buffer. -/
theorem turn?_eq_none {b : Buffer} {s : Slot} :
    b.turn? s = none ↔ b.cursor ≠ some s.start ∧ ¬ (b.oldest? = some s.start ∧ b.isFull = true) := by
  unfold turn?
  split
  · simp_all
  · split <;> simp_all

/-- What a turn leaves as it is, and where it moves the cursor. -/
theorem turn?_frame {b b' : Buffer} {s : Slot} {admission : Admission} (h : b.turn? s = some (admission, b')) :
    b'.capacity = b.capacity ∧ b'.ticket = b.ticket ∧ b'.epoch = b.epoch ∧
      b'.cursor = some (positionAfter s.stop) ∧ b'.slots.Sublist b.slots := by
  rcases turn?_eq_some h with ⟨-, -, rfl⟩ | ⟨-, -, -, -, rfl⟩
  · exact ⟨rfl, rfl, rfl, rfl, List.filter_sublist⟩
  · exact ⟨rfl, rfl, rfl, rfl, List.drop_sublist 1 _⟩

theorem turn?_ne_timedOut {b b' : Buffer} {s : Slot} {admission : Admission}
    (h : b.turn? s = some (admission, b')) : admission ≠ .timedOut := by
  rcases turn?_eq_some h with ⟨rfl, -⟩ | ⟨rfl, -⟩ <;> decide

theorem slots_of_inOrder {b b' : Buffer} {s : Slot} (h : b.turn? s = some (.inOrder, b')) :
    b'.slots = b.slots.filter (· ≠ s) := by
  rcases turn?_eq_some h with ⟨-, -, rfl⟩ | ⟨hforced, -⟩
  · rfl
  · cases hforced

theorem perm_of_inOrder {b b' : Buffer} {s : Slot} (h : b.turn? s = some (.inOrder, b')) (hd : b.slots.Nodup)
    (hs : s ∈ b.slots) : b.slots.Perm (s :: b'.slots) := by
  have he : b.slots.erase s = b.slots.filter fun t => decide (t ≠ s) := by
    rw [hd.erase_eq_filter]
    exact List.filter_congr fun t _ => by by_cases ht : t = s <;> simp [ht]
  rw [slots_of_inOrder h, ← he]
  exact List.perm_cons_erase hs

/-- A batch in order whose slot is gone releases none. -/
theorem slots_of_bereft {b b' : Buffer} {s : Slot} (h : b.turn? s = some (.inOrder, b')) (hs : s ∉ b.slots) :
    b'.slots = b.slots := by
  rw [slots_of_inOrder h, List.filter_eq_self]
  intro t ht
  rw [decide_eq_true_eq]
  rintro rfl
  exact hs ht

/-- A forced batch releases one slot, which has the same start. -/
theorem slots_of_forced {b b' : Buffer} {s : Slot} (h : b.turn? s = some (.forced, b')) :
    b.isFull = true ∧ ∃ o, o.start = s.start ∧ b.slots = o :: b'.slots := by
  rcases turn?_eq_some h with ⟨hin, -⟩ | ⟨-, -, ho, hfull, rfl⟩
  · cases hin
  · refine ⟨hfull, ?_⟩
    unfold oldest? at ho
    cases hl : b.slots with
    | nil => simp [hl] at ho
    | cons o rest =>
      rw [hl] at ho
      exact ⟨o, Option.some.inj ho, rfl⟩

/-- If no other slot has the same start, a turn releases the batch's own slot. -/
theorem released_perm {b b' : Buffer} {s : Slot} {admission : Admission} (h : b.turn? s = some (admission, b'))
    (hs : s ∈ b.slots) (hone : ∀ t ∈ b.slots, t.start = s.start → t = s) (hd : b.slots.Nodup) :
    b.slots.Perm (s :: b'.slots) := by
  cases admission with
  | inOrder => exact perm_of_inOrder h hd hs
  | forced =>
    obtain ⟨-, o, hstart, hslots⟩ := slots_of_forced h
    rw [hslots] at hone ⊢
    rw [hone o (List.mem_cons_self ..) hstart]
  | timedOut => exact absurd rfl (turn?_ne_timedOut h)

end Buffer

end SeriesRegion
