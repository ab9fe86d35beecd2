import SeriesRegion.Proofs.Sequencer.Run

/-!
# The slots that are taken

A batch takes a slot when it arrives.  A turn in time releases one, and a batch whose window ended keeps its slot.  If no
batch arrives while another with the same start is in the buffer, then a turn in time releases the slot of its own batch,
so the slots taken are those of the callers that wait and of the batches that have timed out (`Run.slots_perm_of_apart`).

`tested` is the buffer in which a turn is tested at a step, with the batch that arrives already in it.  A step either
grants nothing and leaves the slots tested as they are, or it grants the turn that `Buffer.turn?` finds, or the turn of a
batch whose window ended.
-/

namespace SeriesRegion.Sequencer

variable {β : Type} {capacity : Nat} {past : List (Moment β)} {q q' : Sequencer β} {e : Event β}

/-- The buffer in which a turn is tested when something happens. -/
def tested (q : Sequencer β) : Event β → Buffer
  | .arrive start stop _ => q.buffer.enter start stop
  | _ => q.buffer

theorem cursor_tested (q : Sequencer β) (e : Event β) : (q.tested e).cursor = q.buffer.cursor := by
  cases e <;> rfl

theorem capacity_tested (q : Sequencer β) (e : Event β) : (q.tested e).capacity = q.buffer.capacity := by
  cases e <;> rfl

def Moment.tested (m : Moment β) : Buffer := m.before.tested m.event

/-! ### Steps -/

/-- A turn that is not the end of a window is the one found in the buffer. -/
theorem Stepped.turned {t : Turn β} (h : Stepped q e (some t) q') (ht : t.admission ≠ .timedOut) :
    (q.tested e).turn? t.slot = some (t.admission, q'.buffer) := by
  cases h with
  | enters turn => exact turn
  | proceeds mem awake turn => exact turn
  | timesOut mem expired undisturbed => exact absurd rfl ht

/-- A batch that times out leaves the buffer as it is. -/
theorem Stepped.keeps {t : Turn β} (h : Stepped q e (some t) q') (ht : t.admission = .timedOut) :
    q'.buffer = q.buffer ∧ q.tested e = q.buffer := by
  cases h with
  | enters turn => exact absurd ht (Buffer.turn?_ne_timedOut turn)
  | proceeds mem awake turn => exact absurd ht (Buffer.turn?_ne_timedOut turn)
  | timesOut mem expired undisturbed => exact ⟨rfl, rfl⟩

/-- A step without a turn leaves the slots as they are, with that of an arrival. -/
theorem Stepped.unturned (h : Stepped q e none q') :
    q'.buffer.slots = (q.tested e).slots ∧
      q'.buffer.cursor = (Moment.seed? ⟨q, e, none, q'⟩ <|> q.buffer.cursor) := by
  cases h <;> exact ⟨rfl, rfl⟩

/-- No step takes another slot than that of an arrival, draws another ticket or changes the capacity. -/
theorem Stepped.frame {turn : Option (Turn β)} (h : Stepped q e turn q') :
    q'.buffer.slots.Sublist (q.tested e).slots ∧ q'.buffer.ticket = (q.tested e).ticket ∧
      q'.buffer.capacity = q.buffer.capacity := by
  cases h with
  | enters turn => exact ⟨(Buffer.turn?_frame turn).2.2.2.2, (Buffer.turn?_frame turn).2.1, (Buffer.turn?_frame turn).1⟩
  | proceeds mem awake turn =>
    exact ⟨(Buffer.turn?_frame turn).2.2.2.2, (Buffer.turn?_frame turn).2.1, (Buffer.turn?_frame turn).1⟩
  | _ => exact ⟨List.Sublist.refl _, rfl, rfl⟩

theorem tested_sorted (h : q.buffer.Sorted) : (q.tested e).Sorted := by
  cases e with
  | arrive start stop batch => exact h.enter start stop
  | _ => exact h

theorem Run.sorted (run : Run capacity past q) : q.buffer.Sorted := by
  induction run with
  | start => exact Buffer.Sorted.new capacity
  | step run h ih =>
    obtain ⟨hsub, hticket, -⟩ := (stepped_of_step h).frame
    exact (tested_sorted ih).sublist hsub hticket

theorem Run.capacity_eq (run : Run capacity past q) : q.buffer.capacity = max capacity 1 := by
  induction run with
  | start => rfl
  | step run h ih => exact (stepped_of_step h).frame.2.2.trans ih

/-! ### Slots and arrivals -/

/-- The slots in which a turn is tested are those taken and that of the batch that arrives. -/
theorem tested_perm (q q' : Sequencer β) (e : Event β) (turn : Option (Turn β)) :
    (q.tested e).slots.Perm (q.buffer.slots ++ (arrivals [⟨q, e, turn, q'⟩]).map (·.1)) := by
  cases e with
  | arrive start stop batch => exact (Buffer.place_perm _ _).trans (List.perm_append_singleton _ _).symm
  | _ => exact .of_eq (List.append_nil _).symm

/-- The slots taken were drawn by arrivals. -/
theorem Run.slots_subperm (run : Run capacity past q) : q.buffer.slots.Subperm ((arrivals past).map (·.1)) := by
  induction run with
  | start => exact List.nil_subperm
  | @step past q q' e turn run h ih =>
    rw [arrivals_append, List.map_append]
    refine (stepped_of_step h).frame.1.subperm.trans ((tested_perm q q' e turn).subperm.trans ?_)
    exact (List.subperm_append_right _).2 ih

theorem Run.tested_subperm (run : Run capacity past q) (turn : Option (Turn β)) :
    (q.tested e).slots.Subperm ((arrivals (past ++ [⟨q, e, turn, q'⟩])).map (·.1)) := by
  rw [arrivals_append, List.map_append]
  exact (tested_perm q q' e turn).subperm.trans ((List.subperm_append_right _).2 run.slots_subperm)

/-! ### Batches with the same start -/

/-- No batch arrives while another that starts at the same position is in the buffer. -/
def Apart (past : List (Moment β)) : Prop :=
  ∀ m ∈ past, ∀ a ∈ m.arrival?, ∀ s ∈ m.before.buffer.slots, s.start ≠ a.1.start

theorem Apart.of_append {more : List (Moment β)} (h : Apart (past ++ more)) : Apart past :=
  fun m hm => h m (List.mem_append_left _ hm)

theorem Apart.concat {m : Moment β} (h : Apart past)
    (hm : ∀ a ∈ m.arrival?, ∀ s ∈ m.before.buffer.slots, s.start ≠ a.1.start) : Apart (past ++ [m]) := by
  intro n hn
  rcases List.mem_append.1 hn with hn | hn
  · exact h n hn
  · cases List.mem_singleton.1 hn
    exact hm

private theorem tested_starts_of (turn : Option (Turn β)) (hstarts : (q.buffer.slots.map (·.start)).Nodup)
    (apart : Apart [⟨q, e, turn, q'⟩]) : ((q.tested e).slots.map (·.start)).Nodup := by
  cases e with
  | arrive start stop batch =>
    refine (((Buffer.place_perm _ _).map _).nodup_iff).2 (List.nodup_cons.2 ⟨?_, hstarts⟩)
    intro hmem
    obtain ⟨s, hs, he⟩ := List.mem_map.1 hmem
    exact apart _ (List.mem_singleton_self _) (q.buffer.nextSlot start stop, batch) rfl s hs he
  | _ => exact hstarts

theorem Run.starts_nodup (run : Run capacity past q) (apart : Apart past) :
    (q.buffer.slots.map (·.start)).Nodup := by
  induction run with
  | start => exact List.nodup_nil
  | @step past q q' e turn run h ih =>
    have hlast : Apart [⟨q, e, turn, q'⟩] := fun m hm => apart m (List.mem_append_right _ hm)
    exact (tested_starts_of turn (ih apart.of_append) hlast).sublist ((stepped_of_step h).frame.1.map _)

/-- The slots in which a turn is tested start at different positions. -/
theorem Run.tested_starts (run : Run capacity past q) {turn : Option (Turn β)}
    (apart : Apart (past ++ [⟨q, e, turn, q'⟩])) : ((q.tested e).slots.map (·.start)).Nodup :=
  tested_starts_of turn (run.starts_nodup apart.of_append) fun m hm => apart m (List.mem_append_right _ hm)

/-! ### Batches that have timed out -/

/-- The turns of batches that have timed out. -/
def timeouts (past : List (Moment β)) : List (Turn β) := (turns past).filter (·.admission = .timedOut)

@[simp] theorem timeouts_append (past more : List (Moment β)) :
    timeouts (past ++ more) = timeouts past ++ timeouts more := by
  simp [timeouts]

theorem timeouts_of_timedOut {t : Turn β} (h : t.admission = .timedOut) : timeouts [⟨q, e, some t, q'⟩] = [t] := by
  simp [timeouts, turns, h]

theorem timeouts_of_ne {t : Turn β} (h : t.admission ≠ .timedOut) : timeouts [⟨q, e, some t, q'⟩] = [] := by
  simp [timeouts, turns, h]

/-- The slots tested are those of whoever has its turn at the step, of whoever waits after it, and those left behind. -/
private theorem tested_perm_of (run : Run capacity past q) {turn : Option (Turn β)} (h : q.step e = some (q', turn))
    (hslots : q.buffer.slots.Perm ((held q.callers).map (·.1) ++ (timeouts past).map (·.slot))) :
    (q.tested e).slots.Perm
      ((granted [⟨q, e, turn, q'⟩]).map (·.1) ++ (held q'.callers).map (·.1) ++ (timeouts past).map (·.slot)) := by
  have hacc := ((stepped_of_step h).accounts run.held_nodup).map (·.1)
  rw [List.map_append, List.map_append] at hacc
  refine (tested_perm q q' e turn).trans ((hslots.append_right _).trans ?_)
  rw [List.append_assoc]
  refine (List.perm_append_comm.append_left _).trans ?_
  rw [← List.append_assoc]
  exact hacc.symm.append_right _

private theorem released_of (run : Run capacity past q) {t : Turn β} (h : q.step e = some (q', some t))
    (ht : t.admission ≠ .timedOut) (apart : Apart (past ++ [⟨q, e, some t, q'⟩])) (hin : t.slot ∈ (q.tested e).slots) :
    (q.tested e).slots.Perm (t.slot :: q'.buffer.slots) := by
  have hnd := run.tested_starts apart
  have hone : ∀ s ∈ (q.tested e).slots, s.start = t.slot.start → s = t.slot :=
    fun s hs he => List.inj_on_of_nodup_map hnd hs hin he
  exact Buffer.released_perm ((stepped_of_step h).turned ht) hin hone (hnd.of_map _)

/-- If no batch arrives while another with the same start is in the buffer, then the slots taken are those of the callers
that wait and of the batches that have timed out. -/
theorem Run.slots_perm_of_apart (run : Run capacity past q) (apart : Apart past) :
    q.buffer.slots.Perm ((held q.callers).map (·.1) ++ (timeouts past).map (·.slot)) := by
  induction run with
  | start => exact List.Perm.refl _
  | @step past q q' e turn run h ih =>
    have htested := tested_perm_of run h (ih apart.of_append)
    rw [timeouts_append, List.map_append, ← List.append_assoc]
    cases turn with
    | none =>
      rw [(stepped_of_step h).unturned.1]
      exact htested.trans (.of_eq (List.append_nil _).symm)
    | some t =>
      by_cases ht : t.admission = .timedOut
      · obtain ⟨hbuffer, hsame⟩ := (stepped_of_step h).keeps ht
        rw [hbuffer, ← hsame, timeouts_of_timedOut ht]
        exact htested.trans (List.perm_append_singleton _ _).symm
      · have hrel := released_of run h ht apart (htested.mem_iff.2 (List.mem_cons_self ..))
        rw [timeouts_of_ne ht, List.map_nil, List.append_nil]
        exact (List.perm_cons _).1 (hrel.symm.trans htested)

/-- Then a turn in time releases the slot of its batch and no other. -/
theorem Run.released_of_apart (run : Run capacity past q) {t : Turn β} (h : q.step e = some (q', some t))
    (ht : t.admission ≠ .timedOut) (apart : Apart (past ++ [⟨q, e, some t, q'⟩])) :
    (q.tested e).slots.Perm (t.slot :: q'.buffer.slots) := by
  have htested := tested_perm_of run h (run.slots_perm_of_apart apart.of_append)
  exact released_of run h ht apart (htested.mem_iff.2 (List.mem_cons_self ..))

end SeriesRegion.Sequencer
