import SeriesRegion.Proofs.Sequencer.Taken

/-!
# Slots that nobody gives back

A batch that times out keeps its slot for good.  A batch that is forced releases the oldest slot, and of two batches with
the same start this may be the slot of the other.  When the other then has its turn in order it has no slot to release, so
the one that stays is kept for good as well (`Run.pending_account`).

In any case there is a slot for each caller that waits and for each batch that has timed out.  So once as many batches
have timed out as the buffer has slots, a buffer that is exactly full has nobody waiting at it, and no batch is forced any
more (`Run.never_forced`).
-/

namespace SeriesRegion.Sequencer

variable {β : Type} {capacity : Nat} {past more : List (Moment β)} {q q' : Sequencer β} {e : Event β}

/-- The turn at a moment, if it is in order but the slot of the batch is gone. -/
def Moment.bereft? (m : Moment β) : Option (Turn β) :=
  m.turn.filter fun t => t.admission = .inOrder ∧ t.slot ∉ m.tested.slots

/-- The turns in order of batches whose slot was gone. -/
def bereft (past : List (Moment β)) : List (Turn β) := past.filterMap Moment.bereft?

/-- At a moment a batch is forced that starts where the batch at a slot does, and it releases that slot in place of its
own. -/
def Moment.Robs (m : Moment β) (s : Slot) : Prop :=
  ∃ t, m.turn = some t ∧ t.admission = .forced ∧ t.slot.start = s.start ∧ t.slot ≠ s ∧
    m.tested.slots = s :: m.after.buffer.slots

@[simp] theorem bereft_append (past more : List (Moment β)) : bereft (past ++ more) = bereft past ++ bereft more :=
  List.filterMap_append

theorem mem_bereft? {m : Moment β} {t : Turn β} :
    t ∈ m.bereft? ↔ m.turn = some t ∧ t.admission = .inOrder ∧ t.slot ∉ m.tested.slots := by
  unfold Moment.bereft?
  rw [Option.mem_def, Option.filter_eq_some_iff, decide_eq_true_eq]

/-! ### The number of slots -/

private theorem bereft_of_mem {t : Turn β} (h : t ∈ Moment.bereft? ⟨q, e, some t, q'⟩) :
    bereft [⟨q, e, some t, q'⟩] = [t] := by
  rw [bereft, List.filterMap_cons_some h]
  rfl

private theorem bereft_of_not {t : Turn β} (h : ¬ (t.admission = .inOrder ∧ t.slot ∉ (q.tested e).slots)) :
    bereft [⟨q, e, some t, q'⟩] = [] := by
  rw [bereft, List.filterMap_eq_nil_iff]
  intro m hm
  cases List.mem_singleton.1 hm
  rw [Option.eq_none_iff_forall_not_mem]
  intro u hu
  obtain ⟨hturn, hin⟩ := mem_bereft?.1 hu
  cases hturn
  exact h hin

/-- A turn in time releases one slot, unless it is in order and the slot of the batch is gone. -/
theorem Stepped.released_or_bereft {t : Turn β} (h : Stepped q e (some t) q') (hs : q.buffer.Sorted)
    (ht : t.admission ≠ .timedOut) :
    (q.tested e).slots.length + (bereft [⟨q, e, some t, q'⟩]).length = q'.pending + 1 := by
  have hturn := h.turned ht
  have hnd := (tested_sorted (e := e) hs).nodup
  cases hadmission : t.admission with
  | timedOut => exact absurd hadmission ht
  | inOrder =>
    rw [hadmission] at hturn
    by_cases hin : t.slot ∈ (q.tested e).slots
    · have hperm := Buffer.perm_of_inOrder hturn hnd hin
      rw [bereft_of_not fun hgone => hgone.2 hin, hperm.length_eq]
      rfl
    · rw [bereft_of_mem (mem_bereft?.2 ⟨rfl, hadmission, hin⟩), ← Buffer.slots_of_bereft hturn hin]
      rfl
  | forced =>
    rw [hadmission] at hturn
    obtain ⟨-, o, -, hslots⟩ := Buffer.slots_of_forced hturn
    rw [bereft_of_not fun hgone => by simp [hadmission] at hgone, hslots]
    rfl

/-- A step adds the slot of an arrival, and a turn releases one unless it is the end of a window or the slot is gone. -/
theorem Stepped.pending_eq {turn : Option (Turn β)} (h : Stepped q e turn q') (hs : q.buffer.Sorted) :
    q'.pending + (granted [⟨q, e, turn, q'⟩]).length = q.pending + (arrivals [⟨q, e, turn, q'⟩]).length +
      (timeouts [⟨q, e, turn, q'⟩]).length + (bereft [⟨q, e, turn, q'⟩]).length := by
  have htested := (tested_perm q q' e turn).length_eq
  rw [List.length_append, List.length_map] at htested
  cases turn with
  | none =>
    show q'.buffer.slots.length + 0 = q.buffer.slots.length + _ + 0 + 0
    rw [h.unturned.1]
    omega
  | some t =>
    show q'.buffer.slots.length + 1 = q.buffer.slots.length + _ + _ + _
    by_cases ht : t.admission = .timedOut
    · obtain ⟨hbuffer, hsame⟩ := h.keeps ht
      rw [hsame] at htested
      rw [hbuffer, timeouts_of_timedOut ht, bereft_of_not fun hgone => by simp [ht] at hgone]
      simp only [List.length_singleton, List.length_nil]
      omega
    · have hreleased := h.released_or_bereft hs ht
      unfold pending at hreleased
      rw [timeouts_of_ne ht, List.length_nil]
      omega

/-- There is a slot for each caller that waits, for each batch that has timed out, and for each that had its turn in order
when its slot was gone. -/
theorem Run.pending_eq (run : Run capacity past q) :
    q.pending = q.callers.length + (timeouts past).length + (bereft past).length := by
  induction run with
  | start => rfl
  | @step past q q' e turn run h ih =>
    have hslots := (stepped_of_step h).pending_eq run.sorted
    have hcallers := ((stepped_of_step h).accounts run.held_nodup).length_eq
    simp only [List.length_append, held, List.length_map] at hcallers
    rw [timeouts_append, bereft_append, List.length_append, List.length_append]
    omega

/-! ### Slots that are gone -/

/-- A slot in which a turn is tested stays, or it is that of the turn, or it is released in place of that. -/
theorem Stepped.stays_or_robbed {turn : Option (Turn β)} (h : Stepped q e turn q') {s : Slot}
    (hs : s ∈ (q.tested e).slots) (hother : ∀ t, turn = some t → t.slot ≠ s) :
    s ∈ q'.buffer.slots ∨ Moment.Robs ⟨q, e, turn, q'⟩ s := by
  cases turn with
  | none =>
    left
    rw [h.unturned.1]
    exact hs
  | some t =>
    have hne : t.slot ≠ s := hother t rfl
    cases hadmission : t.admission with
    | timedOut =>
      left
      obtain ⟨hbuffer, hsame⟩ := h.keeps hadmission
      rw [hbuffer, ← hsame]
      exact hs
    | inOrder =>
      left
      have hturn := h.turned (t := t) (by simp [hadmission])
      rw [hadmission] at hturn
      rw [Buffer.slots_of_inOrder hturn, List.mem_filter]
      exact ⟨hs, by simpa using hne.symm⟩
    | forced =>
      have hturn := h.turned (t := t) (by simp [hadmission])
      rw [hadmission] at hturn
      obtain ⟨-, o, hstart, hslots⟩ := Buffer.slots_of_forced hturn
      rw [hslots] at hs
      rcases List.mem_cons.1 hs with rfl | hs
      · exact .inr ⟨t, rfl, hadmission, hstart.symm, hne, hslots⟩
      · exact .inl hs

/-- Whoever has its turn at a step does not wait after it. -/
private theorem turn_ne_held (run : Run capacity past q) {t : Turn β} (h : q.step e = some (q', some t))
    {a : Slot × β} (ha : a ∈ held q'.callers) : t.slot ≠ a.1 := by
  intro he
  have hperm := ((run.step h).granted_append_held_perm.map (·.1.ticket)).nodup_iff
  have hnd := hperm.2 (run.step h).arrivals_nodup
  rw [List.map_append, List.nodup_append] at hnd
  have ht : (t.slot, t.batch) ∈ granted (past ++ [⟨q, e, some t, q'⟩]) := by simp [granted, turns]
  exact hnd.2.2 _ (List.mem_map.2 ⟨_, ht, rfl⟩) _ (List.mem_map.2 ⟨a, ha, rfl⟩) (by rw [he])

/-- Whoever waits has its slot, or a forced batch with the same start has released it. -/
theorem Run.slot_or_robbed (run : Run capacity past q) {a : Slot × β} (ha : a ∈ held q.callers) :
    a.1 ∈ q.buffer.slots ∨ ∃ m ∈ past, m.Robs a.1 := by
  induction run with
  | start => simp [held, new] at ha
  | @step past q q' e turn run h ih =>
    have hacc := (stepped_of_step h).accounts run.held_nodup
    have htested := (tested_perm q q' e turn).symm
    -- The slot was tested, or it had been released before.
    have hbefore : a.1 ∈ (q.tested e).slots ∨ ∃ m ∈ past, m.Robs a.1 := by
      rcases List.mem_append.1 (hacc.subset (List.mem_append_right _ ha)) with hold | hnew
      · exact (ih hold).imp_left fun hin => htested.subset (List.mem_append_left _ hin)
      · exact .inl (htested.subset (List.mem_append_right _ (List.mem_map.2 ⟨a, hnew, rfl⟩)))
    rcases hbefore with hin | ⟨m, hm, hrobs⟩
    · have hother : ∀ t, turn = some t → t.slot ≠ a.1 := by
        rintro t rfl
        exact turn_ne_held run h ha
      refine ((stepped_of_step h).stays_or_robbed hin hother).imp_right fun hrobs => ?_
      exact ⟨_, List.mem_append_right _ (List.mem_singleton_self _), hrobs⟩
    · exact .inr ⟨m, List.mem_append_left _ hm, hrobs⟩

/-- If the slot of a batch in order is gone, then a forced batch with the same start has released it before. -/
theorem Run.robbed_of_bereft (run : Run capacity past q) {before after : List (Moment β)} {m : Moment β}
    (h : past = before ++ m :: after) {t : Turn β} (ht : t ∈ m.bereft?) : ∃ n ∈ before, n.Robs t.slot := by
  obtain ⟨run, hstep⟩ := run.split h
  obtain ⟨hturn, -, hgone⟩ := mem_bereft?.1 ht
  rw [hturn] at hstep
  have hacc := (stepped_of_step hstep).accounts run.held_nodup
  have htested := (tested_perm m.before m.after m.event (some t)).symm
  rcases List.mem_append.1 (hacc.subset (List.mem_cons_self ..)) with hold | hnew
  · refine (run.slot_or_robbed hold).resolve_left fun hin => hgone ?_
    exact htested.subset (List.mem_append_left _ hin)
  · refine absurd ?_ hgone
    exact htested.subset (List.mem_append_right _ (List.mem_map.2 ⟨_, hnew, rfl⟩))

theorem Run.bereft_of_apart (run : Run capacity past q) (apart : Apart past) : bereft past = [] := by
  have hslots := (run.slots_perm_of_apart apart).length_eq
  have haccount := run.pending_eq
  unfold pending at haccount
  simp only [List.length_append, List.length_map, held] at hslots
  exact List.length_eq_zero_iff.1 (by omega)

/-- What is released at a moment: the oldest slot by a batch that is forced, its own by a batch in order that still has it,
and else none. -/
theorem Run.releases (run : Run capacity past q) {m : Moment β} (hm : m ∈ past) {t : Turn β} (ht : m.turn = some t) :
    (t.admission = .forced → ∃ o, o.start = t.slot.start ∧ m.tested.slots = o :: m.after.buffer.slots) ∧
    (t.admission = .inOrder → t.slot ∈ m.tested.slots → m.tested.slots.Perm (t.slot :: m.after.buffer.slots)) ∧
    (t.admission = .timedOut ∨ t ∈ m.bereft? → m.tested.slots = m.after.buffer.slots) := by
  obtain ⟨before, after, hpast⟩ := List.append_of_mem hm
  obtain ⟨run, hstep⟩ := run.split hpast
  rw [ht] at hstep
  have hturned : t.admission ≠ .timedOut → m.tested.turn? t.slot = some (t.admission, m.after.buffer) :=
    (stepped_of_step hstep).turned
  refine ⟨?_, ?_, ?_⟩
  · intro hforced
    rw [hforced] at hturned
    exact (Buffer.slots_of_forced (hturned (by decide))).2
  · intro hin hslot
    rw [hin] at hturned
    exact Buffer.perm_of_inOrder (hturned (by decide)) (tested_sorted run.sorted).nodup hslot
  · rintro (hout | hbereft)
    · obtain ⟨hbuffer, hsame⟩ := (stepped_of_step hstep).keeps hout
      rw [hbuffer]
      exact congrArg Buffer.slots hsame
    · obtain ⟨-, hin, hgone⟩ := mem_bereft?.1 hbereft
      rw [hin] at hturned
      exact (Buffer.slots_of_bereft (hturned (by decide)) hgone).symm

/-- There is a slot for each caller that waits and for each batch that has timed out, and besides these only one for each
batch that had its turn in order after a forced batch with the same start had released its slot.  Every forced batch
releases one slot, the oldest, and every batch in order its own if it still has it.  So if no batch arrives while another
with the same start is in the buffer, nothing but the end of a window leaves a slot behind. -/
theorem Run.pending_account (run : Run capacity past q) :
    q.pending = q.callers.length + (timeouts past).length + (bereft past).length ∧
    (∀ m ∈ past, ∀ t, m.turn = some t →
      (t.admission = .forced → ∃ o, o.start = t.slot.start ∧ m.tested.slots = o :: m.after.buffer.slots) ∧
      (t.admission = .inOrder → t.slot ∈ m.tested.slots → m.tested.slots.Perm (t.slot :: m.after.buffer.slots)) ∧
      (t.admission = .timedOut ∨ t ∈ m.bereft? → m.tested.slots = m.after.buffer.slots)) ∧
    (∀ before m after, past = before ++ m :: after → ∀ t ∈ m.bereft?, ∃ n ∈ before, n.Robs t.slot) ∧
    (Apart past → bereft past = []) := by
  refine ⟨run.pending_eq, ?_, ?_, run.bereft_of_apart⟩
  · intro m hm t ht
    exact run.releases hm ht
  · intro before m after hpast t ht
    exact run.robbed_of_bereft hpast ht

/-- Two batches with the same start come to a buffer of two.  The second is forced and releases the slot of the first;
then the cursor is set back, and the first has its turn in order. -/
def twins : List (Event String) := [.arrive 5 5 "first", .arrive 5 5 "second", .seed 5, .resume 0]

/-- Then a third one times out at the buffer that the twins have left. -/
def twinsAndThird : List (Event String) := twins ++ [.arrive 9 9 "third", .expire 2, .resume 2]

/-- Two slots stay behind, one of a batch that has timed out and one that the twins have left. -/
theorem pending_account_twins :
    (history 2 twinsAndThird).2.pending = 2 ∧ (history 2 twinsAndThird).2.callers = [] ∧
      (timeouts (history 2 twinsAndThird).1).length = 1 ∧ (bereft (history 2 twinsAndThird).1).length = 1 ∧
      ∃ n ∈ (history 2 twinsAndThird).1, n.Robs ⟨5, 0, 5⟩ := by
  have haccount := (Run.history 2 twinsAndThird).pending_account
  have hpending : (history 2 twinsAndThird).2.pending = 2 := by decide +kernel
  have hcallers : (history 2 twinsAndThird).2.callers = [] := by decide +kernel
  have htimeouts : (timeouts (history 2 twinsAndThird).1).length = 1 := by decide +kernel
  have hbereft : ∃ m ∈ (history 2 twinsAndThird).1, m.bereft? = some ⟨⟨5, 0, 5⟩, "first", .inOrder, 1⟩ := by
    decide +kernel
  refine ⟨hpending, hcallers, htimeouts, ?_, ?_⟩
  · have heq := haccount.1
    rw [hpending, hcallers, htimeouts, List.length_nil] at heq
    omega
  · obtain ⟨m, hm, ht⟩ := hbereft
    obtain ⟨before, after, hpast⟩ := List.append_of_mem hm
    obtain ⟨n, hn, hrobs⟩ := haccount.2.2.1 before m after hpast _ ht
    refine ⟨n, ?_, hrobs⟩
    rw [hpast]
    exact List.mem_append_left _ hn

/-- Nobody waits and nobody has timed out, and yet a slot is taken. -/
theorem pending_left_by_twins :
    ¬ ∀ (past : List (Moment String)) (q : Sequencer String), Run 2 past q →
      q.pending = q.callers.length + (timeouts past).length := by
  intro h
  have heq := h _ _ (Run.history 2 twins)
  have hpending : (history 2 twins).2.pending = 1 := by decide +kernel
  have hcallers : (history 2 twins).2.callers = [] := by decide +kernel
  have htimeouts : timeouts (history 2 twins).1 = [] := by decide +kernel
  rw [hpending, hcallers, htimeouts] at heq
  cases heq

/-! ### Forced batches -/

/-- When a batch is forced, fewer batches have timed out than the buffer has slots. -/
theorem Run.timeouts_lt_of_forced (run : Run capacity past q) {t : Turn β} (h : q.step e = some (q', some t))
    (ht : t.admission = .forced) : (timeouts past).length < max capacity 1 := by
  have hturn := (stepped_of_step h).turned (by simp [ht])
  rw [ht] at hturn
  have hfull := (Buffer.slots_of_forced hturn).1
  rw [Buffer.isFull_iff, capacity_tested, run.capacity_eq] at hfull
  have htested := (tested_perm q q' e (some t)).length_eq
  have hacc := ((stepped_of_step h).accounts run.held_nodup).length_eq
  have hpending := run.pending_eq
  unfold pending at hpending
  simp only [List.length_append, List.length_map, held, granted] at htested hacc
  have hone : (turns [⟨q, e, some t, q'⟩]).length = 1 := rfl
  omega

/-- Once as many batches have timed out as the buffer has slots, at least as many slots stay taken, and no batch is ever
forced again. -/
theorem Run.never_forced (run : Run capacity (past ++ more) q) (h : max capacity 1 ≤ (timeouts past).length) :
    max capacity 1 ≤ q.pending ∧ ∀ t ∈ turns more, t.admission ≠ .forced := by
  constructor
  · have hpending := run.pending_eq
    rw [timeouts_append, List.length_append] at hpending
    omega
  · intro t ht hforced
    obtain ⟨m, hm, hturn⟩ := List.mem_filterMap.1 ht
    obtain ⟨before, after, rfl⟩ := List.append_of_mem hm
    obtain ⟨run, hstep⟩ := run.split (List.append_assoc past before (m :: after)).symm
    rw [hturn] at hstep
    have hlt := run.timeouts_lt_of_forced hstep hforced
    rw [timeouts_append, List.length_append] at hlt
    omega

/-- In a buffer of two a batch times out, and then one is forced.  A second one times out; after that three batches crowd
the buffer, the cursor is set to the start of one, and when it has had its turn the oldest of the others tests in vain. -/
def worn : List (Event String) := [
  .arrive 7 7 "first", .expire 0, .resume 0,
  .arrive 5 5 "second",
  .arrive 9 9 "third", .expire 2, .resume 2,
  .arrive 3 3 "fourth", .arrive 4 4 "fifth", .seed 4, .resume 4, .resume 3]

/-- With one batch timed out a batch is still forced; with two none is. -/
theorem never_forced_worn :
    (turns ((history 2 worn).1.take 7)).map (·.admission) = [.timedOut, .forced, .timedOut] ∧
      (timeouts ((history 2 worn).1.take 7)).length = 2 ∧ (turns ((history 2 worn).1.drop 7)).length = 1 ∧
      ∀ t ∈ turns ((history 2 worn).1.drop 7), t.admission ≠ .forced := by
  have htimeouts : (timeouts ((history 2 worn).1.take 7)).length = 2 := by decide +kernel
  have run : Run 2 ((history 2 worn).1.take 7 ++ (history 2 worn).1.drop 7) (history 2 worn).2 := by
    rw [List.take_append_drop]
    exact Run.history 2 worn
  exact ⟨by decide +kernel, htimeouts, by decide +kernel, (run.never_forced (Nat.le_of_eq htimeouts.symm)).2⟩

end SeriesRegion.Sequencer
