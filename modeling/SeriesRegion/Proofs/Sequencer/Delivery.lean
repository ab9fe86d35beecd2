import SeriesRegion.Proofs.Sequencer.Contiguous
import SeriesRegion.Proofs.Sequencer.Sleepers
import SeriesRegion.Proofs.Sequencer.Untimed

/-!
# Delivery within the window

Contiguous batches are delivered in any order to a buffer whose cursor is set to their first position, and each that
arrives either starts at the cursor or leaves room in the buffer.  Then no batch is ever forced, and nothing is lost or
reordered (`Run.delivers`): whenever all is quiet, the batches applied are those up to the first that is missing.

What carries the induction is `Delivering`: the turns so far were had by the first of the batches, and the cursor is
where these end.
-/

namespace SeriesRegion.Sequencer

variable {γ : Type} {capacity : Nat} {first : UInt64} {batches : List (LogBatch γ)}
  {past : List (Moment (LogBatch γ))} {q q' : Sequencer (LogBatch γ)} {e : Event (LogBatch γ)}

/-- What is asked of any delivery of batches: some of them have arrived, each once and with its own range, none has timed
out, and the cursor was set to nothing but the first position, and that at most once. -/
structure Delivery (first : UInt64) (batches : List (LogBatch γ)) (past : List (Moment (LogBatch γ))) : Prop where
  own : Own past
  part : ((arrivals past).map (·.2)).Subperm batches
  untimed : Untimed past
  once : seeded past <+: [first]

/-- Each batch that arrives either starts at the cursor or leaves room. -/
def Roomy (capacity : Nat) (past : List (Moment (LogBatch γ))) : Prop :=
  ∀ m ∈ past, ∀ a ∈ m.arrival?, m.before.buffer.cursor = some a.1.start ∨ m.before.pending + 1 < capacity

/-- No batch arrives before the cursor is set. -/
def SeededFirst (past : List (Moment (LogBatch γ))) : Prop :=
  ∀ m ∈ past, m.arrival?.isSome → m.before.buffer.cursor.isSome

/-- Whether a batch that starts where this one does has arrived. -/
def delivered (past : List (Moment (LogBatch γ))) (b : LogBatch γ) : Bool :=
  decide (b.start ∈ (arrivals past).map (·.1.start))

/-- The batches applied so far. -/
def done (past : List (Moment (LogBatch γ))) : List (LogBatch γ) := (turns past).map (·.batch)

theorem applied_eq (past : List (Moment (LogBatch γ))) : applied past = (done past).flatMap (·.commands) := by
  unfold applied done
  rw [List.flatMap_map]

namespace Delivery

theorem of_append {more : List (Moment (LogBatch γ))} (h : Delivery first batches (past ++ more)) :
    Delivery first batches past where
  own := h.own.of_append
  part := by
    have := h.part
    rw [arrivals_append, List.map_append] at this
    exact (List.sublist_append_left _ _).subperm.trans this
  untimed := h.untimed.of_append
  once := by
    have := h.once
    rw [seeded_append] at this
    exact (List.prefix_append _ _).trans this

theorem mem_batches (h : Delivery first batches past) {a : Slot × LogBatch γ} (ha : a ∈ arrivals past) :
    a.2 ∈ batches :=
  h.part.subset (List.mem_map.2 ⟨a, ha, rfl⟩)

theorem distinct (h : Delivery first batches past) (hb : Contiguous first batches) : Distinct past := by
  obtain ⟨l, hl, hs⟩ := h.part
  have hnd : (((arrivals past).map (·.2)).map (·.start)).Nodup :=
    ((hl.map _).nodup_iff).1 (hb.starts_nodup.sublist (hs.map _))
  have heq : (arrivals past).map (·.1.start) = ((arrivals past).map (·.2)).map (·.start) := by
    rw [List.map_map]
    exact List.map_congr_left fun a ha => (h.own a ha).1
  unfold Distinct
  rw [heq]
  exact hnd

end Delivery

/-! ### The invariant -/

/-- How far a delivery has come. -/
structure Delivering (capacity : Nat) (first : UInt64) (batches : List (LogBatch γ))
    (past : List (Moment (LogBatch γ))) (b : Buffer) : Prop where
  inOrder : ∀ t ∈ turns past, t.admission = .inOrder
  ahead : done past <+: batches
  unset : seeded past = [] → b.cursor = none ∧ turns past = []
  set : seeded past = [first] → b.cursor = some (following first (done past))
  short : b.slots.length < max capacity 1

theorem seeded_cases (h : seeded past <+: [first]) : seeded past = [] ∨ seeded past = [first] := by
  cases hs : seeded past with
  | nil => exact .inl rfl
  | cons i rest =>
    rw [hs, List.cons_prefix_cons, List.prefix_nil] at h
    exact .inr (by rw [h.1, h.2])

theorem Delivering.seeded_eq {b : Buffer} (h : Delivering capacity first batches past b)
    (honce : seeded past <+: [first]) (hset : b.cursor.isSome) : seeded past = [first] := by
  rcases seeded_cases honce with hs | hs
  · rw [(h.unset hs).1] at hset
    cases hset
  · exact hs

theorem Delivering.turned {b b' : Buffer} (h : Delivering capacity first batches past b)
    (hb : Contiguous first batches) (honce : seeded past <+: [first]) {m : Moment (LogBatch γ)}
    {t : Turn (LogBatch γ)} (hm : m.turn = some t) (hseed : m.seed? = none) (hc : b.cursor = some t.slot.start)
    (hin : t.admission = .inOrder) (hc' : b'.cursor = some (positionAfter t.slot.stop))
    (hstart : t.slot.start = t.batch.start) (hstop : t.slot.stop = t.batch.stop) (hmem : t.batch ∈ batches)
    (hshort : b'.slots.length < max capacity 1) : Delivering capacity first batches (past ++ [m]) b' := by
  have hset : seeded past = [first] := h.seeded_eq honce (by rw [hc]; rfl)
  have hturns : turns (past ++ [m]) = turns past ++ [t] := by simp [turns, hm]
  have hseeded : seeded (past ++ [m]) = seeded past := by simp [seeded, hseed]
  have hdone : done (past ++ [m]) = done past ++ [t.batch] := by simp [done, hturns]
  have hat : t.batch.start = following first (done past) := by
    rw [h.set hset, hstart] at hc
    exact (Option.some.inj hc).symm
  -- The batch starts where those before it end, so it is the next of all.
  obtain ⟨hahead, hafter⟩ := hb.next_prefix h.ahead hmem hat
  refine ⟨?_, ?_, ?_, ?_, hshort⟩
  · rw [hturns]
    intro u hu
    rcases List.mem_append.1 hu with hu | hu
    · exact h.inOrder u hu
    · cases List.mem_singleton.1 hu
      exact hin
  · rw [hdone]
    exact hahead
  · rw [hseeded, hset]
    intro hnil
    cases hnil
  · intro _
    rw [hc', hdone, hstop, hafter]

theorem Delivering.still {b b' : Buffer} (h : Delivering capacity first batches past b) {m : Moment (LogBatch γ)}
    (hm : m.turn = none) (hseed : m.seed? = none) (hc : b'.cursor = b.cursor)
    (hshort : b'.slots.length < max capacity 1) : Delivering capacity first batches (past ++ [m]) b' := by
  have hturns : turns (past ++ [m]) = turns past := by simp [turns, hm]
  have hseeded : seeded (past ++ [m]) = seeded past := by simp [seeded, hseed]
  have hdone : done (past ++ [m]) = done past := by simp [done, hturns]
  refine ⟨?_, ?_, ?_, ?_, hshort⟩
  · rw [hturns]
    exact h.inOrder
  · rw [hdone]
    exact h.ahead
  · rw [hseeded, hc, hturns]
    exact h.unset
  · rw [hseeded, hc, hdone]
    exact h.set

theorem Delivering.seeds {b b' : Buffer} (h : Delivering capacity first batches past b) {m : Moment (LogBatch γ)}
    {index : UInt64} (honce : seeded (past ++ [m]) <+: [first]) (hm : m.turn = none) (hseed : m.seed? = some index)
    (hc : b'.cursor = some index) (hs : b'.slots = b.slots) :
    Delivering capacity first batches (past ++ [m]) b' := by
  have hturns : turns (past ++ [m]) = turns past := by simp [turns, hm]
  have hseeded : seeded (past ++ [m]) = seeded past ++ [index] := by simp [seeded, hseed]
  have hfirst : seeded past = [] ∧ index = first := by
    rcases seeded_cases honce with hcase | hcase
    · simp [hseeded] at hcase
    · rw [hseeded, List.append_eq_singleton_iff] at hcase
      simpa using hcase
  have hnone := (h.unset hfirst.1).2
  refine ⟨?_, ?_, ?_, ?_, ?_⟩
  · simp [hturns, hnone]
  · simp [done, hturns, hnone]
  · simp [hseeded]
  · intro _
    rw [hc, hfirst.2, done, hturns, hnone]
    rfl
  · rw [hs]
    exact h.short

/-- When a turn is tested, the batch starts at the cursor or there is room for another. -/
private theorem room_tested {t : Turn (LogBatch γ)} (hstep : Stepped q e (some t) q')
    (hroom : Roomy capacity (past ++ [⟨q, e, some t, q'⟩])) (hshort : q.buffer.slots.length < max capacity 1) :
    q.buffer.cursor = some t.slot.start ∨ (q.tested e).slots.length < max capacity 1 := by
  cases hstep with
  | @enters start stop batch admission b turn =>
    rcases hroom _ (List.mem_append_right _ (List.mem_singleton_self _)) _ rfl with hcursor | hleft
    · exact .inl hcursor
    · right
      show (q.buffer.enter start stop).slots.length < max capacity 1
      rw [Buffer.length_enter]
      exact Nat.lt_of_lt_of_le hleft (Nat.le_max_left _ _)
  | proceeds mem awake turn => exact .inr hshort
  | timesOut mem expired undisturbed => exact .inr hshort

private theorem length_tested_le (q : Sequencer (LogBatch γ)) (e : Event (LogBatch γ)) :
    (q.tested e).slots.length ≤ q.buffer.slots.length + 1 := by
  cases e with
  | arrive start stop batch => exact Nat.le_of_eq (Buffer.length_enter _ _ _)
  | _ => exact Nat.le_succ _

theorem Delivering.step (h : Delivering capacity first batches past q.buffer) (run : Run capacity past q)
    (hb : Contiguous first batches) {turn : Option (Turn (LogBatch γ))} (hstep : q.step e = some (q', turn))
    (hd : Delivery first batches (past ++ [⟨q, e, turn, q'⟩])) (hroom : Roomy capacity (past ++ [⟨q, e, turn, q'⟩])) :
    Delivering capacity first batches (past ++ [⟨q, e, turn, q'⟩]) q'.buffer := by
  cases turn with
  | none =>
    cases stepped_of_step hstep with
    | @parks start stop batch idle =>
      refine h.still rfl rfl rfl ?_
      rcases hroom _ (List.mem_append_right _ (List.mem_singleton_self _)) _ rfl with hcursor | hleft
      · exact absurd hcursor (Buffer.turn?_eq_none.1 idle).1
      · rw [Buffer.length_enter]
        exact Nat.lt_of_lt_of_le hleft (Nat.le_max_left _ _)
    | sleeps mem awake idle => exact h.still rfl rfl rfl h.short
    | expires mem asleep => exact h.still rfl rfl rfl h.short
    | seeds index => exact h.seeds hd.once rfl rfl rfl rfl
    | interrupts => exact h.still rfl rfl rfl h.short
  | some t =>
    have hstepped := stepped_of_step hstep
    have hturn := hstepped.turned (hd.untimed t (by simp [turns]))
    have hmem := (run.step hstep).turn_mem_arrivals (t := t) (by simp [turns])
    obtain ⟨hstart, hstop⟩ := hd.own _ hmem
    have hshort : q'.buffer.slots.length < max capacity 1 := by
      -- A turn releases one slot, and no more than one was taken for it.
      have hreleased := (run.released hstep hd.untimed (hd.distinct hb)).length_eq
      have hle := length_tested_le q e
      have hshort := h.short
      rw [List.length_cons] at hreleased
      omega
    rcases Buffer.turn?_eq_some hturn with ⟨hin, hc, -⟩ | ⟨-, hc, -, hfull, -⟩
    · rw [cursor_tested] at hc
      have hseed : Moment.seed? ⟨q, e, some t, q'⟩ = none := by cases hstepped <;> rfl
      exact h.turned hb hd.of_append.once rfl hseed hc hin (Buffer.turn?_frame hturn).2.2.2.1 hstart hstop
        (hd.mem_batches hmem) hshort
    · -- The turn of the oldest batch of a full buffer: there was room for another.
      rw [Buffer.isFull_iff, capacity_tested, run.capacity_eq] at hfull
      rw [cursor_tested] at hc
      rcases room_tested hstepped hroom h.short with hcursor | hleft
      · exact absurd hcursor hc
      · omega

theorem Roomy.of_append {more : List (Moment (LogBatch γ))} (h : Roomy capacity (past ++ more)) : Roomy capacity past :=
  fun m hm => h m (List.mem_append_left _ hm)

theorem Run.delivering (run : Run capacity past q) (hb : Contiguous first batches) (hd : Delivery first batches past)
    (hroom : Roomy capacity past) : Delivering capacity first batches past q.buffer := by
  induction run with
  | start =>
    refine ⟨by simp [turns], by simp [done, turns], fun _ => ⟨rfl, rfl⟩, ?_, ?_⟩
    · intro hs
      cases hs
    · show 0 < max capacity 1
      omega
  | step run h ih => exact (ih hd.of_append hroom.of_append).step run hb h hd hroom

end SeriesRegion.Sequencer
