import SeriesRegion.Proofs.Sequencer.Expiry
import SeriesRegion.Proofs.Sequencer.Untimed

/-!
# The way of the cursor

A batch in order starts at the cursor and moves it past its end, and a batch that times out leaves it.  A forced batch
moves the cursor past its end too, wherever that is: if the batch came after the gap that it was to fill had been skipped,
then the cursor goes back, and nothing else makes it go back (`Run.cursor_back_iff`).
-/

namespace SeriesRegion.Sequencer

variable {γ : Type} {capacity : Nat} {past : List (Moment (LogBatch γ))} {q q' : Sequencer (LogBatch γ)}
  {e : Event (LogBatch γ)}

/-- A cursor that was known is known and has not gone back. -/
def Forward (before after : Option UInt64) : Prop := ∀ c, before = some c → ∃ c', after = some c' ∧ c ≤ c'

theorem Forward.refl (a : Option UInt64) : Forward a a := fun c hc => ⟨c, hc, UInt64.le_refl c⟩

theorem Forward.trans {a b c : Option UInt64} (h : Forward a b) (h' : Forward b c) : Forward a c := by
  intro x hx
  obtain ⟨y, hy, hxy⟩ := h x hx
  obtain ⟨z, hz, hyz⟩ := h' y hy
  exact ⟨z, hz, UInt64.le_trans hxy hyz⟩

/-- At a moment a batch is forced that ends before a position. -/
def Moment.ForcesBefore {β : Type} (m : Moment β) (c : UInt64) : Prop :=
  ∃ t, m.turn = some t ∧ t.admission = .forced ∧ positionAfter t.slot.stop < c

/-! ### Steps -/

/-- A turn that is not the end of a window moves the cursor past its batch; one in order starts where the cursor was. -/
theorem Stepped.moved {β : Type} {q q' : Sequencer β} {e : Event β} {t : Turn β} (h : Stepped q e (some t) q')
    (ht : t.admission ≠ .timedOut) :
    q'.buffer.cursor = some (positionAfter t.slot.stop) ∧
      (t.admission = .inOrder → q.buffer.cursor = some t.slot.start) := by
  have hturn := h.turned ht
  refine ⟨(Buffer.turn?_frame hturn).2.2.2.1, fun hin => ?_⟩
  rcases Buffer.turn?_eq_some hturn with ⟨-, hc, -⟩ | ⟨hforced, -⟩
  · rw [← cursor_tested q e]
    exact hc
  · rw [hin] at hforced
    cases hforced

/-- Without a seed a step moves the cursor back exactly if it forces a batch that ends before it. -/
theorem Stepped.back_iff {turn : Option (Turn (LogBatch γ))} (h : Stepped q e turn q')
    (hrange : ∀ t, turn = some t → t.slot.start ≤ t.slot.stop) (unseeded : Moment.seed? ⟨q, e, turn, q'⟩ = none)
    {c : UInt64} (hc : q.buffer.cursor = some c) :
    ∃ c', q'.buffer.cursor = some c' ∧ (c' < c ↔ Moment.ForcesBefore ⟨q, e, turn, q'⟩ c) := by
  cases turn with
  | none =>
    refine ⟨c, ?_, ?_⟩
    · rw [h.unturned.2, unseeded, hc]
      rfl
    · constructor
      · intro hlt
        exact absurd hlt (UInt64.lt_irrefl c)
      · rintro ⟨t, ht, -⟩
        cases ht
  | some t =>
    cases hadmission : t.admission with
    | timedOut =>
      refine ⟨c, ?_, ?_⟩
      · rw [(h.timedOut hadmission).2]
        exact hc
      · constructor
        · intro hlt
          exact absurd hlt (UInt64.lt_irrefl c)
        · rintro ⟨u, hu, hforced, -⟩
          cases hu
          rw [hadmission] at hforced
          cases hforced
    | inOrder =>
      obtain ⟨hmoved, hstart⟩ := h.moved (t := t) (by rw [hadmission]; decide)
      have hat := hstart hadmission
      rw [hc, Option.some.injEq] at hat
      refine ⟨_, hmoved, ?_⟩
      constructor
      · intro hlt
        have hproper := hrange t rfl
        have hpast := le_positionAfter t.slot.stop
        rw [UInt64.le_iff_toNat_le] at hproper hpast
        rw [UInt64.lt_iff_toNat_lt, hat] at hlt
        omega
      · rintro ⟨u, hu, hforced, -⟩
        cases hu
        rw [hadmission] at hforced
        cases hforced
    | forced =>
      obtain ⟨hmoved, -⟩ := h.moved (t := t) (by rw [hadmission]; decide)
      refine ⟨_, hmoved, ?_⟩
      constructor
      · intro hlt
        exact ⟨t, rfl, hadmission, hlt⟩
      · rintro ⟨u, hu, -, hlt⟩
        cases hu
        exact hlt

/-! ### Runs -/

theorem seed?_of_seeded {β : Type} {past : List (Moment β)} (h : seeded past = []) {m : Moment β} (hm : m ∈ past) :
    m.seed? = none :=
  List.filterMap_eq_nil_iff.1 h m hm

theorem Run.back_iff (run : Run capacity past q) (own : Own past) (unseeded : seeded past = [])
    {m : Moment (LogBatch γ)} (hm : m ∈ past) {c : UInt64} (hc : m.before.buffer.cursor = some c) :
    ∃ c', m.after.buffer.cursor = some c' ∧ (c' < c ↔ m.ForcesBefore c) := by
  refine (run.stepped_of_mem hm).back_iff ?_ (seed?_of_seeded unseeded hm) hc
  intro t ht
  exact own.start_le_stop (run.turn_mem_arrivals (List.mem_filterMap.2 ⟨m, hm, ht⟩))

/-- If each moment moves the cursor forward, then so does each stretch of them up to the present. -/
theorem Run.forward_of_moments {β : Type} {past : List (Moment β)} {q : Sequencer β} (run : Run capacity past q)
    (h : ∀ m ∈ past, Forward m.before.buffer.cursor m.after.buffer.cursor) :
    (∀ m ∈ past, Forward m.after.buffer.cursor q.buffer.cursor) ∧
      past.Pairwise fun m n => Forward m.after.buffer.cursor n.after.buffer.cursor := by
  induction run with
  | start => exact ⟨by simp, .nil⟩
  | @step past q q' e turn run hstep ih =>
    obtain ⟨hlast, hpairs⟩ := ih fun m hm => h m (List.mem_append_left _ hm)
    have hstretch : ∀ m ∈ past, Forward m.after.buffer.cursor q'.buffer.cursor := fun m hm =>
      (hlast m hm).trans (h ⟨q, e, turn, q'⟩ (List.mem_append_right _ (List.mem_singleton_self _)))
    constructor
    · intro m hm
      rcases List.mem_append.1 hm with hm | hm
      · exact hstretch m hm
      · cases List.mem_singleton.1 hm
        exact .refl _
    · refine List.pairwise_append.2 ⟨hpairs, List.pairwise_singleton _ _, ?_⟩
      intro m hm n hn
      cases List.mem_singleton.1 hn
      exact hstretch m hm

/-- As long as nobody sets it, the cursor goes back at a moment exactly if a batch is forced that ends before it.  If no
such batch is forced, it never goes back. -/
theorem Run.cursor_back_iff (run : Run capacity past q) (own : Own past) (unseeded : seeded past = []) :
    (∀ m ∈ past, ∀ c, m.before.buffer.cursor = some c →
      ∃ c', m.after.buffer.cursor = some c' ∧ (c' < c ↔ m.ForcesBefore c)) ∧
    ((∀ m ∈ past, ∀ c, m.before.buffer.cursor = some c → ¬ m.ForcesBefore c) →
      past.Pairwise fun m n => Forward m.after.buffer.cursor n.after.buffer.cursor) := by
  refine ⟨fun m hm c hc => run.back_iff own unseeded hm hc, fun h => ?_⟩
  refine (run.forward_of_moments fun m hm c hc => ?_).2
  obtain ⟨c', hc', hback⟩ := run.back_iff own unseeded hm hc
  refine ⟨c', hc', UInt64.not_lt.1 fun hlt => h m hm c hc (hback.1 hlt)⟩

/-- A batch comes late to a buffer of two: the first was forced when the second filled the buffer, and the third, which
lies before both, fills it again and is the oldest. -/
def late : List (Event (LogBatch Nat)) := [
  .arrive 4 4 ⟨4, 4, [4], by decide, by decide⟩,
  .arrive 8 8 ⟨8, 8, [8], by decide, by decide⟩,
  .resume 0,
  .arrive 2 2 ⟨2, 2, [2], by decide, by decide⟩]

theorem own_late : Own (history 2 late).1 := by
  unfold Own
  decide +kernel

/-- The last moment of the delivery forces a batch that ends before the cursor. -/
theorem cursor_back_iff_late :
    ∃ m ∈ (history 2 late).1, m.before.buffer.cursor = some 5 ∧ m.ForcesBefore 5 := by
  have hmoment : ∃ m ∈ (history 2 late).1, m.before.buffer.cursor = some 5 ∧ m.after.buffer.cursor = some 3 := by
    decide +kernel
  obtain ⟨m, hm, hbefore, hafter⟩ := hmoment
  obtain ⟨c', hc', hback⟩ := ((Run.history 2 late).cursor_back_iff own_late (by decide +kernel)).1 m hm 5 hbefore
  obtain rfl : 3 = c' := Option.some.inj (hafter.symm.trans hc')
  exact ⟨m, hm, hbefore, hback.1 (by decide)⟩

/-- Nobody sets the cursor and no batch times out, and yet it goes back from 5 to 3. -/
theorem cursor_goes_back :
    Run 2 (history 2 late).1 (history 2 late).2 ∧ Own (history 2 late).1 ∧ seeded (history 2 late).1 = [] ∧
      (turns (history 2 late).1).map (·.admission) = [.forced, .forced] ∧
      ¬ (history 2 late).1.Pairwise fun m n => Forward m.after.buffer.cursor n.after.buffer.cursor := by
  refine ⟨Run.history 2 late, own_late, by decide +kernel, by decide +kernel, fun hpairs => ?_⟩
  have hcursors : (history 2 late).1.map (·.after.buffer.cursor) = [none, none, some 5, some 3] := by decide +kernel
  have hforward : ([none, none, some 5, some 3] : List (Option UInt64)).Pairwise Forward := by
    rw [← hcursors, List.pairwise_map]
    exact hpairs
  simp only [List.pairwise_cons] at hforward
  obtain ⟨c', hc', hle⟩ := hforward.2.2.1 (some 3) (by simp) 5 rfl
  cases hc'
  exact absurd hle (by decide)

end SeriesRegion.Sequencer
