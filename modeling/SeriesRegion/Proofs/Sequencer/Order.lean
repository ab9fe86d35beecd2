import SeriesRegion.Proofs.Sequencer.Untimed
import Mathlib.Data.List.Pairwise

/-!
# Order across gaps

Batches of log positions may leave gaps between them, and a full buffer skips a gap.  If their ranges do not meet, none
comes late and none times out, then the batches are still applied in the order of their ranges
(`Run.applied_ascending`).

What carries the induction is `Ordered`: every slot lies at or past the cursor and past every batch that had its turn,
and the cursor lies past these batches too.  At the last position of all, where the cursor cannot move on, only the
disjointness of the ranges keeps slots and turns apart.
-/

namespace SeriesRegion.Sequencer

variable {γ : Type} {capacity : Nat} {past : List (Moment (LogBatch γ))} {q q' : Sequencer (LogBatch γ)}
  {e : Event (LogBatch γ)}

/-- What is asked of a delivery with gaps: no batch times out, the cursor is set at most once and before any batch
arrives, no two ranges meet, and no batch arrives whose range starts before the cursor. -/
structure Orderly (past : List (Moment (LogBatch γ))) : Prop where
  own : Own past
  untimed : Untimed past
  seeding : past.Pairwise fun m n => n.seed?.isSome → m.seed? = none ∧ m.arrival? = none
  disjoint : (arrivals past).Pairwise fun a b => a.1.stop < b.1.start ∨ b.1.stop < a.1.start
  early : ∀ m ∈ past, ∀ a ∈ m.arrival?, ∀ c ∈ m.before.buffer.cursor, c ≤ a.1.start

theorem Orderly.of_append {more : List (Moment (LogBatch γ))} (h : Orderly (past ++ more)) : Orderly past where
  own := h.own.of_append
  untimed := h.untimed.of_append
  seeding := (List.pairwise_append.1 h.seeding).1
  disjoint := by
    have := h.disjoint
    rw [arrivals_append] at this
    exact (List.pairwise_append.1 this).1
  early := fun m hm => h.early m (List.mem_append_left _ hm)

theorem Orderly.apart (h : Orderly past) {a b : Slot × LogBatch γ} (ha : a ∈ arrivals past) (hb : b ∈ arrivals past)
    (hne : a ≠ b) : a.1.stop < b.1.start ∨ b.1.stop < a.1.start := by
  have hsymm : Std.Symm fun a b : Slot × LogBatch γ => a.1.stop < b.1.start ∨ b.1.stop < a.1.start :=
    ⟨fun _ _ h => h.symm⟩
  exact h.disjoint.forall ha hb hne

theorem Orderly.distinct (h : Orderly past) : Distinct past := by
  unfold Distinct
  rw [List.Nodup, List.pairwise_map]
  refine h.disjoint.imp_of_mem ?_
  intro a b ha hb hab heq
  have hla := h.own.start_le_stop ha
  have hlb := h.own.start_le_stop hb
  rw [UInt64.le_iff_toNat_le] at hla hlb
  rw [UInt64.lt_iff_toNat_lt, UInt64.lt_iff_toNat_lt] at hab
  rw [← UInt64.toNat_inj] at heq
  omega

/-! ### The invariant -/

/-- How the slots of a buffer, its cursor and the turns so far lie to each other. -/
structure Ordered (past : List (Moment (LogBatch γ))) (b : Buffer) : Prop where
  ahead : ∀ c, b.cursor = some c → ∀ s ∈ b.slots, c ≤ s.start
  beyond : ∀ t ∈ turns past, ∀ s ∈ b.slots, t.slot.stop < s.start
  passed : ∀ t ∈ turns past, ∃ c, b.cursor = some c ∧ positionAfter t.slot.stop ≤ c
  ascending : (turns past).Pairwise fun t u => t.slot.stop < u.slot.start

/-- What is arriving lies past all that had its turn. -/
theorem Ordered.tested (h : Ordered past q.buffer) {turn : Option (Turn (LogBatch γ))}
    (run : Run capacity past q) (ho : Orderly (past ++ [⟨q, e, turn, q'⟩])) : Ordered past (q.tested e) := by
  cases e with
  | arrive start stop batch =>
    have hmem : ∀ s ∈ (q.buffer.enter start stop).slots, s = q.buffer.nextSlot start stop ∨ s ∈ q.buffer.slots := by
      intro s hs
      exact List.mem_cons.1 ((Buffer.place_perm _ _).mem_iff.1 hs)
    have hearly : ∀ c, q.buffer.cursor = some c → c ≤ start := by
      intro c hc
      exact ho.early _ (List.mem_append_right _ (List.mem_singleton_self _)) _ rfl c hc
    refine ⟨?_, ?_, h.passed, h.ascending⟩
    · intro c hc s hs
      rcases hmem s hs with rfl | hs
      · exact hearly c hc
      · exact h.ahead c hc s hs
    · intro t ht s hs
      rcases hmem s hs with rfl | hs
      · -- What comes next to the cursor could still start inside the turn only at the last position of all, where the
        -- cursor does not move; there the ranges would meet.
        have hdisj := ho.disjoint
        rw [arrivals_append] at hdisj
        have hgranted := run.turn_mem_arrivals ht
        have happ := (List.pairwise_append.1 hdisj).2.2 _ hgranted
          (q.buffer.nextSlot start stop, batch) (List.mem_singleton_self _)
        have hrange := ho.own.start_le_stop (a := (q.buffer.nextSlot start stop, batch))
          (by simp [arrivals, Moment.arrival?])
        have hrange' := ho.own.of_append.start_le_stop hgranted
        obtain ⟨c, hc, hpast⟩ := h.passed t ht
        have hlate := hearly c hc
        have hmove := le_positionAfter t.slot.stop
        simp only [UInt64.le_iff_toNat_le, UInt64.lt_iff_toNat_lt, Buffer.nextSlot] at *
        omega
      · exact h.beyond t ht s hs
  | _ => exact h

/-- Of the slots in which it is tested, a batch that has its turn has the one with the smallest start. -/
theorem Ordered.smallest {b b' : Buffer} (h : Ordered past b) (hs : b.Sorted) {s : Slot} {admission : Admission}
    (ht : b.turn? s = some (admission, b')) : ∀ u ∈ b.slots, s.start ≤ u.start := by
  rcases Buffer.turn?_eq_some ht with ⟨-, hc, -⟩ | ⟨-, -, ho, -, -⟩
  · exact h.ahead _ hc
  · exact hs.oldest_le ho

/-- A turn moves the cursor no further than to the slots that stay, and not back. -/
theorem Ordered.turned {b b' : Buffer} (h : Ordered past b) {m : Moment (LogBatch γ)}
    {t : Turn (LogBatch γ)} (hm : m.turn = some t) (ht : b.turn? t.slot = some (t.admission, b'))
    (hin : t.slot ∈ b.slots) (hrange : t.slot.start ≤ t.slot.stop)
    (hstay : ∀ s ∈ b'.slots, t.slot.stop < s.start) :
    Ordered (past ++ [m]) b' ∧ ∀ c, b.cursor = some c → c ≤ positionAfter t.slot.stop := by
  obtain ⟨-, -, -, hcursor, hsub⟩ := Buffer.turn?_frame ht
  have hforward : ∀ c, b.cursor = some c → c ≤ positionAfter t.slot.stop := by
    intro c hc
    have := h.ahead c hc _ hin
    have := le_positionAfter t.slot.stop
    simp only [UInt64.le_iff_toNat_le] at *
    omega
  have hturns : turns (past ++ [m]) = turns past ++ [t] := by simp [turns, hm]
  refine ⟨⟨?_, ?_, ?_, ?_⟩, hforward⟩
  · intro c hc s hs
    rw [hcursor] at hc
    cases hc
    exact positionAfter_le_of_lt (hstay s hs)
  · intro u hu s hs
    rw [hturns] at hu
    rcases List.mem_append.1 hu with hu | hu
    · exact h.beyond u hu s (hsub.subset hs)
    · cases List.mem_singleton.1 hu
      exact hstay s hs
  · intro u hu
    rw [hturns] at hu
    refine ⟨_, hcursor, ?_⟩
    rcases List.mem_append.1 hu with hu | hu
    · obtain ⟨c, hc, hle⟩ := h.passed u hu
      exact UInt64.le_trans hle (hforward c hc)
    · cases List.mem_singleton.1 hu
      exact UInt64.le_refl _
  · rw [hturns, List.pairwise_append]
    refine ⟨h.ascending, List.pairwise_singleton _ _, ?_⟩
    intro u hu v hv
    cases List.mem_singleton.1 hv
    exact h.beyond u hu _ hin

/-! ### Steps and runs -/

theorem Run.cursor_eq_none {β : Type} {past : List (Moment β)} {q : Sequencer β} (run : Run capacity past q)
    (hs : seeded past = []) (ht : turns past = []) : q.buffer.cursor = none := by
  induction run with
  | start => rfl
  | @step past q q' e turn run h ih =>
    rw [seeded_append, List.append_eq_nil_iff] at hs
    rw [turns_append, List.append_eq_nil_iff] at ht
    cases turn with
    | none =>
      rw [(stepped_of_step h).unturned.2, ih hs.1 ht.1]
      cases e <;> first | rfl | cases hs.2
    | some t => cases ht.2

/-- What happens fairly: the batch that has its turn has the smallest start of all in the buffer, and the cursor does not
move back. -/
structure Moment.Fair {β : Type} (m : Moment β) : Prop where
  mem : ∀ t, m.turn = some t → t.slot ∈ m.tested.slots
  smallest : ∀ t, m.turn = some t → ∀ s ∈ m.tested.slots, s ≠ t.slot → t.slot.start < s.start
  forward : ∀ c, m.before.buffer.cursor = some c → ∃ c', m.after.buffer.cursor = some c' ∧ c ≤ c'

/-- The slots in which a turn is tested have proper ranges, and these do not meet. -/
private theorem tested_apart (run : Run capacity past q) {turn : Option (Turn (LogBatch γ))}
    (ho : Orderly (past ++ [⟨q, e, turn, q'⟩])) {s : Slot} (hs : s ∈ (q.tested e).slots) :
    s.start ≤ s.stop ∧ ∀ u ∈ (q.tested e).slots, u ≠ s → s.stop < u.start ∨ u.stop < s.start := by
  have hsub : (q.tested e).slots ⊆ (arrivals (past ++ [⟨q, e, turn, q'⟩])).map (·.1) :=
    (run.tested_subperm turn).subset
  obtain ⟨a, ha, rfl⟩ := List.mem_map.1 (hsub hs)
  refine ⟨ho.own.start_le_stop ha, ?_⟩
  intro u hu hne
  obtain ⟨b, hb, rfl⟩ := List.mem_map.1 (hsub hu)
  refine ho.apart ha hb ?_
  rintro rfl
  exact hne rfl

/-- Before the cursor is set nothing has happened that matters. -/
private theorem Orderly.untouched (run : Run capacity past q) {m : Moment (LogBatch γ)} (ho : Orderly (past ++ [m]))
    (hm : m.seed?.isSome) : turns past = [] ∧ q.buffer.slots = [] ∧ q.buffer.cursor = none := by
  have hnone : ∀ n ∈ past, n.seed? = none ∧ n.arrival? = none := by
    intro n hn
    exact (List.pairwise_append.1 ho.seeding).2.2 n hn m (List.mem_singleton_self _) hm
  have harrivals : arrivals past = [] := by
    rw [arrivals, List.filterMap_eq_nil_iff]
    exact fun n hn => (hnone n hn).2
  have hseeded : seeded past = [] := by
    rw [seeded, List.filterMap_eq_nil_iff]
    exact fun n hn => (hnone n hn).1
  have hacc := run.granted_append_held_perm
  rw [harrivals, List.perm_nil, List.append_eq_nil_iff] at hacc
  have hturns : turns past = [] := List.map_eq_nil_iff.1 hacc.1
  have hslots := run.slots_perm ho.untimed.of_append ho.distinct.of_append
  rw [hacc.2, List.map_nil, List.perm_nil] at hslots
  exact ⟨hturns, hslots, run.cursor_eq_none hseeded hturns⟩

private theorem Ordered.unturned (h : Ordered past q.buffer) (run : Run capacity past q)
    (hstep : q.step e = some (q', none)) (ho : Orderly (past ++ [⟨q, e, none, q'⟩])) :
    Ordered (past ++ [⟨q, e, none, q'⟩]) q'.buffer ∧ Moment.Fair ⟨q, e, none, q'⟩ := by
  obtain ⟨hslots, hcursor⟩ := (stepped_of_step hstep).unturned
  have hturns : turns (past ++ [⟨q, e, none, q'⟩]) = turns past := by simp [turns]
  have hcases : (∃ index, e = .seed index) ∨ q'.buffer.cursor = (q.tested e).cursor := by
    cases e with
    | seed index => exact .inl ⟨index, rfl⟩
    | _ => exact .inr hcursor
  rcases hcases with ⟨index, rfl⟩ | hcursor
  · -- Only the seed moves the cursor without a turn, and nothing lies in the buffer then.
    obtain ⟨hnone, hempty, hunset⟩ := Orderly.untouched run ho rfl
    have hslots : q'.buffer.slots = [] := hslots.trans hempty
    refine ⟨⟨?_, ?_, ?_, ?_⟩, ⟨by simp, by simp, ?_⟩⟩
    · simp [hslots]
    · simp [hslots]
    · simp [hturns, hnone]
    · simp [hturns, hnone]
    · show ∀ c, q.buffer.cursor = some c → _
      simp [hunset]
  · have htested : Ordered past (q.tested e) := h.tested run ho
    refine ⟨⟨?_, ?_, ?_, ?_⟩, ⟨by simp, by simp, ?_⟩⟩
    · rw [hslots, hcursor]
      exact htested.ahead
    · rw [hturns, hslots]
      exact htested.beyond
    · rw [hturns, hcursor]
      exact htested.passed
    · rw [hturns]
      exact htested.ascending
    · intro c hc
      rw [cursor_tested] at hcursor
      exact ⟨c, hcursor.trans hc, UInt64.le_refl c⟩

theorem Ordered.step (h : Ordered past q.buffer) (run : Run capacity past q) {turn : Option (Turn (LogBatch γ))}
    (hstep : q.step e = some (q', turn)) (ho : Orderly (past ++ [⟨q, e, turn, q'⟩])) :
    Ordered (past ++ [⟨q, e, turn, q'⟩]) q'.buffer ∧ Moment.Fair ⟨q, e, turn, q'⟩ := by
  cases turn with
  | none => exact h.unturned run hstep ho
  | some t =>
    have hturn := (stepped_of_step hstep).turned (ho.untimed t (by simp [turns]))
    have hperm := run.released hstep ho.untimed ho.distinct
    have hin : t.slot ∈ (q.tested e).slots := hperm.mem_iff.2 (List.mem_cons_self ..)
    have hsmall := (h.tested run ho).smallest (tested_sorted run.sorted) hturn
    obtain ⟨hrange, hapart⟩ := tested_apart run ho hin
    have hless : ∀ s ∈ (q.tested e).slots, s ≠ t.slot → t.slot.stop < s.start := by
      intro s hs hne
      have hle := hsmall s hs
      have hsrange := (tested_apart run ho hs).1
      have hsides := hapart s hs hne
      simp only [UInt64.le_iff_toNat_le, UInt64.lt_iff_toNat_lt] at *
      omega
    have hstay : ∀ s ∈ q'.buffer.slots, t.slot.stop < s.start := by
      intro s hs
      refine hless s (hperm.mem_iff.2 (List.mem_cons_of_mem _ hs)) ?_
      rintro rfl
      have hnd : (q.tested e).slots.Nodup := (run.tested_starts ((run.step hstep).apart ho.distinct)).of_map _
      exact (List.nodup_cons.1 ((hperm.nodup_iff).1 hnd)).1 hs
    obtain ⟨hordered, hforward⟩ := (h.tested run ho).turned (m := ⟨q, e, some t, q'⟩) rfl hturn hin hrange hstay
    refine ⟨hordered, ⟨?_, ?_, ?_⟩⟩
    · rintro _ ⟨⟩
      exact hin
    · rintro _ ⟨⟩ s hs hne
      have := hless s hs hne
      simp only [UInt64.le_iff_toNat_le, UInt64.lt_iff_toNat_lt] at *
      omega
    · intro c hc
      rw [← cursor_tested q e] at hc
      exact ⟨_, (Buffer.turn?_frame hturn).2.2.2.1, hforward c hc⟩

/-- An orderly run keeps the order, and all that happens in it is fair. -/
theorem Run.ordered (run : Run capacity past q) (ho : Orderly past) :
    Ordered past q.buffer ∧ ∀ m ∈ past, m.Fair := by
  induction run with
  | start => exact ⟨⟨by simp [new, Buffer.new], by simp [turns], by simp [turns], by simp [turns]⟩, by simp⟩
  | step run h ih =>
    obtain ⟨hordered, hfair⟩ := ih ho.of_append
    obtain ⟨hordered, hlast⟩ := hordered.step run h ho
    refine ⟨hordered, ?_⟩
    intro m hm
    rcases List.mem_append.1 hm with hm | hm
    · exact hfair m hm
    · cases List.mem_singleton.1 hm
      exact hlast

/-- In an orderly run the batch that has its turn is always the one with the smallest start in the buffer, the cursor
never moves back, and what is applied are whole batches, each that has arrived at most once, in ascending order. -/
theorem Run.applied_ascending (run : Run capacity past q) (ho : Orderly past) :
    (∀ m ∈ past, ∀ t, m.turn = some t →
      t.slot ∈ m.tested.slots ∧ ∀ s ∈ m.tested.slots, s ≠ t.slot → t.slot.start < s.start) ∧
    (∀ m ∈ past, ∀ c, m.before.buffer.cursor = some c → ∃ c', m.after.buffer.cursor = some c' ∧ c ≤ c') ∧
    applied past = (granted past).flatMap (·.2.commands) ∧
    (granted past).Subperm (arrivals past) ∧
    (granted past).Pairwise (fun a b => a.2.start < b.2.start) := by
  obtain ⟨hordered, hfair⟩ := run.ordered ho
  have hsub : (granted past).Subperm (arrivals past) :=
    (List.sublist_append_left _ _).subperm.trans run.granted_append_held_perm.subperm
  refine ⟨?_, ?_, ?_, hsub, ?_⟩
  · intro m hm t ht
    exact ⟨(hfair m hm).mem t ht, (hfair m hm).smallest t ht⟩
  · intro m hm
    exact (hfair m hm).forward
  · unfold applied granted
    rw [List.flatMap_map]
  · unfold granted
    rw [List.pairwise_map]
    refine hordered.ascending.imp_of_mem ?_
    intro t u ht hu hlt
    have hle := ho.own.start_le_stop (run.turn_mem_arrivals ht)
    rw [← (ho.own _ (run.turn_mem_arrivals ht)).1, ← (ho.own _ (run.turn_mem_arrivals hu)).1]
    exact UInt64.lt_of_le_of_lt hle hlt

/-- Four batches with gaps between them, delivered out of order to a buffer of two. -/
def gapped : List (Event (LogBatch Nat)) := [
  .seed 0,
  .arrive 5 6 ⟨5, 6, [5], by decide, by decide⟩,
  .arrive 1 2 ⟨1, 2, [1], by decide, by decide⟩,
  .arrive 9 9 ⟨9, 9, [9], by decide, by decide⟩,
  .resume 0,
  .arrive 7 7 ⟨7, 7, [7], by decide, by decide⟩]

/-- Two batches are forced across the gaps before them and a third follows in order. -/
theorem applied_ascending_gapped :
    Orderly (history 2 gapped).1 ∧ (turns (history 2 gapped).1).map (·.admission) = [.forced, .forced, .inOrder] ∧
      applied (history 2 gapped).1 = [1, 5, 7] ∧ (history 2 gapped).2.buffer.cursor = some 8 ∧
      (granted (history 2 gapped).1).Pairwise fun a b => a.2.start < b.2.start := by
  have horderly : Orderly (history 2 gapped).1 := by
    constructor
    · unfold Own
      decide +kernel
    · unfold Untimed
      decide +kernel
    · decide +kernel
    · decide +kernel
    · have hearly : (history 2 gapped).1.all (fun m =>
          m.arrival?.all fun a => m.before.buffer.cursor.all fun c => c ≤ a.1.start) = true := by decide +kernel
      intro m hm a ha c hc
      have harrival := (Option.all_eq_true _ _).1 (List.all_eq_true.1 hearly m hm) a ha
      exact of_decide_eq_true ((Option.all_eq_true _ _).1 harrival c hc)
  refine ⟨horderly, by decide +kernel, by decide +kernel, by decide +kernel, ?_⟩
  exact ((Run.history 2 gapped).applied_ascending horderly).2.2.2.2

end SeriesRegion.Sequencer
