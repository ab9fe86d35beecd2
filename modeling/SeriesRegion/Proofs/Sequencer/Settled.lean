import SeriesRegion.Proofs.Sequencer.Sleepers
import SeriesRegion.Sequencer.Settle

/-!
# How callers settle

Where nobody's window has ended and it is no sleeper's turn, `settle` depends only on who waits and on how the callers
would lie down (`Rousable.settle_congr`).  So who tests in vain and lies down before the others changes nothing
(`Rousable.settle_lieDown`).
-/

namespace SeriesRegion

/-- What becomes of a caller when the signalled ones lie down. -/
def Caller.sleepAgain {β : Type} (epoch : UInt64) (c : Caller β) : Caller β :=
  if c.wait = .signalled then { c with epoch := epoch, wait := .asleep } else c

namespace Sequencer

variable {β : Type} {q r : Sequencer β}

theorem sleepAgain_eq (q : Sequencer β) :
    q.sleepAgain = ⟨q.buffer, q.callers.map (Caller.sleepAgain q.buffer.epoch)⟩ := rfl

@[simp] theorem held_sleepAgain (q : Sequencer β) : held q.sleepAgain.callers = held q.callers := by
  rw [sleepAgain_eq]
  apply held_map
  intro c
  unfold Caller.sleepAgain
  split <;> exact ⟨rfl, rfl⟩

/-- Nobody's window has ended, and it is no sleeper's turn. -/
structure Rousable (q : Sequencer β) : Prop where
  unexpired : ∀ c ∈ q.callers, c.wait ≠ .expired
  idle : ∀ c ∈ q.callers, c.wait = .asleep → q.buffer.turn? c.slot = none

/-- The first caller whose turn it is has been signalled. -/
theorem Rousable.ready?_held (h : q.Rousable) :
    q.ready?.map (fun c => (c.slot, c.batch)) = (held q.callers).find? fun p => (q.buffer.turn? p.1).isSome := by
  unfold ready? held
  rw [List.find?_map, ← List.head?_filter, ← List.head?_filter]
  refine congrArg (fun l => Option.map _ (List.head? l)) (List.filter_congr fun c hc => ?_)
  cases hw : c.wait with
  | asleep => simp [h.idle c hc hw]
  | signalled => simp
  | expired => exact absurd hw (h.unexpired c hc)

theorem ready?_eq_some {c : Caller β} (h : q.ready? = some c) :
    c ∈ q.callers ∧ c.wait = .signalled ∧ (q.buffer.turn? c.slot).isSome := by
  have hready := List.find?_some h
  rw [Bool.and_eq_true, decide_eq_true_eq] at hready
  exact ⟨List.mem_of_find?_eq_some h, hready⟩

private theorem rousable_signalAll {b : Buffer} {cs : List (Caller β)} (h : ∀ c ∈ cs, c.wait ≠ .expired) :
    Rousable ⟨b, signalAll cs⟩ := by
  constructor
  · intro c hc hw
    rw [signalled_of_mem_signalAll h c hc] at hw
    cases hw
  · intro c hc hw
    rw [signalled_of_mem_signalAll h c hc] at hw
    cases hw

/-- When all are signalled, it only matters who waits and not how. -/
private theorem sleepAgain_signalAll {b : Buffer} {cs : List (Caller β)} (h : ∀ c ∈ cs, c.wait ≠ .expired) :
    sleepAgain ⟨b, signalAll cs⟩ = ⟨b, (held cs).map fun p => ⟨p.1, p.2, b.epoch, .asleep⟩⟩ := by
  have hmap : (signalAll cs).map (Caller.sleepAgain b.epoch) =
      (held (signalAll cs)).map fun p => ⟨p.1, p.2, b.epoch, .asleep⟩ := by
    unfold held
    rw [List.map_map]
    refine List.map_congr_left fun c hc => ?_
    exact if_pos (signalled_of_mem_signalAll h c hc)
  rw [sleepAgain_eq, hmap, held_signalAll]

private theorem held_without_eq (cs : List (Caller β)) (ticket : Nat) :
    held (without cs ticket) = (held cs).filter (·.1.ticket ≠ ticket) := by
  unfold held without
  rw [List.filter_map]
  rfl

/-- How callers settle depends only on how they would lie down. -/
theorem Rousable.settle_congr (hq : q.Rousable) (hr : r.Rousable) (h : q.sleepAgain = r.sleepAgain) :
    q.settle = r.settle := by
  induction hn : q.callers.length using Nat.strongRecOn generalizing q r with
  | _ n ih =>
    have hbuffer : q.sleepAgain.buffer = r.sleepAgain.buffer := congrArg buffer h
    change q.buffer = r.buffer at hbuffer
    have hheld : held q.callers = held r.callers := by
      rw [← held_sleepAgain q, h, held_sleepAgain r]
    have hready := hq.ready?_held
    rw [hheld, hbuffer, ← hr.ready?_held] at hready
    rw [settle_eq, settle_eq]
    cases hc : q.ready? with
    | none =>
      rw [hc] at hready
      rw [Option.map_eq_none_iff.1 hready.symm]
      simp only [h]
    | some c =>
      rw [hc] at hready
      obtain ⟨d, hd, heq⟩ := Option.map_eq_some_iff.1 hready.symm
      obtain ⟨hslot, hbatch⟩ := Prod.mk.inj heq
      obtain ⟨hmem, -, hturn⟩ := ready?_eq_some hc
      obtain ⟨⟨admission, b⟩, hturn⟩ := Option.isSome_iff_exists.1 hturn
      have hturn' : r.buffer.turn? c.slot = some (admission, b) := by rw [← hbuffer, hturn]
      -- After the turn all are signalled, and the same ones are left.
      have hleftq : ∀ x ∈ without q.callers c.slot.ticket, x.wait ≠ .expired :=
        fun x hx => hq.unexpired x (List.mem_filter.1 hx).1
      have hleftr : ∀ x ∈ without r.callers c.slot.ticket, x.wait ≠ .expired :=
        fun x hx => hr.unexpired x (List.mem_filter.1 hx).1
      have hsettle : settle ⟨b, signalAll (without q.callers c.slot.ticket)⟩ =
          settle ⟨b, signalAll (without r.callers c.slot.ticket)⟩ := by
        refine ih _ ?_ (rousable_signalAll hleftq) (rousable_signalAll hleftr) ?_ rfl
        · show (signalAll _).length < n
          rw [signalAll, List.length_map, ← hn]
          exact length_without_lt hmem
        · rw [sleepAgain_signalAll hleftq, sleepAgain_signalAll hleftr, held_without_eq, held_without_eq, hheld]
      simp only [hd, retest, hslot, hbatch, hturn, hturn', hsettle]

/-- A caller that tests in vain is nothing to how the others settle. -/
theorem Rousable.settle_lieDown (hq : q.Rousable) {c : Caller β}
    (hone : ∀ d ∈ q.callers, d.slot.ticket = c.slot.ticket → d = c) (hw : c.wait = .signalled)
    (idle : q.buffer.turn? c.slot = none) :
    settle ⟨q.buffer, q.callers.map (lieDown q.buffer.epoch c.slot.ticket)⟩ = q.settle := by
  refine Rousable.settle_congr ?_ hq ?_
  · constructor
    · intro x hx
      obtain ⟨d, hd, rfl⟩ := List.mem_map.1 hx
      unfold lieDown
      split
      · nofun
      · exact hq.unexpired d hd
    · intro x hx hasleep
      obtain ⟨d, hd, rfl⟩ := List.mem_map.1 hx
      unfold lieDown at hasleep ⊢
      by_cases ht : d.slot.ticket = c.slot.ticket
      · rw [if_pos ht, hone d hd ht]
        exact idle
      · rw [if_neg ht] at hasleep ⊢
        exact hq.idle d hd hasleep
  · rw [sleepAgain_eq, sleepAgain_eq, List.map_map]
    refine congrArg _ (List.map_congr_left fun d hd => ?_)
    show (lieDown _ _ d).sleepAgain _ = d.sleepAgain _
    unfold lieDown
    by_cases ht : d.slot.ticket = c.slot.ticket
    · rw [if_pos ht, hone d hd ht]
      exact (if_pos hw).symm
    · rw [if_neg ht]

/-- Who sleeps settles as it is. -/
theorem settle_of_isQuiet (h : q.isQuiet) : q.settle = (q, []) := by
  have hasleep := asleep_of_isQuiet h
  have hnone : q.ready? = none := by
    refine List.find?_eq_none.2 fun c hc => ?_
    rw [hasleep c hc]
    simp
  have hsame : q.callers.map (Caller.sleepAgain q.buffer.epoch) = q.callers := by
    refine (List.map_congr_left fun c hc => ?_).trans (List.map_id _)
    unfold Caller.sleepAgain
    rw [hasleep c hc]
    rfl
  rw [settle_eq, hnone, sleepAgain_eq, hsame]

/-! ### Going on -/

/-- The callers that are off the queue of sleepers. -/
def awake (q : Sequencer β) : List (Caller β) := q.callers.filter (·.wait ≠ .asleep)

/-- Whoever goes on leaves, or goes back to sleep. -/
theorem Stepped.resume_decreases {ticket : Nat} {turn : Option (Turn β)} {q' : Sequencer β}
    (h : Stepped q (.resume ticket) turn q') :
    Prod.Lex (· < ·) (· < ·) (q'.callers.length, q'.awake.length) (q.callers.length, q.awake.length) := by
  have hleaves : ∀ c ∈ q.callers, (signalAll (without q.callers c.slot.ticket)).length < q.callers.length := by
    intro c hc
    rw [signalAll, List.length_map]
    exact length_without_lt hc
  cases h with
  | proceeds mem awake turn => exact .left _ _ (hleaves _ mem)
  | @sleeps c mem retests idle =>
    have hmem : c ∈ q.awake := by
      refine List.mem_filter.2 ⟨mem, ?_⟩
      rcases retests with hw | ⟨hw, -⟩ <;> simp [hw]
    have hawake : awake ⟨q.buffer, q.callers.map (lieDown q.buffer.epoch c.slot.ticket)⟩ =
        (without q.awake c.slot.ticket).map (lieDown q.buffer.epoch c.slot.ticket) := by
      unfold awake without
      rw [List.filter_map, List.filter_filter]
      refine congrArg _ (List.filter_congr fun x _ => ?_)
      unfold lieDown
      by_cases ht : x.slot.ticket = c.slot.ticket <;> simp [ht]
    rw [hawake, List.length_map, List.length_map]
    exact .right _ (length_without_lt hmem)
  | timesOut mem expired undisturbed => exact .left _ _ (hleaves _ mem)

end Sequencer

end SeriesRegion
