import SeriesRegion.Proofs.Sequencer.Sleepers
import Mathlib.Data.List.Forall2

/-!
# Interruptions

Who is interrupted tests its turn and goes back to sleep.  Whatever a run with interruptions does, a run without any does
as well: the same batches arrive and have the same turns, with the same slots and the same cursor after each
(`Run.uninterrupted`).

The run without interruptions follows the other one step by step.  Who was only interrupted sleeps on there, and as it is
no sleeper's turn, its test was in vain.  What needs care is a window that ends: whether the batch times out or was
interrupted before it held the lock again is known only later.  So the induction asks for more, that there is such a
run whatever is said about which of the ended windows will count (`Follows`).
-/

namespace SeriesRegion

/-- The buffer as if nobody had ever been interrupted. -/
def Buffer.undisturbed (b : Buffer) : Buffer := { b with epoch := 0 }

/-- Interruptions have no part in whose turn it is. -/
theorem Buffer.turn?_undisturbed (b : Buffer) (s : Slot) :
    b.undisturbed.turn? s = (b.turn? s).map fun p => (p.1, p.2.undisturbed) := by
  show (if b.cursor = some s.start then _ else if b.oldest? = some s.start && b.isFull then _ else none) = _
  unfold turn?
  split
  · rfl
  · split <;> rfl

namespace Sequencer

variable {β : Type} {capacity : Nat} {past past' : List (Moment β)} {q q' f f' : Sequencer β} {e e' : Event β}
  {turn turn' : Option (Turn β)}

/-! ### What can be seen -/

/-- What can be seen of a moment: the batch that arrives or the index that the cursor is set to, the turn that is granted,
and the slots and the cursor after it. -/
structure Sight (β : Type) where
  arrival : Option (Slot × β)
  seed : Option UInt64
  turn : Option (Turn β)
  slots : List Slot
  cursor : Option UInt64
  deriving DecidableEq

/-- What can be seen of a moment, if a batch arrives, the cursor is set or a turn is granted. -/
def Moment.sight? (m : Moment β) : Option (Sight β) :=
  if m.arrival?.isSome ∨ m.seed?.isSome ∨ m.turn.isSome then
    some ⟨m.arrival?, m.seed?, m.turn, m.after.buffer.slots, m.after.buffer.cursor⟩
  else none

def sights (past : List (Moment β)) : List (Sight β) := past.filterMap Moment.sight?

@[simp] theorem sights_append (past more : List (Moment β)) : sights (past ++ more) = sights past ++ sights more :=
  List.filterMap_append

theorem turns_eq_of_sights (past : List (Moment β)) : turns past = (sights past).filterMap (·.turn) := by
  unfold turns sights
  rw [List.filterMap_filterMap]
  apply List.filterMap_congr
  intro m _
  unfold Moment.sight?
  split
  · rfl
  · rename_i hunseen
    rw [not_or, not_or] at hunseen
    simpa using hunseen.2.2

/-- Where nothing can be seen, the slots, the cursor and the waiting batches stay as they are. -/
theorem Stepped.unseen (h : Stepped q e turn q') (hs : Moment.sight? ⟨q, e, turn, q'⟩ = none) :
    q'.buffer.slots = q.buffer.slots ∧ q'.buffer.cursor = q.buffer.cursor ∧ held q'.callers = held q.callers := by
  cases h with
  | parks idle => cases hs
  | enters turn => cases hs
  | proceeds mem awake turn => cases hs
  | sleeps mem awake idle => exact ⟨rfl, rfl, held_lieDown _ _ _⟩
  | timesOut mem expired undisturbed => cases hs
  | expires mem asleep => exact ⟨rfl, rfl, held_runOut _ _⟩
  | seeds index => cases hs
  | interrupts => exact ⟨rfl, rfl, held_signalAll _⟩

/-! ### Following a run -/

/-- How a caller stands in the run without interruptions.  Who only was interrupted sleeps on there; whoever's window has
ended has had it end there only if it will count, as is said of each ticket. -/
structure Follows (counts : Nat → Prop) (c d : Caller β) : Prop where
  slot : d.slot = c.slot
  batch : d.batch = c.batch
  epoch : d.epoch = 0
  asleep : c.wait = .asleep → d.wait = .asleep
  signalled : c.wait = .signalled → d.wait ≠ .expired
  expired : c.wait = .expired → (d.wait = .expired ↔ counts c.slot.ticket)

variable {counts counts' : Nat → Prop} {c d : Caller β}

theorem Follows.change (h : Follows counts c d) (hc : counts c.slot.ticket ↔ counts' c.slot.ticket) :
    Follows counts' c d :=
  ⟨h.slot, h.batch, h.epoch, h.asleep, h.signalled, fun hw => (h.expired hw).trans hc⟩

theorem Follows.signal (h : Follows counts c d) : Follows counts c.signal d.signal := by
  obtain ⟨slot, batch, epoch, wait⟩ := c
  obtain ⟨slot', batch', epoch', wait'⟩ := d
  obtain ⟨hslot, hbatch, hepoch, hasleep, hsignalled, hexpired⟩ := h
  cases wait <;> cases wait' <;> constructor <;> simp_all [Caller.signal]

/-- An interruption is nothing to the run without any. -/
theorem Follows.interrupt (h : Follows counts c d) : Follows counts c.signal d := by
  obtain ⟨slot, batch, epoch, wait⟩ := c
  obtain ⟨hslot, hbatch, hepoch, hasleep, hsignalled, hexpired⟩ := h
  cases wait <;> constructor <;> simp_all [Caller.signal]

/-- The state of a run without interruptions that follows another run. -/
structure Shadows (counts : Nat → Prop) (q f : Sequencer β) : Prop where
  buffer : f.buffer = q.buffer.undisturbed
  callers : List.Forall₂ (Follows counts) q.callers f.callers

private theorem forall₂_map {α α' : Type} {R : α → α' → Prop} {S : α → α' → Prop} {g : α → α} {g' : α' → α'} {as : List α}
    {bs : List α'} (h : List.Forall₂ R as bs) (hg : ∀ a ∈ as, ∀ b ∈ bs, R a b → S (g a) (g' b)) :
    List.Forall₂ S (as.map g) (bs.map g') := by
  induction h with
  | nil => exact .nil
  | cons hab _ ih =>
    refine .cons (hg _ (List.mem_cons_self ..) _ (List.mem_cons_self ..) hab) (ih ?_)
    intro a ha b hb
    exact hg a (List.mem_cons_of_mem _ ha) b (List.mem_cons_of_mem _ hb)

private theorem exists_of_forall₂ {α α' : Type} {R : α → α' → Prop} {as : List α} {bs : List α'} (h : List.Forall₂ R as bs)
    {a : α} (ha : a ∈ as) : ∃ b ∈ bs, R a b := by
  induction h with
  | nil => cases ha
  | @cons a' b as bs hab _ ih =>
    rcases List.mem_cons.1 ha with rfl | ha
    · exact ⟨b, List.mem_cons_self .., hab⟩
    · obtain ⟨b', hb', hr⟩ := ih ha
      exact ⟨b', List.mem_cons_of_mem _ hb', hr⟩

theorem held_eq_of_follows {cs ds : List (Caller β)} (h : List.Forall₂ (Follows counts) cs ds) :
    held ds = held cs := by
  unfold held
  induction h with
  | nil => rfl
  | cons hab _ ih => rw [List.map_cons, List.map_cons, ih, hab.slot, hab.batch]

theorem Shadows.signalled (h : List.Forall₂ (Follows counts) q.callers f.callers) :
    List.Forall₂ (Follows counts) (signalAll q.callers) (signalAll f.callers) :=
  forall₂_map h fun _ _ _ _ hf => hf.signal

theorem Shadows.alerted (h : Shadows counts q f) (start stop : UInt64) :
    List.Forall₂ (Follows counts) (q.alerted start stop) (f.alerted start stop) := by
  have hsame : (f.buffer.enter start stop).isFull = (q.buffer.enter start stop).isFull ∧
      (f.buffer.enter start stop).oldest? = (q.buffer.enter start stop).oldest? := by
    rw [h.buffer]
    exact ⟨rfl, rfl⟩
  unfold Sequencer.alerted
  rw [hsame.1, hsame.2]
  split
  · exact Shadows.signalled h.callers
  · exact h.callers

/-- When a caller leaves, it does not matter any more whether its window counts. -/
theorem Shadows.without (h : Shadows counts q f) {ticket : Nat}
    (hcounts : ∀ n, n ≠ ticket → (counts n ↔ counts' n)) :
    List.Forall₂ (Follows counts') (signalAll (without q.callers ticket)) (signalAll (without f.callers ticket)) := by
  have hfilter : List.Forall₂ (Follows counts) (Sequencer.without q.callers ticket)
      (Sequencer.without f.callers ticket) :=
    List.rel_filter (fun c d hf => by simp only [hf.slot]) h.callers
  refine forall₂_map hfilter fun c hc d _ hf => ?_
  have hne : c.slot.ticket ≠ ticket := by simpa using (List.mem_filter.1 hc).2
  exact (hf.change (hcounts _ hne)).signal

/-! ### Steps -/

/-- A run without interruptions that shows what some moments show, and follows them up to their last state. -/
structure Mimics (capacity : Nat) (counts : Nat → Prop) (past : List (Moment β)) (q : Sequencer β)
    (past' : List (Moment β)) (f : Sequencer β) : Prop where
  run : Run capacity past' f
  undisturbed : ∀ m ∈ past', m.event ≠ .interrupt
  sights : sights past' = sights past
  shadows : Shadows counts q f

/-- Where nothing can be seen, the run without interruptions may stand still. -/
theorem Mimics.stay (h : Mimics capacity counts past q past' f) (hs : Moment.sight? ⟨q, e, turn, q'⟩ = none)
    (hshadows : Shadows counts' q' f) : Mimics capacity counts' (past ++ [⟨q, e, turn, q'⟩]) q' past' f := by
  refine ⟨h.run, h.undisturbed, ?_, hshadows⟩
  rw [sights_append, h.sights]
  simp [Sequencer.sights, hs]

theorem Mimics.move (h : Mimics capacity counts past q past' f) (hstep : Stepped f e' turn' f')
    (he : e' ≠ .interrupt) (hs : Moment.sight? ⟨f, e', turn', f'⟩ = Moment.sight? ⟨q, e, turn, q'⟩)
    (hshadows : Shadows counts' q' f') :
    Mimics capacity counts' (past ++ [⟨q, e, turn, q'⟩]) q' (past' ++ [⟨f, e', turn', f'⟩]) f' := by
  refine ⟨h.run.step (h.run.step_of_stepped hstep), ?_, ?_, hshadows⟩
  · intro m hm
    rcases List.mem_append.1 hm with hm | hm
    · exact h.undisturbed m hm
    · cases List.mem_singleton.1 hm
      exact he
  · rw [sights_append, sights_append, h.sights]
    unfold Sequencer.sights
    rw [List.filterMap_cons, List.filterMap_cons, hs]

/-- Whatever is said about which of the windows that have ended will count, there is a run without interruptions that
mimics these moments. -/
def Mimicked (capacity : Nat) (past : List (Moment β)) (q : Sequencer β) : Prop :=
  ∀ counts, ∃ past' f, Mimics capacity counts past q past' f

private theorem exists_mimic (h : Mimicked capacity past q) (counts : Nat → Prop) :
    ∃ past' ds, Mimics capacity counts past q past' ⟨q.buffer.undisturbed, ds⟩ := by
  obtain ⟨past', ⟨b, ds⟩, hm⟩ := h counts
  obtain rfl : b = q.buffer.undisturbed := hm.shadows.buffer
  exact ⟨past', ds, hm⟩

private theorem exists_follower (h : Mimicked capacity past q) (mem : c ∈ q.callers) (counts : Nat → Prop) :
    ∃ past' ds, Mimics capacity counts past q past' ⟨q.buffer.undisturbed, ds⟩ ∧ ∃ d ∈ ds, Follows counts c d := by
  obtain ⟨past', ds, hm⟩ := exists_mimic h counts
  exact ⟨past', ds, hm, exists_of_forall₂ hm.shadows.callers mem⟩

theorem Mimicked.parks (h : Mimicked capacity past q) {start stop : UInt64} {batch : β}
    (idle : (q.buffer.enter start stop).turn? (q.buffer.nextSlot start stop) = none) :
    Mimicked capacity (past ++ [⟨q, .arrive start stop batch, none, ⟨q.buffer.enter start stop,
        q.alerted start stop ++ [⟨q.buffer.nextSlot start stop, batch, q.buffer.epoch, .asleep⟩]⟩⟩])
      ⟨q.buffer.enter start stop,
        q.alerted start stop ++ [⟨q.buffer.nextSlot start stop, batch, q.buffer.epoch, .asleep⟩]⟩ := by
  intro counts
  obtain ⟨past', ds, hm⟩ := exists_mimic h counts
  have hidle : (q.buffer.undisturbed.enter start stop).turn? (q.buffer.undisturbed.nextSlot start stop) = none := by
    show (q.buffer.enter start stop).undisturbed.turn? (q.buffer.nextSlot start stop) = none
    rw [Buffer.turn?_undisturbed, idle]
    rfl
  refine ⟨_, _, hm.move (.parks (q := ⟨q.buffer.undisturbed, ds⟩) hidle) (by simp) rfl ⟨rfl, ?_⟩⟩
  exact List.rel_append (hm.shadows.alerted start stop) (.cons ⟨rfl, rfl, rfl, fun _ => rfl, nofun, nofun⟩ .nil)

theorem Mimicked.enters (h : Mimicked capacity past q) {start stop : UInt64} {batch : β} {admission : Admission}
    {b : Buffer} (turn : (q.buffer.enter start stop).turn? (q.buffer.nextSlot start stop) = some (admission, b)) :
    Mimicked capacity (past ++ [⟨q, .arrive start stop batch,
        some ⟨q.buffer.nextSlot start stop, batch, admission, b.slots.length⟩, ⟨b, signalAll (q.alerted start stop)⟩⟩])
      ⟨b, signalAll (q.alerted start stop)⟩ := by
  intro counts
  obtain ⟨past', ds, hm⟩ := exists_mimic h counts
  have hturn : (q.buffer.undisturbed.enter start stop).turn? (q.buffer.undisturbed.nextSlot start stop) =
      some (admission, b.undisturbed) := by
    show (q.buffer.enter start stop).undisturbed.turn? (q.buffer.nextSlot start stop) = _
    rw [Buffer.turn?_undisturbed, turn]
    rfl
  have hstepped : Stepped ⟨q.buffer.undisturbed, ds⟩ (.arrive start stop batch) _ _ := .enters hturn
  refine ⟨_, _, hm.move hstepped (by simp) rfl ⟨rfl, ?_⟩⟩
  exact forall₂_map (hm.shadows.alerted start stop) fun _ _ _ _ hf => hf.signal

/-- Who tests its turn has not had its window end in the run without interruptions, if that is not to count. -/
theorem Follows.not_expired (h : Follows counts c d) (hw : q.Retests c) (hc : ¬ counts c.slot.ticket) :
    d.wait ≠ .expired := by
  rcases hw with hw | ⟨hw, -⟩
  · exact h.signalled hw
  · exact fun hd => hc ((h.expired hw).1 hd)

theorem Mimicked.proceeds (h : Mimicked capacity past q) {admission : Admission} {b : Buffer} (mem : c ∈ q.callers)
    (awake : q.Retests c) (turn : q.buffer.turn? c.slot = some (admission, b)) :
    Mimicked capacity (past ++ [⟨q, .resume c.slot.ticket, some ⟨c.slot, c.batch, admission, b.slots.length⟩,
        ⟨b, signalAll (without q.callers c.slot.ticket)⟩⟩])
      ⟨b, signalAll (without q.callers c.slot.ticket)⟩ := by
  intro counts
  obtain ⟨past', ds, hm, d, hd, hf⟩ := exists_follower h mem fun n => counts n ∧ n ≠ c.slot.ticket
  have hturn : q.buffer.undisturbed.turn? d.slot = some (admission, b.undisturbed) := by
    rw [Buffer.turn?_undisturbed, hf.slot, turn]
    rfl
  -- It is its turn, so it does not sleep there, and its window has not ended.
  have hsignalled : d.wait = .signalled := by
    cases hw : d.wait with
    | asleep =>
      have hidle := hm.run.asleep_idle hd hw
      rw [hturn] at hidle
      cases hidle
    | signalled => rfl
    | expired => exact absurd hw (hf.not_expired awake (by simp))
  refine ⟨_, _, hm.move (.proceeds (q := ⟨q.buffer.undisturbed, ds⟩) hd (.inl hsignalled) hturn) (by simp) ?_ ⟨rfl, ?_⟩⟩
  · rw [hf.slot, hf.batch]
    rfl
  · rw [hf.slot]
    exact hm.shadows.without fun n hn => and_iff_left hn

theorem Mimicked.sleeps (h : Mimicked capacity past q) (mem : c ∈ q.callers) (awake : q.Retests c)
    (idle : q.buffer.turn? c.slot = none) :
    Mimicked capacity (past ++ [⟨q, .resume c.slot.ticket, none,
        ⟨q.buffer, q.callers.map (lieDown q.buffer.epoch c.slot.ticket)⟩⟩])
      ⟨q.buffer, q.callers.map (lieDown q.buffer.epoch c.slot.ticket)⟩ := by
  intro counts
  obtain ⟨past', ds, hm, d, hd, hf⟩ := exists_follower h mem fun n => counts n ∧ n ≠ c.slot.ticket
  have hidle : q.buffer.undisturbed.turn? d.slot = none := by
    rw [Buffer.turn?_undisturbed, hf.slot, idle]
    rfl
  have hlain : List.Forall₂ (Follows counts) (q.callers.map (lieDown q.buffer.epoch c.slot.ticket))
      (ds.map (lieDown 0 c.slot.ticket)) := by
    refine forall₂_map hm.shadows.callers fun x _ y _ hxy => ?_
    unfold lieDown
    by_cases ht : x.slot.ticket = c.slot.ticket
    · rw [if_pos ht, if_pos (by rw [hxy.slot, ht])]
      exact ⟨hxy.slot, hxy.batch, rfl, fun _ => rfl, nofun, nofun⟩
    · rw [if_neg ht, if_neg (by rw [hxy.slot]; exact ht)]
      exact hxy.change (and_iff_left ht)
  -- If it was signalled there it tests in vain as well, and if it was only interrupted it sleeps on.
  cases hw : d.wait with
  | asleep =>
    have hsame : ds.map (lieDown 0 c.slot.ticket) = ds := by
      refine (List.map_congr_left fun y hy => ?_).trans (List.map_id ds)
      unfold lieDown
      by_cases ht : y.slot.ticket = c.slot.ticket
      · obtain rfl : y = d := hm.run.caller_unique hy hd (ht.trans (congrArg Slot.ticket hf.slot).symm)
        obtain ⟨slot, batch, epoch, wait⟩ := y
        obtain rfl : wait = .asleep := hw
        obtain rfl : epoch = 0 := hf.epoch
        rw [if_pos ht]
        rfl
      · rw [if_neg ht]
        rfl
    rw [hsame] at hlain
    exact ⟨_, _, hm.stay rfl ⟨rfl, hlain⟩⟩
  | signalled =>
    refine ⟨_, _, hm.move (.sleeps (q := ⟨q.buffer.undisturbed, ds⟩) hd (.inl hw) hidle) (by simp) rfl ⟨rfl, ?_⟩⟩
    rw [hf.slot]
    exact hlain
  | expired => exact absurd hw (hf.not_expired awake (by simp))

theorem Mimicked.timesOut (h : Mimicked capacity past q) (mem : c ∈ q.callers) (expired : c.wait = .expired) :
    Mimicked capacity (past ++ [⟨q, .resume c.slot.ticket, some ⟨c.slot, c.batch, .timedOut, q.buffer.slots.length⟩,
        ⟨q.buffer, signalAll (without q.callers c.slot.ticket)⟩⟩])
      ⟨q.buffer, signalAll (without q.callers c.slot.ticket)⟩ := by
  intro counts
  obtain ⟨past', ds, hm, d, hd, hf⟩ := exists_follower h mem fun n => counts n ∨ n = c.slot.ticket
  have hexpired : d.wait = .expired := (hf.expired expired).2 (.inr rfl)
  refine ⟨_, _, hm.move (.timesOut (q := ⟨q.buffer.undisturbed, ds⟩) hd hexpired hf.epoch) (by simp) ?_ ⟨rfl, ?_⟩⟩
  · rw [hf.slot, hf.batch]
    rfl
  · rw [hf.slot]
    exact hm.shadows.without fun n hn => or_iff_left hn

theorem Mimicked.expires (h : Mimicked capacity past q) (mem : c ∈ q.callers) (asleep : c.wait = .asleep) :
    Mimicked capacity (past ++ [⟨q, .expire c.slot.ticket, none, ⟨q.buffer, q.callers.map (runOut c.slot.ticket)⟩⟩])
      ⟨q.buffer, q.callers.map (runOut c.slot.ticket)⟩ := by
  intro counts
  obtain ⟨past', ds, hm, d, hd, hf⟩ := exists_follower h mem counts
  have hasleep : d.wait = .asleep := hf.asleep asleep
  by_cases hc : counts c.slot.ticket
  · refine ⟨_, _, hm.move (.expires (q := ⟨q.buffer.undisturbed, ds⟩) hd hasleep) (by simp) rfl ⟨rfl, ?_⟩⟩
    rw [hf.slot]
    refine forall₂_map hm.shadows.callers fun x _ y _ hxy => ?_
    unfold runOut
    by_cases ht : x.slot.ticket = c.slot.ticket
    · rw [if_pos ht, if_pos (by rw [hxy.slot, ht])]
      refine ⟨hxy.slot, hxy.batch, hxy.epoch, nofun, nofun, fun _ => ?_⟩
      rw [← ht] at hc
      exact iff_of_true rfl hc
    · rw [if_neg ht, if_neg (by rw [hxy.slot]; exact ht)]
      exact hxy
  · refine ⟨_, _, hm.stay rfl ⟨rfl, ?_⟩⟩
    rw [← List.map_id ds]
    refine forall₂_map hm.shadows.callers fun x _ y hy hxy => ?_
    unfold runOut
    by_cases ht : x.slot.ticket = c.slot.ticket
    · have hsame : y = d := by
        refine hm.run.caller_unique hy hd ?_
        rw [hxy.slot, hf.slot, ht]
      rw [if_pos ht]
      refine ⟨hxy.slot, hxy.batch, hxy.epoch, nofun, nofun, fun _ => ?_⟩
      rw [← ht] at hc
      refine iff_of_false ?_ hc
      rw [hsame, id, hasleep]
      decide
    · rw [if_neg ht]
      exact hxy

theorem Mimicked.seeds (h : Mimicked capacity past q) (index : UInt64) :
    Mimicked capacity (past ++ [⟨q, .seed index, none, q.seed index⟩]) (q.seed index) := by
  intro counts
  obtain ⟨past', ds, hm⟩ := exists_mimic h counts
  refine ⟨_, _, hm.move (.seeds (q := ⟨q.buffer.undisturbed, ds⟩) index) (by simp) rfl ⟨rfl, ?_⟩⟩
  exact forall₂_map hm.shadows.callers fun _ _ _ _ hf => hf.signal

theorem Mimicked.interrupts (h : Mimicked capacity past q) :
    Mimicked capacity (past ++ [⟨q, .interrupt, none, q.interrupt⟩]) q.interrupt := by
  intro counts
  obtain ⟨past', f, hm⟩ := h counts
  refine ⟨_, _, hm.stay rfl ⟨hm.shadows.buffer, ?_⟩⟩
  rw [← List.map_id f.callers]
  exact forall₂_map hm.shadows.callers fun _ _ _ _ hf => hf.interrupt

/-! ### Runs -/

/-- Whatever is said about which of the ended windows will count, there is a run without interruptions that mimics a run
and in which just these windows have ended. -/
theorem Run.mimicked (run : Run capacity past q) : Mimicked capacity past q := by
  induction run with
  | start => exact fun _ => ⟨[], new capacity, .start, by simp, rfl, rfl, .nil⟩
  | step run h ih =>
    cases stepped_of_step h with
    | parks idle => exact ih.parks idle
    | enters turn => exact ih.enters turn
    | proceeds mem awake turn => exact ih.proceeds mem awake turn
    | sleeps mem awake idle => exact ih.sleeps mem awake idle
    | timesOut mem expired undisturbed => exact ih.timesOut mem expired
    | expires mem asleep => exact ih.expires mem asleep
    | seeds index => exact ih.seeds index
    | interrupts => exact ih.interrupts

/-- An interruption grants nothing and changes neither the slots nor the cursor nor who waits.  For every run there is one
without interruptions in which the same batches arrive, the cursor is set to the same indexes and the same turns are
granted, with the same slots and the same cursor after each. -/
theorem Run.uninterrupted (run : Run capacity past q) :
    (∀ m ∈ past, m.event = .interrupt → m.sight? = none) ∧
    (∀ m ∈ past, m.sight? = none → m.after.buffer.slots = m.before.buffer.slots ∧
      m.after.buffer.cursor = m.before.buffer.cursor ∧ held m.after.callers = held m.before.callers) ∧
    ∃ past' q', Run capacity past' q' ∧ (∀ m ∈ past', m.event ≠ .interrupt) ∧
      sights past' = sights past ∧ turns past' = turns past ∧
      q'.buffer.slots = q.buffer.slots ∧ q'.buffer.cursor = q.buffer.cursor ∧ held q'.callers = held q.callers := by
  refine ⟨?_, ?_, ?_⟩
  · intro m hm hevent
    obtain ⟨before, event, turn, after⟩ := m
    obtain rfl : event = .interrupt := hevent
    have hstepped : Stepped before .interrupt turn after := run.stepped_of_mem hm
    cases hstepped
    rfl
  · intro m hm hunseen
    exact (run.stepped_of_mem hm).unseen hunseen
  · -- The windows that have ended are those of callers that still wait, so it does not matter which of them count.
    obtain ⟨past', q', hm⟩ := run.mimicked fun _ => True
    refine ⟨past', q', hm.run, hm.undisturbed, hm.sights, ?_, ?_, ?_, held_eq_of_follows hm.shadows.callers⟩
    · rw [turns_eq_of_sights, turns_eq_of_sights, hm.sights]
    · rw [hm.shadows.buffer]
      rfl
    · rw [hm.shadows.buffer]
      rfl

/-- The first batch is interrupted while it sleeps.  The window of the second ends, but it is interrupted before it holds
the lock again.  The window of the third ends after it was interrupted and has gone back to sleep, and it times out. -/
def disturbed : List (Event String) := [
  .seed 1, .arrive 2 2 "first", .interrupt, .resume 0,
  .arrive 3 3 "second", .expire 1, .interrupt, .resume 1,
  .arrive 9 9 "third", .interrupt, .resume 2, .expire 2, .resume 2,
  .arrive 1 1 "last", .resume 0, .resume 1]

/-- Some run without interruptions grants the same turns. -/
theorem uninterrupted_disturbed :
    (history 4 disturbed).1.map (·.event) = disturbed ∧
    ∃ past' q', Run 4 past' q' ∧ (∀ m ∈ past', m.event ≠ .interrupt) ∧
      turns past' = [
        ⟨⟨9, 2, 9⟩, "third", .timedOut, 3⟩, ⟨⟨1, 3, 1⟩, "last", .inOrder, 3⟩,
        ⟨⟨2, 0, 2⟩, "first", .inOrder, 2⟩, ⟨⟨3, 1, 3⟩, "second", .inOrder, 1⟩] ∧
      q'.buffer.slots = [⟨9, 2, 9⟩] ∧ q'.buffer.cursor = some 4 := by
  obtain ⟨-, -, past', q', hrun, hnever, -, hturns, hslots, hcursor, -⟩ := (Run.history 4 disturbed).uninterrupted
  refine ⟨rfl, past', q', hrun, hnever, ?_, ?_, ?_⟩
  · rw [hturns]
    decide +kernel
  · rw [hslots]
    decide +kernel
  · rw [hcursor]
    decide +kernel

end Sequencer

end SeriesRegion
