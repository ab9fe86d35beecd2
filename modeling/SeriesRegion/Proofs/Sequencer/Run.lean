import SeriesRegion.Proofs.Sequencer.Slots
import SeriesRegion.Sequencer.Callers
import Mathlib.Data.List.Nodup
import Mathlib.Data.List.Perm.Basic

/-!
# Runs of a sequencer

A run is what happens at a sequencer from its creation on: any events in any order, each of them a step of one caller
that holds the lock, or of one whose window ends, or of nobody in particular.  `Stepped` lists what a step can do, and
`Run` strings steps together.

* `Run.arrivals_tickets`: the batches draw the tickets 0, 1, 2, … as they arrive;
* `Run.granted_append_held_perm`: a batch that has arrived has either had one turn or still waits.
-/

namespace SeriesRegion.Sequencer

variable {β : Type}

/-! ### Steps -/

def alerted (q : Sequencer β) (start stop : UInt64) : List (Caller β) :=
  if (q.buffer.enter start stop).isFull ∧ (q.buffer.enter start stop).oldest? ≠ some start then signalAll q.callers
  else q.callers

/-- What becomes of the caller with a ticket that lies down again. -/
def lieDown (epoch : UInt64) (ticket : Nat) (d : Caller β) : Caller β :=
  if d.slot.ticket = ticket then { d with epoch := epoch, wait := .asleep } else d

/-- What becomes of the caller with a ticket whose window ends. -/
def runOut (ticket : Nat) (d : Caller β) : Caller β :=
  if d.slot.ticket = ticket then { d with wait := .expired } else d

/-- Whether a caller that holds the lock again tests its turn: it was signalled, or interrupted while it slept. -/
def Retests (q : Sequencer β) (c : Caller β) : Prop :=
  c.wait = .signalled ∨ (c.wait = .expired ∧ c.epoch ≠ q.buffer.epoch)

/-- What one step can do. -/
inductive Stepped (q : Sequencer β) : Event β → Option (Turn β) → Sequencer β → Prop where
  /-- A batch arrives and goes to sleep. -/
  | parks {start stop : UInt64} {batch : β}
      (idle : (q.buffer.enter start stop).turn? (q.buffer.nextSlot start stop) = none) :
      Stepped q (.arrive start stop batch) none
        ⟨q.buffer.enter start stop,
          q.alerted start stop ++ [⟨q.buffer.nextSlot start stop, batch, q.buffer.epoch, .asleep⟩]⟩
  /-- A batch arrives and has its turn at once. -/
  | enters {start stop : UInt64} {batch : β} {admission : Admission} {b : Buffer}
      (turn : (q.buffer.enter start stop).turn? (q.buffer.nextSlot start stop) = some (admission, b)) :
      Stepped q (.arrive start stop batch) (some ⟨q.buffer.nextSlot start stop, batch, admission, b.slots.length⟩)
        ⟨b, signalAll (q.alerted start stop)⟩
  /-- A caller off the queue has its turn. -/
  | proceeds {c : Caller β} {admission : Admission} {b : Buffer} (mem : c ∈ q.callers) (awake : q.Retests c)
      (turn : q.buffer.turn? c.slot = some (admission, b)) :
      Stepped q (.resume c.slot.ticket) (some ⟨c.slot, c.batch, admission, b.slots.length⟩)
        ⟨b, signalAll (without q.callers c.slot.ticket)⟩
  /-- A caller off the queue goes back to sleep. -/
  | sleeps {c : Caller β} (mem : c ∈ q.callers) (awake : q.Retests c) (idle : q.buffer.turn? c.slot = none) :
      Stepped q (.resume c.slot.ticket) none
        ⟨q.buffer, q.callers.map (lieDown q.buffer.epoch c.slot.ticket)⟩
  /-- A caller whose window ended has its turn regardless. -/
  | timesOut {c : Caller β} (mem : c ∈ q.callers) (expired : c.wait = .expired)
      (undisturbed : c.epoch = q.buffer.epoch) :
      Stepped q (.resume c.slot.ticket) (some ⟨c.slot, c.batch, .timedOut, q.buffer.slots.length⟩)
        ⟨q.buffer, signalAll (without q.callers c.slot.ticket)⟩
  /-- The window of a sleeper ends. -/
  | expires {c : Caller β} (mem : c ∈ q.callers) (asleep : c.wait = .asleep) :
      Stepped q (.expire c.slot.ticket) none ⟨q.buffer, q.callers.map (runOut c.slot.ticket)⟩
  | seeds (index : UInt64) : Stepped q (.seed index) none (q.seed index)
  | interrupts : Stepped q .interrupt none q.interrupt

theorem caller?_eq_some {q : Sequencer β} {ticket : Nat} {c : Caller β} (h : q.caller? ticket = some c) :
    c ∈ q.callers ∧ c.slot.ticket = ticket :=
  ⟨List.mem_of_find?_eq_some h, by simpa using List.find?_some h⟩

private theorem stepped_of_arrive {q q' : Sequencer β} {start stop : UInt64} {batch : β} {turn : Option (Turn β)}
    (h : q.arrive start stop batch = (q', turn)) : Stepped q (.arrive start stop batch) turn q' := by
  unfold arrive at h
  cases ht : (q.buffer.enter start stop).turn? (q.buffer.nextSlot start stop) with
  | none =>
    simp only [ht, Prod.mk.injEq] at h
    obtain ⟨rfl, rfl⟩ := h
    exact .parks ht
  | some p =>
    obtain ⟨admission, b⟩ := p
    simp only [ht, Prod.mk.injEq] at h
    obtain ⟨rfl, rfl⟩ := h
    exact .enters ht

private theorem stepped_of_retest {q q' : Sequencer β} {c : Caller β} {turn : Option (Turn β)} (hc : c ∈ q.callers)
    (hw : q.Retests c) (h : q.retest c = (q', turn)) : Stepped q (.resume c.slot.ticket) turn q' := by
  unfold retest at h
  cases ht : q.buffer.turn? c.slot with
  | none =>
    simp only [ht, Prod.mk.injEq] at h
    obtain ⟨rfl, rfl⟩ := h
    exact .sleeps hc hw ht
  | some p =>
    obtain ⟨admission, b⟩ := p
    simp only [ht, Prod.mk.injEq] at h
    obtain ⟨rfl, rfl⟩ := h
    exact .proceeds hc hw ht

private theorem stepped_of_resume {q q' : Sequencer β} {ticket : Nat} {turn : Option (Turn β)}
    (h : q.resume ticket = some (q', turn)) : Stepped q (.resume ticket) turn q' := by
  unfold resume at h
  cases hf : q.caller? ticket with
  | none => simp [hf] at h
  | some c =>
    obtain ⟨hc, rfl⟩ := caller?_eq_some hf
    simp only [hf] at h
    cases hw : c.wait with
    | asleep => simp [hw] at h
    | signalled =>
      simp only [hw, Option.some.injEq] at h
      exact stepped_of_retest hc (.inl hw) h
    | expired =>
      simp only [hw] at h
      split at h
      · rename_i he
        simp only [Option.some.injEq, Prod.mk.injEq] at h
        obtain ⟨rfl, rfl⟩ := h
        exact .timesOut hc hw he
      · rename_i he
        exact stepped_of_retest hc (.inr ⟨hw, he⟩) (Option.some.inj h)

private theorem stepped_of_expire {q q' : Sequencer β} {ticket : Nat} (h : q.expire ticket = some q') :
    Stepped q (.expire ticket) none q' := by
  unfold expire at h
  cases hf : q.caller? ticket with
  | none => simp [hf] at h
  | some c =>
    obtain ⟨hc, rfl⟩ := caller?_eq_some hf
    simp only [hf] at h
    split at h
    · rename_i hw
      cases h
      exact .expires hc hw
    · cases h

/-- Every step does one of the things that a step can do. -/
theorem stepped_of_step {q q' : Sequencer β} {e : Event β} {turn : Option (Turn β)}
    (h : q.step e = some (q', turn)) : Stepped q e turn q' := by
  cases e with
  | arrive start stop batch => exact stepped_of_arrive (Option.some.inj h)
  | resume ticket => exact stepped_of_resume h
  | expire ticket =>
    simp only [step, Option.map_eq_some_iff, Prod.mk.injEq] at h
    obtain ⟨q'', h, rfl, rfl⟩ := h
    exact stepped_of_expire h
  | seed index =>
    cases h
    exact .seeds index
  | interrupt =>
    cases h
    exact .interrupts

/-- Whoever goes on is a caller that waits. -/
theorem exists_caller_of_resume {q q' : Sequencer β} {ticket : Nat} {turn : Option (Turn β)}
    (h : q.step (.resume ticket) = some (q', turn)) : ∃ c ∈ q.callers, c.slot.ticket = ticket := by
  cases stepped_of_step h with
  | proceeds mem awake turn => exact ⟨_, mem, rfl⟩
  | sleeps mem awake idle => exact ⟨_, mem, rfl⟩
  | timesOut mem expired undisturbed => exact ⟨_, mem, rfl⟩

/-! ### Runs -/

/-- A moment of a run: the state before, what happened, the turn that it granted if any, and the state after. -/
structure Moment (β : Type) where
  before : Sequencer β
  event : Event β
  turn : Option (Turn β)
  after : Sequencer β

/-- The slot that a batch draws at a moment, with the batch, if one arrives. -/
def Moment.arrival? (m : Moment β) : Option (Slot × β) :=
  match m.event with
  | .arrive start stop batch => some (m.before.buffer.nextSlot start stop, batch)
  | _ => none

/-- The index that the cursor is set to at a moment, if it is. -/
def Moment.seed? (m : Moment β) : Option UInt64 :=
  match m.event with
  | .seed index => some index
  | _ => none

/-- The runs of a sequencer with a capacity: what happened so far, and the state that it led to. -/
inductive Run (capacity : Nat) : List (Moment β) → Sequencer β → Prop where
  | start : Run capacity [] (new capacity)
  | step {past : List (Moment β)} {q q' : Sequencer β} {e : Event β} {turn : Option (Turn β)}
      (run : Run capacity past q) (h : q.step e = some (q', turn)) : Run capacity (past ++ [⟨q, e, turn, q'⟩]) q'

def turns (past : List (Moment β)) : List (Turn β) := past.filterMap (·.turn)

def arrivals (past : List (Moment β)) : List (Slot × β) := past.filterMap Moment.arrival?

def seeded (past : List (Moment β)) : List UInt64 := past.filterMap Moment.seed?

def granted (past : List (Moment β)) : List (Slot × β) := (turns past).map fun t => (t.slot, t.batch)

def held (callers : List (Caller β)) : List (Slot × β) := callers.map fun c => (c.slot, c.batch)

@[simp] theorem turns_append (past more : List (Moment β)) : turns (past ++ more) = turns past ++ turns more :=
  List.filterMap_append

@[simp] theorem arrivals_append (past more : List (Moment β)) :
    arrivals (past ++ more) = arrivals past ++ arrivals more :=
  List.filterMap_append

@[simp] theorem seeded_append (past more : List (Moment β)) : seeded (past ++ more) = seeded past ++ seeded more :=
  List.filterMap_append

@[simp] theorem granted_append (past more : List (Moment β)) :
    granted (past ++ more) = granted past ++ granted more := by
  simp [granted]

/-! ### Accounts -/

theorem held_map {f : Caller β → Caller β} (h : ∀ c, (f c).slot = c.slot ∧ (f c).batch = c.batch)
    (cs : List (Caller β)) : held (cs.map f) = held cs := by
  unfold held
  rw [List.map_map]
  apply List.map_congr_left
  intro c _
  obtain ⟨hslot, hbatch⟩ := h c
  show ((f c).slot, (f c).batch) = _
  rw [hslot, hbatch]

@[simp] theorem held_signalAll (cs : List (Caller β)) : held (signalAll cs) = held cs := by
  apply held_map
  intro c
  unfold Caller.signal
  cases c.wait <;> exact ⟨rfl, rfl⟩

@[simp] theorem held_alerted (q : Sequencer β) (start stop : UInt64) :
    held (q.alerted start stop) = held q.callers := by
  unfold alerted
  split
  · exact held_signalAll _
  · rfl

@[simp] theorem held_lieDown (epoch : UInt64) (ticket : Nat) (cs : List (Caller β)) :
    held (cs.map (lieDown epoch ticket)) = held cs := by
  apply held_map
  intro c
  unfold lieDown
  split <;> exact ⟨rfl, rfl⟩

@[simp] theorem held_runOut (ticket : Nat) (cs : List (Caller β)) : held (cs.map (runOut ticket)) = held cs := by
  apply held_map
  intro c
  unfold runOut
  split <;> exact ⟨rfl, rfl⟩

/-- A caller leaves the others behind, if no two have the same ticket. -/
theorem held_without {cs : List (Caller β)} {c : Caller β} (hc : c ∈ cs)
    (hd : ((held cs).map (·.1.ticket)).Nodup) :
    (held cs).Perm ((c.slot, c.batch) :: held (without cs c.slot.ticket)) := by
  induction cs with
  | nil => simp at hc
  | cons d cs ih =>
    simp only [held, List.map_cons, List.nodup_cons, List.map_map] at hd
    by_cases hcd : d.slot.ticket = c.slot.ticket
    · -- The caller stands in front, and nobody behind it has its ticket.
      have hout : ∀ e ∈ cs, e.slot.ticket ≠ c.slot.ticket := by
        intro e he heq
        exact hd.1 (List.mem_map.2 ⟨e, he, by simp [heq, hcd]⟩)
      have hc : c = d := by
        rcases List.mem_cons.1 hc with h | h
        · exact h
        · exact absurd rfl (hout c h)
      subst hc
      have hw : without (c :: cs) c.slot.ticket = cs := by
        unfold without
        rw [List.filter_cons_of_neg (by simp), List.filter_eq_self.2 fun e he => by simpa using hout e he]
      rw [hw]
      exact List.Perm.refl _
    · have hc : c ∈ cs := by
        rcases List.mem_cons.1 hc with rfl | h
        · exact absurd rfl hcd
        · exact h
      have hw : without (d :: cs) c.slot.ticket = d :: without cs c.slot.ticket := by
        unfold without
        rw [List.filter_cons_of_pos (by simpa using hcd)]
      rw [hw]
      have := ih hc (by simpa [held] using hd.2)
      exact (this.cons (d.slot, d.batch)).trans (List.Perm.swap _ _ _)

/-- Whoever arrives at a step or waited before it either has its turn then or waits after it. -/
theorem Stepped.accounts {q q' : Sequencer β} {e : Event β} {turn : Option (Turn β)} (h : Stepped q e turn q')
    (hd : ((held q.callers).map (·.1.ticket)).Nodup) :
    (granted [⟨q, e, turn, q'⟩] ++ held q'.callers).Perm (held q.callers ++ arrivals [⟨q, e, turn, q'⟩]) := by
  cases h with
  | @parks start stop batch idle =>
    show (held (q.alerted start stop ++ [_])).Perm _
    rw [held, List.map_append]
    show (held (q.alerted start stop) ++ _).Perm _
    rw [held_alerted]
    exact List.Perm.refl _
  | @enters start stop batch admission b turn =>
    show (_ :: held (signalAll (q.alerted start stop))).Perm (held q.callers ++ [_])
    rw [held_signalAll, held_alerted]
    exact (List.perm_append_singleton _ _).symm
  | proceeds mem awake turn =>
    show (_ :: held (signalAll _)).Perm (held q.callers ++ [])
    rw [held_signalAll, List.append_nil]
    exact (held_without mem hd).symm
  | sleeps mem awake idle =>
    show (held (q.callers.map _)).Perm (held q.callers ++ [])
    rw [held_lieDown, List.append_nil]
  | timesOut mem expired undisturbed =>
    show (_ :: held (signalAll _)).Perm (held q.callers ++ [])
    rw [held_signalAll, List.append_nil]
    exact (held_without mem hd).symm
  | expires mem asleep =>
    show (held (q.callers.map _)).Perm (held q.callers ++ [])
    rw [held_runOut, List.append_nil]
  | seeds index =>
    show (held (signalAll q.callers)).Perm (held q.callers ++ [])
    rw [held_signalAll, List.append_nil]
  | interrupts =>
    show (held (signalAll q.callers)).Perm (held q.callers ++ [])
    rw [held_signalAll, List.append_nil]

theorem Stepped.tickets {q q' : Sequencer β} {e : Event β} {turn : Option (Turn β)} (h : Stepped q e turn q') :
    List.range q'.buffer.ticket =
      List.range q.buffer.ticket ++ (arrivals [⟨q, e, turn, q'⟩]).map (·.1.ticket) := by
  cases h with
  | parks idle => exact List.range_succ
  | enters turn =>
    rw [(Buffer.turn?_frame turn).2.1]
    exact List.range_succ
  | proceeds mem awake turn =>
    rw [(Buffer.turn?_frame turn).2.1]
    exact (List.append_nil _).symm
  | sleeps mem awake idle => exact (List.append_nil _).symm
  | timesOut mem expired undisturbed => exact (List.append_nil _).symm
  | expires mem asleep => exact (List.append_nil _).symm
  | seeds index => exact (List.append_nil _).symm
  | interrupts => exact (List.append_nil _).symm

variable {capacity : Nat} {past : List (Moment β)} {q : Sequencer β}

theorem Run.stepped_of_mem (run : Run capacity past q) {m : Moment β} (hm : m ∈ past) :
    Stepped m.before m.event m.turn m.after := by
  induction run with
  | start => cases hm
  | step run h ih =>
    rcases List.mem_append.1 hm with hm | hm
    · exact ih hm
    · cases List.mem_singleton.1 hm
      exact stepped_of_step h

/-- What happened before a moment of a run led to the state before that moment. -/
theorem Run.split (run : Run capacity past q) {before after : List (Moment β)} {m : Moment β}
    (h : past = before ++ m :: after) :
    Run capacity before m.before ∧ m.before.step m.event = some (m.after, m.turn) := by
  induction run generalizing after with
  | start => simp at h
  | step run hstep ih =>
    rcases after.eq_nil_or_concat with rfl | ⟨init, last, rfl⟩
    · obtain ⟨rfl, hm⟩ := List.append_inj' h rfl
      cases hm
      exact ⟨run, hstep⟩
    · rw [List.concat_eq_append, ← List.cons_append, ← List.append_assoc] at h
      exact ih (List.append_inj' h rfl).1

theorem Run.arrivals_tickets (run : Run capacity past q) :
    (arrivals past).map (·.1.ticket) = List.range q.buffer.ticket := by
  induction run with
  | start => rfl
  | step run h ih => rw [arrivals_append, List.map_append, ih, (stepped_of_step h).tickets]

/-- No two arrivals draw the same ticket. -/
theorem Run.arrivals_nodup (run : Run capacity past q) : ((arrivals past).map (·.1.ticket)).Nodup := by
  rw [run.arrivals_tickets]
  exact List.nodup_range

private theorem held_nodup_of_perm (run : Run capacity past q)
    (h : (granted past ++ held q.callers).Perm (arrivals past)) : ((held q.callers).map (·.1.ticket)).Nodup := by
  have := ((h.map (·.1.ticket)).nodup_iff).2 run.arrivals_nodup
  rw [List.map_append] at this
  exact (List.nodup_append.1 this).2.1

/-- A batch that has arrived has either had one turn or still waits. -/
theorem Run.granted_append_held_perm (run : Run capacity past q) :
    (granted past ++ held q.callers).Perm (arrivals past) := by
  induction run with
  | start => exact List.Perm.refl _
  | @step past q q' e turn run h ih =>
    have hs := (stepped_of_step h).accounts (held_nodup_of_perm run ih)
    rw [granted_append, arrivals_append, List.append_assoc]
    calc (granted past ++ (granted [⟨q, e, turn, q'⟩] ++ held q'.callers)).Perm
          (granted past ++ (held q.callers ++ arrivals [⟨q, e, turn, q'⟩])) := hs.append_left _
      _ = granted past ++ held q.callers ++ arrivals [⟨q, e, turn, q'⟩] := (List.append_assoc ..).symm
      List.Perm _ (arrivals past ++ arrivals [⟨q, e, turn, q'⟩]) := ih.append_right _

theorem Run.turn_mem_arrivals (run : Run capacity past q) {t : Turn β} (ht : t ∈ turns past) :
    (t.slot, t.batch) ∈ arrivals past :=
  run.granted_append_held_perm.mem_iff.1 (List.mem_append_left _ (List.mem_map.2 ⟨t, ht, rfl⟩))

theorem Run.held_nodup (run : Run capacity past q) : ((held q.callers).map (·.1.ticket)).Nodup :=
  held_nodup_of_perm run run.granted_append_held_perm

theorem Run.caller_unique (run : Run capacity past q) {c d : Caller β} (hc : c ∈ q.callers) (hd : d ∈ q.callers)
    (h : c.slot.ticket = d.slot.ticket) : c = d := by
  have hnodup := run.held_nodup
  unfold held at hnodup
  rw [List.map_map] at hnodup
  exact List.inj_on_of_nodup_map hnodup hc hd h

theorem Run.caller?_eq (run : Run capacity past q) {c : Caller β} (hc : c ∈ q.callers) :
    q.caller? c.slot.ticket = some c := by
  cases hf : q.caller? c.slot.ticket with
  | none => exact absurd (List.find?_eq_none.1 hf c hc) (by simp)
  | some d =>
    obtain ⟨hd, ht⟩ := caller?_eq_some hf
    rw [run.caller_unique hd hc ht]

private theorem resume_of_retests (run : Run capacity past q) {c : Caller β} (hc : c ∈ q.callers) (hw : q.Retests c) :
    q.resume c.slot.ticket = some (q.retest c) := by
  unfold resume
  rw [run.caller?_eq hc]
  rcases hw with hw | ⟨hw, he⟩
  · simp only [hw]
  · simp only [hw, if_neg he]

/-- In a run, each of the things that a step can do is a step. -/
theorem Run.step_of_stepped (run : Run capacity past q) {q' : Sequencer β} {e : Event β} {turn : Option (Turn β)}
    (h : Stepped q e turn q') : q.step e = some (q', turn) := by
  cases h with
  | @parks start stop batch idle =>
    show some (q.arrive start stop batch) = _
    unfold arrive
    simp only [idle]
    rfl
  | @enters start stop batch admission b turn =>
    show some (q.arrive start stop batch) = _
    unfold arrive
    simp only [turn]
    rfl
  | @proceeds c admission b mem awake turn =>
    show q.resume c.slot.ticket = _
    rw [resume_of_retests run mem awake, retest, turn]
  | @sleeps c mem awake idle =>
    show q.resume c.slot.ticket = _
    rw [resume_of_retests run mem awake, retest, idle]
    rfl
  | @timesOut c mem expired undisturbed =>
    show q.resume c.slot.ticket = _
    unfold resume
    rw [run.caller?_eq mem]
    simp only [expired, if_pos undisturbed]
  | @expires c mem asleep =>
    show (q.expire c.slot.ticket).map _ = _
    unfold expire
    rw [run.caller?_eq mem]
    simp only [asleep, if_true]
    rfl
  | seeds index => rfl
  | interrupts => rfl

/-! ### Playing events -/

/-- Lets events happen one after the other; gives the moments that they make up and the state in the end. -/
def play (q : Sequencer β) : List (Event β) → Option (List (Moment β) × Sequencer β)
  | [] => some ([], q)
  | e :: rest =>
    match q.step e with
    | none => none
    | some (q', turn) => (play q' rest).map fun p => (⟨q, e, turn, q'⟩ :: p.1, p.2)

theorem play_cons_eq_some {q'' : Sequencer β} {e : Event β} {es : List (Event β)} {ms : List (Moment β)} :
    q.play (e :: es) = some (ms, q'') ↔
      ∃ q' turn rest, q.step e = some (q', turn) ∧ q'.play es = some (rest, q'') ∧ ms = ⟨q, e, turn, q'⟩ :: rest := by
  constructor
  · intro h
    unfold Sequencer.play at h
    cases hs : q.step e with
    | none => simp [hs] at h
    | some p =>
      simp only [hs, Option.map_eq_some_iff] at h
      obtain ⟨⟨rest, last⟩, hp, hq⟩ := h
      cases hq
      exact ⟨p.1, p.2, rest, rfl, hp, rfl⟩
  · rintro ⟨q', turn, rest, hs, hp, rfl⟩
    unfold Sequencer.play
    simp only [hs, hp, Option.map_some]

/-- What can be played after a run continues it. -/
theorem Run.play {more : List (Moment β)} {q' : Sequencer β} (run : Run capacity past q)
    {es : List (Event β)} (h : q.play es = some (more, q')) : Run capacity (past ++ more) q' := by
  induction es generalizing past more q with
  | nil =>
    cases h
    simpa using run
  | cons e es ih =>
    obtain ⟨_, _, _, hs, hp, rfl⟩ := play_cons_eq_some.1 h
    simpa using ih (run.step hs) hp

/-- What happens when events are played from the start on; nothing if they cannot be. -/
def history (capacity : Nat) (es : List (Event β)) : List (Moment β) × Sequencer β :=
  ((new capacity).play es).getD ([], new capacity)

theorem Run.history (capacity : Nat) (es : List (Event β)) :
    Run capacity (history capacity es).1 (history capacity es).2 := by
  unfold Sequencer.history
  cases h : (new capacity).play es with
  | none => exact .start
  | some p => exact Run.start.play h

end SeriesRegion.Sequencer
