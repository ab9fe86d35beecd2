import SeriesRegion.Proofs.Sequencer.Capacity
import SeriesRegion.Proofs.Sequencer.Expiry
import SeriesRegion.Proofs.Sequencer.Settled

/-!
# The order in which callers wake up

Something comes from outside while all are asleep, and then those off the queue hold the lock one after the other until
all are asleep again: a round.  If no window ends and no batch arrives while another with the same start is in the
buffer, it does not matter in which order they hold it, and fewer slots are taken after every round than the capacity
says (`rounds_wake_order`).

The reason is that it is one caller's turn at most (`Settling.unique`).  When all are asleep the buffer is not full, for
it would be the turn of the oldest batch; and when an arrival fills it, no caller starts at the cursor.  So whoever else
holds the lock only goes back to sleep, which is nothing to `settle`, and a turn is the next one that `settle` finds.
-/

namespace SeriesRegion.Sequencer

variable {β : Type} {capacity : Nat} {past ms : List (Moment β)} {q q' r : Sequencer β} {e : Event β}

/-! ### One turn at most -/

/-- Batches that came apart wait at different starts. -/
theorem Run.caller_of_start (run : Run capacity past q) (apart : Apart past) {c d : Caller β} (hc : c ∈ q.callers)
    (hd : d ∈ q.callers) (h : c.slot.start = d.slot.start) : c = d := by
  have hstarts := (((run.slots_perm_of_apart apart).map (·.start)).nodup_iff).1 (run.starts_nodup apart)
  rw [List.map_append, List.nodup_append] at hstarts
  have hheld := hstarts.1
  unfold held at hheld
  rw [List.map_map, List.map_map] at hheld
  exact List.inj_on_of_nodup_map hheld hc hd h

/-- What holds from the time something comes from outside until all are asleep.  If all slots are taken then no caller
starts at the cursor. -/
structure Settling (capacity : Nat) (past : List (Moment β)) (q : Sequencer β) : Prop where
  run : Run capacity past q
  untimed : Untimed past
  apart : Apart past
  unexpired : ∀ c ∈ q.callers, c.wait ≠ .expired
  room : q.pending ≤ max capacity 1
  ahead : q.pending = max capacity 1 → ∀ c ∈ q.callers, q.buffer.cursor ≠ some c.slot.start

theorem Settling.rousable (h : Settling capacity past q) : q.Rousable :=
  ⟨h.unexpired, fun _ hc hw => h.run.asleep_idle hc hw⟩

/-- It is one caller's turn at most. -/
theorem Settling.unique (h : Settling capacity past q) {c d : Caller β} (hc : c ∈ q.callers) (hd : d ∈ q.callers)
    (hcturn : (q.buffer.turn? c.slot).isSome) (hdturn : (q.buffer.turn? d.slot).isSome) : c = d := by
  apply h.run.caller_of_start h.apart hc hd
  obtain ⟨⟨_, _⟩, hcturn⟩ := Option.isSome_iff_exists.1 hcturn
  obtain ⟨⟨_, _⟩, hdturn⟩ := Option.isSome_iff_exists.1 hdturn
  have hfull : q.buffer.isFull = true → q.pending = max capacity 1 := by
    intro hfull
    rw [Buffer.isFull_iff, h.run.capacity_eq] at hfull
    exact hfull
  rcases Buffer.turn?_eq_some hcturn with ⟨-, hcur, -⟩ | ⟨-, -, hold, hcfull, -⟩ <;>
    rcases Buffer.turn?_eq_some hdturn with ⟨-, hdcur, -⟩ | ⟨-, -, hdold, hdfull, -⟩
  · exact Option.some.inj (hcur.symm.trans hdcur)
  · exact absurd hcur (h.ahead (hfull hdfull) c hc)
  · exact absurd hdcur (h.ahead (hfull hcfull) d hd)
  · exact Option.some.inj (hold.symm.trans hdold)

theorem Settling.ready?_eq (h : Settling capacity past q) {c : Caller β} (hc : c ∈ q.callers) (hw : c.wait = .signalled)
    (hturn : (q.buffer.turn? c.slot).isSome) : q.ready? = some c := by
  cases hr : q.ready? with
  | none => exact absurd (List.find?_eq_none.1 hr c hc) (by simp [hw, hturn])
  | some d =>
    obtain ⟨hd, -, hdturn⟩ := ready?_eq_some hr
    rw [h.unique hd hc hdturn hturn]

/-- When all are asleep the buffer is not full. -/
theorem Settling.pending_lt (h : Settling capacity past q) (hquiet : q.isQuiet) : q.pending < max capacity 1 := by
  refine Nat.lt_of_le_of_ne h.room fun hfull => ?_
  obtain ⟨c, hc, -, hturn⟩ := h.run.oldest_turn_of_apart h.untimed h.apart hfull
  rw [h.run.asleep_idle hc (asleep_of_isQuiet hquiet c hc)] at hturn
  cases hturn

/-! ### Steps -/

theorem unexpired_of_step (run : Run capacity past q) {turn : Option (Turn β)} (h : Stepped q e turn q')
    (he : ∀ ticket, e ≠ .expire ticket) (hq : ∀ c ∈ q.callers, c.wait ≠ .expired) :
    ∀ c ∈ q'.callers, c.wait ≠ .expired := by
  intro c hc hw
  rcases h.expired run hc hw with ⟨hold, -⟩ | ⟨hevent, -⟩
  · exact hq c hold hw
  · exact he _ hevent

private theorem settling_of_lt (h : Settling capacity past q) {turn : Option (Turn β)} (hstep : q.step e = some (q', turn))
    (he : ∀ ticket, e ≠ .expire ticket) (hturn : ∀ t, turn = some t → t.admission ≠ .timedOut)
    (apart : Apart (past ++ [⟨q, e, turn, q'⟩])) (hlt : q'.pending < max capacity 1) :
    Settling capacity (past ++ [⟨q, e, turn, q'⟩]) q' := by
  have hunexpired := unexpired_of_step h.run (stepped_of_step hstep) he h.unexpired
  refine ⟨h.run.step hstep, h.untimed.concat hturn, apart, hunexpired, Nat.le_of_lt hlt, fun hfull => ?_⟩
  exact absurd hfull (Nat.ne_of_lt hlt)

/-- A turn releases a slot, and then the buffer is not full. -/
private theorem settling_of_turn (h : Settling capacity past q) {t : Turn β} (hstep : q.step e = some (q', some t))
    (he : ∀ ticket, e ≠ .expire ticket) (ht : t.admission ≠ .timedOut) (apart : Apart (past ++ [⟨q, e, some t, q'⟩]))
    (htested : (q.tested e).slots.length ≤ max capacity 1) :
    Settling capacity (past ++ [⟨q, e, some t, q'⟩]) q' := by
  have hlength := (h.run.released_of_apart hstep ht apart).length_eq
  rw [List.length_cons] at hlength
  refine settling_of_lt h hstep he ?_ apart ?_
  · rintro _ ⟨⟩
    exact ht
  · unfold pending
    omega

/-- Whoever holds the lock again either has the turn that `settle` finds next or is nothing to it. -/
theorem Settling.resume (h : Settling capacity past q) {ticket : Nat} {turn : Option (Turn β)}
    (hstep : q.step (.resume ticket) = some (q', turn)) :
    Settling capacity (past ++ [⟨q, .resume ticket, turn, q'⟩]) q' ∧
      q.settle = (q'.settle.1, turn.toList ++ q'.settle.2) := by
  have apart : Apart (past ++ [⟨q, .resume ticket, turn, q'⟩]) := h.apart.concat (by simp [Moment.arrival?])
  have hstepped := stepped_of_step hstep
  have hunexpired := unexpired_of_step h.run hstepped (by simp) h.unexpired
  have hsignalled : ∀ c ∈ q.callers, q.Retests c → c.wait = .signalled := by
    intro c hc hw
    exact hw.resolve_right fun hw => h.unexpired c hc hw.1
  cases hstepped with
  | @proceeds c admission b mem awake turn =>
    have ht : admission ≠ .timedOut := Buffer.turn?_ne_timedOut turn
    have hready := h.ready?_eq mem (hsignalled c mem awake) (by rw [turn]; rfl)
    constructor
    · exact settling_of_turn h hstep (by simp) ht apart h.room
    · rw [settle_eq, hready]
      simp only [retest, turn]
  | @sleeps c mem awake idle =>
    refine ⟨⟨h.run.step hstep, h.untimed.concat (by simp), apart, hunexpired, h.room, ?_⟩, ?_⟩
    · intro hfull d hd
      obtain ⟨x, hx, rfl⟩ := List.mem_map.1 hd
      have hslot : (lieDown q.buffer.epoch c.slot.ticket x).slot = x.slot := by
        unfold lieDown
        split <;> rfl
      rw [hslot]
      exact h.ahead hfull x hx
    · rw [h.rousable.settle_lieDown (fun d hd => h.run.caller_unique hd mem) (hsignalled c mem awake) idle]
      rfl
  | timesOut mem expired undisturbed => exact absurd expired (h.unexpired _ mem)

/-- In whatever order callers hold the lock until all are asleep, they settle. -/
theorem Settling.settle_of_play (h : Settling capacity past q) {order : List Nat}
    (hplay : q.play (order.map .resume) = some (ms, q')) (hquiet : q'.isQuiet) :
    Settling capacity (past ++ ms) q' ∧ q.settle = (q', turns ms) := by
  induction order generalizing past q ms with
  | nil =>
    cases hplay
    rw [List.append_nil]
    exact ⟨h, settle_of_isQuiet hquiet⟩
  | cons ticket order ih =>
    obtain ⟨r, turn, rest, hstep, hrest, rfl⟩ := play_cons_eq_some.1 hplay
    obtain ⟨hr, hsettle⟩ := h.resume hstep
    obtain ⟨hlast, hsettled⟩ := ih hr hrest
    rw [List.append_assoc] at hlast
    refine ⟨hlast, ?_⟩
    rw [hsettle, hsettled]
    cases turn <;> rfl

/-! ### What comes from outside -/

/-- What comes from outside. -/
inductive Stimulus (β : Type) where
  | arrive (start stop : UInt64) (batch : β)
  | seed (index : UInt64)
  | interrupt
  deriving DecidableEq, Repr

def Stimulus.event : Stimulus β → Event β
  | .arrive start stop batch => .arrive start stop batch
  | .seed index => .seed index
  | .interrupt => .interrupt

theorem Stimulus.event_ne_expire (s : Stimulus β) (ticket : Nat) : s.event ≠ .expire ticket := by
  cases s <;> simp [Stimulus.event]

/-- Whether a batch that comes starts at another position than those in the buffer. -/
def Stimulus.ApartFrom (s : Stimulus β) (b : Buffer) : Prop :=
  match s with
  | .arrive start _ _ => ∀ t ∈ b.slots, t.start ≠ start
  | _ => True

instance (s : Stimulus β) (b : Buffer) : Decidable (s.ApartFrom b) :=
  match s with
  | .arrive start _ _ => inferInstanceAs (Decidable (∀ t ∈ b.slots, t.start ≠ start))
  | .seed _ => inferInstanceAs (Decidable True)
  | .interrupt => inferInstanceAs (Decidable True)

/-- What becomes of a sequencer when something comes from outside and those that came first go on before the others. -/
def respond (q : Sequencer β) : Stimulus β → Sequencer β × List (Turn β)
  | .arrive start stop batch => q.deliver start stop batch
  | .seed index => (q.seed index).settle
  | .interrupt => q.interrupt.settle

theorem respond_eq {s : Stimulus β} {turn : Option (Turn β)} (h : q.step s.event = some (q', turn)) :
    q.respond s = (q'.settle.1, turn.toList ++ q'.settle.2) := by
  cases s with
  | arrive start stop batch =>
    have harrive : q.arrive start stop batch = (q', turn) := Option.some.inj h
    show q.deliver start stop batch = _
    unfold deliver
    simp only [harrive]
  | seed index =>
    cases h
    rfl
  | interrupt =>
    cases h
    rfl

/-- When something comes from outside while all are asleep, it is one caller's turn at most. -/
theorem Settling.begin (h : Settling capacity past q) (hquiet : q.isQuiet) {s : Stimulus β} {turn : Option (Turn β)}
    (hstep : q.step s.event = some (q', turn)) (hapart : s.ApartFrom q.buffer) :
    Settling capacity (past ++ [⟨q, s.event, turn, q'⟩]) q' := by
  have hlt := h.pending_lt hquiet
  have he := s.event_ne_expire
  have hstepped := stepped_of_step hstep
  have apart : Apart (past ++ [⟨q, s.event, turn, q'⟩]) := by
    refine h.apart.concat fun a ha t ht => ?_
    cases s with
    | arrive start stop batch =>
      cases ha
      exact hapart t ht
    | _ => cases ha
  cases s with
  | arrive start stop batch =>
    have htested : (q.buffer.enter start stop).slots.length ≤ max capacity 1 := by
      rw [Buffer.length_enter]
      exact hlt
    cases hstepped with
    | parks idle =>
      have hunexpired := unexpired_of_step h.run (stepped_of_step hstep) he h.unexpired
      refine ⟨h.run.step hstep, h.untimed.concat (by simp), apart, hunexpired, htested, fun _ c hc => ?_⟩
      rcases List.mem_append.1 hc with hc | hc
      · -- Who slept before does not start at the cursor.
        have hheld : (c.slot, c.batch) ∈ held q.callers := by
          rw [← held_alerted q start stop]
          exact List.mem_map.2 ⟨c, hc, rfl⟩
        obtain ⟨d, hd, heq⟩ := List.mem_map.1 hheld
        obtain ⟨hslot, -⟩ := Prod.mk.inj heq
        rw [← hslot]
        exact h.run.asleep_not_due hd (asleep_of_isQuiet hquiet d hd)
      · cases List.mem_singleton.1 hc
        exact (Buffer.turn?_eq_none.1 idle).1
    | enters turn =>
      have ht := Buffer.turn?_ne_timedOut turn
      exact settling_of_turn h hstep he ht apart htested
  | seed index =>
    cases hstepped
    exact settling_of_lt h hstep he (by simp) apart hlt
  | interrupt =>
    cases hstepped
    exact settling_of_lt h hstep he (by simp) apart hlt

/-! ### Rounds -/

/-- A round: the state before it, what came from outside, the turns that were had until all were asleep again, and the
state then. -/
structure Round (β : Type) where
  before : Sequencer β
  stimulus : Stimulus β
  turns : List (Turn β)
  after : Sequencer β
  deriving DecidableEq

/-- The round in which callers hold the lock in an order; `none` if they cannot, or if not all are asleep in the end. -/
def round? (q : Sequencer β) (s : Stimulus β) (order : List Nat) : Option (Round β) :=
  match q.play (s.event :: order.map .resume) with
  | none => none
  | some (ms, q') => if q'.isQuiet then some ⟨q, s, turns ms, q'⟩ else none

/-- The rounds that a schedule gives, which says what comes from outside and in which order callers then hold the lock. -/
def rounds? (q : Sequencer β) : List (Stimulus β × List Nat) → Option (List (Round β))
  | [] => some []
  | (s, order) :: rest =>
    match q.round? s order with
    | none => none
    | some r => (r.after.rounds? rest).map (r :: ·)

theorem round?_eq_some {s : Stimulus β} {order : List Nat} {r : Round β} :
    q.round? s order = some r ↔
      ∃ ms, q.play (s.event :: order.map .resume) = some (ms, r.after) ∧ r.after.isQuiet ∧
        r = ⟨q, s, turns ms, r.after⟩ := by
  unfold round?
  cases hplay : q.play (s.event :: order.map .resume) with
  | none => simp
  | some p =>
    obtain ⟨ms, q'⟩ := p
    by_cases hquiet : q'.isQuiet = true
    · simp only [hquiet, if_true, Option.some.injEq]
      constructor
      · rintro rfl
        exact ⟨ms, rfl, hquiet, rfl⟩
      · rintro ⟨_, heq, -, hr⟩
        cases heq
        exact hr.symm
    · simp only [hquiet]
      constructor
      · simp
      · rintro ⟨_, heq, hq, -⟩
        cases heq
        exact absurd hq hquiet

theorem rounds?_cons_eq_some {s : Stimulus β} {order : List Nat} {rest : List (Stimulus β × List Nat)}
    {rs : List (Round β)} :
    q.rounds? ((s, order) :: rest) = some rs ↔
      ∃ r later, q.round? s order = some r ∧ r.after.rounds? rest = some later ∧ rs = r :: later := by
  constructor
  · intro h
    unfold rounds? at h
    cases hr : q.round? s order with
    | none => simp [hr] at h
    | some r =>
      simp only [hr, Option.map_eq_some_iff] at h
      obtain ⟨later, hlater, rfl⟩ := h
      exact ⟨r, later, rfl, hlater, rfl⟩
  · rintro ⟨r, later, hr, hlater, rfl⟩
    unfold rounds?
    simp only [hr, hlater, Option.map_some]

/-- While not all are asleep and nobody's window has ended, someone can go on. -/
theorem exists_resume (hunexpired : ∀ c ∈ q.callers, c.wait ≠ .expired) (hquiet : ¬ q.isQuiet = true) :
    ∃ c ∈ q.callers, ∃ turn q', Stepped q (.resume c.slot.ticket) turn q' := by
  obtain ⟨c, hc, hw⟩ : ∃ c ∈ q.callers, ¬ decide (c.wait = .asleep) = true := by
    simpa [isQuiet] using hquiet
  have hsignalled : c.wait = .signalled := by
    cases hcw : c.wait with
    | asleep => simp [hcw] at hw
    | signalled => rfl
    | expired => exact absurd hcw (hunexpired c hc)
  refine ⟨c, hc, ?_⟩
  cases hturn : q.buffer.turn? c.slot with
  | none => exact ⟨_, _, .sleeps hc (.inl hsignalled) hturn⟩
  | some p => exact ⟨_, _, .proceeds hc (.inl hsignalled) hturn⟩

/-- There is an order in which callers can hold the lock until all are asleep. -/
theorem Run.exists_order {past : List (Moment β)} {q : Sequencer β} (run : Run capacity past q)
    (hunexpired : ∀ c ∈ q.callers, c.wait ≠ .expired) :
    ∃ (order : List Nat) (ms : List (Moment β)) (q' : Sequencer β),
      q.play (order.map .resume) = some (ms, q') ∧ q'.isQuiet := by
  by_cases hquiet : q.isQuiet = true
  · exact ⟨[], [], q, rfl, hquiet⟩
  · obtain ⟨c, -, turn, r, hstepped⟩ := exists_resume hunexpired hquiet
    have hless := hstepped.resume_decreases
    have hstep := run.step_of_stepped hstepped
    obtain ⟨order, ms, q', hplay, hlast⟩ :=
      Run.exists_order (run.step hstep) (unexpired_of_step run hstepped (by simp) hunexpired)
    exact ⟨c.slot.ticket :: order, _, q', play_cons_eq_some.2 ⟨r, turn, ms, hstep, hplay, rfl⟩, hlast⟩
termination_by (q.callers.length, q.awake.length)
decreasing_by exact hless

/-- What comes from outside while all are asleep is responded to, in whatever order callers hold the lock. -/
theorem Settling.round (h : Settling capacity past q) (hquiet : q.isQuiet) {s : Stimulus β} {order : List Nat}
    {r : Round β} (hround : q.round? s order = some r) (hapart : s.ApartFrom q.buffer) :
    ∃ ms, Settling capacity (past ++ ms) r.after ∧ r.after.isQuiet ∧ r = ⟨q, s, (q.respond s).2, (q.respond s).1⟩ := by
  obtain ⟨_, hplay, hlast, hr⟩ := round?_eq_some.1 hround
  obtain ⟨q', turn, ms, hstep, hrest, rfl⟩ := play_cons_eq_some.1 hplay
  obtain ⟨hsettling, hsettle⟩ := (h.begin hquiet hstep hapart).settle_of_play hrest hlast
  rw [List.append_assoc] at hsettling
  refine ⟨_, hsettling, hlast, ?_⟩
  rw [respond_eq hstep, hsettle, hr]
  cases turn <;> rfl

theorem Settling.rounds (h : Settling capacity past q) (hquiet : q.isQuiet)
    {schedule schedule' : List (Stimulus β × List Nat)} {rs rs' : List (Round β)}
    (hrs : q.rounds? schedule = some rs) (hrs' : q.rounds? schedule' = some rs')
    (hsame : schedule'.map (·.1) = schedule.map (·.1)) (hapart : ∀ r ∈ rs, r.stimulus.ApartFrom r.before.buffer) :
    rs' = rs ∧ ∀ r ∈ rs, r.after.pending < max capacity 1 ∧ (r.after, r.turns) = r.before.respond r.stimulus := by
  induction schedule generalizing past q schedule' rs rs' with
  | nil =>
    obtain rfl := List.map_eq_nil_iff.1 hsame
    cases hrs
    cases hrs'
    exact ⟨rfl, by simp⟩
  | cons p rest ih =>
    obtain ⟨s, order⟩ := p
    obtain ⟨r, later, hr, hlater, rfl⟩ := rounds?_cons_eq_some.1 hrs
    cases schedule' with
    | nil => cases hsame
    | cons p' rest' =>
      obtain ⟨s', order'⟩ := p'
      obtain ⟨hs, htail⟩ := List.cons.inj hsame
      obtain rfl : s' = s := hs
      obtain ⟨r', later', hr', hlater', rfl⟩ := rounds?_cons_eq_some.1 hrs'
      have hhead : s'.ApartFrom q.buffer := by
        obtain ⟨_, -, -, hshape⟩ := round?_eq_some.1 hr
        have hhead := hapart r (List.mem_cons_self ..)
        rw [hshape] at hhead
        exact hhead
      obtain ⟨ms, hsettling, hlast, hrespond⟩ := h.round hquiet hr hhead
      obtain ⟨-, -, -, hrespond'⟩ := h.round hquiet hr' hhead
      obtain rfl : r' = r := hrespond'.trans hrespond.symm
      obtain ⟨rfl, hrest⟩ := ih hsettling hlast hlater hlater' htail fun x hx => hapart x (List.mem_cons_of_mem _ hx)
      refine ⟨rfl, ?_⟩
      intro x hx
      rcases List.mem_cons.1 hx with rfl | hx
      · refine ⟨hsettling.pending_lt hlast, ?_⟩
        rw [hrespond]
      · exact hrest x hx

theorem Run.exists_rounds (run : Run capacity past q) (hquiet : q.isQuiet) (stimuli : List (Stimulus β)) :
    ∃ schedule rs, schedule.map (·.1) = stimuli ∧ q.rounds? schedule = some rs := by
  induction stimuli generalizing past q with
  | nil => exact ⟨[], [], rfl, rfl⟩
  | cons s stimuli ih =>
    obtain ⟨q', turn, hstep⟩ : ∃ q' turn, q.step s.event = some (q', turn) := by
      cases s <;> exact ⟨_, _, rfl⟩
    have hunexpired : ∀ c ∈ q.callers, c.wait ≠ .expired := by
      intro c hc hw
      rw [asleep_of_isQuiet hquiet c hc] at hw
      cases hw
    have hrun := run.step hstep
    obtain ⟨order, ms, last, hplay, hlast⟩ :=
      hrun.exists_order (unexpired_of_step run (stepped_of_step hstep) s.event_ne_expire hunexpired)
    obtain ⟨rest, later, hstimuli, hlater⟩ := ih (hrun.play hplay) hlast
    have hround : q.round? s order = some ⟨q, s, turns (⟨q, s.event, turn, q'⟩ :: ms), last⟩ :=
      round?_eq_some.2 ⟨_, play_cons_eq_some.2 ⟨q', turn, ms, hstep, hplay, rfl⟩, hlast, rfl⟩
    refine ⟨(s, order) :: rest, _, ?_, rounds?_cons_eq_some.2 ⟨_, later, hround, hlater, rfl⟩⟩
    rw [List.map_cons, hstimuli]

/-- Whatever comes from outside, callers can hold the lock until all are asleep after each time.  If no batch comes while
another with the same start is in the buffer, it does not matter in which order they do so: every round has the same
turns in the same order, so that applying their batches gives the same results, and the same slots and the same cursor
are left, namely those that are if callers that came first go on before the others; and after every round fewer slots are
taken than the capacity says. -/
theorem rounds_wake_order (capacity : Nat) :
    (∀ stimuli : List (Stimulus β), ∃ schedule rs, schedule.map (·.1) = stimuli ∧
      (new capacity).rounds? schedule = some rs) ∧
    ∀ (schedule schedule' : List (Stimulus β × List Nat)) (rs rs' : List (Round β)),
      (new capacity).rounds? schedule = some rs → (new capacity).rounds? schedule' = some rs' →
      schedule'.map (·.1) = schedule.map (·.1) → (∀ r ∈ rs, r.stimulus.ApartFrom r.before.buffer) →
      rs' = rs ∧
        ∀ r ∈ rs, r.after.pending < max capacity 1 ∧ (r.after, r.turns) = r.before.respond r.stimulus := by
  have hquiet : (new capacity : Sequencer β).isQuiet = true := rfl
  refine ⟨Run.start.exists_rounds hquiet, ?_⟩
  intro schedule schedule' rs rs' hrs hrs' hsame hapart
  have hsettling : Settling capacity [] (new capacity : Sequencer β) := by
    exact ⟨.start, by simp [Untimed, turns], by simp [Apart], by simp [new], Nat.zero_le _, by simp [new]⟩
  exact hsettling.rounds hquiet hrs hrs' hsame hapart

/-- Two batches are interrupted, and then a third one fills the buffer of three.  The first is forced, and the others
follow in order; here everybody holds the lock when it can go on. -/
def prompt : List (Stimulus String × List Nat) := [
  (.seed 1, []), (.arrive 2 2 "first", []), (.arrive 4 6 "second", []), (.interrupt, [0, 1]),
  (.arrive 3 3 "third", [0, 2, 1]), (.arrive 5 5 "stale", [])]

/-- Here the second batch is the first to hold the lock each time, and finds that it is not its turn. -/
def hasty : List (Stimulus String × List Nat) := [
  (.seed 1, []), (.arrive 2 2 "first", []), (.arrive 4 6 "second", []), (.interrupt, [1, 0]),
  (.arrive 3 3 "third", [1, 0, 1, 2, 1]), (.arrive 5 5 "stale", [])]

/-- Both schedules give the same rounds. -/
theorem rounds_wake_order_hasty :
    ∃ rs, (new 3).rounds? prompt = some rs ∧ (new 3).rounds? hasty = some rs ∧ (∀ r ∈ rs, r.after.pending < 3) ∧
      rs.flatMap (·.turns) = [
        ⟨⟨2, 0, 2⟩, "first", .forced, 2⟩, ⟨⟨3, 2, 3⟩, "third", .inOrder, 1⟩, ⟨⟨4, 1, 6⟩, "second", .inOrder, 0⟩] := by
  obtain ⟨rs, hrs⟩ : ∃ rs, (new 3).rounds? prompt = some rs := Option.isSome_iff_exists.1 (by decide +kernel)
  obtain ⟨rs', hrs'⟩ : ∃ rs, (new 3).rounds? hasty = some rs := Option.isSome_iff_exists.1 (by decide +kernel)
  have hsome : rs = ((new 3).rounds? prompt).getD [] := by rw [hrs]; rfl
  have hapart : ∀ r ∈ rs, r.stimulus.ApartFrom r.before.buffer := by
    rw [hsome]
    decide +kernel
  obtain ⟨rfl, hrounds⟩ := (rounds_wake_order 3).2 prompt hasty rs rs' hrs hrs' rfl hapart
  refine ⟨rs', hrs, hrs', fun r hr => (hrounds r hr).1, ?_⟩
  rw [hsome]
  decide +kernel

end SeriesRegion.Sequencer
