import SeriesRegion.Machine
import SeriesRegion.Proofs.Request.Merged

/-!
# What requests insert

The requests that can be resolved are those that are well formed (`IndexedRequest.resolve_ok_iff`,
`BatchRequest.resolve_ok_iff`).  What such a request is resolved to has its inserts, in their order, each bound to its log
position (`IndexedRequest.entries_of_resolve`, `BatchRequest.entries_of_resolve`).
-/

namespace SeriesRegion

/-- The command that a plan is, if it is one and can be read. -/
def RawRequest.command? (raw : RawRequest) : Option Command :=
  match raw.planNode with
  | .ok (.write c) => some c
  | _ => none

theorem RawRequest.writeCommand_eq_ok {raw : RawRequest} {c : Command} :
    raw.writeCommand = .ok c ↔ raw.command? = some c := by
  rw [writeCommand, command?]
  cases raw.planNode with
  | error e => simp
  | ok p => cases p <;> simp

/-! ### Requests at one log position -/

namespace IndexedRequest

variable {q : IndexedRequest} {c : Command}

def commands (q : IndexedRequest) : List Command := q.requests.filterMap RawRequest.command?

/-- A request at a log position is well formed if its plans are commands that can be merged. -/
def WellFormed (q : IndexedRequest) : Prop := (∀ raw ∈ q.requests, raw.command?.isSome) ∧ Mergeable q.commands

instance (q : IndexedRequest) : Decidable q.WellFormed := inferInstanceAs (Decidable (_ ∧ _))

/-- What a request inserts: the inserts of its commands, in their order, at its log position. -/
def inserts (q : IndexedRequest) : List LogEntry :=
  (q.commands.flatMap Command.entries).map fun e => ⟨some q.searchIndex, e.payload⟩

private theorem mapM_bindTo {index : Option UInt64} {raws : List RawRequest} {bound : List Command} :
    raws.mapM (fun raw => raw.writeCommand.map (·.bindTo index)) = .ok bound ↔
      (∀ raw ∈ raws, raw.command?.isSome) ∧ bound = (raws.filterMap RawRequest.command?).map (·.bindTo index) := by
  have hbind : ∀ (raw : RawRequest) (c : Command), raw.writeCommand.map (·.bindTo index) = .ok c ↔
      ∃ c₀, raw.command? = some c₀ ∧ c = c₀.bindTo index := by
    intro raw c
    simp only [← RawRequest.writeCommand_eq_ok]
    cases raw.writeCommand with
    | error e => simp [Except.map]
    | ok c₀ => simp [Except.map, eq_comm]
  simp only [mapM_eq_ok_iff, hbind]
  induction raws generalizing bound with
  | nil => simp
  | cons raw raws ih =>
    simp only [List.forall₂_cons_left_iff, ih, List.forall_mem_cons]
    cases hc : raw.command? with
    | none => simp
    | some c₀ => simp [hc]

theorem resolve_eq_ok_iff : q.resolve = .ok c ↔ (∀ raw ∈ q.requests, raw.command?.isSome) ∧
    mergeCommands (q.commands.map (·.bindTo (some q.searchIndex))) = .ok c := by
  rw [resolve]
  cases hm : q.requests.mapM fun raw => raw.writeCommand.map (·.bindTo (some q.searchIndex)) with
  | error e =>
    refine iff_of_false (by simp) ?_
    rintro ⟨hcommands, -⟩
    rw [mapM_bindTo.2 ⟨hcommands, rfl⟩] at hm
    cases hm
  | ok bound =>
    obtain ⟨hcommands, rfl⟩ := mapM_bindTo.1 hm
    exact (and_iff_right hcommands).symm

/-- A request is resolved to a command with its inserts. -/
theorem entries_of_resolve (h : q.resolve = .ok c) : c.entries = q.inserts := by
  rw [mergeCommands_entries (resolve_eq_ok_iff.1 h).2, List.flatMap_map, inserts, List.map_flatMap]
  exact congrArg (q.commands.flatMap ·) (funext fun c => Command.entries_bindTo _ c)

theorem searchIndex_of_resolve (h : q.resolve = .ok c) {e : LogEntry} (he : e ∈ c.entries) :
    e.searchIndex = some q.searchIndex := by
  rw [q.entries_of_resolve h] at he
  obtain ⟨e', -, rfl⟩ := List.mem_map.1 he
  rfl

end IndexedRequest

/-! ### Requests at a range of log positions -/

theorem LogBatch.of_eq_ok {γ : Type} {start stop : UInt64} {commands : List γ} {b : LogBatch γ} :
    LogBatch.of start stop commands = .ok b ↔ b.start = start ∧ b.stop = stop ∧ b.commands = commands := by
  obtain ⟨bstart, bstop, bcommands, hle, hne⟩ := b
  rw [of]
  constructor
  · intro h
    split at h
    · split at h
      · cases h
      · cases h
        exact ⟨rfl, rfl, rfl⟩
    · cases h
  · rintro ⟨rfl, rfl, rfl⟩
    rw [dif_pos hle, dif_neg hne]

namespace BatchRequest

variable {r : BatchRequest} {b : LogBatch Command}

/-- A batch is well formed if its range does not run backwards and there are requests in it, all of them well formed. -/
def WellFormed (r : BatchRequest) : Prop := r.start ≤ r.stop ∧ r.requests ≠ [] ∧ ∀ q ∈ r.requests, q.WellFormed

instance (r : BatchRequest) : Decidable r.WellFormed := inferInstanceAs (Decidable (_ ∧ _ ∧ _))

/-- What a batch inserts: what its requests insert, in their order. -/
def inserts (r : BatchRequest) : List LogEntry := r.requests.flatMap IndexedRequest.inserts

theorem resolve_eq_ok_iff : r.resolve = .ok b ↔
    b.start = r.start ∧ b.stop = r.stop ∧ List.Forall₂ (fun q c => q.resolve = .ok c) r.requests b.commands := by
  rw [resolve, ← mapM_eq_ok_iff]
  cases r.requests.mapM IndexedRequest.resolve with
  | error e => simp
  | ok commands =>
    simp only [Except.ok.injEq]
    rw [show commands = b.commands ↔ b.commands = commands from eq_comm, ← LogBatch.of_eq_ok]
    cases LogBatch.of r.start r.stop commands <;> simp

/-- A batch is resolved to commands with its inserts. -/
theorem entries_of_resolve (h : r.resolve = .ok b) : b.commands.flatMap Command.entries = r.inserts := by
  have hall : ∀ {qs : List IndexedRequest} {cs : List Command}, List.Forall₂ (fun q c => q.resolve = .ok c) qs cs →
      cs.flatMap Command.entries = qs.flatMap IndexedRequest.inserts := by
    intro qs cs hcs
    induction hcs with
    | nil => rfl
    | cons hc _ ih => rw [List.flatMap_cons, List.flatMap_cons, ih, IndexedRequest.entries_of_resolve hc]
  exact hall (resolve_eq_ok_iff.1 h).2.2

end BatchRequest

/-! ### Requests -/

namespace Request

/-- A request is well formed if what it asks for are inserts, put together as they must be. -/
def WellFormed : Request → Prop
  | .indexed q => q.WellFormed
  | .batch r => r.WellFormed
  | .raw plan => plan.command?.isSome

instance : DecidablePred WellFormed
  | .indexed q => inferInstanceAs (Decidable q.WellFormed)
  | .batch r => inferInstanceAs (Decidable r.WellFormed)
  | .raw plan => inferInstanceAs (Decidable (plan.command?.isSome = true))

/-- What a request inserts.  The inserts of a plan that comes alone keep the log positions that they are bound to. -/
def inserts : Request → List LogEntry
  | .indexed q => q.inserts
  | .batch r => r.inserts
  | .raw plan => plan.command?.toList.flatMap Command.entries

end Request

end SeriesRegion
