import SeriesRegion.Proofs.Dues
import SeriesRegion.Proofs.Replica.Loading

/-!
# Snapshots loaded at the same time

Loading a snapshot into a replica takes three steps: the new region is built on disk, the replica turns to it, and the engine
lets it serve its id.  Calls may take theirs in any order (`Loaders.advance`).  When all have returned, the regions that were
built are those that were turned to and those that served, though not in the same order (`Loaders.Accounts`).  The replica and
the engine agree with what is opened again if and only if the same region came last each time (`Loaders.agree_iff`), and there
are schedules after which it did not (`Loaders.agree_iff_overtaken`).
-/

namespace SeriesRegion

/-- How far a call is that loads a snapshot.  A region that it has built has an id and a number. -/
inductive LoadStage where
  | called
  | built (id : UInt32) (number : Nat)
  | turned (id : UInt32) (number : Nat)
  | returned

structure LoadCall where
  source : Path
  stage : LoadStage

/-- Calls that load snapshots into a replica, and the numbers of the regions that they have built, that the replica has turned
to, and that the engine has let serve, in the order in which this was done. -/
structure Loaders where
  replica : Replica
  engine : Engine
  disk : Disk
  calls : List LoadCall
  builds : List Nat
  turns : List Nat
  serves : List Nat

namespace Loaders

/-- The calls that load snapshots, before any of them has done anything. -/
def start (v : Replica) (e : Engine) (d : Disk) (sources : List Path) : Loaders :=
  ⟨v, e, d, sources.map (⟨·, .called⟩), [], [], []⟩

/-- A call takes its next step, if there is such a call and it has not returned. -/
def advance (s : Loaders) (i : Nat) : Loaders :=
  match s.calls[i]? with
  | some ⟨source, .called⟩ =>
    match s.replica.region? s.engine with
    | none => { s with calls := s.calls.set i ⟨source, .returned⟩ }
    | some old =>
      match (Replica.rebuild old source).run.run s.disk with
      | (.error _, d) => { s with disk := d, calls := s.calls.set i ⟨source, .returned⟩ }
      | (.ok r, d) =>
        { s with
          engine := (s.engine.add r).1
          disk := d
          calls := s.calls.set i ⟨source, .built r.id (s.engine.add r).2⟩
          builds := s.builds ++ [(s.engine.add r).2] }
  | some ⟨source, .built id n⟩ =>
    { s with
      replica := s.replica.turnTo n
      calls := s.calls.set i ⟨source, .turned id n⟩
      turns := s.turns ++ [n] }
  | some ⟨source, .turned id n⟩ =>
    { s with
      engine := s.engine.serve id n
      calls := s.calls.set i ⟨source, .returned⟩
      serves := s.serves ++ [n] }
  | _ => s

def run (s : Loaders) (schedule : List Nat) : Loaders := schedule.foldl advance s

def Finished (s : Loaders) : Prop := ∀ c ∈ s.calls, c.stage = .returned

variable {s : Loaders} {v : Replica} {e : Engine} {d : Disk} {r : Region} {es : List LogEntry} {sources : List Path} {i : Nat}

/-- A call whose three steps are not parted by those of others does what loading a snapshot does. -/
theorem run_thrice {source : Path} (h : s.calls[i]? = some ⟨source, .called⟩) :
    let s' := s.run [i, i, i]
    ((s'.replica, s'.engine), s'.disk) = (s.replica.loadSnapshot s.engine source).run s.disk ∧
      s'.calls[i]? = some ⟨source, .returned⟩ := by
  have hi : i < s.calls.length := (List.getElem?_eq_some_iff.1 h).1
  have hset : ∀ c : LoadCall, (s.calls.set i c)[i]? = some c := fun c => by simp [hi]
  have hrun : s.run [i, i, i] = ((s.advance i).advance i).advance i := rfl
  intro s'
  rw [show s' = _ from hrun]
  cases hr : s.replica.region? s.engine with
  | none =>
    rw [Replica.loadSnapshot, hr]
    simp only [advance, h, hr, hset]
    exact ⟨rfl, trivial⟩
  | some old =>
    rw [Replica.run_loadSnapshot hr]
    rcases hbuild : (Replica.rebuild old source).run.run s.disk with ⟨answer, d⟩
    cases answer with
    | error fault =>
      simp only [advance, h, hr, hbuild, hset]
      exact ⟨trivial, trivial⟩
    | ok r =>
      simp only [advance, h, hr, hbuild, hset, List.set_set]
      exact ⟨rfl, trivial⟩

/-- What a step does: nothing, or a call gives up, builds a region, turns the replica to it, or lets it serve. -/
theorem advance_cases (s : Loaders) (i : Nat) :
    s.advance i = s ∨
    (∃ source, s.calls[i]? = some ⟨source, .called⟩ ∧ s.replica.region? s.engine = none ∧
      s.advance i = { s with calls := s.calls.set i ⟨source, .returned⟩ }) ∨
    (∃ source old fault d, s.calls[i]? = some ⟨source, .called⟩ ∧ s.replica.region? s.engine = some old ∧
      (Replica.rebuild old source).run.run s.disk = (.error fault, d) ∧
      s.advance i = { s with disk := d, calls := s.calls.set i ⟨source, .returned⟩ }) ∨
    (∃ source old r d, s.calls[i]? = some ⟨source, .called⟩ ∧ s.replica.region? s.engine = some old ∧
      (Replica.rebuild old source).run.run s.disk = (.ok r, d) ∧
      s.advance i =
        { s with
          engine := (s.engine.add r).1
          disk := d
          calls := s.calls.set i ⟨source, .built r.id (s.engine.add r).2⟩
          builds := s.builds ++ [(s.engine.add r).2] }) ∨
    (∃ source id n, s.calls[i]? = some ⟨source, .built id n⟩ ∧
      s.advance i =
        { s with
          replica := s.replica.turnTo n
          calls := s.calls.set i ⟨source, .turned id n⟩
          turns := s.turns ++ [n] }) ∨
    (∃ source id n, s.calls[i]? = some ⟨source, .turned id n⟩ ∧
      s.advance i =
        { s with
          engine := s.engine.serve id n
          calls := s.calls.set i ⟨source, .returned⟩
          serves := s.serves ++ [n] }) := by
  cases hc : s.calls[i]? with
  | none =>
    left
    rw [advance, hc]
  | some c =>
    obtain ⟨source, stage⟩ := c
    cases stage with
    | called =>
      right
      cases hr : s.replica.region? s.engine with
      | none => exact .inl ⟨source, rfl, rfl, by simp only [advance, hc, hr]⟩
      | some old =>
        right
        rcases hbuild : (Replica.rebuild old source).run.run s.disk with ⟨answer, d⟩
        cases answer with
        | error fault => exact .inl ⟨source, old, fault, d, rfl, rfl, hbuild, by simp only [advance, hc, hr, hbuild]⟩
        | ok r => exact .inr (.inl ⟨source, old, r, d, rfl, rfl, hbuild, by simp only [advance, hc, hr, hbuild]⟩)
    | built id n => exact .inr (.inr (.inr (.inr (.inl ⟨source, id, n, rfl, by simp only [advance, hc]⟩))))
    | turned id n => exact .inr (.inr (.inr (.inr (.inr ⟨source, id, n, rfl, by simp only [advance, hc]⟩))))
    | returned =>
      left
      rw [advance, hc]

/-! ### Accounts -/

/-- The source of a call that is still to build its region. -/
def unbuilt? : LoadCall → Option Path
  | ⟨source, .called⟩ => some source
  | _ => none

/-- The number of a region that is built but still to be turned to. -/
def unturned? : LoadCall → Option Nat
  | ⟨_, .built _ n⟩ => some n
  | _ => none

/-- The number of a region that is turned to but still to serve. -/
def unserved? : LoadCall → Option Nat
  | ⟨_, .turned _ n⟩ => some n
  | _ => none

/-- The last of some numbers, or the one from before them all. -/
def latest (first : Nat) (ns : List Nat) : Nat := ns.getLast?.getD first

@[simp] theorem latest_concat (first : Nat) (ns : List Nat) (n : Nat) : latest first (ns ++ [n]) = n := by simp [latest]

theorem getElem?_latest (first : Nat) (ns : List Nat) : (first :: ns)[ns.length]? = some (latest first ns) := by
  have hlast : (first :: ns).getLast? = some (latest first ns) := List.getLast?_cons
  rw [← hlast, List.getLast?_eq_getElem?]
  rfl

theorem latest_mem {first : Nat} {ns ms : List Nat} (h : ∀ n ∈ ns, n ∈ ms) : latest first ns ∈ first :: ms := by
  obtain hfirst | hn := List.mem_cons.1 (List.mem_of_getElem? (getElem?_latest first ns))
  · rw [hfirst]
    exact List.mem_cons_self
  · exact List.mem_cons_of_mem _ (h _ hn)

/-- Numbers that are not the one from before have the same last one if and only if it is the latest of both. -/
theorem latest_eq_iff {first : Nat} {ns ms : List Nat} (hns : first ∉ ns) (hms : first ∉ ms) :
    latest first ns = latest first ms ↔ ns.getLast? = ms.getLast? := by
  rw [latest, latest]
  cases hn : ns.getLast? with
  | none =>
    cases hm : ms.getLast? with
    | none => simp
    | some m =>
      have hne : first ≠ m := fun h => hms (h ▸ List.mem_of_getLast? hm)
      simp [hne]
  | some n =>
    have hne : n ≠ first := fun h => hns (h ▸ List.mem_of_getLast? hn)
    cases hm : ms.getLast? with
    | none => simp [hne]
    | some m => simp

/-- One of the regions that have followed another in its directory: the one that has been built after so many others. -/
structure Follows (r : Region) (i : Nat) (r' : Region) : Prop where
  storageGroup : r'.storageGroup = r.storageGroup
  id : r'.id = r.id
  dataDir : r'.dataDir = r.dataDir
  syncWal : r'.syncWal = r.syncWal
  generation : r'.generation.toNat = r.generation.toNat + if r.dataDir.isEmpty then 0 else i

/-- Where the regions are that the calls have built, and which of them the replica, the engine and the disk have. -/
structure Accounts (v : Replica) (r : Region) (sources : List Path) (s : Loaders) : Prop where
  turned : (s.turns ++ s.calls.filterMap unturned?).Perm s.builds
  served : (s.serves ++ s.calls.filterMap unserved?).Perm s.turns
  room : s.builds.length + (s.calls.filterMap unbuilt?).length ≤ sources.length
  ids : ∀ c ∈ s.calls, ∀ id n, c.stage = .built id n ∨ c.stage = .turned id n → id = r.id
  replica : s.replica = v.turnTo (latest v.region s.turns)
  serving : s.engine.serving? r.id = some (latest v.region s.serves)
  distinct : (v.region :: s.builds).Nodup
  follows : ∀ i n, (v.region :: s.builds)[i]? = some n → ∃ r', s.engine.region? n = some r' ∧ Follows r i r'
  records : ∃ es last, s.engine.region? (latest v.region s.builds) = some last ∧ Region.Records r.dataDir es last s.disk

theorem accounts_start (region : v.region? e = some r) (serving : e.serving? r.id = some v.region)
    (records : Region.Records r.dataDir es r d) (sources : List Path) : Accounts v r sources (start v e d sources) := by
  have hnone : ∀ f : LoadCall → Option Nat, (∀ source, f ⟨source, .called⟩ = none) →
      (start v e d sources).calls.filterMap f = [] := by
    intro f hf
    rw [List.filterMap_eq_nil_iff]
    intro c hc
    obtain ⟨source, -, rfl⟩ := List.mem_map.1 hc
    exact hf source
  refine ⟨?_, ?_, ?_, fun c hc id n hstage => ?_, rfl, serving, List.nodup_singleton _, fun i n hn => ?_, es, r, region,
    records⟩
  · rw [hnone unturned? fun _ => rfl]
    exact .refl _
  · rw [hnone unserved? fun _ => rfl]
    exact .refl _
  · have hall : (start v e d sources).calls.filterMap unbuilt? = sources := by
      rw [start, List.filterMap_map]
      exact List.filterMap_some
    rw [hall]
    exact Nat.le_of_eq (Nat.zero_add _)
  · obtain ⟨source, -, rfl⟩ := List.mem_map.1 hc
    obtain h | h := hstage <;> cases h
  · obtain ⟨rfl, rfl⟩ : i = 0 ∧ n = v.region := by
      cases i with
      | zero => exact ⟨rfl, (Option.some.inj hn).symm⟩
      | succ i => cases hn
    refine ⟨r, region, rfl, rfl, rfl, rfl, ?_⟩
    split <;> rfl

theorem Accounts.turns_mem (h : Accounts v r sources s) {n : Nat} (hn : n ∈ s.turns) : n ∈ s.builds :=
  h.turned.mem_iff.1 (List.mem_append_left _ hn)

theorem Accounts.serves_mem (h : Accounts v r sources s) {n : Nat} (hn : n ∈ s.serves) : n ∈ s.builds :=
  h.turns_mem (h.served.mem_iff.1 (List.mem_append_left _ hn))

/-- The replica has one of the regions that have been built, or the one from before. -/
theorem Accounts.live (h : Accounts v r sources s) : ∃ i live, (v.region :: s.builds)[i]? = some s.replica.region ∧
    s.replica.region? s.engine = some live ∧ Follows r i live := by
  have hregion : s.replica.region = latest v.region s.turns := by
    rw [h.replica]
    rfl
  obtain ⟨i, hi⟩ := List.mem_iff_getElem?.1 (hregion ▸ latest_mem fun n hn => h.turns_mem hn)
  obtain ⟨live, hlive, hfollows⟩ := h.follows i _ hi
  exact ⟨i, live, hi, hlive, hfollows⟩

/-- The region that was built last is the one on disk. -/
theorem Accounts.last (h : Accounts v r sources s) : ∃ es last, s.engine.region? (latest v.region s.builds) = some last ∧
    Region.Records r.dataDir es last s.disk ∧ Follows r s.builds.length last := by
  obtain ⟨es, last, hlast, hrecords⟩ := h.records
  obtain ⟨last', hlast', hfollows⟩ := h.follows _ _ (getElem?_latest v.region s.builds)
  rw [hlast] at hlast'
  cases hlast'
  exact ⟨es, last, hlast, hrecords, hfollows⟩

theorem Follows.heir {last : Region} (h : Follows r i last) (bound : last.generation.toNat + 1 < UInt64.size)
    (es : List LogEntry) (table : MemTable) (file : Nat) :
    Follows r (i + 1) (last.heir es table r.storageGroup r.id r.syncWal file) := by
  refine ⟨rfl, rfl, h.dataDir, rfl, ?_⟩
  have hgeneration := h.generation
  rw [Region.heir, Region.successor, h.dataDir]
  cases hempty : r.dataDir.isEmpty with
  | true =>
    rw [hempty, if_pos rfl] at hgeneration
    rw [if_pos rfl, if_pos rfl, hgeneration]
  | false =>
    rw [hempty, if_neg Bool.false_ne_true] at hgeneration
    rw [if_neg Bool.false_ne_true, if_neg Bool.false_ne_true, Generation.toNat_next bound, hgeneration, Nat.add_assoc]

private theorem ids_set {calls : List LoadCall}
    (h : ∀ c ∈ calls, ∀ id n, c.stage = .built id n ∨ c.stage = .turned id n → id = r.id)
    {c : LoadCall} (hc : ∀ id n, c.stage = .built id n ∨ c.stage = .turned id n → id = r.id) (i : Nat) :
    ∀ c' ∈ calls.set i c, ∀ id n, c'.stage = .built id n ∨ c'.stage = .turned id n → id = r.id := by
  intro c' hmem
  obtain hold | rfl := List.mem_or_eq_of_mem_set hmem
  · exact h c' hold
  · exact hc

/-- A region that is built follows all that have been built before, and is then the one on disk. -/
theorem Accounts.rebuild {source : Path} {old : Region} (h : Accounts v r sources s)
    (bound : r.generation.toNat + sources.length < UInt64.size) (hc : s.calls[i]? = some ⟨source, .called⟩)
    (hold : s.replica.region? s.engine = some old) :
    (∃ fault, (Replica.rebuild old source).run.run s.disk = (.error fault, s.disk)) ∨
      ∃ es r' d', (Replica.rebuild old source).run.run s.disk = (.ok r', d') ∧ Region.Records r.dataDir es r' d' ∧
        Follows r (s.builds.length + 1) r' := by
  obtain ⟨j, live, -, hlive, hfollows⟩ := h.live
  rw [hold] at hlive
  cases hlive
  obtain ⟨es, last, -, hrecords, hlast⟩ := h.last
  have hroom : s.builds.length + 1 ≤ sources.length := by
    have hmem : source ∈ s.calls.filterMap unbuilt? := List.mem_filterMap.2 ⟨_, List.mem_of_getElem? hc, rfl⟩
    have hlength := List.length_pos_of_mem hmem
    have hall := h.room
    omega
  have hbound : last.generation.toNat + 1 < UInt64.size := by
    have hgeneration := hlast.generation
    split at hgeneration <;> omega
  rw [Replica.rebuild, hfollows.storageGroup, hfollows.id, hfollows.dataDir, hfollows.syncWal]
  obtain ⟨fault, hload⟩ | ⟨table, file, d', hload, hnew⟩ := hrecords.load_cases hbound source r.storageGroup r.id r.syncWal
  · exact .inl ⟨fault, hload⟩
  · exact .inr ⟨_, _, d', hload, hnew, hlast.heir hbound es table file⟩

private theorem length_unbuilt {calls : List LoadCall} {source : Path} (h : calls[i]? = some ⟨source, .called⟩)
    (stage : LoadStage) (hstage : stage ≠ .called) :
    ((calls.set i ⟨source, stage⟩).filterMap unbuilt?).length + 1 = (calls.filterMap unbuilt?).length := by
  have hlength := (Due.filterMap_set h ⟨source, stage⟩ unbuilt?).length_eq
  cases stage with
  | called => exact absurd rfl hstage
  | _ =>
    simp only [unbuilt?, Option.toList, List.length_append, List.length_cons, List.length_nil] at hlength
    omega

section Steps

variable {source : Path} {id : UInt32} {n : Nat} (h : Accounts v r sources s)

include h

/-- A call that gives up has changed nothing. -/
theorem Accounts.giveUp (hc : s.calls[i]? = some ⟨source, .called⟩) :
    Accounts v r sources { s with calls := s.calls.set i ⟨source, .returned⟩ } := by
  have hroom := h.room
  have hlength := length_unbuilt hc .returned nofun
  refine ⟨Due.same hc rfl rfl h.turned, Due.same hc rfl rfl h.served, ?_, ids_set h.ids (by simp) i, h.replica, h.serving,
    h.distinct, h.follows, h.records⟩
  show s.builds.length + ((s.calls.set i ⟨source, .returned⟩).filterMap unbuilt?).length ≤ _
  omega

/-- A region that is built is to be turned to. -/
theorem Accounts.build {r' : Region} (hc : s.calls[i]? = some ⟨source, .called⟩)
    (records : Region.Records r.dataDir es r' d) (follows : Follows r (s.builds.length + 1) r') :
    Accounts v r sources
      { s with
        engine := (s.engine.add r').1
        disk := d
        calls := s.calls.set i ⟨source, .built r'.id (s.engine.add r').2⟩
        builds := s.builds ++ [(s.engine.add r').2] } := by
  have hroom := h.room
  have hlength := length_unbuilt hc (.built r'.id s.engine.regions.length) nofun
  have hbefore : ∀ n ∈ v.region :: s.builds, n < s.engine.regions.length := by
    intro n hn
    obtain ⟨j, hj⟩ := List.mem_iff_getElem?.1 hn
    obtain ⟨old, hregion, -⟩ := h.follows j n hj
    exact (List.getElem?_eq_some_iff.1 hregion).1
  refine ⟨Due.incurred hc rfl rfl h.turned, Due.same hc rfl rfl h.served, ?_, ids_set h.ids ?_ i, h.replica, h.serving, ?_,
    fun j n hj => ?_, es, r', ?_, records⟩
  · show (s.builds ++ [s.engine.regions.length]).length +
      ((s.calls.set i ⟨source, .built r'.id s.engine.regions.length⟩).filterMap unbuilt?).length ≤ _
    rw [List.length_append, List.length_singleton]
    omega
  · rintro id n (hstage | hstage)
    · cases hstage
      exact follows.id
    · cases hstage
  · rw [← List.cons_append, List.nodup_append]
    refine ⟨h.distinct, List.nodup_singleton _, fun n hn m hm => ?_⟩
    rw [List.mem_singleton.1 hm]
    exact Nat.ne_of_lt (hbefore n hn)
  · rw [← List.cons_append, List.getElem?_append] at hj
    split at hj
    · obtain ⟨old, hregion, hold⟩ := h.follows j n hj
      exact ⟨old, Replica.region?_add hregion r', hold⟩
    · -- It is the new one.
      rename_i hlength
      have hzero := (List.getElem?_eq_some_iff.1 hj).1
      rw [List.length_singleton, List.length_cons] at hzero
      rw [List.length_cons] at hlength
      obtain rfl : j = s.builds.length + 1 := by omega
      simp only [List.length_cons, Nat.sub_self, List.getElem?_cons_zero, Option.some.injEq] at hj
      subst hj
      exact ⟨r', Replica.region?_add_new s.engine r', follows⟩
  · rw [latest_concat]
    exact Replica.region?_add_new s.engine r'

/-- A region that is turned to is to serve. -/
theorem Accounts.turn (hc : s.calls[i]? = some ⟨source, .built id n⟩) :
    Accounts v r sources
      { s with
        replica := s.replica.turnTo n
        calls := s.calls.set i ⟨source, .turned id n⟩
        turns := s.turns ++ [n] } := by
  have hlength : ((s.calls.set i ⟨source, .turned id n⟩).filterMap unbuilt?).length = _ :=
    (Due.filterMap_set_of_none hc rfl rfl).length_eq
  refine ⟨Due.settled hc rfl rfl h.turned, Due.incurred hc rfl rfl h.served, ?_, ids_set h.ids ?_ i, ?_, h.serving, h.distinct,
    h.follows, h.records⟩
  · show s.builds.length + ((s.calls.set i ⟨source, .turned id n⟩).filterMap unbuilt?).length ≤ _
    rw [hlength]
    exact h.room
  · rintro id' n' (hstage | hstage)
    · cases hstage
    · cases hstage
      exact h.ids _ (List.mem_of_getElem? hc) id n (.inl rfl)
  · show s.replica.turnTo n = _
    rw [h.replica, latest_concat]
    rfl

theorem Accounts.serve (hc : s.calls[i]? = some ⟨source, .turned id n⟩) :
    Accounts v r sources
      { s with
        engine := s.engine.serve id n
        calls := s.calls.set i ⟨source, .returned⟩
        serves := s.serves ++ [n] } := by
  have hlength : ((s.calls.set i ⟨source, .returned⟩).filterMap unbuilt?).length = _ :=
    (Due.filterMap_set_of_none hc rfl rfl).length_eq
  have hid := h.ids _ (List.mem_of_getElem? hc) id n (.inr rfl)
  refine ⟨Due.same hc rfl rfl h.turned, Due.settled hc rfl rfl h.served, ?_, ids_set h.ids (by simp) i, h.replica, ?_, h.distinct,
    h.follows, h.records⟩
  · show s.builds.length + ((s.calls.set i ⟨source, .returned⟩).filterMap unbuilt?).length ≤ _
    rw [hlength]
    exact h.room
  · show (s.engine.serve id n).serving? r.id = _
    rw [Engine.serving?, Engine.serve, SortedMap.get?_insert, if_pos hid.symm, latest_concat]

end Steps

theorem Accounts.advance (h : Accounts v r sources s) (bound : r.generation.toNat + sources.length < UInt64.size) (i : Nat) :
    Accounts v r sources (s.advance i) := by
  obtain hs | ⟨source, hc, hnone, hs⟩ | ⟨source, old, fault, d, hc, hold, hbuild, hs⟩ |
    ⟨source, old, r', d, hc, hold, hbuild, hs⟩ | ⟨source, id, n, hc, hs⟩ | ⟨source, id, n, hc, hs⟩ := s.advance_cases i
  · rw [hs]
    exact h
  · rw [hs]
    exact h.giveUp hc
  · obtain ⟨fault', hfails⟩ | ⟨es, r', d', hloads, -⟩ := h.rebuild bound hc hold
    · rw [hbuild] at hfails
      cases hfails
      rw [hs]
      exact h.giveUp hc
    · rw [hbuild] at hloads
      cases hloads
  · obtain ⟨fault, hfails⟩ | ⟨es, r'', d', hloads, hrecords, hfollows⟩ := h.rebuild bound hc hold
    · rw [hbuild] at hfails
      cases hfails
    · rw [hbuild] at hloads
      cases hloads
      rw [hs]
      exact h.build hc hrecords hfollows
  · rw [hs]
    exact h.turn hc
  · rw [hs]
    exact h.serve hc

/-- Whatever the schedule, the regions are accounted for. -/
theorem accounts (region : v.region? e = some r) (serving : e.serving? r.id = some v.region)
    (records : Region.Records r.dataDir es r d) (bound : r.generation.toNat + sources.length < UInt64.size)
    (schedule : List Nat) : Accounts v r sources ((start v e d sources).run schedule) := by
  have hrun : ∀ s, Accounts v r sources s → Accounts v r sources (s.run schedule) := by
    induction schedule with
    | nil => exact fun s hs => hs
    | cons i schedule ih => exact fun s hs => ih (s.advance i) (hs.advance bound i)
  exact hrun _ (accounts_start region serving records sources)

/-- When all calls have returned, the replica has turned to all regions that were built, and all of them have served. -/
theorem Finished.perms (finished : s.Finished) (h : Accounts v r sources s) :
    s.turns.Perm s.builds ∧ s.serves.Perm s.builds := by
  have hnone : ∀ f : LoadCall → Option Nat, (∀ source, f ⟨source, .returned⟩ = none) → s.calls.filterMap f = [] := by
    intro f hf
    rw [List.filterMap_eq_nil_iff]
    rintro ⟨source, stage⟩ hc
    obtain rfl : stage = .returned := finished _ hc
    exact hf source
  have hturned := h.turned
  have hserved := h.served
  rw [hnone unturned? fun _ => rfl, List.append_nil] at hturned
  rw [hnone unserved? fun _ => rfl, List.append_nil] at hserved
  exact ⟨hturned, hserved.trans hturned⟩

/-- Two of the regions are of the same generation if and only if they are the same, unless the generation stays. -/
theorem Accounts.generation_eq_iff (h : Accounts v r sources s) {j k m n : Nat} {r₁ r₂ : Region}
    (hm : (v.region :: s.builds)[j]? = some m) (hn : (v.region :: s.builds)[k]? = some n) (h₁ : Follows r j r₁)
    (h₂ : Follows r k r₂) : r₁.generation = r₂.generation ↔ r.dataDir.isEmpty = true ∨ m = n := by
  rw [← UInt64.toNat_inj, h₁.generation, h₂.generation]
  cases hempty : r.dataDir.isEmpty with
  | true => simp
  | false =>
    have hj := (List.getElem?_eq_some_iff.1 hm).1
    simp only [Bool.false_eq_true, if_false, false_or, Nat.add_left_cancel_iff]
    constructor
    · rintro rfl
      rw [hm] at hn
      cases hn
      rfl
    · rintro rfl
      exact (List.getElem?_inj hj h.distinct).1 (hm.trans hn.symm)

/-- Snapshots are loaded into a replica at the same time, in any order of the steps of the calls.  When all have returned, the
region of the replica is the one that serves its id and is of the generation that is opened again if and only if the same
region was the last to be built, to be turned to and to serve.  (Under the empty path the generation is always the same.)
Inserts into the region of the replica are then there when it is opened again. -/
theorem agree_iff (region : v.region? e = some r) (serving : e.serving? r.id = some v.region)
    (records : Region.Records r.dataDir es r d) (bound : r.generation.toNat + sources.length < UInt64.size)
    {schedule : List Nat} (finished : ((start v e d sources).run schedule).Finished) :
    let s := (start v e d sources).run schedule
    s.turns.Perm s.builds ∧ s.serves.Perm s.builds ∧
    ∃ live, s.replica.region? s.engine = some live ∧ live.id = r.id ∧ live.dataDir = r.dataDir ∧
      ((s.engine.serving? live.id = some s.replica.region ∧
          ∃ r' d', (Region.openAt live.storageGroup live.id live.dataDir live.syncWal).run.run s.disk = (.ok r', d') ∧
            r'.generation = live.generation) ↔
        s.serves.getLast? = s.turns.getLast? ∧
          (r.dataDir.isEmpty = true ∨ s.turns.getLast? = s.builds.getLast?)) ∧
      (s.turns.getLast? = s.builds.getLast? → ∀ e r' d', Log.Fits e → (live.insert e).run s.disk = ((r', .ok ()), d') →
        ∃ d'', (Region.openAt live.storageGroup live.id live.dataDir live.syncWal).run.run d' = (.ok r', d'')) := by
  intro s
  have h : Accounts v r sources s := accounts region serving records bound schedule
  obtain ⟨hturns, hserves⟩ := finished.perms h
  obtain ⟨i, live, hi, hlive, hfollows⟩ := h.live
  obtain ⟨es', last, hlast, hrecords, hfollows'⟩ := h.last
  have hnew : v.region ∉ s.builds := (List.nodup_cons.1 h.distinct).1
  have hregion : s.replica.region = latest v.region s.turns := by
    rw [h.replica]
    rfl
  have hturned := latest_eq_iff (fun hm => hnew (h.turns_mem hm)) hnew
  refine ⟨hturns, hserves, live, hlive, hfollows.id, hfollows.dataDir, ?_, fun hsame e r' d' fits hinsert => ?_⟩
  · have hagrees : s.engine.serving? live.id = some s.replica.region ↔ s.serves.getLast? = s.turns.getLast? := by
      rw [hfollows.id, h.serving, hregion, Option.some.injEq]
      exact latest_eq_iff (fun hm => hnew (h.serves_mem hm)) fun hm => hnew (h.turns_mem hm)
    have hopens : (∃ r' d', (Region.openAt live.storageGroup live.id live.dataDir live.syncWal).run.run s.disk =
        (.ok r', d') ∧ r'.generation = live.generation) ↔ live.generation = last.generation := by
      obtain ⟨d', hopen, -⟩ := hrecords.reopen live.storageGroup live.id live.syncWal
      rw [hfollows.dataDir, hopen]
      constructor
      · rintro ⟨r', d', hr, hg⟩
        cases hr
        exact hg.symm
      · exact fun hg => ⟨_, d', rfl, hg.symm⟩
    rw [hagrees, hopens, h.generation_eq_iff hi (getElem?_latest v.region s.builds) hfollows hfollows', hregion, hturned]
  · -- The region of the replica is the one on disk.
    have hlive' : s.engine.region? (latest v.region s.builds) = some live := by
      rw [← hturned.2 hsame, ← hregion]
      exact hlive
    obtain rfl : live = last := Option.some.inj (hlive'.symm.trans hlast)
    have hinserted := hrecords.insert hinsert fun _ => fits
    obtain ⟨d'', hopen⟩ := hinserted.reopen_same
    rw [Region.run_insert] at hinsert
    cases hshape : e.payload.shapeFault? with
    | some f =>
      rw [hshape] at hinsert
      cases hinsert
    | none =>
      rw [hshape] at hinsert
      cases hinsert
      rw [hfollows.dataDir]
      exact ⟨d'', hopen⟩

/-- The region of the log that stands beside the sample, opened where relative paths start. -/
def overtaken : Region :=
  ⟨"g", 1, ⟨".", []⟩, 0, false, ⟨⟨".", [Generation.logName 0]⟩, 0, false⟩, MemTable.empty.applyAll [Snapshot.elsewhere]⟩

/-- Two calls build one after the other; the second turns the replica first, and serves last. -/
private theorem run_overtaken {source : Path} {old r₁ r₂ : Region} {d₁ d₂ : Disk} (region : v.region? e = some old)
    (first : (Replica.rebuild old source).run.run d = (.ok r₁, d₁))
    (second : (Replica.rebuild old source).run.run d₁ = (.ok r₂, d₂)) :
    (start v e d [source, source]).run [0, 1, 1, 0, 0, 1] =
      ⟨v.turnTo (e.add r₁).2, (((e.add r₁).1.add r₂).1.serve r₁.id (e.add r₁).2).serve r₂.id ((e.add r₁).1.add r₂).2, d₂,
        [⟨source, .returned⟩, ⟨source, .returned⟩], [(e.add r₁).2, ((e.add r₁).1.add r₂).2],
        [((e.add r₁).1.add r₂).2, (e.add r₁).2], [(e.add r₁).2, ((e.add r₁).1.add r₂).2]⟩ := by
  have hkept : v.region? (e.add r₁).1 = some old := Replica.region?_add region r₁
  have h₁ : (start v e d [source, source]).advance 0 = ⟨v, (e.add r₁).1, d₁,
      [⟨source, .built r₁.id (e.add r₁).2⟩, ⟨source, .called⟩], [(e.add r₁).2], [], []⟩ := by
    simp only [start, advance, List.map_cons, List.getElem?_cons_zero, region, first]
    rfl
  have h₂ : ((start v e d [source, source]).advance 0).advance 1 = ⟨v, ((e.add r₁).1.add r₂).1, d₂,
      [⟨source, .built r₁.id (e.add r₁).2⟩, ⟨source, .built r₂.id ((e.add r₁).1.add r₂).2⟩],
      [(e.add r₁).2, ((e.add r₁).1.add r₂).2], [], []⟩ := by
    rw [h₁]
    simp only [advance, List.getElem?_cons_succ, List.getElem?_cons_zero, hkept, second]
    rfl
  simp only [run, List.foldl_cons, List.foldl_nil, h₂]
  rfl

/-- The sample is loaded twice at the same time.  The region that is built first overtakes the other on its way to serving: the
replica keeps it, though its files are gone, and the engine lets the other one serve. -/
theorem agree_iff_overtaken :
    let v : Replica := ⟨.new 5, 0⟩
    let e : Engine := ⟨[overtaken], SortedMap.empty.insert 1 0⟩
    let sources : List Path := [⟨"", ["s"]⟩, ⟨"", ["s"]⟩]
    let s := (start v e Snapshot.sampledBeside sources).run [0, 1, 1, 0, 0, 1]
    v.region? e = some overtaken ∧ e.serving? overtaken.id = some v.region ∧
      Region.Records overtaken.dataDir [Snapshot.elsewhere] overtaken Snapshot.sampledBeside ∧
      overtaken.generation.toNat + sources.length < UInt64.size ∧ s.Finished ∧
      s.builds = [1, 2] ∧ s.turns = [2, 1] ∧ s.serves = [1, 2] ∧
      ∃ live, s.replica.region? s.engine = some live ∧
        ¬ (s.engine.serving? live.id = some s.replica.region ∧
          ∃ r' d', (Region.openAt live.storageGroup live.id live.dataDir live.syncWal).run.run s.disk = (.ok r', d') ∧
            r'.generation = live.generation) := by
  intro v e sources
  have hregion : v.region? e = some overtaken := rfl
  have hserving : e.serving? overtaken.id = some v.region := by
    rw [Engine.serving?, SortedMap.get?_insert]
    exact if_pos rfl
  have hlog : Snapshot.sampledBeside.node? 1 (Generation.logName 0) = some (.file 0) := by
    rw [Snapshot.sampledBeside, Snapshot.node?_beside_home, if_pos rfl]
  have hrecords : Region.Records overtaken.dataDir [Snapshot.elsewhere] overtaken Snapshot.sampledBeside :=
    .of_standing Snapshot.sampledBeside_standing_dot hlog Snapshot.elsewhere_whole "g" 1 false
  have hbound : overtaken.generation.toNat + sources.length < UInt64.size := by decide
  obtain ⟨es₁, r₁, d₁, hload₁, hid₁, hg₁, -, hrecords₁, hconfined₁⟩ :=
    hrecords.load_beside (.refl _ _) (by decide) (by cbv)
  obtain ⟨es₂, r₂, d₂, hload₂, hid₂, hg₂, -, hrecords₂, hconfined₂⟩ :=
    hrecords₁.load_beside hconfined₁ (by rw [hg₁]; decide) (by rw [hg₁]; cbv)
  have hs : (start v e Snapshot.sampledBeside sources).run [0, 1, 1, 0, 0, 1] = _ := run_overtaken hregion hload₁ hload₂
  have hfinished : ((start v e Snapshot.sampledBeside sources).run [0, 1, 1, 0, 0, 1]).Finished := by
    rw [hs]
    simp [Finished]
  obtain ⟨-, -, live, hlive, -, -, hiff, -⟩ := agree_iff hregion hserving hrecords hbound hfinished
  rw [hs] at hlive hiff hfinished ⊢
  refine ⟨hregion, hserving, hrecords, hbound, hfinished, rfl, rfl, rfl, live, hlive, fun hagrees => ?_⟩
  cases (hiff.1 hagrees).1

end Loaders

end SeriesRegion
