import SeriesRegion.Proofs.Disk.Fresh
import SeriesRegion.Proofs.Snapshot.Interrupted
import SeriesRegion.Proofs.Snapshot.Leftovers

/-!
# Snapshots that are attempted again

Snapshots are taken into one directory again and again, each attempt being stopped anywhere (`Snapshot.Attempts`).  The
directory has leftovers at most until one of them has put a snapshot there, which then stays (`Snapshot.Attempts.settled`).
So a manifest is found only with the snapshot of an attempt, and where none is found the next attempt succeeds
(`Snapshot.Attempts.complete_or_repeated`).  A directory that does not exist yet can be used like an empty one if it is empty
once it has been made; by a path that leads back up this need not be so (`Snapshot.refused_back_up`).
-/

namespace SeriesRegion.Snapshot

variable {target : Path} {r : Region} {stamp : Stamp} {as : List (Region × Stamp)} {d d' : Disk}

/-- Attempts at a snapshot, one after the other, of any regions; each is stopped anywhere, or at its end. -/
inductive Attempts (target : Path) : Disk → List (Region × Stamp) → Disk → Prop
  | nil (d : Disk) : Attempts target d [] d
  | cons {r : Region} {stamp : Stamp} {as : List (Region × Stamp)} {d d₁ d' : Disk}
    (stops : (take r target stamp).run.Stops d d₁) (rest : Attempts target d₁ as d') : Attempts target d ((r, stamp) :: as) d'

/-- A directory from which a region can be loaded on a table: into any directory that can be opened and written to, if this is
found before the load or has nothing of its own. -/
def Loads (source : Path) (storageGroup : String) (id : UInt32) (table : MemTable) (d : Disk) : Prop :=
  (readImage source storageGroup id).run.run d = (.ok table, d) ∧
  ∀ dir syncWal r₀ d₀ es last, (Region.openAt storageGroup id dir syncWal).run.run d = (.ok r₀, d₀) →
    (r₀.logged.run.run d₀).1 = .ok es → r₀.generation.toNat + 1 < UInt64.size →
    (Generation.latest dir).run.run d = (.ok last, d) →
    Region.Writable dir (nextGeneration last) (d.makeDirectories dir).2 →
    d.present dir = true ∨ r₀.generation = 0 ∧ es = [] →
    ∃ r' d', (load source storageGroup id dir syncWal).run.run d = (.ok r', d') ∧ r'.table = table

/-- A snapshot that is complete can be loaded if it was made with a valid stamp. -/
theorem Complete.loads (h : Complete target r stamp d) (names : d.OneName)
    (fits : (Binary.Format.memTable.write r.table).length < UInt64.size) (valid : stamp.Valid) :
    Loads target r.storageGroup r.id r.table d := by
  have hholds : Holds target r.storageGroup r.id r.table d :=
    ⟨_, _, _, _, h.manifest, Binary.Format.decode_ofText _, valid.ofText_manifestOf r _, h.image, certifies_manifestOf fits stamp⟩
  refine ⟨holds_iff.1 hholds, fun dir syncWal r₀ d₀ es last opens log bound latest writable found => ?_⟩
  obtain ⟨r', d', hload, -, -, htable, -⟩ := hholds.run_load names opens log bound latest writable
  exact ⟨r', d', hload, htable found⟩

/-- A directory that has leftovers at most has no manifest. -/
theorem Clear.not_lists (h : Clear target d) : ¬ Lists target manifestName d := by
  obtain ⟨t, d₁, hmade, hcleared⟩ := h
  rintro ⟨names, hlist, hmem⟩
  have hsame : d₁ = d := by
    rw [Disk.list] at hlist
    split at hlist
    · cases hlist
    · cases hlist
    · rename_i hfind
      rw [Disk.makeDirectories_of_find hfind] at hmade
      exact (congrArg Prod.snd hmade).symm
  subst hsame
  have hleft := (hcleared.isLeftover_of_mem hlist hmem).2
  rw [isLeftover_manifestName] at hleft
  cases hleft

namespace Attempts

/-- A snapshot that is there stays as it is. -/
theorem stays (h : Attempts target d as d') (complete : Complete target r stamp d) : d' = d := by
  induction h with
  | nil d => rfl
  | @cons r₁ stamp₁ _ d₀ _ _ stops _ ih =>
    obtain ⟨names, hlist, hmem⟩ := complete.listed
    have hassures : (take r₁ target stamp₁).run.Assures (fun d' => d' = d₀) (fun _ _ => True) d₀ := by
      refine assures_take_refused hlist hmem isLeftover_manifestName ?_ ?_ r₁ stamp₁
      · exact rfl
      · exact trivial
    obtain rfl := hassures.of_stops stops
    exact ih complete

/-- After any attempts the directory has leftovers at most, or the snapshot of one of them. -/
theorem settled (h : Attempts target d as d') (clear : Clear target d) :
    Clear target d' ∨ d'.OneName ∧ ∃ a ∈ as, Complete target a.1 a.2 d' := by
  induction h with
  | nil d => exact .inl clear
  | cons stops rest ih =>
    obtain hclear | ⟨hnames, hcomplete⟩ := (clear.assures_take _ _).of_stops stops
    · refine (ih hclear).imp_right ?_
      rintro ⟨hnames, a, ha, hcomplete⟩
      exact ⟨hnames, a, List.mem_cons_of_mem _ ha, hcomplete⟩
    · obtain rfl := rest.stays hcomplete
      exact .inr ⟨hnames, _, List.mem_cons_self, hcomplete⟩

/-- Snapshots are attempted in a directory that has leftovers at most, or that does not exist yet and is such a directory once
it has been made; it is if its path can be followed and does not lead back up.  A manifest is found there only with the
snapshot of one of the attempts, which can be loaded on the table that its region had if it was made with a valid stamp.  While
none is found, the next attempt that is not stopped succeeds if the path of the draft can be followed, and else it fails.  A
directory with any other name in it is refused and left as it is. -/
theorem complete_or_repeated (h : Attempts target d as d') (names : d.OneName)
    (start : Leftovers target d ∨ d.present target = false ∧ ∃ d₁, d.makeDirectories target = (.ok (), d₁) ∧
      (Leftovers target d₁ ∨ d.Counted ∧ target.refusal? = none ∧ ".." ∉ target.names)) :
    (Lists target manifestName d' → ∃ a ∈ as, Complete target a.1 a.2 d' ∧
      ((Binary.Format.memTable.write a.1.table).length < UInt64.size → a.2.Valid →
        Loads target a.1.storageGroup a.1.id a.1.table d')) ∧
    (¬ Lists target manifestName d' → ∀ r stamp answer d'', (take r target stamp).run.Ends d' answer d'' →
      if (target.child draftName).refusal? = none then
        answer = .ok (manifestOf r (Binary.Format.memTable.write r.table) stamp) ∧ Complete target r stamp d''
      else ∃ e, answer = .error e) ∧
    ∀ dir e names x, e.list dir = .ok names → x ∈ names → isLeftover x = false → ∀ r stamp,
      (∀ e', (take r dir stamp).run.Stops e e' → e' = e) ∧
      ∀ answer e', (take r dir stamp).run.Ends e answer e' → answer = .error (.targetNotEmpty dir) ∧ e' = e := by
  have hclear : Clear target d := by
    obtain hleft | ⟨habsent, d₁, hmade, hleft | ⟨hcounted, hrefusal, hdown⟩⟩ := start
    · obtain ⟨t, hcleared⟩ := cleared_of_leftovers names hleft
      exact hcleared.clear
    · exact clear_of_made names hmade hleft
    · obtain ⟨k, hk, hvacant⟩ := Disk.vacant_of_makeDirectories hcounted habsent hrefusal hdown hmade
      refine clear_of_made names hmade ⟨k, hk, fun x node hn => ?_⟩
      rw [hvacant] at hn
      cases hn
  refine ⟨fun hlists => ?_, fun hnot r stamp answer d'' hends => ?_, fun dir e names x hlist hmem hother r stamp => ?_⟩
  · obtain hclear' | ⟨hnames, a, ha, hcomplete⟩ := h.settled hclear
    · exact absurd hlists hclear'.not_lists
    · exact ⟨a, ha, hcomplete, hcomplete.loads hnames⟩
  · obtain hclear' | ⟨-, a, -, hcomplete⟩ := h.settled hclear
    · have hended := (hclear'.assures_take r stamp).of_ends hends
      cases answer with
      | error e =>
        rw [if_neg hended]
        exact ⟨e, rfl⟩
      | ok m =>
        obtain ⟨hfits, rfl, hcomplete⟩ := hended
        rw [if_pos hfits]
        exact ⟨rfl, hcomplete⟩
    · exact absurd hcomplete.listed hnot
  · have hassures : (take r dir stamp).run.Assures (fun e' => e' = e)
        (fun answer e' => answer = .error (.targetNotEmpty dir) ∧ e' = e) e := by
      refine assures_take_refused hlist hmem hother ?_ ?_ r stamp
      · exact rfl
      · exact ⟨rfl, rfl⟩
    exact ⟨fun e' hstops => hassures.of_stops hstops, fun answer e' hends => hassures.of_ends hends⟩

end Attempts

/-- An attempt in a directory in which there is nothing may be stopped when any part of the image has been written. -/
theorem stops_take {d₁ : Disk} (made : d.makeDirectories target = (.ok (), d₁)) (empty : d₁.list target = .ok [])
    (r : Region) (stamp : Stamp) (n : Nat) : (take r target stamp).run.Stops d
      (d₁.write (target.child dataName) ((Binary.Format.memTable.write r.table).take n)).2 := by
  have hlist : (FileTask.perform (.list target)).run d₁ = (.ok [], d₁) := Prod.ext empty rfl
  have hreclaim : (reclaim target).run.run d₁ = (.ok (), d₁) := by
    rw [reclaim, FileWork.run_bind_ok (FileWork.run_attempt_eq_ok.2 hlist)]
    rfl
  refine FileWork.stops_bind_ok (FileWork.run_attempt_eq_ok.2 made) (FileWork.stops_bind_ok hreclaim ?_)
  exact FileWork.stops_bind (FileTask.Stops.bind (.within (.write _ _ n)) _) _

/-- The sample is taken into a directory that does not exist yet, and this is stopped when three bytes of the image have been
written.  It is taken again into the directory in which these stand, and read from it; then it is not taken any more. -/
theorem complete_or_repeated_unmade :
    let d := Disk.new "home"
    let target : Path := ⟨"", ["s"]⟩
    let a := (sampled, sampledStamp)
    d.OneName ∧ d.Counted ∧ d.present target = false ∧ d.makeDirectories target = (.ok (), d.createDirectory 1 "s") ∧
      target.refusal? = none ∧ ".." ∉ target.names ∧
      ∃ d₁ d₂, Attempts target d [a] d₁ ∧
        d₁.read (target.child dataName) = .ok ((Binary.Format.memTable.write sampled.table).take 3) ∧
        d₁.OneName ∧ Leftovers target d₁ ∧ ¬ Lists target manifestName d₁ ∧
        (take sampled target sampledStamp).run.run d₁ = (.ok sampledManifest, d₂) ∧ Attempts target d [a, a] d₂ ∧
        Lists target manifestName d₂ ∧ (readImage target "g" 1).run.run d₂ = (.ok sampled.table, d₂) ∧
        (take sampled target sampledStamp).run.run d₂ = (.error (.targetNotEmpty target), d₂) := by
  intro d target a
  have habsent : d.find target = .error .notFound := by cbv
  have hpresent : d.present target = false := by rw [Disk.present, habsent]
  have hmade : d.makeDirectories target = (.ok (), d.createDirectory 1 "s") := by cbv
  have hrefusal : target.refusal? = none ∧ (target.child draftName).refusal? = none := by cbv
  have hdown : ".." ∉ target.names := by decide
  have hnames := Disk.oneName_new "home"
  have hcounted := Disk.counted_new "home"
  have hstart : Leftovers target d ∨ d.present target = false ∧ ∃ d₁, d.makeDirectories target = (.ok (), d₁) ∧
      (Leftovers target d₁ ∨ d.Counted ∧ target.refusal? = none ∧ ".." ∉ target.names) :=
    .inr ⟨hpresent, _, hmade, .inr ⟨hcounted, hrefusal.1, hdown⟩⟩
  -- Nothing is there to be removed, and the image is begun.
  obtain ⟨k, hk, hvacant⟩ := Disk.vacant_of_makeDirectories hcounted hpresent hrefusal.1 hdown hmade
  obtain ⟨t, hcleared⟩ : ∃ t, Cleared target t (d.createDirectory 1 "s") :=
    cleared_of_leftovers (hnames.createDirectory 1 "s") ⟨k, hk, fun x node hn => by
      rw [hvacant] at hn
      cases hn⟩
  have hstops := stops_take hmade (by cbv) sampled sampledStamp 3
  obtain ⟨d₁, hwrite⟩ : ∃ d₁, (d.createDirectory 1 "s").write (target.child dataName)
      ((Binary.Format.memTable.write sampled.table).take 3) = (.ok (), d₁) :=
    ⟨_, Prod.ext (hcleared.write_ok (isLeftover_iff.2 (.inl rfl)) hrefusal.2 _) rfl⟩
  rw [hwrite] at hstops
  have hcleared₁ : Cleared target t d₁ := by
    have hafter := hcleared.write (isLeftover_iff.2 (.inl rfl)) ((Binary.Format.memTable.write sampled.table).take 3)
    rwa [hwrite] at hafter
  obtain ⟨hdata, -, hstores, -⟩ := hcleared.names.stores_of_write hcleared.leads plain_names.1 hwrite
  have hleft : Leftovers target d₁ := ⟨t.here, hcleared₁.find, fun _ _ hn => hcleared₁.leftovers hn⟩
  have hfirst : Attempts target d [a] d₁ := .cons hstops (.nil _)
  obtain ⟨-, hnext, -⟩ := hfirst.complete_or_repeated hnames hstart
  have hended := hnext hcleared₁.clear.not_lists sampled sampledStamp _ _ (FileTask.ends_run _ d₁)
  rw [if_pos hrefusal.2] at hended
  obtain ⟨hanswer, hcomplete⟩ := hended
  have hsecond : Attempts target d₁ [a] ((take sampled target sampledStamp).run.run d₁).2 :=
    .cons (FileTask.stops_run _ d₁) (.nil _)
  obtain ⟨hfound, -, hother⟩ := hsecond.complete_or_repeated hcleared₁.names (.inl hleft)
  obtain ⟨b, hb, -, hloads⟩ := hfound hcomplete.listed
  obtain rfl := List.mem_singleton.1 hb
  obtain ⟨names, hlisted, hmem⟩ := hcomplete.listed
  obtain ⟨-, hrefused⟩ := hother target _ names manifestName hlisted hmem isLeftover_manifestName sampled sampledStamp
  obtain ⟨hfault, hdisk⟩ := hrefused _ _ (FileTask.ends_run _ _)
  exact ⟨hnames, hcounted, hpresent, hmade, hrefusal.1, hdown, d₁, _, hfirst, hstores.read hcleared₁.leads plain_names.1 hdata,
    hcleared₁.names, hleft, hcleared₁.clear.not_lists, Prod.ext hanswer rfl, .cons hstops hsecond, hcomplete.listed,
    (hloads sampled_fits valid_sampledStamp).1, Prod.ext hfault hdisk⟩

/-- A directory that does not exist yet, by a path that leads back up out of it: once it has been made it is not empty, and
every attempt is refused. -/
theorem refused_back_up :
    let d := (Disk.new "home").createDirectory 1 "q"
    let target : Path := ⟨"q/x/..", []⟩
    d.OneName ∧ d.Counted ∧ d.present target = false ∧ (d.makeDirectories target).1 = .ok () ∧
      (target.child draftName).refusal? = none ∧ Attempts target d [] d ∧ ¬ Lists target manifestName d ∧
      (take sampled target sampledStamp).run.run d = (.error (.targetNotEmpty target), (d.makeDirectories target).2) := by
  intro d target
  have habsent : d.find target = .error .notFound := by cbv
  have hmade : (d.makeDirectories target).1 = .ok () := by cbv
  have hlist : (d.makeDirectories target).2.list target = .ok ["x"] := by cbv
  have hfind : (d.makeDirectories target).2.find target = .ok (.directory 2) := by cbv
  have hrefused : (take sampled target sampledStamp).run.Assures (fun _ => True) (fun answer d' =>
      answer = .error (.targetNotEmpty target) ∧ d' = (d.makeDirectories target).2) (d.makeDirectories target).2 := by
    refine assures_take_refused hlist List.mem_cons_self (by decide) ?_ ?_ sampled sampledStamp
    · trivial
    · exact ⟨rfl, rfl⟩
  -- What there is to be made is made by the first step.
  have hsame : (take sampled target sampledStamp).run.run d =
      (take sampled target sampledStamp).run.run (d.makeDirectories target).2 := by
    have hmake : ∀ {d₀ : Disk}, d₀.makeDirectories target = (.ok (), (d.makeDirectories target).2) →
        (FileWork.attempt (.perform (.makeDirectories target)) (SnapshotFault.io target)).run.run d₀ =
          (.ok (), (d.makeDirectories target).2) := fun h => FileWork.run_attempt_eq_ok.2 h
    rw [take, FileWork.run_bind_ok (hmake (Prod.ext hmade rfl)),
      FileWork.run_bind_ok (hmake (Disk.makeDirectories_of_find hfind))]
  obtain ⟨hanswer, hdisk⟩ := hrefused.of_run
  refine ⟨(Disk.oneName_new "home").createDirectory 1 "q", (Disk.counted_new "home").createDirectory 1 "q", ?_, hmade,
    by cbv, .nil d, ?_, hsame.trans (Prod.ext hanswer hdisk)⟩
  · rw [Disk.present, habsent]
  · rintro ⟨names, hnames, -⟩
    rw [Disk.list, habsent] at hnames
    cases hnames

end SeriesRegion.Snapshot
