import SeriesRegion.Proofs.MemTable.LastWrite
import Mathlib.Data.List.Dedup
import Mathlib.Data.List.Nodup

/-!
# How many points a table has

The points of a table are those with a value, each listed once (`MemTable.mem_points`, `MemTable.nodup_points`), and
`pointCount` is their number.  So a table that was empty has, after entries have been applied to it, one point for each that
they write (`MemTable.pointCount_applyAll`) and one device for each that they name (`MemTable.length_deviceNames_applyAll`).
-/

namespace SeriesRegion.MemTable

/-- The points of a table, in the order of their devices, measurements and times. -/
def points (t : MemTable) : List Point :=
  t.devices.entries.flatMap fun d => d.2.entries.flatMap fun s => s.2.entries.map fun p => ⟨d.1, s.1, p.1⟩

private theorem foldl_count {α β : Type} (f : α → List β) (l : List α) (n : Nat) :
    l.foldl (fun n a => n + (f a).length) n = n + (l.flatMap f).length := by
  induction l generalizing n with
  | nil => rfl
  | cons a l ih => rw [List.foldl_cons, ih, List.flatMap_cons, List.length_append, Nat.add_assoc]

theorem pointCount_eq (t : MemTable) : t.pointCount = t.points.length := by
  have hseries : ∀ (device : String) (d : SortedMap String Series) (n : Nat),
      d.values.foldl (fun n s => n + s.size) n =
        n + (d.entries.flatMap fun s => s.2.entries.map fun p => (⟨device, s.1, p.1⟩ : Point)).length := by
    intro device d n
    rw [← foldl_count, SortedMap.values, List.foldl_map]
    simp only [List.length_map]
    rfl
  have hdevices : ∀ (l : List (String × SortedMap String Series)) (n : Nat),
      l.foldl (fun n d => d.2.values.foldl (fun n s => n + s.size) n) n =
        n + (l.flatMap fun d => d.2.entries.flatMap fun s => s.2.entries.map fun p => (⟨d.1, s.1, p.1⟩ : Point)).length := by
    intro l n
    rw [← foldl_count]
    exact congrArg (fun f => l.foldl f n) (funext fun n => funext fun d => hseries d.1 d.2 n)
  rw [pointCount, SortedMap.values, List.foldl_map, hdevices, Nat.zero_add]
  rfl

/-- The points of a table are those with a value. -/
theorem mem_points {t : MemTable} {x : Point} : x ∈ t.points ↔ (t.value x).isSome := by
  obtain ⟨device, measurement, time⟩ := x
  rw [points, List.mem_flatMap]
  constructor
  · rintro ⟨⟨_, d⟩, hd, hx⟩
    obtain ⟨⟨_, s⟩, hs, hx⟩ := List.mem_flatMap.1 hx
    obtain ⟨⟨_, v⟩, hv, hx⟩ := List.mem_map.1 hx
    obtain ⟨rfl, rfl, rfl⟩ := Point.mk.inj hx
    rw [SortedMap.mem_entries] at hd hs hv
    rw [value, value?, series?, hd, Option.bind_some, hs, Option.bind_some, hv]
    rfl
  · intro h
    rw [value, value?, series?] at h
    obtain ⟨v, hv⟩ := Option.isSome_iff_exists.1 h
    obtain ⟨s, hs, hv⟩ := Option.bind_eq_some_iff.1 hv
    obtain ⟨d, hd, hs⟩ := Option.bind_eq_some_iff.1 hs
    refine ⟨(device, d), SortedMap.mem_entries.2 hd, List.mem_flatMap.2 ⟨(measurement, s), SortedMap.mem_entries.2 hs, ?_⟩⟩
    exact List.mem_map.2 ⟨(time, v), SortedMap.mem_entries.2 hv, rfl⟩

/-- No point is listed twice if what is listed under each key bears the key. -/
private theorem nodup_flatMap_entries {κ ν β : Type} [Ord κ] [Std.ReflOrd κ] (m : SortedMap κ ν) (f : κ × ν → List β)
    (key : β → κ) (hf : ∀ p, (f p).Nodup) (hkey : ∀ p, ∀ b ∈ f p, key b = p.1) : (m.entries.flatMap f).Nodup := by
  rw [List.nodup_flatMap]
  refine ⟨fun p _ => hf p, ?_⟩
  have hkeys : m.entries.Pairwise fun a b => a.1 ≠ b.1 := List.pairwise_map.1 m.nodup_keys
  refine hkeys.imp fun {a b} hne x ha hb => hne ?_
  rw [← hkey a x ha, ← hkey b x hb]

theorem nodup_points (t : MemTable) : t.points.Nodup := by
  refine nodup_flatMap_entries t.devices _ (·.device) (fun d => ?_) ?_
  · refine nodup_flatMap_entries d.2 _ (·.measurement) (fun s => ?_) ?_
    · exact List.pairwise_map.2 ((List.pairwise_map.1 s.2.nodup_keys).imp fun hne h => hne (congrArg Point.time h))
    · intro s x hx
      obtain ⟨p, -, rfl⟩ := List.mem_map.1 hx
      rfl
  · intro d x hx
    obtain ⟨s, -, hx⟩ := List.mem_flatMap.1 hx
    obtain ⟨p, -, rfl⟩ := List.mem_map.1 hx
    rfl

theorem mem_deviceNames {t : MemTable} {device : String} : device ∈ t.deviceNames ↔ t.hasDevice device := by
  rw [deviceNames, SortedMap.keys, List.mem_map, hasDevice, Option.isSome_iff_exists]
  constructor
  · rintro ⟨⟨_, d⟩, hd, rfl⟩
    exact ⟨d, SortedMap.mem_entries.1 hd⟩
  · rintro ⟨d, hd⟩
    exact ⟨(device, d), SortedMap.mem_entries.2 hd, rfl⟩

theorem isSome_value_applyAll {es : List LogEntry} {x : Point} :
    ((empty.applyAll es).value x).isSome ↔ ∃ e ∈ es, x ∈ (writes e).map (·.1) := by
  rw [value_applyAll_empty, lastWrite, lastOf_isSome, List.map_flatMap, List.mem_flatMap]

/-- Entries leave one point for each that they write. -/
theorem pointCount_applyAll (es : List LogEntry) :
    (empty.applyAll es).pointCount = ((es.flatMap writes).map (·.1)).dedup.length := by
  rw [pointCount_eq]
  refine ((List.perm_ext_iff_of_nodup (nodup_points _) (List.nodup_dedup _)).2 fun x => ?_).length_eq
  rw [mem_points, isSome_value_applyAll, List.mem_dedup, List.map_flatMap, List.mem_flatMap]

theorem mem_deviceNames_applyAll {es : List LogEntry} {device : String} :
    device ∈ (empty.applyAll es).deviceNames ↔ ∃ e ∈ es, e.payload.device = device := by
  have hnone : empty.hasDevice device = false := rfl
  rw [mem_deviceNames, hasDevice_applyAll, hnone, Bool.false_or, List.any_eq_true]
  simp only [decide_eq_true_eq]

/-- Entries leave one device for each that they name. -/
theorem length_deviceNames_applyAll (es : List LogEntry) :
    (empty.applyAll es).deviceNames.length = (es.map (·.payload.device)).dedup.length := by
  refine ((List.perm_ext_iff_of_nodup (SortedMap.nodup_keys _) (List.nodup_dedup _)).2 fun x => ?_).length_eq
  rw [List.mem_dedup, List.mem_map]
  exact mem_deviceNames_applyAll

end SeriesRegion.MemTable
