import SeriesRegion.Proofs.Json.Written
import SeriesRegion.Proofs.Text.Timestamp
import SeriesRegion.Proofs.Text.Uuid
import SeriesRegion.Snapshot

/-!
# Manifests that are written are read

A manifest is read from its text (`Manifest.ofText_text`), field by field, if its identifier has sixteen bytes and its time can
be counted.  A snapshot writes such a manifest if it is made with such an identifier at such a time (`Snapshot.Stamp.Valid`).
-/

namespace SeriesRegion

namespace Manifest

open Json Json.Record

/-- A manifest whose identifier has sixteen bytes and whose time can be counted. -/
structure Valid (m : Manifest) : Prop where
  snapshotId : m.snapshotId.bytes.length = 16
  createdAt : m.createdAt.Valid

theorem readId_text {u : Uuid} (h : u.bytes.length = 16) : readId u.text = .ok u := by
  rw [readId, Uuid.parse_text h]

theorem readTime_text {t : Timestamp} (h : t.Valid) : readTime (t.text ++ "Z") = .ok t := by
  rw [readTime, Timestamp.parse_text h]

/-- A number that need not be there is read. -/
theorem readOptional_spells (v : Option UInt64) : Spells (readOptional (readNat maxWord "u64"))
    (match v with | some i => toString i.toNat | none => "null").toList (v.map UInt64.toNat) := by
  cases v with
  | none => exact readOptional_spells_none _
  | some i =>
    have hspells := readNat_spells (Nat.le_pred_of_lt i.toNat_lt) (Nat.le_pred_of_lt i.toNat_lt) "u64"
    obtain ⟨c, ds, -, htext, hdigit⟩ := toList_toString i.toNat
    simp only
    rw [htext] at hspells ⊢
    refine readOptional_spells_some hspells (isBlank_of_isDigit hdigit) ?_
    rintro rfl
    cases hdigit

/-- A manifest is read from its text. -/
theorem ofText_text {m : Manifest} (h : m.Valid) : ofText m.text = .ok m := by
  have hword : ∀ n : UInt64, n.toNat ≤ maxWord := fun n => Nat.le_pred_of_lt n.toNat_lt
  have hshort : m.regionId.toNat ≤ UInt32.size - 1 := Nat.le_pred_of_lt m.regionId.toNat_lt
  refine read_block (b := m) ?_ ?_ ?_ (List.cons_ne_nil _ _)
  · refine .cons rfl (readString_spells (readId_text h.snapshotId) _) ?_
    refine .cons rfl (readString_spells rfl _) ?_
    refine .cons rfl (readNat_spells hshort (Nat.le_trans hshort (by decide)) _) ?_
    refine .cons rfl (readNat_spells (hword _) (hword _) _) ?_
    refine .cons rfl (readOptional_spells _) ?_
    refine .cons rfl (readNat_spells (hword _) (hword _) _) ?_
    refine .cons rfl (readString_spells (readTime_text h.createdAt) _) ?_
    refine .cons rfl (readString_spells rfl _) ?_
    obtain ⟨_, _, _, _, i, _, _, _⟩ := m
    cases i <;> simp [Fills]
  · show ["snapshot_id", "storage_group", "region_id", "generation", "max_search_index", "point_count", "created_at",
      "sha256"].Nodup
    decide
  · show ∀ f ∈ record.fields, f.required = true → f.name ∈ ["snapshot_id", "storage_group", "region_id", "generation",
      "max_search_index", "point_count", "created_at", "sha256"]
    decide

end Manifest

namespace Snapshot

/-- A stamp of sixteen bytes and a time that can be counted. -/
structure Stamp.Valid (stamp : Stamp) : Prop where
  id : stamp.id.bytes.length = 16
  time : stamp.time.Valid

/-- The manifest that a snapshot writes is read from its text. -/
theorem Stamp.Valid.ofText_manifestOf {stamp : Stamp} (h : stamp.Valid) (r : Region) (image : Bytes) :
    Manifest.ofText (manifestOf r image stamp).text = .ok (manifestOf r image stamp) :=
  Manifest.ofText_text ⟨h.id, h.time⟩

end Snapshot

end SeriesRegion
