import SeriesRegion.Proofs.Generation.Names
import SeriesRegion.Proofs.Log.Frames
import SeriesRegion.Proofs.Binary.RoundTrip
import SeriesRegion.Proofs.MemTable.Counting
import SeriesRegion.Proofs.Request.Inserts
import SeriesRegion.Proofs.Sequencer.Contiguous
import SeriesRegion.Replay.Batches
import Mathlib

/-!
# The batches of a replay

The batches of a plan that ends before the last position share its log positions out among them, in whatever order they are
delivered (`ReplayPlan.deliveries_indexes_perm`).  Each of them can be resolved, and in the order of their positions they are
contiguous and carry one command for each (`ReplayPlan.Ranged`).  What they write are as many points as there are positions, of
as many devices as the plan names, or of one device for each position if these are fewer (`ReplayPlan.pointCount_applyAll`,
`ReplayPlan.length_deviceNames_applyAll`).
-/

namespace SeriesRegion

/-! ### Orders of delivery -/

theorem swapPairs_perm {α : Type} (l : List α) : (swapPairs l).Perm l := by
  induction l using swapPairs.induct with
  | case1 a b rest ih => exact ((ih.cons a).cons b).trans (List.Perm.swap a b rest)
  | case2 l h =>
    unfold swapPairs
    split
    · exact absurd rfl (h _ _ _)
    · exact .refl _

theorem DeliveryOrder.positions_perm (order : DeliveryOrder) (count : Nat) :
    (order.positions count).Perm (List.range count) := by
  cases order with
  | inOrder => exact .refl _
  | reverse => exact List.reverse_perm _
  | interleaved => exact swapPairs_perm _

/-! ### Log positions -/

private theorem toNat_ofNat {i : Nat} (h : i < UInt64.size) : (UInt64.ofNat i).toNat = i := Nat.mod_eq_of_lt h

/-- The log positions of a batch, in their order. -/
def BatchRequest.indexes (b : BatchRequest) : List UInt64 :=
  (List.range' b.start.toNat (b.stop.toNat + 1 - b.start.toNat)).map UInt64.ofNat

namespace ReplayPlan

/-- The log positions of a plan, in their order. -/
def indexes (p : ReplayPlan) : List UInt64 := (List.range' p.first.toNat (p.batches * p.width)).map UInt64.ofNat

/-- There is a position behind those of the plan. -/
def Bounded (p : ReplayPlan) : Prop := p.first.toNat + p.batches * p.width < UInt64.size

variable {p : ReplayPlan} {k : Nat}

theorem width_pos (p : ReplayPlan) : 0 < p.width := Nat.lt_of_lt_of_le Nat.one_pos (Nat.le_max_right _ _)

private theorem chunks_range' (first width m : Nat) :
    (List.range m).flatMap (fun k => List.range' (first + k * width) width) = List.range' first (m * width) := by
  induction m with
  | zero => simp
  | succ m ih =>
    rw [List.range_succ, List.flatMap_append, ih, List.flatMap_singleton, List.range'_append_1, Nat.succ_mul]

/-- The batches before a batch of the plan and the batch itself end within the plan. -/
private theorem chunk_le (p : ReplayPlan) (hk : k < p.batches) : k * p.width + p.width ≤ p.batches * p.width := by
  rw [← Nat.succ_mul]
  exact Nat.mul_le_mul_right _ hk

theorem toNat_start (bounded : p.Bounded) (hk : k < p.batches) :
    (p.batch k).start.toNat = p.first.toNat + k * p.width := by
  have hle := p.chunk_le hk
  unfold Bounded at bounded
  exact toNat_ofNat (by omega)

theorem toNat_stop (bounded : p.Bounded) (hk : k < p.batches) :
    (p.batch k).stop.toNat + 1 = p.first.toNat + k * p.width + p.width := by
  have hle := p.chunk_le hk
  have hpos := p.width_pos
  unfold Bounded at bounded
  have hstop : (p.batch k).stop.toNat = p.first.toNat + k * p.width + p.width - 1 := toNat_ofNat (by omega)
  omega

theorem indexes_batch (bounded : p.Bounded) (hk : k < p.batches) :
    (p.batch k).indexes = (List.range' (p.first.toNat + k * p.width) p.width).map UInt64.ofNat := by
  rw [BatchRequest.indexes, toNat_stop bounded hk, toNat_start bounded hk, Nat.add_sub_cancel_left]

/-- A batch of the plan carries one request for each of its log positions, in their order. -/
theorem requests_batch (bounded : p.Bounded) (hk : k < p.batches) :
    (p.batch k).requests = (p.batch k).indexes.map p.requestAt := by
  rw [indexes_batch bounded hk, List.map_map, List.range'_eq_map_range, List.map_map]
  rfl

/-- The batches that are delivered share out the log positions of the plan. -/
theorem deliveries_indexes_perm (bounded : p.Bounded) :
    (p.deliveries.flatMap BatchRequest.indexes).Perm p.indexes := by
  have hbatches : (List.range p.batches).flatMap (fun k => (p.batch k).indexes) = p.indexes := by
    rw [indexes, ← chunks_range', List.map_flatMap]
    exact List.flatMap_congr fun k hk => indexes_batch bounded (List.mem_range.1 hk)
  rw [deliveries, List.flatMap_map, ← hbatches]
  exact (p.order.positions_perm p.batches).flatMap_right _

theorem lt_of_mem_indexes (bounded : p.Bounded) {i : Nat} (hi : i ∈ List.range' p.first.toNat (p.batches * p.width)) :
    i < UInt64.size := by
  rw [List.mem_range'_1] at hi
  unfold Bounded at bounded
  omega

theorem nodup_indexes (bounded : p.Bounded) : p.indexes.Nodup := by
  refine List.Nodup.map_on (fun i hi j hj h => ?_) List.nodup_range'
  have h := congrArg UInt64.toNat h
  rwa [toNat_ofNat (lt_of_mem_indexes bounded hi), toNat_ofNat (lt_of_mem_indexes bounded hj)] at h

/-! ### Commands -/

/-- The entry at a log position. -/
def entryAt (p : ReplayPlan) (index : UInt64) : LogEntry := ⟨some index, .row (p.rowAt index)⟩

/-- The command that a request of the plan comes to. -/
def commandAt (p : ReplayPlan) (index : UInt64) : Command := .row ⟨s!"replay-{index.toNat}", some index, p.rowAt index⟩

theorem resolve_requestAt (p : ReplayPlan) (index : UInt64) : (p.requestAt index).resolve = .ok (p.commandAt index) := rfl

theorem entries_commandAt (p : ReplayPlan) (index : UInt64) : (p.commandAt index).entries = [p.entryAt index] := rfl

theorem shapeFault?_entryAt (p : ReplayPlan) (index : UInt64) : (p.entryAt index).payload.shapeFault? = none := rfl

/-- A batch of the plan can be resolved: it is a command at each of its log positions. -/
theorem resolve_batch (bounded : p.Bounded) (hk : k < p.batches) :
    ∃ b : Waiting, (p.batch k).resolve = .ok b ∧ b.start = (p.batch k).start ∧ b.stop = (p.batch k).stop ∧
      b.commands = (p.batch k).indexes.map p.commandAt := by
  have hstart := toNat_start bounded hk
  have hstop := toNat_stop bounded hk
  have hpos := p.width_pos
  have hle : (p.batch k).start ≤ (p.batch k).stop := by
    rw [UInt64.le_iff_toNat_le]
    omega
  have hne : (p.batch k).indexes.map p.commandAt ≠ [] := by
    rw [indexes_batch bounded hk, Ne, List.map_eq_nil_iff, List.map_eq_nil_iff, List.range'_eq_nil_iff]
    omega
  refine ⟨⟨_, _, _, hle, hne⟩, BatchRequest.resolve_eq_ok_iff.2 ⟨rfl, rfl, ?_⟩, rfl, rfl, rfl⟩
  rw [requests_batch bounded hk, List.forall₂_map_left_iff, List.forall₂_map_right_iff, List.forall₂_same]
  exact fun index _ => p.resolve_requestAt index

end ReplayPlan

/-- What waits for its turn when a request is brought, if it can be resolved. -/
def BatchRequest.waiting? (b : BatchRequest) : Option Waiting := b.resolve.toOption

theorem BatchRequest.waiting?_of_resolve {b : BatchRequest} {w : Waiting} (h : b.resolve = .ok w) : b.waiting? = some w := by
  rw [waiting?, h]
  rfl

namespace ReplayPlan

variable {p : ReplayPlan} {k : Nat}

/-- The batches of a plan, in the order of their positions. -/
def waitings (p : ReplayPlan) : List Waiting := (List.range p.batches).filterMap fun k => (p.batch k).waiting?

/-- Batches without gaps that carry the commands of the plan at so many positions from one on. -/
structure Ranged (p : ReplayPlan) (first count : Nat) (bs : List Waiting) : Prop where
  contiguous : Contiguous (UInt64.ofNat first) bs
  commands : bs.flatMap (·.commands) = (List.range' first count).map fun i => p.commandAt (UInt64.ofNat i)
  after : following (UInt64.ofNat first) bs = UInt64.ofNat (first + count)

theorem Ranged.cons {first count width : Nat} {b : Waiting} {bs : List Waiting}
    (h : p.Ranged (first + width) count bs) (hlt : first + width < UInt64.size) (hstart : b.start = UInt64.ofNat first)
    (hstop : b.stop.toNat + 1 = first + width)
    (hcommands : b.commands = (List.range' first width).map fun i => p.commandAt (UInt64.ofNat i)) :
    p.Ranged first (width + count) (b :: bs) := by
  have hnext : b.stop + 1 = UInt64.ofNat (first + width) := by
    rw [← UInt64.toNat_inj, toNat_ofNat hlt, UInt64.toNat_add, UInt64.toNat_one, hstop, Nat.mod_eq_of_lt hlt]
  refine ⟨⟨hstart, by omega, hnext ▸ h.contiguous⟩, ?_, ?_⟩
  · rw [List.flatMap_cons, h.commands, hcommands, ← List.map_append, List.range'_append_1]
  · rw [following_cons, hnext, h.after, Nat.add_assoc]

theorem ranged_batches (bounded : p.Bounded) (m k : Nat) (hk : k + m ≤ p.batches) :
    p.Ranged (p.first.toNat + k * p.width) (m * p.width) ((List.range' k m).filterMap fun k => (p.batch k).waiting?) ∧
      ((List.range' k m).filterMap fun k => (p.batch k).waiting?).length = m := by
  induction m generalizing k with
  | zero =>
    rw [Nat.zero_mul]
    exact ⟨⟨trivial, rfl, rfl⟩, rfl⟩
  | succ m ih =>
    obtain ⟨b, hresolve, hstart, hstop, hcommands⟩ := resolve_batch bounded (k := k) (by omega)
    obtain ⟨hranged, hlength⟩ := ih (k + 1) (by omega)
    rw [Nat.succ_mul k, ← Nat.add_assoc] at hranged
    have hcons : ((List.range' k (m + 1)).filterMap fun k => (p.batch k).waiting?) =
        b :: (List.range' (k + 1) m).filterMap fun k => (p.batch k).waiting? := by
      rw [List.range'_succ]
      exact List.filterMap_cons_some (BatchRequest.waiting?_of_resolve hresolve)
    rw [hcons, Nat.succ_mul, Nat.add_comm (m * p.width)]
    have hle := p.chunk_le (k := k) (by omega)
    unfold Bounded at bounded
    refine ⟨hranged.cons (by omega) hstart ?_ ?_, by rw [List.length_cons, hlength]⟩
    · rw [hstop, toNat_stop bounded (by omega)]
    · rw [hcommands, indexes_batch bounded (by omega), List.map_map]
      rfl

/-- The batches of a plan, in the order of their positions, have no gaps and carry all its commands. -/
theorem ranged_waitings (bounded : p.Bounded) :
    p.Ranged p.first.toNat (p.batches * p.width) p.waitings ∧ p.waitings.length = p.batches := by
  have h := ranged_batches bounded p.batches 0 (by omega)
  rw [Nat.zero_mul, Nat.add_zero] at h
  rwa [waitings, List.range_eq_range']

theorem deliveries_waitings_perm (p : ReplayPlan) : (p.deliveries.filterMap BatchRequest.waiting?).Perm p.waitings := by
  rw [deliveries, List.filterMap_map]
  exact (p.order.positions_perm p.batches).filterMap _

/-- Each batch that is delivered can be resolved. -/
theorem resolve_of_mem_deliveries (bounded : p.Bounded) {b : BatchRequest} (hb : b ∈ p.deliveries) :
    ∃ w, b.resolve = .ok w := by
  obtain ⟨k, hk, rfl⟩ := List.mem_map.1 hb
  obtain ⟨w, hw, -⟩ := resolve_batch bounded (List.mem_range.1 ((p.order.positions_perm _).mem_iff.1 hk))
  exact ⟨w, hw⟩

/-! ### What the plan writes -/

/-- The entries of a plan, in the order of their log positions. -/
def entries (p : ReplayPlan) : List LogEntry := p.indexes.map p.entryAt

theorem searchIndexes_entries (p : ReplayPlan) : p.entries.map (·.searchIndex) = p.indexes.map some := by
  rw [entries, List.map_map]
  rfl

theorem entries_of_commands (p : ReplayPlan) :
    ((List.range' p.first.toNat (p.batches * p.width)).map fun i => p.commandAt (UInt64.ofNat i)).flatMap Command.entries =
      p.entries := by
  rw [List.flatMap_map, entries, indexes, List.map_map, List.map_eq_flatMap]
  rfl

/-- The point at a log position. -/
private def pointAt (p : ReplayPlan) (index : UInt64) : Point := ⟨(p.rowAt index).device, "value", index.toInt64⟩

/-- The plan writes a point for each of its log positions. -/
theorem pointCount_applyAll (bounded : p.Bounded) :
    (MemTable.empty.applyAll p.entries).pointCount = p.batches * p.width := by
  have hpoints : (p.entries.flatMap MemTable.writes).map (·.1) = p.indexes.map p.pointAt := by
    rw [entries, List.flatMap_map, List.map_flatMap, List.map_eq_flatMap]
    rfl
  have hnodup : (p.indexes.map p.pointAt).Nodup := by
    refine (nodup_indexes bounded).map fun i j h => ?_
    -- The cast to a signed word loses nothing.
    have htime : i.toInt64 = j.toInt64 := congrArg Point.time h
    rw [← UInt64.toUInt64_toInt64 i, htime, UInt64.toUInt64_toInt64]
  rw [MemTable.pointCount_applyAll, hpoints, hnodup.dedup, List.length_map, indexes, List.length_map, List.length_range']

/-- As many numbers in a row have as many remainders, up to the divisor. -/
private theorem length_dedup_mod (first count : Nat) {divisor : Nat} (hpos : 0 < divisor) :
    ((List.range' first count).map (· % divisor)).dedup.length = min divisor count := by
  have hset : ((List.range' first count).map (· % divisor)).toFinset =
      (Finset.Ico first (first + count)).image (· % divisor) := by
    ext r
    simp [List.mem_range'_1]
  rw [← List.card_toFinset, hset]
  by_cases h : count ≤ divisor
  · have hinj : Set.InjOn (· % divisor) (Finset.Ico first (first + count) : Set Nat) := by
      refine (Nat.mod_injOn_Ico first divisor).mono fun i hi => ?_
      simp only [Finset.coe_Ico, Set.mem_Ico] at hi ⊢
      omega
    rw [Finset.card_image_of_injOn hinj, Nat.card_Ico]
    omega
  · have hall : (Finset.Ico first (first + count)).image (· % divisor) = Finset.range divisor := by
      apply Finset.Subset.antisymm
      · intro r hr
        obtain ⟨i, -, rfl⟩ := Finset.mem_image.1 hr
        exact Finset.mem_range.2 (Nat.mod_lt i hpos)
      · rw [← Nat.image_Ico_mod first divisor]
        exact Finset.image_subset_image (Finset.Ico_subset_Ico_right (by omega))
    rw [hall, Finset.card_range]
    omega

private def deviceName (k : Nat) : String := s!"root.replay.d{k}"

private theorem deviceName_injective : Function.Injective deviceName := by
  intro k l h
  have h := congrArg String.toList h
  simp only [deviceName, toString, String.toList_append] at h
  exact Nat.repr_injective (String.toList_inj.1 (List.append_cancel_left h))

/-- The plan names as many devices as it says, or one for each of its log positions if these are fewer. -/
theorem length_deviceNames_applyAll (bounded : p.Bounded) :
    (MemTable.empty.applyAll p.entries).deviceNames.length = min (max p.devices 1) (p.batches * p.width) := by
  have hdevices : p.entries.map (·.payload.device) =
      ((List.range' p.first.toNat (p.batches * p.width)).map (· % max p.devices 1)).map deviceName := by
    rw [entries, indexes, List.map_map, List.map_map, List.map_map]
    refine List.map_congr_left fun i hi => ?_
    show deviceName ((UInt64.ofNat i).toNat % max p.devices 1) = deviceName (i % max p.devices 1)
    rw [toNat_ofNat (lt_of_mem_indexes bounded hi)]
  rw [MemTable.length_deviceNames_applyAll, hdevices, List.dedup_map_of_injective deviceName_injective, List.length_map,
    length_dedup_mod _ _ (by omega)]

/-- The length of an entry of the plan can be written down. -/
theorem fits_entryAt (p : ReplayPlan) (index : UInt64) : Log.Fits (p.entryAt index) := by
  have hdevice : (p.rowAt index).device.utf8ByteSize ≤ 33 := by
    have hmod : index.toNat % max p.devices 1 < UInt64.size :=
      Nat.lt_of_le_of_lt (Nat.mod_le _ _) index.toNat_lt_size
    have hdigits := Generation.utf8ByteSize_repr_le (UInt64.ofNat (index.toNat % max p.devices 1))
    rw [toNat_ofNat hmod] at hdigits
    have hname : (p.rowAt index).device = "root.replay.d" ++ (index.toNat % max p.devices 1).repr := rfl
    have hprefix : "root.replay.d".utf8ByteSize = 13 := by decide
    rw [hname, String.utf8ByteSize_append]
    omega
  have hwrite : Binary.Format.logEntry.write (p.entryAt index) =
      Binary.Format.word8.write 1 ++ Binary.Format.word64.write index ++ (Binary.Format.word32.write 0 ++
        (Binary.Format.text.write (p.rowAt index).device ++ (Binary.Format.int64.write index.toInt64 ++
          (Binary.Format.text.list.write ["value"] ++ Binary.Format.value.list.write [.int64 index.toInt64])))) := rfl
  have hbytes : (Bytes.ofText (p.rowAt index).device).length = (p.rowAt index).device.utf8ByteSize := rfl
  have hmeasurements : (Binary.Format.text.list.write ["value"]).length = 21 := rfl
  have hvalues : (Binary.Format.value.list.write [.int64 index.toInt64]).length = 20 := rfl
  have hpresence : (Binary.Format.word8.write 1).length = 1 := rfl
  have hindex : (Binary.Format.word64.write index).length = 8 := rfl
  have hkind : (Binary.Format.word32.write 0).length = 4 := rfl
  have htime : (Binary.Format.int64.write index.toInt64).length = 8 := rfl
  have hsize : UInt32.size = 4294967296 := rfl
  rw [Log.Fits, hwrite]
  simp only [List.length_append, Binary.Format.text_write]
  omega

end ReplayPlan

end SeriesRegion
